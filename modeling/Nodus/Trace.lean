/-! Runs of a step relation, as sequences of states. -/

namespace Trace

variable {α β : Type} {step : α → α → Prop} {tr : Nat → α} {n : Nat}

/-- The first `n` steps of a sequence are steps of the relation. -/
def Run (step : α → α → Prop) (tr : Nat → α) (n : Nat) : Prop := ∀ i, i < n → step (tr i) (tr (i + 1))

theorem Run.keeps {P : Nat → α → Prop} (h : Run step tr n) {i : Nat} (hi : P i (tr i))
    (hs : ∀ k, i ≤ k → k < n → P k (tr k) → step (tr k) (tr (k + 1)) → P (k + 1) (tr (k + 1))) :
    ∀ k, i ≤ k → k ≤ n → P k (tr k) := by
  intro k hik
  obtain ⟨m, rfl⟩ := Nat.exists_eq_add_of_le hik
  induction m with
  | zero => exact fun _ => hi
  | succ m ih =>
      intro hk
      have hm := ih (by omega) (by omega)
      exact hs (i + m) (by omega) (by omega) hm (h (i + m) (by omega))

/-- The states a function runs through. -/
def iterate (f : α → α) (a : α) : Nat → α
  | 0 => a
  | i + 1 => f (iterate f a i)

theorem run_iterate {f : α → α} {ok : α → Bool} (hf : ∀ a, ok a = true → step a (f a)) {a : α}
    (h : ∀ i, i < n → ok (iterate f a i) = true) : Run step (iterate f a) n :=
  fun i hi => hf _ (h i hi)

end Trace
