import Mathlib.Data.List.Basic
import Mathlib.Logic.Function.Iterate

/-! Passes over a list of items, each of which marks what it can. If a mark makes a bounded size grow, nothing is left to mark
after as many passes as the bound says. -/

namespace Passes

variable {α σ : Type} {mark : σ → α → σ} {size : σ → Nat} {items : List α}

/-- A mark that changes anything makes the size grow. -/
def Grows (mark : σ → α → σ) (size : σ → Nat) (items : List α) : Prop :=
  ∀ s, ∀ a ∈ items, mark s a = s ∨ size s < size (mark s a)

theorem pass_fixed {s : σ} (h : ∀ a ∈ items, mark s a = s) : items.foldl mark s = s := by
  induction items with
  | nil => rfl
  | cons a items ih =>
      rw [List.foldl_cons, h a List.mem_cons_self]
      exact ih fun b hb => h b (List.mem_cons_of_mem _ hb)

theorem pass_fixed_or_grows (h : Grows mark size items) (s : σ) :
    (∀ a ∈ items, mark s a = s) ∨ size s < size (items.foldl mark s) := by
  induction items generalizing s with
  | nil => exact .inl fun a ha => by cases ha
  | cons a items ih =>
      have hrest : Grows mark size items := fun s b hb => h s b (List.mem_cons_of_mem _ hb)
      rw [List.foldl_cons]
      rcases h s a List.mem_cons_self with hfixed | hgrown
      · rw [hfixed]
        refine (ih hrest s).imp (fun hall b hb => ?_) id
        rcases List.mem_cons.mp hb with rfl | hb
        · exact hfixed
        · exact hall b hb
      · right
        rcases ih hrest (mark s a) with hall | hmore
        · rw [pass_fixed hall]
          exact hgrown
        · exact Nat.lt_trans hgrown hmore

theorem passes_keep {P : σ → Prop} (hmark : ∀ s, ∀ a ∈ items, P s → P (mark s a)) {s : σ} (hs : P s) (n : Nat) :
    P ((fun s => items.foldl mark s)^[n] s) := by
  have hpass : ∀ s, P s → P (items.foldl mark s) := by
    intro s hs
    induction items generalizing s with
    | nil => exact hs
    | cons a items ih =>
        exact ih (fun s b hb => hmark s b (List.mem_cons_of_mem _ hb)) _ (hmark s a List.mem_cons_self hs)
  induction n with
  | zero => exact hs
  | succ n ih =>
      rw [Function.iterate_succ_apply']
      exact hpass _ ih

theorem passes_fixed (h : Grows mark size items) {bound : Nat} (hbound : ∀ s, size s ≤ bound) (s : σ) :
    ∀ a ∈ items, mark ((fun s => items.foldl mark s)^[bound] s) a = (fun s => items.foldl mark s)^[bound] s := by
  by_contra hnot
  -- As long as there is something to mark, every pass so far has made the size grow.
  have hgrown : ∀ n, ¬ (∀ a ∈ items, mark ((fun s => items.foldl mark s)^[n] s) a = (fun s => items.foldl mark s)^[n] s) →
      n < size ((fun s => items.foldl mark s)^[n + 1] s) := by
    intro n hn
    induction n with
    | zero =>
        have hfirst := (pass_fixed_or_grows h s).resolve_left hn
        exact Nat.zero_lt_of_lt hfirst
    | succ n ih =>
        have hbefore : ¬ (∀ a ∈ items, mark ((fun s => items.foldl mark s)^[n] s) a =
            (fun s => items.foldl mark s)^[n] s) := by
          intro hall
          apply hn
          rw [Function.iterate_succ_apply', pass_fixed hall]
          exact hall
        have hlast := (pass_fixed_or_grows h _).resolve_left hn
        have hcount := ih hbefore
        rw [Function.iterate_succ_apply']
        omega
  exact Nat.not_lt_of_le (hbound _) (hgrown bound hnot)

end Passes
