import Mathlib.Logic.Basic

/-! Programs that ask questions of a state and call one another by name. A language says what the questions are answered and what
each name stands for; a run of a program is a finite derivation, and two languages are compared along a run. -/

namespace Programs

/-- A procedure with a result in `α`. The questions `Q β` have answers in `β`; the names `N β` stand for programs with results in
`β`. -/
inductive Procedure (Q N : Type → Type 1) (α : Type) : Type 1 where
  | done (a : α)
  | fail
  | ask {β : Type} (q : Q β) (next : β → Procedure Q N α)
  | call {β : Type} (n : N β) (next : β → Procedure Q N α)

variable {Q N : Type → Type 1} {σ α β γ : Type}

namespace Procedure

def bind : Procedure Q N α → (α → Procedure Q N β) → Procedure Q N β
  | .done a, f => f a
  | .fail, _ => .fail
  | .ask q next, f => .ask q fun b => (next b).bind f
  | .call n next, f => .call n fun b => (next b).bind f

instance : Monad (Procedure Q N) where
  pure := .done
  bind := Procedure.bind

end Procedure

/-- What the questions are answered, and what a name stands for in a state. -/
structure Language (Q N : Type → Type 1) (σ : Type) where
  answer : {β : Type} → Q β → σ → Option (β × σ)
  body : {β : Type} → N β → σ → Procedure Q N β

/-- The runs of a program that come to a result. -/
inductive Runs (L : Language Q N σ) : {α : Type} → Procedure Q N α → σ → α → σ → Prop where
  | done {α : Type} {a : α} {s : σ} : Runs L (.done a) s a s
  | ask {α β : Type} {q : Q β} {next : β → Procedure Q N α} {s s₁ s₂ : σ} {b : β} {a : α}
      (hanswer : L.answer q s = some (b, s₁)) (hnext : Runs L (next b) s₁ a s₂) : Runs L (.ask q next) s a s₂
  | call {α β : Type} {n : N β} {next : β → Procedure Q N α} {s s₁ s₂ : σ} {b : β} {a : α}
      (hbody : Runs L (L.body n s) s b s₁) (hnext : Runs L (next b) s₁ a s₂) : Runs L (.call n next) s a s₂

/-- The run of a program comes to a question or a name, in a state, that is as given. -/
inductive Visits (L : Language Q N σ) (A : (β : Type) → Q β → σ → Prop) (C : (β : Type) → N β → σ → Prop) :
    {α : Type} → Procedure Q N α → σ → Prop where
  | asked {α β : Type} {q : Q β} {next : β → Procedure Q N α} {s : σ} (h : A β q s) : Visits L A C (.ask q next) s
  | called {α β : Type} {n : N β} {next : β → Procedure Q N α} {s : σ} (h : C β n s) : Visits L A C (.call n next) s
  | ask {α β : Type} {q : Q β} {next : β → Procedure Q N α} {s s₁ : σ} {b : β}
      (hanswer : L.answer q s = some (b, s₁)) (hnext : Visits L A C (next b) s₁) : Visits L A C (.ask q next) s
  | inside {α β : Type} {n : N β} {next : β → Procedure Q N α} {s : σ}
      (hbody : Visits L A C (L.body n s) s) : Visits L A C (.call n next) s
  | after {α β : Type} {n : N β} {next : β → Procedure Q N α} {s s₁ : σ} {b : β}
      (hbody : Runs L (L.body n s) s b s₁) (hnext : Visits L A C (next b) s₁) : Visits L A C (.call n next) s

section Rules

variable {L : Language Q N σ} {s s₁ s₂ : σ} {a : α} {b : β}

@[simp] theorem runs_pure : Runs L (pure a : Procedure Q N α) s b' s₁ ↔ b' = a ∧ s₁ = s := by
  constructor
  · intro h
    cases h
    exact ⟨rfl, rfl⟩
  · rintro ⟨rfl, rfl⟩
    exact .done

@[simp] theorem runs_fail : ¬ Runs L (.fail : Procedure Q N α) s a s₁ := by
  intro h
  cases h

@[simp] theorem runs_ask {q : Q β} : Runs L (.ask q .done : Procedure Q N β) s b s₁ ↔ L.answer q s = some (b, s₁) := by
  constructor
  · intro h
    cases h with
    | ask hanswer hnext =>
        cases hnext
        exact hanswer
  · exact fun h => .ask h .done

@[simp] theorem runs_call {n : N β} : Runs L (.call n .done : Procedure Q N β) s b s₁ ↔ Runs L (L.body n s) s b s₁ := by
  constructor
  · intro h
    cases h with
    | call hbody hnext =>
        cases hnext
        exact hbody
  · exact fun h => .call h .done

theorem runs_bind {p : Procedure Q N α} {f : α → Procedure Q N β} :
    Runs L (p >>= f) s b s₂ ↔ ∃ a s₁, Runs L p s a s₁ ∧ Runs L (f a) s₁ b s₂ := by
  show Runs L (p.bind f) s b s₂ ↔ _
  induction p generalizing s with
  | done a =>
      constructor
      · exact fun h => ⟨a, s, .done, h⟩
      · rintro ⟨a', s₁, hdone, h⟩
        cases hdone
        exact h
  | fail =>
      constructor
      · intro h
        cases h
      · rintro ⟨_, _, hfail, _⟩
        cases hfail
  | ask q next ih =>
      constructor
      · intro h
        cases h with
        | ask hanswer hnext =>
            obtain ⟨a, s₁, hfirst, hrest⟩ := (ih _).mp hnext
            exact ⟨a, s₁, .ask hanswer hfirst, hrest⟩
      · rintro ⟨a, s₁, hask, hrest⟩
        cases hask with
        | ask hanswer hnext => exact .ask hanswer ((ih _).mpr ⟨a, s₁, hnext, hrest⟩)
  | call n next ih =>
      constructor
      · intro h
        cases h with
        | call hbody hnext =>
            obtain ⟨a, s₁, hfirst, hrest⟩ := (ih _).mp hnext
            exact ⟨a, s₁, .call hbody hfirst, hrest⟩
      · rintro ⟨a, s₁, hcall, hrest⟩
        cases hcall with
        | call hbody hnext => exact .call hbody ((ih _).mpr ⟨a, s₁, hnext, hrest⟩)

theorem Runs.unique {p : Procedure Q N α} (h : Runs L p s a s₁) : ∀ {a' : α} {s' : σ}, Runs L p s a' s' →
    a' = a ∧ s' = s₁ := by
  induction h with
  | done =>
      intro a' s' h'
      cases h'
      exact ⟨rfl, rfl⟩
  | ask hanswer _ ih =>
      intro a' s' h'
      cases h' with
      | ask hanswer' hnext' =>
          obtain ⟨rfl, rfl⟩ := Prod.mk.inj (Option.some.inj (hanswer.symm.trans hanswer'))
          exact ih hnext'
  | call _ _ ihbody ihnext =>
      intro a' s' h'
      cases h' with
      | call hbody' hnext' =>
          obtain ⟨rfl, rfl⟩ := ihbody hbody'
          exact ihnext hnext'

end Rules

/-! ### Two languages side by side -/

section Simulation

variable {L L' : Language Q N σ} {R : σ → σ → Prop} {A : (β : Type) → Q β → σ → Prop} {C : (β : Type) → N β → σ → Prop}

/-- From related states a question is answered alike, unless it is as given. -/
def AnswersAlike (L L' : Language Q N σ) (R : σ → σ → Prop) (A : (β : Type) → Q β → σ → Prop) : Prop :=
  ∀ {β : Type} (q : Q β) (s s' : σ), R s s' → ¬ A β q s → ∀ b s₁, L.answer q s = some (b, s₁) →
    ∃ s₁', L'.answer q s' = some (b, s₁') ∧ R s₁ s₁'

/-- From related states a name stands for one program, unless it is as given. -/
def NamesAlike (L L' : Language Q N σ) (R : σ → σ → Prop) (C : (β : Type) → N β → σ → Prop) : Prop :=
  ∀ {β : Type} (n : N β) (s s' : σ), R s s' → ¬ C β n s → L.body n s = L'.body n s'

theorem not_visits (p : Procedure Q N α) (s : σ) : ¬ Visits L (fun _ _ _ => False) (fun _ _ _ => False) p s := by
  intro h
  induction h with
  | asked h => exact h
  | called h => exact h
  | ask _ _ ih => exact ih
  | inside _ ih => exact ih
  | after _ _ ih => exact ih

theorem Runs.follow (hanswers : AnswersAlike L L' R A) (hnames : NamesAlike L L' R C) {p : Procedure Q N α} {s s' s₁ : σ} {a : α}
    (h : Runs L p s a s₁) (hrel : R s s') (hclear : ¬ Visits L A C p s) : ∃ s₁', Runs L' p s' a s₁' ∧ R s₁ s₁' := by
  induction h generalizing s' with
  | done => exact ⟨s', .done, hrel⟩
  | ask hanswer _ ih =>
      obtain ⟨t, hanswer', hrel'⟩ := hanswers _ _ _ hrel (fun hA => hclear (.asked hA)) _ _ hanswer
      obtain ⟨t', hrun, hrel''⟩ := ih hrel' (fun hvisit => hclear (.ask hanswer hvisit))
      exact ⟨t', .ask hanswer' hrun, hrel''⟩
  | call hbody _ ihbody ihnext =>
      have hsame := hnames _ _ _ hrel (fun hC => hclear (.called hC))
      obtain ⟨t, hbody', hrel'⟩ := ihbody hrel (fun hvisit => hclear (.inside hvisit))
      obtain ⟨t', hrun, hrel''⟩ := ihnext hrel' (fun hvisit => hclear (.after hbody hvisit))
      exact ⟨t', .call (hsame ▸ hbody') hrun, hrel''⟩

/-- Where a name that is as given stands for a program without a result, a run with a result comes to none of them, and the other
language follows it. -/
theorem Runs.clear (hanswers : ∀ {β : Type} (q : Q β) (s : σ), L.answer q s = L'.answer q s)
    (hnames : ∀ {β : Type} (n : N β) (s : σ), ¬ C β n s → L.body n s = L'.body n s)
    (hdoomed : ∀ {β : Type} (n : N β) (s : σ), C β n s → ∀ b s₁, ¬ Runs L (L.body n s) s b s₁)
    {p : Procedure Q N α} {s s₁ : σ} {a : α} (h : Runs L p s a s₁) :
    Runs L' p s a s₁ ∧ ¬ Visits L' (fun _ _ _ => False) C p s := by
  induction h with
  | done => exact ⟨.done, fun hvisit => by cases hvisit⟩
  | ask hanswer _ ih =>
      have hanswer' := (hanswers _ _).symm.trans hanswer
      refine ⟨.ask hanswer' ih.1, fun hvisit => ?_⟩
      cases hvisit with
      | asked hA => exact hA
      | ask hagain hnext =>
          obtain ⟨rfl, rfl⟩ := Prod.mk.inj (Option.some.inj (hanswer'.symm.trans hagain))
          exact ih.2 hnext
  | call hbody _ ihbody ihnext =>
      have hfree : ¬ C _ _ _ := fun hC => hdoomed _ _ hC _ _ hbody
      have hsame := hnames _ _ hfree
      have hbody' := hsame ▸ ihbody.1
      refine ⟨.call hbody' ihnext.1, fun hvisit => ?_⟩
      cases hvisit with
      | called hC => exact hfree hC
      | inside hinside => exact ihbody.2 (hsame ▸ hinside)
      | after hagain hnext =>
          obtain ⟨rfl, rfl⟩ := hbody'.unique hagain
          exact ihnext.2 hnext

end Simulation

/-! ### Running a program -/

/-- `stuck`: the fuel has run out. -/
inductive Outcome (σ α : Type) where
  | ok (a : α) (s : σ)
  | fail
  | stuck

/-- Run a program, the names as given. -/
def Procedure.run (answer : {β : Type} → Q β → σ → Option (β × σ)) (enter : (β : Type) → N β → σ → Outcome σ β) :
    Procedure Q N α → σ → Outcome σ α
  | .done a, s => .ok a s
  | .fail, _ => .fail
  | .ask q next, s => match answer q s with
      | none => .fail
      | some (b, s₁) => (next b).run answer enter s₁
  | .call n next, s => match enter _ n s with
      | .ok b s₁ => (next b).run answer enter s₁
      | .fail => .fail
      | .stuck => .stuck

/-- Run what a name stands for, calls nested as deep as the fuel allows. -/
def Language.enter (L : Language Q N σ) : Nat → (β : Type) → N β → σ → Outcome σ β
  | 0, _, _, _ => .stuck
  | fuel + 1, _, n, s => (L.body n s).run L.answer (L.enter fuel) s

variable {L : Language Q N σ}

theorem runs_of_run {enter : (β : Type) → N β → σ → Outcome σ β}
    (henter : ∀ β (n : N β) s b s₁, enter β n s = .ok b s₁ → Runs L (L.body n s) s b s₁) {p : Procedure Q N α} {s s₁ : σ} {a : α}
    (h : p.run L.answer enter s = .ok a s₁) : Runs L p s a s₁ := by
  induction p generalizing s with
  | done a =>
      obtain ⟨rfl, rfl⟩ := Outcome.ok.inj h
      exact .done
  | fail => cases h
  | ask q next ih =>
      simp only [Procedure.run] at h
      split at h
      · cases h
      · next hanswer => exact .ask hanswer (ih _ h)
  | call n next ih =>
      simp only [Procedure.run] at h
      split at h
      · next hok => exact .call (henter _ _ _ _ _ hok) (ih _ h)
      · cases h
      · cases h

theorem enter_sound : ∀ (fuel : Nat) (β : Type) (n : N β) (s : σ) (b : β) (s₁ : σ), L.enter fuel β n s = .ok b s₁ →
    Runs L (L.body n s) s b s₁
  | 0, _, _, _, _, _, h => by cases h
  | fuel + 1, _, _, _, _, _, h => runs_of_run (enter_sound fuel) h

theorem run_mono {enter enter' : (β : Type) → N β → σ → Outcome σ β}
    (henter : ∀ β (n : N β) s, enter β n s ≠ .stuck → enter' β n s = enter β n s) {p : Procedure Q N α} {s : σ}
    (h : p.run L.answer enter s ≠ .stuck) : p.run L.answer enter' s = p.run L.answer enter s := by
  induction p generalizing s with
  | done a => rfl
  | fail => rfl
  | ask q next ih =>
      simp only [Procedure.run] at h ⊢
      split
      · rfl
      · next hanswer =>
          rw [hanswer] at h
          exact ih _ h
  | call n next ih =>
      simp only [Procedure.run] at h ⊢
      have hsame : enter' _ n s = enter _ n s := by
        apply henter
        intro hstuck
        rw [hstuck] at h
        exact h rfl
      rw [hsame]
      split
      · next hok =>
          rw [hok] at h
          exact ih _ h
      · rfl
      · rfl

theorem enter_succ : ∀ (fuel : Nat) (β : Type) (n : N β) (s : σ), L.enter fuel β n s ≠ .stuck →
    L.enter (fuel + 1) β n s = L.enter fuel β n s
  | 0, _, _, _, h => absurd rfl h
  | fuel + 1, _, _, _, h => run_mono (enter_succ fuel) h

theorem enter_mono {fuel fuel' : Nat} (hle : fuel ≤ fuel') (β : Type) (n : N β) (s : σ) (h : L.enter fuel β n s ≠ .stuck) :
    L.enter fuel' β n s = L.enter fuel β n s := by
  induction hle with
  | refl => rfl
  | step _ ih => exact (enter_succ _ _ _ _ (ih ▸ h)).trans ih

theorem Runs.enough {p : Procedure Q N α} {s s₁ : σ} {a : α} (h : Runs L p s a s₁) :
    ∃ fuel, p.run L.answer (L.enter fuel) s = .ok a s₁ := by
  induction h with
  | done => exact ⟨0, rfl⟩
  | ask hanswer _ ih =>
      obtain ⟨fuel, hfuel⟩ := ih
      refine ⟨fuel, ?_⟩
      simp only [Procedure.run, hanswer]
      exact hfuel
  | call _ _ ihbody ihnext =>
      obtain ⟨fuel, hfuel⟩ := ihbody
      obtain ⟨fuel', hfuel'⟩ := ihnext
      refine ⟨max (fuel + 1) fuel', ?_⟩
      have hok : L.enter (fuel + 1) _ _ _ = .ok _ _ := hfuel
      have hcall := enter_mono (Nat.le_max_left (fuel + 1) fuel') _ _ _ (by rw [hok]; exact fun heq => by cases heq)
      simp only [Procedure.run, hcall, hok]
      rw [run_mono (enter_mono (Nat.le_max_right (fuel + 1) fuel')) (by rw [hfuel']; exact fun heq => by cases heq)]
      exact hfuel'

theorem not_runs_of_fail {p : Procedure Q N α} {s : σ} (fuel : Nat) (h : p.run L.answer (L.enter fuel) s = .fail) (a : α) (s₁ : σ) :
    ¬ Runs L p s a s₁ := by
  intro hrun
  obtain ⟨fuel', hfuel'⟩ := hrun.enough
  have hleft := run_mono (p := p) (s := s) (enter_mono (Nat.le_max_left fuel fuel')) (by rw [h]; exact fun heq => by cases heq)
  have hright := run_mono (p := p) (s := s) (enter_mono (Nat.le_max_right fuel fuel')) (by rw [hfuel']; exact fun heq => by cases heq)
  have heq : Outcome.fail = Outcome.ok a s₁ := by
    calc Outcome.fail = p.run L.answer (L.enter fuel) s := h.symm
      _ = p.run L.answer (L.enter fuel') s := hleft.symm.trans hright
      _ = .ok a s₁ := hfuel'
  cases heq

end Programs
