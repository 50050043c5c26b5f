/-! Walks through a finite directed graph given by its successor lists, and the room left to a
walk that does not visit a vertex twice. -/

namespace Walks

variable {α : Type} {next : α → List α} {a b c p : α} {s : List α}

/-- A walk from `a` to `b` with no vertex in `s`. -/
inductive Avoiding (next : α → List α) (s : List α) : α → α → Prop where
  | refl {a : α} (ha : a ∉ s) : Avoiding next s a a
  | step {a b c : α} (ha : a ∉ s) (hb : b ∈ next a) (hc : Avoiding next s b c) : Avoiding next s a c

/-- Some walk leads from `a` to `b`. -/
abbrev Reaches (next : α → List α) : α → α → Prop := Avoiding next []

theorem Avoiding.start_notMem (h : Avoiding next s a b) : a ∉ s := by
  cases h with
  | refl ha => exact ha
  | step ha _ _ => exact ha

theorem Avoiding.mono {s' : List α} (hs : ∀ x ∈ s', x ∈ s) (h : Avoiding next s a b) :
    Avoiding next s' a b := by
  induction h with
  | refl ha => exact .refl fun hx => ha (hs _ hx)
  | step ha hb _ ih => exact .step (fun hx => ha (hs _ hx)) hb ih

theorem Avoiding.trans (h : Avoiding next s a b) (h' : Avoiding next s b c) : Avoiding next s a c := by
  induction h with
  | refl _ => exact h'
  | step ha hb _ ih => exact .step ha hb (ih h')

theorem Reaches.refl (a : α) : Reaches next a a := Avoiding.refl (by simp)

theorem Reaches.edge (hb : b ∈ next a) : Reaches next a b := Avoiding.step (by simp) hb (Reaches.refl b)

theorem Avoiding.cut [DecidableEq α] (p : α) (h : Avoiding next s a b) :
    Avoiding next (p :: s) a b ∨ b = p ∨ ∃ d, d ∈ next p ∧ Avoiding next (p :: s) d b := by
  induction h with
  | @refl a ha =>
      by_cases hp : a = p
      · exact .inr (.inl hp)
      · exact .inl (.refl (by simp [hp, ha]))
  | @step a d b ha hd _ ih =>
      rcases ih with ih | ih
      · by_cases hp : a = p
        · subst hp
          exact .inr (.inr ⟨d, hd, ih⟩)
        · exact .inl (.step (by simp [hp, ha]) hd ih)
      · exact .inr ih

theorem Avoiding.cut_start [DecidableEq α] (h : Avoiding next s a b) :
    b = a ∨ ∃ d, d ∈ next a ∧ Avoiding next (a :: s) d b := by
  rcases h.cut a with h | h
  · exact absurd (List.mem_cons_self) h.start_notMem
  · exact h

theorem Reaches.closed {P : α → Prop} (hP : ∀ x y, P x → y ∈ next x → P y) (h : Reaches next a b)
    (ha : P a) : P b := by
  induction h with
  | refl _ => exact ha
  | step _ hb _ ih => exact ih (hP _ _ ha hb)

section Room

variable [DecidableEq α]

/-- How many of the vertices `l` are still outside `s`. -/
def room (l s : List α) : Nat := (l.filter fun x => x ∉ s).length

theorem room_mono (l : List α) {s s' : List α} (h : ∀ x ∈ s, x ∈ s') : room l s' ≤ room l s := by
  unfold room
  rw [← List.countP_eq_length_filter, ← List.countP_eq_length_filter]
  apply List.countP_mono_left
  intro x _ hx
  simp only [decide_eq_true_eq] at hx ⊢
  exact fun hs => hx (h x hs)

theorem room_cons_lt {l : List α} (hp : p ∈ l) (hs : p ∉ s) : room l (p :: s) < room l s := by
  induction l with
  | nil => exact absurd hp (by simp)
  | cons x l ih =>
      by_cases hx : x = p
      · subst hx
        have hle := room_mono l (fun y (hy : y ∈ s) => List.mem_cons_of_mem x hy)
        have hnew : room (x :: l) (x :: s) = room l (x :: s) := by simp [room]
        have hold : room (x :: l) s = room l s + 1 := by simp [room, hs]
        omega
      · have hlt := ih ((List.mem_cons.mp hp).resolve_left (Ne.symm hx))
        by_cases hxs : x ∈ s
        · have hnew : room (x :: l) (p :: s) = room l (p :: s) := by simp [room, hx, hxs]
          have hold : room (x :: l) s = room l s := by simp [room, hxs]
          omega
        · have hnew : room (x :: l) (p :: s) = room l (p :: s) + 1 := by simp [room, hx, hxs]
          have hold : room (x :: l) s = room l s + 1 := by simp [room, hxs]
          omega

theorem room_le_length (l s : List α) : room l s ≤ l.length := List.length_filter_le _ _

end Room

end Walks
