import Mathlib.Data.List.Forall2

/-! Words with holes: which words fit, and when a word fits two of them. -/

namespace Masks

variable {A : Type} {p q : List (Option A)} {w : List A}

/-- A word with holes. -/
abbrev Mask (A : Type) := List (Option A)

/-- The word has the letters of the mask. -/
def Fits (p : Mask A) (w : List A) : Prop := List.Forall₂ (fun hole a => hole = none ∨ hole = some a) p w

/-- The masks are of one length, and where both have a letter it is the same. -/
def Agree (p q : Mask A) : Prop := List.Forall₂ (fun hole hole' => hole = none ∨ hole' = none ∨ hole = hole') p q

theorem fits_letters (w : List A) : Fits (w.map some) w := by
  induction w with
  | nil => exact .nil
  | cons a w ih => exact .cons (.inr rfl) ih

theorem eq_of_fits_letters {v : List A} (h : Fits (v.map some) w) : w = v := by
  induction v generalizing w with
  | nil =>
      cases h
      rfl
  | cons a v ih =>
      cases h with
      | cons ha hrest => rw [ih hrest, Option.some.inj (ha.resolve_left nofun)]

theorem fits_holes (w : List A) : Fits (List.replicate w.length none) w := by
  induction w with
  | nil => exact .nil
  | cons a w ih => exact .cons (.inl rfl) ih

theorem Fits.append {v : List A} (h : Fits p w) (h' : Fits q v) : Fits (p ++ q) (w ++ v) := List.rel_append h h'

theorem Fits.length (h : Fits p w) : w.length = p.length := h.length_eq.symm

theorem Fits.split (h : Fits (p ++ q) w) : ∃ u v, w = u ++ v ∧ Fits p u ∧ Fits q v := by
  induction p generalizing w with
  | nil => exact ⟨[], w, rfl, .nil, h⟩
  | cons hole p ih =>
      cases h with
      | @cons _ a _ w ha hrest =>
          obtain ⟨u, v, rfl, hu, hv⟩ := ih hrest
          exact ⟨a :: u, v, rfl, .cons ha hu, hv⟩

theorem agree_iff [Inhabited A] : Agree p q ↔ ∃ w, Fits p w ∧ Fits q w := by
  constructor
  · intro h
    induction h with
    | nil => exact ⟨[], .nil, .nil⟩
    | @cons hole hole' p q hhole _ ih =>
        obtain ⟨w, hp, hq⟩ := ih
        cases hole with
        | some a =>
            refine ⟨a :: w, .cons (.inr rfl) hp, .cons ?_ hq⟩
            rcases hhole with hnone | rfl | heq
            · cases hnone
            · exact .inl rfl
            · exact .inr heq.symm
        | none =>
            refine ⟨hole'.getD default :: w, .cons (.inl rfl) hp, .cons ?_ hq⟩
            cases hole' with
            | none => exact .inl rfl
            | some a => exact .inr rfl
  · rintro ⟨w, hp, hq⟩
    induction hp generalizing q with
    | nil =>
        cases hq
        exact .nil
    | cons ha _ ih =>
        cases hq with
        | cons hb hrest =>
            refine .cons ?_ (ih hrest)
            rcases ha with rfl | rfl
            · exact .inl rfl
            · rcases hb with rfl | rfl
              · exact .inr (.inl rfl)
              · exact .inr (.inr rfl)

end Masks
