import Mathlib.Data.List.Basic

/-! Lists of pairs with distinct keys, as maps. -/

namespace AssocList

variable {K V : Type} [DecidableEq K] {l : List (K × V)} {key : K} {v : V}

theorem mem_of_lookup (h : l.lookup key = some v) : (key, v) ∈ l := by
  obtain ⟨before, after, rfl, -⟩ := List.lookup_eq_some_iff.mp h
  exact List.mem_append_right _ List.mem_cons_self

theorem lookup_of_mem (hkeys : (l.map Prod.fst).Nodup) (h : (key, v) ∈ l) : l.lookup key = some v := by
  induction l with
  | nil => exact absurd h List.not_mem_nil
  | cons e l ih =>
      obtain ⟨hfirst, hrest⟩ := List.nodup_cons.mp hkeys
      rcases List.mem_cons.mp h with rfl | hmem
      · exact List.lookup_cons_self
      · have hne : key ≠ e.1 := fun heq => hfirst (heq ▸ List.mem_map_of_mem (f := Prod.fst) hmem)
        rw [List.lookup_cons, beq_false_of_ne hne]
        exact ih hrest hmem

end AssocList
