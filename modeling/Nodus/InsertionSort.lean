import Mathlib.Order.Lattice
import Mathlib.Data.List.GetD
import Mathlib.Data.List.Induction
import Mathlib.Data.List.Nodup

/-! Insertion sort in place, and the items of a list with each key once. -/

namespace Nodus.InsertionSort

section Sorting

variable {A : Type} [LinearOrder A] [Inhabited A]

/-- The inner loop: what is greater than the value moves up by one place, and the value is put behind the rest. -/
def shift (value : A) : Nat → List A → List A
  | 0, l => l.set 0 value
  | b + 1, l => if value < l.getD b default then shift value b (l.set (b + 1) (l.getD b default)) else l.set (b + 1) value

/-- The outer loop, from a place on, for a number of turns. -/
def sortFrom (a : Nat) : Nat → List A → List A
  | 0, l => l
  | turns + 1, l => sortFrom (a + 1) turns (shift (l.getD a default) a l)

def sort (l : List A) : List A := sortFrom 1 (l.length - 1) l

omit [LinearOrder A] in
theorem getD_middle (xs : List A) (y : A) (rest : List A) : (xs ++ y :: rest).getD xs.length default = y := by
  rw [List.getD_append_right _ _ _ _ (Nat.le_refl _), Nat.sub_self]
  rfl

omit [LinearOrder A] [Inhabited A] in
theorem set_middle (xs : List A) (y z : A) (rest : List A) : (xs ++ y :: rest).set xs.length z = xs ++ z :: rest := by
  rw [List.set_append_right _ _ (Nat.le_refl _), Nat.sub_self]
  rfl

/-- The value is put into the part before a place; the item at this place is lost, and those after it stay. -/
theorem shift_spec (value y : A) (xs rest : List A) :
    ∃ ys, shift value xs.length (xs ++ y :: rest) = ys ++ rest ∧ ys.Perm (xs ++ [value]) ∧ (xs.Pairwise (· ≤ ·) → ys.Pairwise (· ≤ ·)) := by
  induction xs using List.reverseRecOn generalizing y rest with
  | nil => exact ⟨[value], rfl, .refl _, fun _ => List.pairwise_singleton _ _⟩
  | append_singleton xs x ih =>
      have hlist : (xs ++ [x]) ++ y :: rest = xs ++ x :: y :: rest := List.append_assoc _ _ _
      have hnext (z : A) : (xs ++ x :: y :: rest).set (xs.length + 1) z = xs ++ x :: z :: rest := by
        have hset := set_middle (xs ++ [x]) y z rest
        rwa [List.length_append, List.append_assoc, List.append_assoc] at hset
      rw [hlist, List.length_append, List.length_singleton, shift, getD_middle]
      split
      · rename_i hlt
        rw [hnext x]
        obtain ⟨ys, hys, hperm, hsorted⟩ := ih x (x :: rest)
        refine ⟨ys ++ [x], by rw [hys, List.append_assoc, List.singleton_append], ?_, fun h => ?_⟩
        · calc ys ++ [x]
            _ |>.Perm ((xs ++ [value]) ++ [x]) := hperm.append_right [x]
            _ |>.Perm ((xs ++ [x]) ++ [value]) := by
              rw [List.append_assoc, List.append_assoc]
              exact (List.Perm.swap x value []).append_left xs
        · obtain ⟨hxs, -, hx⟩ := List.pairwise_append.mp h
          refine List.pairwise_append.mpr ⟨hsorted hxs, List.pairwise_singleton _ _, fun z hz w hw => ?_⟩
          obtain rfl := List.mem_singleton.mp hw
          rcases List.mem_append.mp (hperm.mem_iff.mp hz) with hz | hz
          · exact hx z hz w (List.mem_singleton_self w)
          · rw [List.mem_singleton.mp hz]
            exact hlt.le
      · rename_i hle
        rw [hnext value]
        refine ⟨(xs ++ [x]) ++ [value], by simp only [List.append_assoc, List.cons_append, List.nil_append], .refl _, fun h => ?_⟩
        refine List.pairwise_append.mpr ⟨h, List.pairwise_singleton _ _, fun z hz w hw => ?_⟩
        obtain rfl := List.mem_singleton.mp hw
        have hzx : z ≤ x := by
          rcases List.mem_append.mp hz with hz | hz
          · exact (List.pairwise_append.mp h).2.2 z hz x (List.mem_singleton_self x)
          · exact (List.mem_singleton.mp hz).le
        exact hzx.trans (not_lt.mp hle)

theorem sortFrom_spec (rest xs : List A) (hxs : xs.Pairwise (· ≤ ·)) :
    (sortFrom xs.length rest.length (xs ++ rest)).Perm (xs ++ rest) ∧ (sortFrom xs.length rest.length (xs ++ rest)).Pairwise (· ≤ ·) := by
  induction rest generalizing xs with
  | nil =>
      rw [List.append_nil]
      exact ⟨.refl _, hxs⟩
  | cons x rest ih =>
      obtain ⟨ys, hys, hperm, hsorted⟩ := shift_spec x x xs rest
      have hlength : ys.length = xs.length + 1 := by rw [hperm.length_eq, List.length_append, List.length_singleton]
      obtain ⟨hperm', hsorted'⟩ := ih ys (hsorted hxs)
      rw [hlength] at hperm' hsorted'
      rw [List.length_cons, sortFrom, getD_middle, hys]
      refine ⟨hperm'.trans ?_, hsorted'⟩
      calc ys ++ rest
        _ |>.Perm ((xs ++ [x]) ++ rest) := hperm.append_right rest
        _ |>.Perm (xs ++ x :: rest) := by rw [List.append_assoc, List.singleton_append]

theorem sort_spec (l : List A) : (sort l).Perm l ∧ (sort l).Pairwise (· ≤ ·) := by
  cases l with
  | nil => exact ⟨.refl _, .nil⟩
  | cons x rest => exact sortFrom_spec rest [x] (List.pairwise_singleton _ _)

end Sorting

section Firsts

variable {A K : Type} [DecidableEq K]

/-- The items, each one only if its key has not been seen before it. -/
def firsts (key : A → K) (items : List A) : List A :=
  (items.foldl (fun (state : List A × List K) v =>
    if key v ∈ state.2 then state else (state.1 ++ [v], key v :: state.2)) ([], [])).1

theorem firsts_spec {key : A → K} (hkey : Function.Injective key) (items : List A) :
    (firsts key items).Nodup ∧ ∀ v, v ∈ firsts key items ↔ v ∈ items := by
  -- The keys that are seen are those of the items taken so far.
  have hrun : ∀ (items out : List A) (seen : List K), out.Nodup → (∀ v, key v ∈ seen ↔ v ∈ out) →
      let state := items.foldl (fun (state : List A × List K) v => if key v ∈ state.2 then state else (state.1 ++ [v], key v :: state.2)) (out, seen)
      state.1.Nodup ∧ ∀ v, v ∈ state.1 ↔ v ∈ out ∨ v ∈ items := by
    intro items
    induction items with
    | nil => exact fun out seen hout _ => ⟨hout, fun v => (or_iff_left List.not_mem_nil).symm⟩
    | cons x items ih =>
        intro out seen hout hseen
        rw [List.foldl_cons]
        dsimp only
        split
        · rename_i hx
          obtain ⟨hnodup, hmem⟩ := ih out seen hout hseen
          refine ⟨hnodup, fun v => (hmem v).trans ?_⟩
          rw [List.mem_cons]
          refine ⟨Or.imp_right .inr, ?_⟩
          rintro (h | rfl | h)
          · exact .inl h
          · exact .inl ((hseen v).mp hx)
          · exact .inr h
        · rename_i hx
          have hnew : x ∉ out := fun h => hx ((hseen x).mpr h)
          have hout' : (out ++ [x]).Nodup := by
            rw [List.nodup_append]
            refine ⟨hout, List.nodup_singleton x, fun v hv w hw => ?_⟩
            rw [List.mem_singleton.mp hw]
            rintro rfl
            exact hnew hv
          obtain ⟨hnodup, hmem⟩ := ih (out ++ [x]) (key x :: seen) hout' fun v => by
            rw [List.mem_cons, List.mem_append, List.mem_singleton, hseen v, hkey.eq_iff, or_comm]
          refine ⟨hnodup, fun v => (hmem v).trans ?_⟩
          rw [List.mem_append, List.mem_singleton, List.mem_cons, or_assoc]
  obtain ⟨hnodup, hmem⟩ := hrun items [] [] List.nodup_nil fun v => iff_of_false List.not_mem_nil List.not_mem_nil
  exact ⟨hnodup, fun v => (hmem v).trans (or_iff_right List.not_mem_nil)⟩

end Firsts

theorem sort_firsts {A K : Type} [LinearOrder A] [Inhabited A] [DecidableEq K] {key : A → K} (hkey : Function.Injective key) (items : List A) :
    (sort (firsts key items)).Pairwise (· < ·) ∧ ∀ v, v ∈ sort (firsts key items) ↔ v ∈ items := by
  obtain ⟨hnodup, hmem⟩ := firsts_spec hkey items
  obtain ⟨hperm, hsorted⟩ := sort_spec (firsts key items)
  have hnodup' := hperm.nodup_iff.mpr hnodup
  refine ⟨?_, fun v => hperm.mem_iff.trans (hmem v)⟩
  exact (hsorted.and hnodup').imp fun h => lt_of_le_of_ne h.1 h.2

theorem eq_of_mem_iff {A : Type} [LinearOrder A] {l l' : List A} (hl : l.Pairwise (· < ·)) (hl' : l'.Pairwise (· < ·)) (h : ∀ v, v ∈ l ↔ v ∈ l') :
    l = l' := by
  have hperm : l.Perm l' := (List.perm_ext_iff_of_nodup (hl.imp ne_of_lt) (hl'.imp ne_of_lt)).mpr h
  exact hperm.eq_of_pairwise (fun _ _ _ _ hab hba => absurd hba (lt_asymm hab)) hl hl'

end Nodus.InsertionSort
