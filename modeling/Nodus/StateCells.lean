import Mathlib.Algebra.BigOperators.Group.List.Basic
import Mathlib.Algebra.Ring.Int.Defs
import Mathlib.Data.Int.Basic
import Mathlib.Logic.Function.Basic

/-! The cells of a workflow's state, and how what a step has contributed to a cell is folded into it. -/

namespace Nodus.Orchestration

/-- What a cell of the state holds: a value of the language, as far as a fold goes into it. -/
inductive Cell (V : Type) where
  | nil
  | int (n : Int)
  | list (items : List V)
  | other (v : V)

/-- `STATE_MERGE_POLICIES`. -/
inductive MergePolicy where
  | any
  | once
  | sum
  | append
  | union
  deriving DecidableEq, Repr

variable {V : Type}

/-- A float, or an integer. -/
def Cell.Numeric (isFloat : V → Bool) : Cell V → Prop
  | .int _ => True
  | .other v => isFloat v = true
  | .nil | .list _ => False

/-- The values that are neither integers nor lists. -/
structure Values (V : Type) where
  isFloat : V → Bool
  /-- `_holds_an_incomparable_record`. -/
  incomparable : V → Bool
  /-- `+` on two cells that are neither both integers nor both lists. Most of these raise. -/
  plus : Cell V → Cell V → Option (Cell V)
  plus_numeric : ∀ {a b}, a.Numeric isFloat → b.Numeric isFloat → ∃ c, plus a b = some c ∧ c.Numeric isFloat
  /-- `_nodus_eq`, which raises on an integer that is too large for a float. -/
  eq : V → V → Option Bool
  eq_trans : ∀ {u v w}, eq u v = some true → eq v w = some true → eq u w = some true

/-- `+`. -/
def Cell.plus (values : Values V) : Cell V → Cell V → Option (Cell V)
  | .int m, .int n => some (.int (m + n))
  | .list xs, .list ys => some (.list (xs ++ ys))
  | a, b => values.plus a b

/-- `check_contribution`: whether a value can be contributed to a cell with this policy. -/
def checkContribution (values : Values V) : MergePolicy → Cell V → Bool
  | .sum, .int _ => true
  | .sum, .other v => values.isFloat v
  | .sum, _ => false
  | .append, .list _ => true
  | .append, _ => false
  | .union, .list items => items.all fun v => !values.incomparable v
  | .union, _ => false
  | .any, _ | .once, _ => true

/-- Whether one of the values that have been kept is equal to this one. -/
def anyEq (values : Values V) (item : V) : List V → Option Bool
  | [] => some false
  | seen :: rest =>
      match values.eq item seen with
      | none => none
      | some true => some true
      | some false => anyEq values item rest

/-- `_dedup`, with what has been kept so far. -/
def dedup (values : Values V) (out : List V) : List V → Option (List V)
  | [] => some out
  | item :: rest =>
      match anyEq values item out with
      | none => none
      | some true => dedup values out rest
      | some false => dedup values (out ++ [item]) rest

def Cell.items : Cell V → List V
  | .list items => items
  | .nil | .int _ | .other _ => []

/-- What is contributed to a cell is added to it, one after the other. -/
def addAll (values : Values V) (base : Cell V) : List (Cell V) → Option (Cell V)
  | [] => some base
  | value :: rest =>
      match base with
      | .nil => addAll values value rest
      | base =>
          match base.plus values value with
          | none => none
          | some result => addAll values result rest

/-- `fold_contributions`. What is contributed under the policy `union` are lists. -/
def foldContributions (values : Values V) (merge : MergePolicy) (base : Cell V) (contributed : List (Cell V)) :
    Option (Cell V) :=
  match merge with
  | .union => (dedup values [] (base.items ++ contributed.flatMap Cell.items)).map .list
  | .any | .once | .sum | .append => addAll values base contributed

/-! ### The folds -/

variable {values : Values V} {base : Cell V}

theorem addAll_cons {value : Cell V} (rest : List (Cell V)) (h : base ≠ .nil) :
    addAll values base (value :: rest) = (base.plus values value).bind fun result => addAll values result rest := by
  cases base with
  | nil => exact absurd rfl h
  | int n => cases hplus : (Cell.int n).plus values value <;> simp [addAll, hplus]
  | list items => cases hplus : (Cell.list items).plus values value <;> simp [addAll, hplus]
  | other v => cases hplus : (Cell.other v).plus values value <;> simp [addAll, hplus]

theorem addAll_ints (m : Int) (ns : List Int) : addAll values (.int m) (ns.map .int) = some (.int (m + ns.sum)) := by
  induction ns generalizing m with
  | nil => simp [addAll]
  | cons n ns ih =>
      rw [List.map_cons, addAll_cons _ (by simp)]
      show addAll values (.int (m + n)) (ns.map .int) = _
      rw [ih, List.sum_cons, Int.add_assoc]

theorem addAll_lists (items : List V) (lists : List (List V)) :
    addAll values (.list items) (lists.map .list) = some (.list (items ++ lists.flatten)) := by
  induction lists generalizing items with
  | nil => simp [addAll]
  | cons list lists ih =>
      rw [List.map_cons, addAll_cons _ (by simp)]
      show addAll values (.list (items ++ list)) (lists.map .list) = _
      rw [ih, List.flatten_cons, List.append_assoc]

/-- Every value of the one list is in the other, or equal to one that is. -/
def Within (values : Values V) (xs ys : List V) : Prop := ∀ v ∈ xs, v ∈ ys ∨ ∃ w ∈ ys, values.eq v w = some true

/-- The two lists have the same elements, as far as the equality of the language can tell. -/
def SameElements (values : Values V) (xs ys : List V) : Prop := Within values xs ys ∧ Within values ys xs

theorem within_of_subset {xs ys : List V} (h : ∀ v ∈ xs, v ∈ ys) : Within values xs ys := fun v hv => .inl (h v hv)

theorem Within.trans {xs ys zs : List V} (h : Within values xs ys) (h' : Within values ys zs) : Within values xs zs := by
  intro v hv
  rcases h v hv with hy | ⟨w, hy, hvw⟩
  · exact h' v hy
  · rcases h' w hy with hz | ⟨u, hz, hwu⟩
    · exact .inr ⟨w, hz, hvw⟩
    · exact .inr ⟨u, hz, values.eq_trans hvw hwu⟩

theorem Within.append {xs ys zs : List V} (h : Within values xs zs) (h' : Within values ys zs) :
    Within values (xs ++ ys) zs := by
  intro v hv
  exact (List.mem_append.mp hv).elim (h v) (h' v)

theorem sameElements_refl (xs : List V) : SameElements values xs xs :=
  ⟨within_of_subset fun _ hv => hv, within_of_subset fun _ hv => hv⟩

theorem SameElements.trans {xs ys zs : List V} (h : SameElements values xs ys) (h' : SameElements values ys zs) :
    SameElements values xs zs :=
  ⟨h.1.trans h'.1, h'.2.trans h.2⟩

theorem SameElements.append_right {xs ys : List V} (h : SameElements values xs ys) (zs : List V) :
    SameElements values (xs ++ zs) (ys ++ zs) := by
  have hleft : ∀ l : List V, Within values l (l ++ zs) := fun l => within_of_subset fun _ => List.mem_append_left zs
  have hright : ∀ l : List V, Within values zs (l ++ zs) := fun l => within_of_subset fun _ => List.mem_append_right l
  exact ⟨(h.1.trans (hleft ys)).append (hright ys), (h.2.trans (hleft xs)).append (hright xs)⟩

theorem anyEq_eq_true {item : V} {seen : List V} (h : anyEq values item seen = some true) :
    ∃ w ∈ seen, values.eq item w = some true := by
  induction seen with
  | nil => cases h
  | cons w seen ih =>
      unfold anyEq at h
      split at h
      · cases h
      · next heq => exact ⟨w, List.mem_cons_self, heq⟩
      · obtain ⟨u, hu, heq⟩ := ih h
        exact ⟨u, List.mem_cons_of_mem _ hu, heq⟩

theorem dedup_sameElements {out items result : List V} (h : dedup values out items = some result) :
    SameElements values result (out ++ items) := by
  induction items generalizing out with
  | nil =>
      cases h
      rw [List.append_nil]
      exact sameElements_refl _
  | cons item items ih =>
      unfold dedup at h
      split at h
      · cases h
      · next hdropped =>
          refine (ih h).trans ⟨within_of_subset fun v hv => ?_, fun v hv => ?_⟩
          · rcases List.mem_append.mp hv with hv | hv
            · exact List.mem_append_left _ hv
            · exact List.mem_append_right _ (List.mem_cons_of_mem _ hv)
          · rcases List.mem_append.mp hv with hv | hv
            · exact .inl (List.mem_append_left _ hv)
            · rcases List.mem_cons.mp hv with rfl | hv
              · obtain ⟨w, hw, heq⟩ := anyEq_eq_true hdropped
                exact .inr ⟨w, List.mem_append_left _ hw, heq⟩
              · exact .inl (List.mem_append_right _ hv)
      · have hall := ih h
        rwa [List.append_assoc, List.singleton_append] at hall

theorem fold_union {contributed : List (Cell V)} {result : Cell V}
    (h : foldContributions values .union base contributed = some result) :
    SameElements values result.items (base.items ++ contributed.flatMap Cell.items) := by
  obtain ⟨items, hitems, rfl⟩ := Option.map_eq_some_iff.mp h
  have hall := dedup_sameElements hitems
  rwa [List.nil_append] at hall

/-! ### When a fold goes through -/

/-- What is contributed can be added to what the cell holds. -/
def Foldable (values : Values V) (merge : MergePolicy) (base : Cell V) (contributed : List (Cell V)) : Prop :=
  match merge with
  | .union => ∀ v ∈ base.items ++ contributed.flatMap Cell.items, ∀ w ∈ base.items ++ contributed.flatMap Cell.items,
      values.eq v w ≠ none
  | .any | .once | .sum | .append =>
      (base = .nil ∨ base.Numeric values.isFloat) ∧ (∀ value ∈ contributed, value.Numeric values.isFloat) ∨
        (base = .nil ∨ ∃ items, base = .list items) ∧ ∀ value ∈ contributed, ∃ items, value = .list items

theorem addAll_numeric {contributed : List (Cell V)} (hbase : base = .nil ∨ base.Numeric values.isFloat)
    (h : ∀ value ∈ contributed, value.Numeric values.isFloat) : addAll values base contributed ≠ none := by
  induction contributed generalizing base with
  | nil => exact Option.some_ne_none base
  | cons value contributed ih =>
      have hvalue := h value List.mem_cons_self
      have hrest : ∀ value ∈ contributed, value.Numeric values.isFloat := fun v hv => h v (List.mem_cons_of_mem _ hv)
      rcases hbase with rfl | hbase
      · exact ih (.inr hvalue) hrest
      · have hne : base ≠ .nil := by
          rintro rfl
          exact hbase
        have hplus : ∃ c, base.plus values value = some c ∧ c.Numeric values.isFloat := by
          cases base with
          | nil => exact absurd rfl hne
          | int m =>
              cases value with
              | int n => exact ⟨.int (m + n), rfl, trivial⟩
              | nil => exact hvalue.elim
              | list items => exact hvalue.elim
              | other v => exact values.plus_numeric hbase hvalue
          | list items => exact hbase.elim
          | other v => exact values.plus_numeric hbase hvalue
        obtain ⟨c, hc, hnumeric⟩ := hplus
        rw [addAll_cons _ hne, hc]
        exact ih (.inr hnumeric) hrest

theorem addAll_list {contributed : List (Cell V)} (hbase : base = .nil ∨ ∃ items, base = .list items)
    (h : ∀ value ∈ contributed, ∃ items, value = .list items) : addAll values base contributed ≠ none := by
  induction contributed generalizing base with
  | nil => exact Option.some_ne_none base
  | cons value contributed ih =>
      obtain ⟨ys, rfl⟩ := h value List.mem_cons_self
      have hrest : ∀ value ∈ contributed, ∃ items, value = Cell.list items := fun v hv => h v (List.mem_cons_of_mem _ hv)
      rcases hbase with rfl | ⟨xs, rfl⟩
      · exact ih (.inr ⟨ys, rfl⟩) hrest
      · rw [addAll_cons _ (by simp)]
        exact ih (.inr ⟨xs ++ ys, rfl⟩) hrest

theorem dedup_ne_none {items out : List V} (h : ∀ v ∈ out ++ items, ∀ w ∈ out ++ items, values.eq v w ≠ none) :
    dedup values out items ≠ none := by
  have hany : ∀ (item : V) (seen : List V), (∀ w ∈ seen, values.eq item w ≠ none) → anyEq values item seen ≠ none := by
    intro item seen
    induction seen with
    | nil => exact fun _ => Option.some_ne_none false
    | cons w seen ih =>
        intro hseen
        unfold anyEq
        split
        · next heq => exact absurd heq (hseen w List.mem_cons_self)
        · exact Option.some_ne_none true
        · exact ih fun u hu => hseen u (List.mem_cons_of_mem _ hu)
  induction items generalizing out with
  | nil => exact Option.some_ne_none out
  | cons item items ih =>
      have hsmaller : ∀ v, v ∈ out ++ items → v ∈ out ++ item :: items := fun v hv => by
        rcases List.mem_append.mp hv with hv | hv
        · exact List.mem_append_left _ hv
        · exact List.mem_append_right _ (List.mem_cons_of_mem _ hv)
      unfold dedup
      split
      · next hnone =>
          refine absurd hnone (hany item out fun w hw => ?_)
          exact h item (List.mem_append_right _ List.mem_cons_self) w (List.mem_append_left _ hw)
      · exact ih fun v hv w hw => h v (hsmaller v hv) w (hsmaller w hw)
      · apply ih
        rwa [List.append_assoc, List.singleton_append]

theorem foldContributions_ne_none {merge : MergePolicy} {contributed : List (Cell V)}
    (h : Foldable values merge base contributed) : foldContributions values merge base contributed ≠ none := by
  have hadd : Foldable values .any base contributed → addAll values base contributed ≠ none := by
    rintro (⟨hbase, hall⟩ | ⟨hbase, hall⟩)
    · exact addAll_numeric hbase hall
    · exact addAll_list hbase hall
  cases merge with
  | union =>
      unfold foldContributions
      rw [Ne, Option.map_eq_none_iff]
      apply dedup_ne_none
      rwa [List.nil_append]
  | any => exact hadd h
  | once => exact hadd h
  | sum => exact hadd h
  | append => exact hadd h

end Nodus.Orchestration
