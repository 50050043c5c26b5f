import Nodus.StateCells
import Nodus.Equality

/-! Contributions to a cell can be folded in batches, and what `union` keeps. -/

namespace Nodus.Orchestration

variable {V : Type} {values : Values V}

/-! ### Batches -/

theorem addAll_append (base : Cell V) (xs ys : List (Cell V)) :
    addAll values base (xs ++ ys) = (addAll values base xs).bind fun result => addAll values result ys := by
  induction xs generalizing base with
  | nil => rfl
  | cons x xs ih =>
      cases hbase : base with
      | nil => exact ih x
      | _ =>
          rw [List.cons_append, ← hbase, addAll_cons _ (by simp [hbase]), addAll_cons _ (by simp [hbase]),
            Option.bind_assoc]
          exact congrArg _ (funext ih)

theorem dedup_cons (out : List V) (item : V) (items : List V) :
    dedup values out (item :: items) =
      (anyEq values item out).bind fun seen => dedup values (if seen then out else out ++ [item]) items := by
  conv_lhs => unfold dedup
  cases anyEq values item out with
  | none => rfl
  | some seen => cases seen <;> rfl

theorem dedup_append (out xs ys : List V) :
    dedup values out (xs ++ ys) = (dedup values out xs).bind fun result => dedup values result ys := by
  induction xs generalizing out with
  | nil => rfl
  | cons x xs ih =>
      rw [List.cons_append, dedup_cons, dedup_cons, Option.bind_assoc]
      exact congrArg _ (funext fun seen => ih _)

theorem anyEq_eq_false_iff {item : V} {seen : List V} :
    anyEq values item seen = some false ↔ ∀ w ∈ seen, values.eq item w = some false := by
  induction seen with
  | nil => exact iff_of_true rfl fun w hw => absurd hw List.not_mem_nil
  | cons w seen ih =>
      rw [List.forall_mem_cons]
      unfold anyEq
      cases heq : values.eq item w with
      | none => simp
      | some same => cases same <;> simp [ih]

/-- The items differ, each from those before it. -/
def Distinct (values : Values V) (items : List V) : Prop := items.Pairwise fun earlier later => values.eq later earlier = some false

theorem distinct_concat {items : List V} {item : V} :
    Distinct values (items ++ [item]) ↔ Distinct values items ∧ anyEq values item items = some false := by
  unfold Distinct
  rw [List.pairwise_append, anyEq_eq_false_iff]
  simp

theorem dedup_of_distinct {out items : List V} (h : Distinct values (out ++ items)) :
    dedup values out items = some (out ++ items) := by
  induction items generalizing out with
  | nil => rw [List.append_nil]; rfl
  | cons item items ih =>
      rw [List.append_cons] at h
      have hfirst : Distinct values (out ++ [item]) := (List.pairwise_append.mp h).1
      rw [dedup_cons, (distinct_concat.mp hfirst).2]
      exact (ih h).trans (congrArg some (List.append_cons out item items).symm)

theorem dedup_distinct {out items result : List V} (hout : Distinct values out)
    (h : dedup values out items = some result) : Distinct values result := by
  induction items generalizing out with
  | nil =>
      cases h
      exact hout
  | cons item items ih =>
      rw [dedup_cons] at h
      obtain ⟨seen, hseen, hrest⟩ := Option.bind_eq_some_iff.mp h
      cases seen with
      | true => exact ih hout hrest
      | false => exact ih (distinct_concat.mpr ⟨hout, hseen⟩) hrest

theorem foldContributions_union (base : Cell V) (contributed : List (Cell V)) :
    foldContributions values .union base contributed =
      (dedup values [] (base.items ++ contributed.flatMap Cell.items)).map .list := rfl

theorem foldContributions_append (merge : MergePolicy) (base : Cell V) (xs ys : List (Cell V)) :
    ((foldContributions values merge base xs).bind fun result => foldContributions values merge result ys) =
      foldContributions values merge base (xs ++ ys) := by
  cases merge with
  | union =>
      rw [foldContributions_union, foldContributions_union, List.flatMap_append, ← List.append_assoc,
        dedup_append [] (base.items ++ xs.flatMap Cell.items)]
      cases hfirst : dedup values [] (base.items ++ xs.flatMap Cell.items) with
      | none => rfl
      | some items =>
          have hagain : dedup values [] items = some items := by
            have hdistinct : Distinct values ([] ++ items) := dedup_distinct List.Pairwise.nil hfirst
            exact dedup_of_distinct hdistinct
          calc foldContributions values .union (.list items) ys
              = (dedup values [] (items ++ ys.flatMap Cell.items)).map .list := foldContributions_union _ _
            _ = (dedup values items (ys.flatMap Cell.items)).map .list := by rw [dedup_append, hagain, Option.bind_some]
  | any => exact (addAll_append base xs ys).symm
  | once => exact (addAll_append base xs ys).symm
  | sum => exact (addAll_append base xs ys).symm
  | append => exact (addAll_append base xs ys).symm

/-! ### What is kept -/

/-- The items are what remains of the inputs without duplicates. -/
structure Deduplicated (values : Values V) (inputs items : List V) : Prop where
  distinct : Distinct values items
  covers : ∀ v ∈ inputs, v ∈ items ∨ ∃ w ∈ items, values.eq v w = some true
  order : items.Sublist inputs
  /-- An item with no equal one before it is kept, and between what is kept of the items before and after it. -/
  first : ∀ before v after, inputs = before ++ v :: after → (∀ w ∈ before, values.eq v w ≠ some true) →
    ∃ kept rest, kept.Sublist before ∧ rest.Sublist after ∧ items = kept ++ v :: rest

theorem dedup_eq_append {out items result : List V} (h : dedup values out items = some result) :
    ∃ rest, result = out ++ rest ∧ rest.Sublist items := by
  induction items generalizing out with
  | nil =>
      cases h
      exact ⟨[], (List.append_nil _).symm, List.Sublist.slnil⟩
  | cons item items ih =>
      rw [dedup_cons] at h
      obtain ⟨seen, -, hrest⟩ := Option.bind_eq_some_iff.mp h
      cases seen with
      | true =>
          obtain ⟨rest, hresult, hsub⟩ := ih hrest
          exact ⟨rest, hresult, hsub.cons item⟩
      | false =>
          obtain ⟨rest, hresult, hsub⟩ := ih hrest
          exact ⟨item :: rest, hresult.trans (List.append_cons out item rest).symm, hsub.cons_cons item⟩

theorem dedup_split {before after result : List V} {v : V} (h : dedup values [] (before ++ v :: after) = some result) :
    ∃ kept rest seen, dedup values [] before = some kept ∧ rest.Sublist after ∧ anyEq values v kept = some seen ∧
      result = (if seen then kept else kept ++ [v]) ++ rest := by
  rw [dedup_append] at h
  obtain ⟨kept, hkept, hall⟩ := Option.bind_eq_some_iff.mp h
  rw [dedup_cons] at hall
  obtain ⟨seen, hseen, hrest⟩ := Option.bind_eq_some_iff.mp hall
  obtain ⟨rest, hresult, hsub⟩ := dedup_eq_append hrest
  exact ⟨kept, rest, seen, hkept, hsub, hseen, hresult⟩

theorem sublist_of_dedup {items result : List V} (h : dedup values [] items = some result) : result.Sublist items := by
  obtain ⟨rest, rfl, hsub⟩ := dedup_eq_append h
  exact hsub

theorem deduplicated {inputs items : List V} (h : dedup values [] inputs = some items) :
    Deduplicated values inputs items := by
  constructor
  · exact dedup_distinct List.Pairwise.nil h
  · intro v hv
    obtain ⟨before, after, rfl⟩ := List.append_of_mem hv
    obtain ⟨kept, rest, seen, -, -, hseen, rfl⟩ := dedup_split h
    cases seen with
    | true =>
        obtain ⟨w, hw, heq⟩ := anyEq_eq_true hseen
        exact .inr ⟨w, List.mem_append_left rest hw, heq⟩
    | false => exact .inl (List.mem_append_left rest (List.mem_append_right kept List.mem_cons_self))
  · exact sublist_of_dedup h
  · rintro before v after rfl hnew
    obtain ⟨kept, rest, seen, hkept, hsub, hseen, rfl⟩ := dedup_split h
    cases seen with
    | true =>
        obtain ⟨w, hw, heq⟩ := anyEq_eq_true hseen
        exact absurd heq (hnew w ((sublist_of_dedup hkept).mem hw))
    | false => exact ⟨kept, rest, sublist_of_dedup hkept, hsub, (List.append_cons kept v rest).symm⟩

/-! ### The values of the language -/

/-- The number that a cell is for the host language. -/
def Cell.hostNumber : Cell Equality.Datum → Option Int
  | .int n => some n
  | .other v => v.value.number
  | .nil | .list _ => none

/-- `+` on what is not both integers or both lists: booleans count as integers, and strings are joined. -/
def hostPlus (a b : Cell Equality.Datum) : Option (Cell Equality.Datum) :=
  match a.hostNumber, b.hostNumber with
  | some m, some n => some (.int (m + n))
  | _, _ =>
      match a, b with
      | .other ⟨.str s, _⟩, .other ⟨.str t, _⟩ => some (.other ⟨.str (s ++ t), .str _⟩)
      | _, _ => none

theorem toOption_eq_some_iff {answer : Except Equality.Fault Bool} {b : Bool} : answer.toOption = some b ↔ answer = .ok b := by
  cases answer with
  | error fault => exact iff_of_false nofun nofun
  | ok c => exact ⟨fun h => congrArg Except.ok (Option.some_inj.mp h), fun h => congrArg some (Except.ok.inj h)⟩

/-- The values without floats and records, with the equality of the language. -/
def exactValues : Values Equality.Datum where
  isFloat _ := false
  incomparable _ := false
  plus := hostPlus
  plus_numeric := by
    intro a b ha hb
    cases a with
    | int m =>
        cases b with
        | int n => exact ⟨.int (m + n), rfl, trivial⟩
        | nil => exact hb.elim
        | list _ => exact hb.elim
        | other _ => cases hb
    | nil => exact ha.elim
    | list _ => exact ha.elim
    | other _ => cases ha
  eq u v := (Equality.nodusEq u.value v.value).toOption
  eq_trans := by
    intro u v w huv hvw
    rw [toOption_eq_some_iff] at huv hvw ⊢
    exact Equality.Equal.trans u.wellFormed v.wellFormed huv hvw

theorem exists_list_of_check {value : Cell V} (h : checkContribution values .union value = true) :
    .list value.items = value := by
  cases value with
  | list items => rfl
  | nil => cases h
  | int n => cases h
  | other v => cases h

/-- However contributions are batched, the fold is the same, and `union` keeps each element once, the first time. -/
theorem folds_batched (merge : MergePolicy) (base : Cell V) (xs ys : List (Cell V))
    (h : ∀ value ∈ xs ++ ys, checkContribution values merge value = true) :
    ((foldContributions values merge base xs).bind fun result => foldContributions values merge result ys) =
        foldContributions values merge base (xs ++ ys) ∧
      (Foldable values merge base (xs ++ ys) → foldContributions values merge base (xs ++ ys) ≠ none) ∧
      (merge = .union → ∀ result, foldContributions values merge base (xs ++ ys) = some result →
        ∃ lists : List (List V), xs ++ ys = lists.map .list ∧
          ∃ items, result = .list items ∧ Deduplicated values (base.items ++ lists.flatten) items) := by
  refine ⟨foldContributions_append merge base xs ys, foldContributions_ne_none, ?_⟩
  rintro rfl result hresult
  refine ⟨(xs ++ ys).map Cell.items, ?_, ?_⟩
  · calc xs ++ ys = (xs ++ ys).map id := (List.map_id _).symm
      _ = (xs ++ ys).map (.list ∘ Cell.items) :=
          List.map_congr_left fun value hvalue => (exists_list_of_check (h value hvalue)).symm
      _ = ((xs ++ ys).map Cell.items).map .list := List.map_map.symm
  · obtain ⟨items, hitems, rfl⟩ := Option.map_eq_some_iff.mp hresult
    exact ⟨items, rfl, deduplicated hitems⟩

/-- `[1, 1]` and `[true]`, contributed one after the other to a cell that holds nothing. -/
theorem folds_batched_nil : ((foldContributions exactValues .union .nil [.list [⟨.int 1, .int 1⟩, ⟨.int 1, .int 1⟩]]).bind
      fun result => foldContributions exactValues .union result [.list [⟨.bool true, .bool true⟩]]) =
    foldContributions exactValues .union .nil
      [.list [⟨.int 1, .int 1⟩, ⟨.int 1, .int 1⟩], .list [⟨.bool true, .bool true⟩]] := by
  apply (@folds_batched _ exactValues .union .nil [_] [_] ?_).1
  simp [checkContribution, exactValues]

end Nodus.Orchestration
