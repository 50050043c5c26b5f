import Mathlib.Logic.Function.Basic
import Mathlib.Logic.Relation

/-! What a graph of dependencies orders, found by a search from below that remembers what it has found. -/

namespace Ancestors

open Relation

variable {α : Type} [DecidableEq α]

abbrev Memo (α : Type) := α → Option (List α)

/-- `_ancestors_of`, with the depth that the interpreter allows. What has been found is kept, and a task that is being looked at has
none yet. -/
def ancestorsOf (deps : α → List α) : Nat → α → Memo α → List α × Memo α
  | 0, _, memo => ([], memo)
  | fuel + 1, t, memo =>
      match memo t with
      | some found => (found, memo)
      | none =>
          let (found, memo') := (deps t).foldl
            (fun (found, memo) dep =>
              let (more, memo') := ancestorsOf deps fuel dep memo
              (found ++ dep :: more, memo'))
            ([], Function.update memo t (some []))
          (found, Function.update memo' t (some found))

/-- `_ordered`. -/
def ordered (deps : α → List α) (fuel : Nat) (a b : α) (memo : Memo α) : Bool × Memo α :=
  let (above, memo') := ancestorsOf deps fuel a memo
  if b ∈ above then (true, memo')
  else
    let (above', memo'') := ancestorsOf deps fuel b memo'
    (decide (a ∈ above'), memo'')

/-- The first of these that is not ordered with a given one. -/
def pairWith (deps : α → List α) (fuel : Nat) (first : α) : List α → Memo α → Option α × Memo α
  | [], memo => (none, memo)
  | second :: rest, memo =>
      match ordered deps fuel first second memo with
      | (false, memo') => (some second, memo')
      | (true, memo') => pairWith deps fuel first rest memo'

/-- The first pair that is not ordered. -/
def firstPair (deps : α → List α) (fuel : Nat) : List α → Memo α → Option (α × α) × Memo α
  | [], memo => (none, memo)
  | first :: rest, memo =>
      match pairWith deps fuel first rest memo with
      | (some second, memo') => (some (first, second), memo')
      | (none, memo') => firstPair deps fuel rest memo'

/-! ### What it finds -/

section Above

variable {α : Type} {deps : α → List α} {fuel : Nat} {t a : α}

/-- One depends on the other, directly or not. -/
def Above (deps : α → List α) (a t : α) : Prop := TransGen (fun d t => d ∈ deps t) a t

/-- No chain of dependencies from here on is longer. -/
def Shallow (deps : α → List α) : Nat → α → Prop
  | 0, _ => False
  | fuel + 1, t => ∀ d ∈ deps t, Shallow deps fuel d

theorem above_iff : Above deps a t ↔ ∃ d ∈ deps t, a = d ∨ Above deps a d := by
  constructor
  · intro h
    cases h with
    | single h => exact ⟨a, h, .inl rfl⟩
    | tail h hd => exact ⟨_, hd, .inr h⟩
  · rintro ⟨d, hd, rfl | h⟩
    · exact .single hd
    · exact .tail h hd

theorem Shallow.irrefl (h : Shallow deps fuel t) : ¬ Above deps t t := by
  induction fuel generalizing t with
  | zero => exact h.elim
  | succ fuel ih =>
      intro hcycle
      obtain ⟨d, hd, hcases⟩ := above_iff.mp hcycle
      rcases hcases with rfl | habove
      · exact ih (h _ hd) hcycle
      · exact ih (h d hd) (TransGen.head hd habove)

/-- What has been found of one is all that is above it. -/
def Found (deps : α → List α) (t : α) (found : List α) : Prop := ∀ a, a ∈ found ↔ Above deps a t

/-- All that is remembered from here on upwards has been found. -/
def Right (deps : α → List α) (memo : Memo α) (t : α) : Prop :=
  ∀ u, u = t ∨ Above deps u t → ∀ found, memo u = some found → Found deps u found

/-- What is remembered in addition has been found, and belongs to these. -/
def Adds (deps : α → List α) (among : α → Prop) (memo memo' : Memo α) : Prop :=
  ∀ u, memo' u = memo u ∨ among u ∧ ∃ found, memo' u = some found ∧ Found deps u found

variable {memo memo' memo'' : Memo α} {among among' : α → Prop}

theorem Adds.refl : Adds deps among memo memo := fun _ => .inl rfl

theorem Adds.trans (h : Adds deps among memo memo') (h' : Adds deps among memo' memo'') : Adds deps among memo memo'' := by
  intro u
  rcases h' u with hsame | hnew
  · rcases h u with hsame' | ⟨hamong, found, hfound, hright⟩
    · exact .inl (hsame.trans hsame')
    · exact .inr ⟨hamong, found, hsame.trans hfound, hright⟩
  · exact .inr hnew

theorem Adds.mono (h : Adds deps among memo memo') (himp : ∀ u, among u → among' u) : Adds deps among' memo memo' :=
  fun u => (h u).imp_right fun hnew => ⟨himp u hnew.1, hnew.2⟩

theorem Right.adds (h : Right deps memo t) (hadds : Adds deps among memo memo') : Right deps memo' t := by
  intro u hu found hfound
  rcases hadds u with hsame | ⟨-, found', hfound', hright⟩
  · exact h u hu found (hsame ▸ hfound)
  · obtain rfl := Option.some.inj (hfound.symm.trans hfound')
    exact hright

def Ordered (deps : α → List α) (a b : α) : Prop := Above deps b a ∨ Above deps a b

/-- The first pair of a list that is not ordered. -/
inductive First (deps : α → List α) : List α → α → α → Prop where
  | here {first second : α} {middle after : List α} (middle_ordered : ∀ y ∈ middle, Ordered deps first y)
      (unordered : ¬ Ordered deps first second) : First deps (first :: (middle ++ second :: after)) first second
  | later {first a b : α} {rest : List α} (ordered : ∀ y ∈ rest, Ordered deps first y) (first_rest : First deps rest a b) :
      First deps (first :: rest) a b

theorem First.spec {l : List α} {a b : α} (h : First deps l a b) : [a, b].Sublist l ∧ ¬ Ordered deps a b := by
  induction h with
  | here _ hunordered =>
      refine ⟨.cons_cons _ ?_, hunordered⟩
      rw [List.singleton_sublist]
      exact List.mem_append_right _ List.mem_cons_self
  | later _ _ ih => exact ⟨ih.1.cons _, ih.2⟩

theorem First.not_pairwise {l : List α} {a b : α} (h : First deps l a b) : ¬ l.Pairwise (Ordered deps) := by
  intro hpairwise
  obtain ⟨hsub, hunordered⟩ := h.spec
  exact hunordered (List.rel_of_pairwise_cons (hpairwise.sublist hsub) (List.mem_singleton_self b))

theorem foldl_spec (search : α → Memo α → List α × Memo α) (ds : List α) (found : List α) (memo : Memo α)
    (hsearch : ∀ d ∈ ds, ∀ memo, Right deps memo d → Found deps d (search d memo).1 ∧
      Adds deps (fun u => u = d ∨ Above deps u d) memo (search d memo).2)
    (hmemo : ∀ d ∈ ds, Right deps memo d) :
    (∀ a, a ∈ (ds.foldl (fun (found, memo) dep =>
        let (more, memo') := search dep memo
        (found ++ dep :: more, memo')) (found, memo)).1 ↔ a ∈ found ∨ ∃ d ∈ ds, a = d ∨ Above deps a d) ∧
      Adds deps (fun u => ∃ d ∈ ds, u = d ∨ Above deps u d) memo (ds.foldl (fun (found, memo) dep =>
        let (more, memo') := search dep memo
        (found ++ dep :: more, memo')) (found, memo)).2 := by
  induction ds generalizing found memo with
  | nil =>
      refine ⟨fun a => ⟨.inl, ?_⟩, Adds.refl⟩
      rintro (h | ⟨d, hd, -⟩)
      · exact h
      · exact absurd hd List.not_mem_nil
  | cons d ds ih =>
      obtain ⟨hfound, hadds⟩ := hsearch d List.mem_cons_self memo (hmemo d List.mem_cons_self)
      rw [List.foldl_cons]
      obtain ⟨hmem, hrest⟩ := ih (found ++ d :: (search d memo).1) (search d memo).2
        (fun d' hd' => hsearch d' (List.mem_cons_of_mem _ hd')) fun d' hd' => (hmemo d' (List.mem_cons_of_mem _ hd')).adds hadds
      constructor
      · intro a
        rw [hmem a]
        simp only [List.mem_append, List.mem_cons, hfound a, or_and_right, exists_or, exists_eq_left, or_assoc]
      · apply (hadds.mono _).trans (hrest.mono _)
        · exact fun u hu => ⟨d, List.mem_cons_self, hu⟩
        · exact fun u ⟨d', hd', hu⟩ => ⟨d', List.mem_cons_of_mem _ hd', hu⟩

/-- Nothing wrong is remembered. -/
def AllRight (deps : α → List α) (memo : Memo α) : Prop := ∀ u found, memo u = some found → Found deps u found

theorem AllRight.right (h : AllRight deps memo) (t : α) : Right deps memo t := fun u _ found hfound => h u found hfound

theorem AllRight.adds (h : AllRight deps memo) (hadds : Adds deps among memo memo') :
    AllRight deps memo' := fun u => (h.right u).adds hadds u (.inl rfl)

theorem append_cons_inj {P : α → Prop} {middle middle' after after' : List α} {b b' : α} (hmiddle : ∀ y ∈ middle, P y)
    (hmiddle' : ∀ y ∈ middle', P y) (hb : ¬ P b) (hb' : ¬ P b') (h : middle ++ b :: after = middle' ++ b' :: after') : b = b' := by
  induction middle generalizing middle' with
  | nil =>
      cases middle' with
      | nil => exact (List.cons.inj h).1
      | cons y middle' => exact absurd ((List.cons.inj h).1 ▸ hmiddle' y List.mem_cons_self) hb
  | cons y middle ih =>
      cases middle' with
      | nil => exact absurd ((List.cons.inj h).1 ▸ hmiddle y List.mem_cons_self) hb'
      | cons y' middle' =>
          exact ih (fun z hz => hmiddle z (List.mem_cons_of_mem _ hz)) (fun z hz => hmiddle' z (List.mem_cons_of_mem _ hz))
            (List.cons.inj h).2

theorem First.unique {l : List α} {a b a' b' : α} (h : First deps l a b) (h' : First deps l a' b') : a = a' ∧ b = b' := by
  induction h with
  | @here first second middle after hmiddle hunordered =>
      generalize hl : first :: (middle ++ second :: after) = l at h'
      cases h' with
      | here hmiddle' hunordered' =>
          obtain ⟨rfl, hrest⟩ := List.cons.inj hl
          exact ⟨rfl, append_cons_inj hmiddle hmiddle' hunordered hunordered' hrest⟩
      | later hordered _ =>
          obtain ⟨rfl, rfl⟩ := List.cons.inj hl
          exact absurd (hordered second (List.mem_append_right _ List.mem_cons_self)) hunordered
  | @later first a b rest hordered hfirst ih =>
      generalize hl : first :: rest = l at h'
      cases h' with
      | here _ hunordered =>
          obtain ⟨rfl, rfl⟩ := List.cons.inj hl
          exact absurd (hordered _ (List.mem_append_right _ List.mem_cons_self)) hunordered
      | later _ hfirst' =>
          obtain ⟨rfl, rfl⟩ := List.cons.inj hl
          exact ih hfirst'

end Above

variable {deps : α → List α} {fuel : Nat} {t a b : α} {memo : Memo α}

theorem ancestorsOf_spec (h : Shallow deps fuel t) (hmemo : Right deps memo t) : Found deps t (ancestorsOf deps fuel t memo).1 ∧
    Adds deps (fun u => u = t ∨ Above deps u t) memo (ancestorsOf deps fuel t memo).2 := by
  induction fuel generalizing t memo with
  | zero => exact h.elim
  | succ fuel ih =>
      unfold ancestorsOf
      cases hknown : memo t with
      | some found => exact ⟨hmemo t (.inl rfl) found hknown, Adds.refl⟩
      | none =>
          -- What is remembered of the task itself meanwhile is not looked at.
          have hmemo' : ∀ d ∈ deps t, Right deps (Function.update memo t (some [])) d := by
            intro d hd u hu found hfound
            have hne : u ≠ t := by
              rintro rfl
              exact h.irrefl (above_iff.mpr ⟨d, hd, hu⟩)
            rw [Function.update_of_ne hne] at hfound
            exact hmemo u (.inr (above_iff.mpr ⟨d, hd, hu⟩)) found hfound
          obtain ⟨hmem, hadds⟩ := foldl_spec (ancestorsOf deps fuel) (deps t) [] (Function.update memo t (some []))
            (fun d hd memo hright => ih (h d hd) hright) hmemo'
          have hfound : Found deps t ((deps t).foldl (fun (found, memo) dep =>
              let (more, memo') := ancestorsOf deps fuel dep memo
              (found ++ dep :: more, memo')) ([], Function.update memo t (some []))).1 := by
            intro a
            rw [hmem a, above_iff]
            exact or_iff_right List.not_mem_nil
          refine ⟨hfound, fun u => ?_⟩
          by_cases hu : u = t
          · subst hu
            exact .inr ⟨.inl rfl, _, Function.update_self .., hfound⟩
          · simp only [Function.update_of_ne hu]
            rcases hadds u with hsame | ⟨⟨d, hd, hcases⟩, hnew⟩
            · rw [Function.update_of_ne hu] at hsame
              exact .inl hsame
            · exact .inr ⟨.inr (above_iff.mpr ⟨d, hd, hcases⟩), hnew⟩

/-! ### The first pair -/

theorem ordered_spec (ha : Shallow deps fuel a) (hb : Shallow deps fuel b) (hmemo : AllRight deps memo) :
    ((ordered deps fuel a b memo).1 = true ↔ Ordered deps a b) ∧ AllRight deps (ordered deps fuel a b memo).2 := by
  obtain ⟨hfound, hadds⟩ := ancestorsOf_spec ha (hmemo.right a)
  have hmemo' := hmemo.adds hadds
  obtain ⟨hfound', hadds'⟩ := ancestorsOf_spec hb (hmemo'.right b)
  unfold ordered
  simp only []
  split
  · next hin => exact ⟨⟨fun _ => .inl ((hfound b).mp hin), fun _ => rfl⟩, hmemo'⟩
  · next hout =>
      refine ⟨?_, hmemo'.adds hadds'⟩
      rw [decide_eq_true_iff, hfound' a]
      exact (or_iff_right fun h => hout ((hfound b).mpr h)).symm

theorem pairWith_spec {rest : List α} (ha : Shallow deps fuel a) (hrest : ∀ y ∈ rest, Shallow deps fuel y) (hmemo : AllRight deps memo) :
    AllRight deps (pairWith deps fuel a rest memo).2 ∧
      ((pairWith deps fuel a rest memo).1 = none → ∀ y ∈ rest, Ordered deps a y) ∧
      ∀ b, (pairWith deps fuel a rest memo).1 = some b → ∃ middle after, rest = middle ++ b :: after ∧
        (∀ y ∈ middle, Ordered deps a y) ∧ ¬ Ordered deps a b := by
  induction rest generalizing memo with
  | nil => exact ⟨hmemo, fun _ _ hy => absurd hy List.not_mem_nil, nofun⟩
  | cons second rest ih =>
      obtain ⟨hsecond, hrest⟩ := List.forall_mem_cons.mp hrest
      obtain ⟨hordered, hmemo'⟩ := ordered_spec ha hsecond hmemo
      unfold pairWith
      cases hresult : ordered deps fuel a second memo with
      | mk answer memo' =>
          rw [hresult] at hordered hmemo'
          cases answer with
          | false =>
              refine ⟨hmemo', nofun, fun b hb => ?_⟩
              obtain rfl := Option.some.inj hb
              refine ⟨[], rest, rfl, fun _ hy => absurd hy List.not_mem_nil, fun h => ?_⟩
              cases hordered.mpr h
          | true =>
              obtain ⟨hmemo'', hnone, hsome⟩ := ih hrest hmemo'
              refine ⟨hmemo'', fun hn => List.forall_mem_cons.mpr ⟨hordered.mp rfl, hnone hn⟩, fun b hb => ?_⟩
              obtain ⟨middle, after, hsplit, hmiddle, hunordered⟩ := hsome b hb
              exact ⟨second :: middle, after, congrArg (second :: ·) hsplit,
                List.forall_mem_cons.mpr ⟨hordered.mp rfl, hmiddle⟩, hunordered⟩

theorem firstPair_spec {l : List α} (hl : ∀ y ∈ l, Shallow deps fuel y) (hmemo : AllRight deps memo) :
    AllRight deps (firstPair deps fuel l memo).2 ∧ ((firstPair deps fuel l memo).1 = none → l.Pairwise (Ordered deps)) ∧
      ∀ p, (firstPair deps fuel l memo).1 = some p → First deps l p.1 p.2 := by
  induction l generalizing memo with
  | nil => exact ⟨hmemo, fun _ => .nil, nofun⟩
  | cons first rest ih =>
      obtain ⟨hfirst, hrest⟩ := List.forall_mem_cons.mp hl
      obtain ⟨hmemo', hnone, hsome⟩ := pairWith_spec hfirst hrest hmemo
      unfold firstPair
      cases hresult : pairWith deps fuel first rest memo with
      | mk answer memo' =>
          rw [hresult] at hmemo' hnone hsome
          cases answer with
          | some second =>
              refine ⟨hmemo', nofun, fun p hp => ?_⟩
              obtain rfl := Option.some.inj hp
              obtain ⟨middle, after, rfl, hmiddle, hunordered⟩ := hsome second rfl
              exact .here hmiddle hunordered
          | none =>
              obtain ⟨hmemo'', hpairwise, hfirstPair⟩ := ih hrest hmemo'
              exact ⟨hmemo'', fun hn => .cons (hnone rfl) (hpairwise hn), fun p hp => .later (hnone rfl) (hfirstPair p hp)⟩

end Ancestors
