import Nodus.Copies
import Mathlib.Data.Finset.Lattice.Fold
import Mathlib.Data.Finset.Prod
import Mathlib.Data.List.Forall2

/-! `structural_eq`, the equality that records are to have: two graphs of values are compared, and a pair of containers that is met again
is taken as equal. -/

namespace Nodus.RecordEquality

open Copies

variable {S K : Type} [DecidableEq S] [DecidableEq K]

/-- `==` of the host language on what it does not look into: on nil, booleans, numbers and strings, and on two different functions,
methods, channels, coroutines or tasks, where `none` is that it does not return. -/
structure Leaves (S : Type) where
  scalar : S → S → Bool
  handle : Address → Address → Option Bool

inductive Fault where
  /-- `RecursionError`. -/
  | recursion
  /-- `KeyError`. -/
  | key (name : String)
  deriving DecidableEq, Repr

/-- `all(…)` over a loop that may raise. -/
def allItems {A : Type} (f : A → Except Fault Bool) : List A → Except Fault Bool
  | [] => .ok true
  | x :: rest =>
      match f x with
      | .ok true => allItems f rest
      | .ok false => .ok false
      | .error fault => .error fault

/-- The keys are the same, in any order. -/
def sameKeys {J : Type} [DecidableEq J] (xs ys : List (J × Value S)) : Bool :=
  xs.all (fun e => e.1 ∈ ys.map Prod.fst) && ys.all fun e => e.1 ∈ xs.map Prod.fst

/-- Two datetimes are compared by `epoch_ms`, two durations by `total_ms`. -/
def measured : Object S K → Object S K → Option (String × List (String × Value S) × List (String × Value S))
  | .record kind xs, .record kind' ys =>
      if kind = "datetime" ∧ kind' = "datetime" then some ("epoch_ms", xs, ys)
      else if kind = "duration" ∧ kind' = "duration" then some ("total_ms", xs, ys)
      else none
  | _, _ => none

def fieldEq (eq : Value S → Value S → Except Fault Bool) (name : String) (xs ys : List (String × Value S)) : Except Fault Bool :=
  match xs.lookup name, ys.lookup name with
  | some v, some w => eq v w
  | _, _ => .error (.key name)

/-- `==` of the host language on what is at two addresses, where `eq` is `==` on their parts. `Record.__eq__` is by identity, apart from
datetimes and durations, and what is the same object is equal in a list or a dict. -/
def hostEqObjects (leaves : Leaves S) (eq : Value S → Value S → Except Fault Bool) (a b : Address) (x y : Object S K) : Except Fault Bool :=
  match measured x y with
  | some (name, xs, ys) => fieldEq eq name xs ys
  | none =>
      match x, y with
      | .record _ _, .record _ _ => .ok (a == b)
      | .handle _, .handle _ => if a = b then .ok true else (leaves.handle a b).elim (.error .recursion) .ok
      | .list xs, .list ys =>
          if xs.length = ys.length then allItems (fun p => if p.1 = p.2 then .ok true else eq p.1 p.2) (xs.zip ys) else .ok false
      | .map xs, .map ys =>
          if xs.length = ys.length then
            allItems (fun e => (ys.lookup e.1).elim (.ok false) fun w => if e.2 = w then .ok true else eq e.2 w) xs
          else .ok false
      | _, _ => .ok false

/-- `==` of the host language, with the depth that it allows. -/
def hostEq (leaves : Leaves S) (heap : Heap S K) : Nat → Value S → Value S → Except Fault Bool
  | _, .scalar s, .scalar t => .ok (leaves.scalar s t)
  | _, .scalar _, .ref _ => .ok false
  | _, .ref _, .scalar _ => .ok false
  | 0, .ref _, .ref _ => .error .recursion
  | depth + 1, .ref a, .ref b =>
      match heap[a]?, heap[b]? with
      | some x, some y => hostEqObjects leaves (hostEq leaves heap depth) a b x y
      | _, _ => .ok false

/-- The pairs of containers that have been met. -/
abbrev Seen := List (Address × Address)

/-- `all(…)` over a loop that adds to the pairs. -/
def allSeen {A : Type} (f : A → Seen → Except Fault Bool × Seen) : List A → Seen → Except Fault Bool × Seen
  | [], seen => (.ok true, seen)
  | x :: rest, seen =>
      match f x seen with
      | (.ok true, seen) => allSeen f rest seen
      | (.ok false, seen) => (.ok false, seen)
      | (.error fault, seen) => (.error fault, seen)

def IsContainer : Object S K → Bool
  | .handle _ => false
  | _ => true

/-- What two maps or two records hold at the same keys. -/
def common {J : Type} [DecidableEq J] (xs ys : List (J × Value S)) : List (Value S × Value S) :=
  xs.filterMap fun e => (ys.lookup e.1).map (e.2, ·)

/-- What `structural_eq` compares of two containers, when they are of one kind and have the same length or keys. -/
def parts : Object S K → Object S K → Option (List (Value S × Value S))
  | .list xs, .list ys => if xs.length = ys.length then some (xs.zip ys) else none
  | .map xs, .map ys => if sameKeys xs ys then some (common xs ys) else none
  | .record kind xs, .record kind' ys => if kind = kind' ∧ sameKeys xs ys then some (common xs ys) else none
  | _, _ => none

/-- `structural_eq` on what is at two addresses, where `eq` is `structural_eq` on their parts. -/
def structuralEqObjects (leaves : Leaves S) (host : Value S → Value S → Except Fault Bool)
    (eq : Value S → Value S → Seen → Except Fault Bool × Seen) (a b : Address) (x y : Object S K) (seen : Seen) : Except Fault Bool × Seen :=
  if IsContainer x && IsContainer y then
    if (a, b) ∈ seen then (.ok true, seen)
    else
      match measured x y, parts x y with
      | some (name, xs, ys), _ => (fieldEq host name xs ys, (a, b) :: seen)
      | none, some pairs => allSeen (fun p => eq p.1 p.2) pairs ((a, b) :: seen)
      | none, none => (.ok false, (a, b) :: seen)
  else if !IsContainer x && !IsContainer y then ((leaves.handle a b).elim (.error .recursion) .ok, seen)
  else (.ok false, seen)

/-- `structural_eq`. -/
def structuralEq (leaves : Leaves S) (heap : Heap S K) : Nat → Value S → Value S → Seen → Except Fault Bool × Seen
  | 0, _, _, seen => (.error .recursion, seen)
  | depth + 1, v, w, seen =>
      if v = w then (.ok true, seen)
      else match v, w with
        | .scalar s, .scalar t => (.ok (leaves.scalar s t), seen)
        | .ref a, .ref b =>
            match heap[a]?, heap[b]? with
            | some x, some y => structuralEqObjects leaves (hostEq leaves heap depth) (structuralEq leaves heap depth) a b x y seen
            | _, _ => (.ok false, seen)
        | .scalar _, .ref _ => (.ok false, seen)
        | .ref _, .scalar _ => (.ok false, seen)

/-! ### Graphs and what makes two values alike -/

/-- A finite graph of values, which may have cycles: each address in it is one of it, a key is there once, and each datetime and each
duration has the field that it is compared by. -/
structure Graph (S K : Type) where
  heap : Heap S K
  closed : ∀ object ∈ heap, ∀ v ∈ object.children, Inside heap v
  keysOnce : ∀ object ∈ heap, object.KeysOnce
  datetime : ∀ fields, .record "datetime" fields ∈ heap → (fields.lookup "epoch_ms").isSome
  duration : ∀ fields, .record "duration" fields ∈ heap → (fields.lookup "total_ms").isSome

section Bisimilarity

variable (leaves : Leaves S) (heap : Heap S K)

/-- `==` of the host language returns. -/
def Returns (v w : Value S) : Prop := ∃ depth r, hostEq leaves heap depth v w = .ok r

/-- Two values are of one kind, have the same length or the same keys, and have corresponding parts that are related. -/
inductive Alike (R : Value S → Value S → Prop) : Value S → Value S → Prop where
  | same (v : Value S) : Alike R v v
  | scalar {s t : S} (h : leaves.scalar s t) : Alike R (.scalar s) (.scalar t)
  | handle {a b : Address} {kind kind' : String} (hx : heap[a]? = some (.handle kind)) (hy : heap[b]? = some (.handle kind'))
      (h : leaves.handle a b = some true) : Alike R (.ref a) (.ref b)
  | list {a b : Address} {xs ys : List (Value S)} (hx : heap[a]? = some (.list xs)) (hy : heap[b]? = some (.list ys))
      (h : List.Forall₂ R xs ys) : Alike R (.ref a) (.ref b)
  | map {a b : Address} {xs ys : List (K × Value S)} (hx : heap[a]? = some (.map xs)) (hy : heap[b]? = some (.map ys))
      (hkeys : ∀ key, key ∈ xs.map Prod.fst ↔ key ∈ ys.map Prod.fst)
      (h : ∀ key v w, (key, v) ∈ xs → (key, w) ∈ ys → R v w) : Alike R (.ref a) (.ref b)
  | record {a b : Address} {kind : String} {xs ys : List (String × Value S)} (hx : heap[a]? = some (.record kind xs))
      (hy : heap[b]? = some (.record kind ys)) (hkind : kind ≠ "datetime" ∧ kind ≠ "duration")
      (hkeys : ∀ key, key ∈ xs.map Prod.fst ↔ key ∈ ys.map Prod.fst)
      (h : ∀ key v w, (key, v) ∈ xs → (key, w) ∈ ys → R v w) : Alike R (.ref a) (.ref b)
  /-- Of two datetimes and of two durations it is one field that counts. -/
  | measure {a b : Address} {kind name : String} {xs ys : List (String × Value S)} {v w : Value S}
      (hkind : kind = "datetime" ∧ name = "epoch_ms" ∨ kind = "duration" ∧ name = "total_ms")
      (hx : heap[a]? = some (.record kind xs)) (hy : heap[b]? = some (.record kind ys))
      (hv : xs.lookup name = some v) (hw : ys.lookup name = some w) (h : ∃ depth, hostEq leaves heap depth v w = .ok true) :
      Alike R (.ref a) (.ref b)

/-- Two values are bisimilar if some relation between them is kept along every access path. -/
def Bisimilar (v w : Value S) : Prop := ∃ R : Value S → Value S → Prop, (∀ v w, R v w → Alike leaves heap R v w) ∧ R v w

/-- `structural_eq` returns, whatever the depth from some depth on, and returns whether the values are bisimilar. -/
def Lawful (v w : Value S) : Prop :=
  ∃ n r, (∀ depth ≥ n, (structuralEq leaves heap depth v w []).1 = .ok r) ∧ (r = true ↔ Bisimilar leaves heap v w)

/-- `==` of the host language returns on every two handles, and on the fields that every two datetimes and every two durations are
compared by. -/
structure Timely : Prop where
  handle : ∀ (a b : Address) kind kind', a ≠ b → heap[a]? = some (.handle kind) → heap[b]? = some (.handle kind') → leaves.handle a b ≠ none
  measured : ∀ (a b : Address) (x y : Object S K) name xs ys v w, a ≠ b → heap[a]? = some x → heap[b]? = some y →
    RecordEquality.measured x y = some (name, xs, ys) → xs.lookup name = some v → ys.lookup name = some w → Returns leaves heap v w

end Bisimilarity

/-! ### The parts of two containers -/

section Parts

variable {J : Type} [DecidableEq J] {key : J} {v w : Value S} {xs ys : List (J × Value S)}

omit [DecidableEq S] in
theorem mem_of_lookup (h : xs.lookup key = some v) : (key, v) ∈ xs := by
  obtain ⟨before, after, rfl, -⟩ := List.lookup_eq_some_iff.mp h
  exact List.mem_append_right _ List.mem_cons_self

omit [DecidableEq S] in
theorem lookup_of_mem (hkeys : (xs.map Prod.fst).Nodup) (h : (key, v) ∈ xs) : xs.lookup key = some v := by
  induction xs with
  | nil => exact absurd h List.not_mem_nil
  | cons e rest ih =>
      rw [List.map_cons, List.nodup_cons] at hkeys
      rcases List.mem_cons.mp h with rfl | h
      · exact List.lookup_cons_self
      · have hne : key ≠ e.1 := fun heq => hkeys.1 (heq ▸ List.mem_map_of_mem (f := Prod.fst) h)
        rw [List.lookup_cons, beq_false_of_ne hne]
        exact ih hkeys.2 h

omit [DecidableEq S] in
theorem sameKeys_iff : sameKeys xs ys = true ↔ ∀ key, key ∈ xs.map Prod.fst ↔ key ∈ ys.map Prod.fst := by
  rw [sameKeys, Bool.and_eq_true, List.all_eq_true, List.all_eq_true]
  constructor
  · rintro ⟨hxs, hys⟩ key
    constructor
    · intro h
      obtain ⟨e, he, rfl⟩ := List.mem_map.mp h
      exact of_decide_eq_true (hxs e he)
    · intro h
      obtain ⟨e, he, rfl⟩ := List.mem_map.mp h
      exact of_decide_eq_true (hys e he)
  · intro h
    exact ⟨fun e he => decide_eq_true ((h e.1).mp (List.mem_map_of_mem he)), fun e he => decide_eq_true ((h e.1).mpr (List.mem_map_of_mem he))⟩

omit [DecidableEq S] in
theorem mem_common (hys : (ys.map Prod.fst).Nodup) :
    (v, w) ∈ common xs ys ↔ ∃ key, (key, v) ∈ xs ∧ (key, w) ∈ ys := by
  rw [common, List.mem_filterMap]
  constructor
  · rintro ⟨⟨key, v'⟩, hv, hw⟩
    obtain ⟨w', hlookup, heq⟩ := Option.map_eq_some_iff.mp hw
    obtain ⟨rfl, rfl⟩ := Prod.mk.inj heq
    exact ⟨key, hv, mem_of_lookup hlookup⟩
  · rintro ⟨key, hv, hw⟩
    exact ⟨(key, v), hv, Option.map_eq_some_iff.mpr ⟨w, lookup_of_mem hys hw, rfl⟩⟩

end Parts

section Shapes

variable {leaves : Leaves S} {heap : Heap S K} {R R' : Value S → Value S → Prop} {v w : Value S} {a b : Address} {x y : Object S K}

theorem Alike.mono (h : Alike leaves heap R v w) (hR : ∀ v w, R v w → R' v w) : Alike leaves heap R' v w := by
  cases h with
  | same => exact .same v
  | scalar h => exact .scalar h
  | handle hx hy h => exact .handle hx hy h
  | list hx hy h => exact .list hx hy (h.imp hR)
  | map hx hy hkeys h => exact .map hx hy hkeys fun key v w hv hw => hR v w (h key v w hv hw)
  | record hx hy hkind hkeys h => exact .record hx hy hkind hkeys fun key v w hv hw => hR v w (h key v w hv hw)
  | measure hkind hx hy hv hw h => exact .measure hkind hx hy hv hw h

omit [DecidableEq S] [DecidableEq K] in
theorem measured_eq_some {name : String} {xs ys : List (String × Value S)} (h : measured x y = some (name, xs, ys)) :
    ∃ kind, (kind = "datetime" ∧ name = "epoch_ms" ∨ kind = "duration" ∧ name = "total_ms") ∧ x = .record kind xs ∧ y = .record kind ys := by
  cases x with
  | record kind fields =>
      cases y with
      | record kind' fields' =>
          rw [measured] at h
          split at h
          · next hkinds =>
              obtain ⟨rfl, rfl⟩ := hkinds
              obtain ⟨rfl, rfl, rfl⟩ : "epoch_ms" = name ∧ fields = xs ∧ fields' = ys := by simpa using h
              exact ⟨"datetime", .inl ⟨rfl, rfl⟩, rfl, rfl⟩
          · split at h
            · next hkinds =>
                obtain ⟨rfl, rfl⟩ := hkinds
                obtain ⟨rfl, rfl, rfl⟩ : "total_ms" = name ∧ fields = xs ∧ fields' = ys := by simpa using h
                exact ⟨"duration", .inr ⟨rfl, rfl⟩, rfl, rfl⟩
            · exact absurd h nofun
      | list _ => exact absurd h nofun
      | map _ => exact absurd h nofun
      | handle _ => exact absurd h nofun
  | list _ => exact absurd h nofun
  | map _ => exact absurd h nofun
  | handle _ => exact absurd h nofun

omit [DecidableEq S] [DecidableEq K] in
theorem measured_record {kind name : String} {xs ys : List (String × Value S)}
    (hkind : kind = "datetime" ∧ name = "epoch_ms" ∨ kind = "duration" ∧ name = "total_ms") :
    measured (.record kind xs : Object S K) (.record kind ys) = some (name, xs, ys) := by
  rcases hkind with ⟨rfl, rfl⟩ | ⟨rfl, rfl⟩
  · rfl
  · rfl

theorem alike_of_parts (hx : heap[a]? = some x) (hy : heap[b]? = some y) (hky : y.KeysOnce) (hmeasured : measured x y = none)
    {pairs : List (Value S × Value S)} (hparts : parts x y = some pairs) (hR : ∀ p ∈ pairs, R p.1 p.2) : Alike leaves heap R (.ref a) (.ref b) := by
  cases x with
  | list xs =>
      cases y with
      | list ys =>
          obtain ⟨hlength, hpairs⟩ := Option.ite_none_right_eq_some.mp hparts
          obtain rfl := Option.some.inj hpairs
          exact .list hx hy (List.forall₂_iff_zip.mpr ⟨hlength, fun h => hR _ h⟩)
      | map _ => exact absurd hparts nofun
      | record _ _ => exact absurd hparts nofun
      | handle _ => exact absurd hparts nofun
  | map xs =>
      cases y with
      | map ys =>
          obtain ⟨hkeys, hpairs⟩ := Option.ite_none_right_eq_some.mp hparts
          obtain rfl := Option.some.inj hpairs
          exact .map hx hy (sameKeys_iff.mp hkeys) fun key v w hv hw => hR (v, w) ((mem_common hky).mpr ⟨key, hv, hw⟩)
      | list _ => exact absurd hparts nofun
      | record _ _ => exact absurd hparts nofun
      | handle _ => exact absurd hparts nofun
  | record kind xs =>
      cases y with
      | record kind' ys =>
          obtain ⟨⟨rfl, hkeys⟩, hpairs⟩ := Option.ite_none_right_eq_some.mp hparts
          obtain rfl := Option.some.inj hpairs
          have hkind : kind ≠ "datetime" ∧ kind ≠ "duration" := by
            constructor
            · rintro rfl
              exact absurd hmeasured nofun
            · rintro rfl
              exact absurd hmeasured nofun
          exact .record hx hy hkind (sameKeys_iff.mp hkeys) fun key v w hv hw => hR (v, w) ((mem_common hky).mpr ⟨key, hv, hw⟩)
      | list _ => exact absurd hparts nofun
      | map _ => exact absurd hparts nofun
      | handle _ => exact absurd hparts nofun
  | handle _ => cases y <;> exact absurd hparts nofun

theorem parts_of_alike (h : Alike leaves heap R (.ref a) (.ref b)) (hne : a ≠ b) (hx : heap[a]? = some x) (hy : heap[b]? = some y)
    (hcx : IsContainer x) (hky : y.KeysOnce) (hmeasured : measured x y = none) :
    ∃ pairs, parts x y = some pairs ∧ ∀ p ∈ pairs, R p.1 p.2 := by
  cases h with
  | same => exact absurd rfl hne
  | handle hx' _ _ =>
      obtain rfl := Option.some.inj (hx.symm.trans hx')
      exact absurd hcx Bool.false_ne_true
  | list hx' hy' h =>
      obtain rfl := Option.some.inj (hx.symm.trans hx')
      obtain rfl := Option.some.inj (hy.symm.trans hy')
      obtain ⟨hlength, hpairs⟩ := List.forall₂_iff_zip.mp h
      exact ⟨_, if_pos hlength, fun p hp => hpairs hp⟩
  | map hx' hy' hkeys h =>
      obtain rfl := Option.some.inj (hx.symm.trans hx')
      obtain rfl := Option.some.inj (hy.symm.trans hy')
      refine ⟨_, if_pos (sameKeys_iff.mpr hkeys), fun p hp => ?_⟩
      obtain ⟨key, hv, hw⟩ := (mem_common hky).mp hp
      exact h key _ _ hv hw
  | record hx' hy' hkind hkeys h =>
      obtain rfl := Option.some.inj (hx.symm.trans hx')
      obtain rfl := Option.some.inj (hy.symm.trans hy')
      refine ⟨_, if_pos ⟨rfl, sameKeys_iff.mpr hkeys⟩, fun p hp => ?_⟩
      obtain ⟨key, hv, hw⟩ := (mem_common hky).mp hp
      exact h key _ _ hv hw
  | measure hkind hx' hy' _ _ _ =>
      obtain rfl := Option.some.inj (hx.symm.trans hx')
      obtain rfl := Option.some.inj (hy.symm.trans hy')
      rw [measured_record hkind] at hmeasured
      exact absurd hmeasured nofun

end Shapes

/-! ### `==` of the host language -/

section Host

variable {leaves : Leaves S} {heap : Heap S K} {v w : Value S} {r : Bool}

theorem allItems_mono {A : Type} {f g : A → Except Fault Bool} {items : List A} (h : ∀ x r, f x = .ok r → g x = .ok r)
    (hf : allItems f items = .ok r) : allItems g items = .ok r := by
  induction items with
  | nil => exact hf
  | cons x rest ih =>
      rw [allItems] at hf ⊢
      cases hx : f x with
      | error fault =>
          rw [hx] at hf
          exact absurd hf nofun
      | ok here =>
          rw [hx] at hf
          rw [h x here hx]
          cases here with
          | false => exact hf
          | true => exact ih hf

theorem hostEqObjects_mono {f g : Value S → Value S → Except Fault Bool} {a b : Address} {x y : Object S K}
    (h : ∀ v w r, f v w = .ok r → g v w = .ok r) (hf : hostEqObjects leaves f a b x y = .ok r) : hostEqObjects leaves g a b x y = .ok r := by
  have hpart : ∀ v w r, (if v = w then .ok true else f v w) = .ok r → (if v = w then .ok true else g v w) = .ok r := by
    intro v w r hv
    by_cases hvw : v = w
    · rwa [if_pos hvw] at hv ⊢
    · rw [if_neg hvw] at hv ⊢
      exact h v w r hv
  unfold hostEqObjects at hf ⊢
  cases hmeasured : measured x y with
  | some m =>
      obtain ⟨name, xs, ys⟩ := m
      simp only [hmeasured, fieldEq] at hf ⊢
      split at hf
      · exact h _ _ _ hf
      · exact absurd hf nofun
  | none =>
      simp only [hmeasured] at hf ⊢
      split at hf
      · exact hf
      · exact hf
      · split at hf
        · next hlength =>
            rw [if_pos hlength]
            exact allItems_mono (fun p r => hpart p.1 p.2 r) hf
        · next hlength => rwa [if_neg hlength]
      · next xs ys =>
          split at hf
          · next hlength =>
              rw [if_pos hlength]
              refine allItems_mono (fun e r he => ?_) hf
              cases hlookup : ys.lookup e.1 with
              | none => rwa [hlookup] at he
              | some w =>
                  rw [hlookup] at he
                  exact hpart e.2 w r he
          · next hlength => rwa [if_neg hlength]
      · exact hf

theorem hostEq_mono {depth depth' : Nat} (h : hostEq leaves heap depth v w = .ok r) (hle : depth ≤ depth') :
    hostEq leaves heap depth' v w = .ok r := by
  induction depth generalizing depth' v w r with
  | zero =>
      cases v with
      | scalar s => cases w <;> rwa [hostEq] at h ⊢
      | ref a =>
          cases w with
          | scalar t => rwa [hostEq] at h ⊢
          | ref b => exact absurd h nofun
  | succ depth ih =>
      obtain ⟨depth', rfl⟩ := Nat.exists_eq_add_of_le' (Nat.le_trans (Nat.succ_pos depth) hle)
      cases v with
      | scalar s => cases w <;> rwa [hostEq] at h ⊢
      | ref a =>
          cases w with
          | scalar t => rwa [hostEq] at h ⊢
          | ref b =>
              rw [hostEq] at h ⊢
              cases hx : heap[a]? with
              | none => rwa [hx] at h
              | some x =>
                  cases hy : heap[b]? with
                  | none => rwa [hx, hy] at h
                  | some y =>
                      rw [hx, hy] at h
                      exact hostEqObjects_mono (fun v w r hr => ih hr (Nat.le_of_succ_le_succ hle)) h

end Host

/-! ### The search -/

section Search

variable {leaves : Leaves S} {heap : Heap S K} {R : Value S → Value S → Prop} {seen seen' seen'' : Seen} {v w : Value S}

/-- The two are alike already, or are a pair that has been met. -/
def Met (leaves : Leaves S) (heap : Heap S K) (seen : Seen) (v w : Value S) : Prop :=
  Alike leaves heap (fun _ _ => False) v w ∨ ∃ a b, v = .ref a ∧ w = .ref b ∧ (a, b) ∈ seen

/-- Each pair that has been added has been found to be alike as far as the pairs go. -/
def Closed (leaves : Leaves S) (heap : Heap S K) (seen seen' : Seen) : Prop :=
  ∀ p ∈ seen', p ∉ seen → Alike leaves heap (Met leaves heap seen') (.ref p.1) (.ref p.2)

theorem Met.mono (h : Met leaves heap seen v w) (hsub : seen ⊆ seen') : Met leaves heap seen' v w := by
  rcases h with h | ⟨a, b, rfl, rfl, h⟩
  · exact .inl h
  · exact .inr ⟨a, b, rfl, rfl, hsub h⟩

theorem Closed.trans (h : Closed leaves heap seen seen') (h' : Closed leaves heap seen' seen'') (hsub : seen' ⊆ seen'') :
    Closed leaves heap seen seen'' := by
  intro p hp hnew
  by_cases hmiddle : p ∈ seen'
  · exact (h p hmiddle hnew).mono fun _ _ hmet => hmet.mono hsub
  · exact h' p hp hmiddle

/-- What a comparison that returns leaves behind. -/
structure Found (leaves : Leaves S) (heap : Heap S K) (met : Seen → Prop) (seen : Seen) (result : Except Fault Bool × Seen) : Prop where
  returns : ∃ r, result.1 = .ok r
  grows : seen ⊆ result.2
  closed : result.1 = .ok true → Closed leaves heap seen result.2 ∧ met result.2

/-- The pairs of addresses that have not been met. -/
def missing (heap : Heap S K) (seen : Seen) : Nat :=
  ((Finset.range heap.length ×ˢ Finset.range heap.length).filter (· ∉ seen)).card

omit [DecidableEq S] [DecidableEq K] in
theorem missing_mono (hsub : seen ⊆ seen') : missing heap seen' ≤ missing heap seen :=
  Finset.card_le_card (Finset.monotone_filter_right _ fun _ _ hp hseen => hp (hsub hseen))

omit [DecidableEq S] [DecidableEq K] in
theorem missing_cons {a b : Address} (ha : a < heap.length) (hb : b < heap.length) (hnew : (a, b) ∉ seen) :
    missing heap ((a, b) :: seen) < missing heap seen := by
  refine Finset.card_lt_card ⟨Finset.monotone_filter_right _ fun _ _ hp hseen => hp (List.mem_cons_of_mem _ hseen), fun hsub => ?_⟩
  have hin : (a, b) ∈ (Finset.range heap.length ×ˢ Finset.range heap.length).filter (· ∉ seen) :=
    Finset.mem_filter.mpr ⟨Finset.mem_product.mpr ⟨Finset.mem_range.mpr ha, Finset.mem_range.mpr hb⟩, hnew⟩
  exact (Finset.mem_filter.mp (hsub hin)).2 List.mem_cons_self

/-- The loop over the parts, when each of them is found out whatever has been met in addition. -/
theorem allSeen_found {eq : Value S → Value S → Seen → Except Fault Bool × Seen} {pairs : List (Value S × Value S)}
    (h : ∀ p ∈ pairs, ∀ seen', seen ⊆ seen' → Found leaves heap (fun seen => Met leaves heap seen p.1 p.2) seen' (eq p.1 p.2 seen')) :
    Found leaves heap (fun seen => ∀ p ∈ pairs, Met leaves heap seen p.1 p.2) seen (allSeen (fun p => eq p.1 p.2) pairs seen) := by
  induction pairs generalizing seen with
  | nil => exact ⟨⟨true, rfl⟩, List.Subset.refl _, fun _ => ⟨fun p hp hnew => absurd hp hnew, fun p hp => absurd hp List.not_mem_nil⟩⟩
  | cons p rest ih =>
      obtain ⟨⟨r, hr⟩, hgrows, hclosed⟩ := h p List.mem_cons_self seen (List.Subset.refl _)
      rw [allSeen]
      generalize hresult : eq p.1 p.2 seen = result at hr hgrows hclosed
      obtain ⟨result, seen'⟩ := result
      obtain rfl : result = .ok r := hr
      cases r with
      | false => exact ⟨⟨false, rfl⟩, hgrows, fun htrue => absurd htrue nofun⟩
      | true =>
          obtain ⟨hclosed, hmet⟩ := hclosed rfl
          have hrest := @ih seen' fun q hq seen'' hsub => h q (List.mem_cons_of_mem _ hq) seen'' (List.Subset.trans hgrows hsub)
          refine ⟨hrest.returns, List.Subset.trans hgrows hrest.grows, fun htrue => ?_⟩
          obtain ⟨hclosed', hmet'⟩ := hrest.closed htrue
          refine ⟨hclosed.trans hclosed' hrest.grows, fun q hq => ?_⟩
          rcases List.mem_cons.mp hq with rfl | hq
          · exact hmet.mono hrest.grows
          · exact hmet' q hq

theorem Found.of_false {met : Seen → Prop} (hsub : seen ⊆ seen') : Found leaves heap met seen (.ok false, seen') :=
  ⟨⟨false, rfl⟩, hsub, fun htrue => absurd htrue nofun⟩

theorem Found.of_met {r : Bool} (h : r = true → Met leaves heap seen v w) :
    Found leaves heap (fun seen => Met leaves heap seen v w) seen (.ok r, seen) :=
  ⟨⟨r, rfl⟩, List.Subset.refl _, fun htrue => ⟨fun _ hp hnew => absurd hp hnew, h (Except.ok.inj htrue)⟩⟩

theorem Found.of_pair (met : Seen → Prop) {a b : Address} {result : Except Fault Bool × Seen}
    (h : Found leaves heap met ((a, b) :: seen) result) (halike : ∀ seen', met seen' → Alike leaves heap (Met leaves heap seen') (.ref a) (.ref b)) :
    Found leaves heap (fun seen => Met leaves heap seen (.ref a) (.ref b)) seen result := by
  refine ⟨h.returns, fun p hp => h.grows (List.mem_cons_of_mem _ hp), fun htrue => ?_⟩
  obtain ⟨hclosed, hmet⟩ := h.closed htrue
  refine ⟨fun p hp hnew => ?_, .inr ⟨a, b, rfl, rfl, h.grows List.mem_cons_self⟩⟩
  by_cases hpair : p = (a, b)
  · obtain rfl := hpair
    exact halike _ hmet
  · exact hclosed p hp fun hold => (List.mem_cons.mp hold).elim hpair hnew

omit [DecidableEq S] in
theorem common_subset {J : Type} [DecidableEq J] {xs ys : List (J × Value S)} {p : Value S × Value S} (h : p ∈ common xs ys) :
    p.1 ∈ xs.map Prod.snd ∧ p.2 ∈ ys.map Prod.snd := by
  obtain ⟨e, he, hp⟩ := List.mem_filterMap.mp h
  obtain ⟨w, hw, rfl⟩ := Option.map_eq_some_iff.mp hp
  exact ⟨List.mem_map_of_mem he, List.mem_map_of_mem (f := Prod.snd) (mem_of_lookup hw)⟩

omit [DecidableEq S] in
theorem parts_children {x y : Object S K} {pairs : List (Value S × Value S)} (h : parts x y = some pairs) {p : Value S × Value S} (hp : p ∈ pairs) :
    p.1 ∈ x.children ∧ p.2 ∈ y.children := by
  unfold parts at h
  split at h
  · obtain ⟨-, hpairs⟩ := Option.ite_none_right_eq_some.mp h
    obtain rfl := Option.some.inj hpairs
    exact ⟨(List.of_mem_zip hp).1, (List.of_mem_zip hp).2⟩
  · obtain ⟨-, hpairs⟩ := Option.ite_none_right_eq_some.mp h
    obtain rfl := Option.some.inj hpairs
    exact common_subset hp
  · obtain ⟨-, hpairs⟩ := Option.ite_none_right_eq_some.mp h
    obtain rfl := Option.some.inj hpairs
    exact common_subset hp
  · exact absurd h nofun

end Search

section Graphs

variable {leaves : Leaves S} {g : Graph S K} {v w : Value S} {a b : Address} {x y : Object S K}

omit [DecidableEq S] [DecidableEq K] in
theorem Graph.child (hx : g.heap[a]? = some x) (hv : v ∈ x.children) : Inside g.heap v :=
  g.closed x (List.mem_of_getElem? hx) v hv

omit [DecidableEq S] [DecidableEq K] in
theorem Graph.measured_fields {name : String} {xs ys : List (String × Value S)} (hx : g.heap[a]? = some x) (hy : g.heap[b]? = some y)
    (h : measured x y = some (name, xs, ys)) : ∃ v w, xs.lookup name = some v ∧ ys.lookup name = some w := by
  obtain ⟨kind, hkind, rfl, rfl⟩ := measured_eq_some h
  have hxs := List.mem_of_getElem? hx
  have hys := List.mem_of_getElem? hy
  rcases hkind with ⟨rfl, rfl⟩ | ⟨rfl, rfl⟩
  · obtain ⟨v, hv⟩ := Option.isSome_iff_exists.mp (g.datetime xs hxs)
    obtain ⟨w, hw⟩ := Option.isSome_iff_exists.mp (g.datetime ys hys)
    exact ⟨v, w, hv, hw⟩
  · obtain ⟨v, hv⟩ := Option.isSome_iff_exists.mp (g.duration xs hxs)
    obtain ⟨w, hw⟩ := Option.isSome_iff_exists.mp (g.duration ys hys)
    exact ⟨v, w, hv, hw⟩

/-- A depth is enough for all that is compared by `==` of the host language. -/
def Suffices (leaves : Leaves S) (heap : Heap S K) (n : Nat) : Prop :=
  ∀ (a b : Address) (x y : Object S K) name xs ys v w, a ≠ b → heap[a]? = some x → heap[b]? = some y →
    measured x y = some (name, xs, ys) → xs.lookup name = some v → ys.lookup name = some w → ∀ depth ≥ n, ∃ r, hostEq leaves heap depth v w = .ok r

theorem exists_suffices (h : Timely leaves g.heap) : ∃ n, Suffices leaves g.heap n := by
  have hpair : ∀ p : Address × Address, ∃ n, ∀ (x y : Object S K) name xs ys v w, p.1 ≠ p.2 → g.heap[p.1]? = some x → g.heap[p.2]? = some y →
      measured x y = some (name, xs, ys) → xs.lookup name = some v → ys.lookup name = some w →
      ∀ depth ≥ n, ∃ r, hostEq leaves g.heap depth v w = .ok r := by
    intro p
    by_cases hp : ∃ (x y : Object S K) (name : _) (xs ys : _) (v w : Value S), p.1 ≠ p.2 ∧ g.heap[p.1]? = some x ∧ g.heap[p.2]? = some y ∧
        measured x y = some (name, xs, ys) ∧ xs.lookup name = some v ∧ ys.lookup name = some w
    · obtain ⟨x, y, name, xs, ys, v, w, hne, hx, hy, hmeasured, hv, hw⟩ := hp
      obtain ⟨n, r, hr⟩ := h.measured p.1 p.2 x y name xs ys v w hne hx hy hmeasured hv hw
      refine ⟨n, fun x' y' name' xs' ys' v' w' _ hx' hy' hmeasured' hv' hw' depth hdepth => ?_⟩
      obtain rfl := Option.some.inj (hx.symm.trans hx')
      obtain rfl := Option.some.inj (hy.symm.trans hy')
      obtain ⟨rfl, rfl, rfl⟩ : name = name' ∧ xs = xs' ∧ ys = ys' := by simpa using hmeasured.symm.trans hmeasured'
      obtain rfl := Option.some.inj (hv.symm.trans hv')
      obtain rfl := Option.some.inj (hw.symm.trans hw')
      exact ⟨r, hostEq_mono hr hdepth⟩
    · exact ⟨0, fun x y name xs ys v w hne hx hy hmeasured hv hw => absurd ⟨x, y, name, xs, ys, v, w, hne, hx, hy, hmeasured, hv, hw⟩ hp⟩
  choose n hn using hpair
  refine ⟨(Finset.range g.heap.length ×ˢ Finset.range g.heap.length).sup n, ?_⟩
  intro a b x y name xs ys v w hne hx hy hmeasured hv hw depth hdepth
  have hmem : (a, b) ∈ Finset.range g.heap.length ×ˢ Finset.range g.heap.length :=
    Finset.mem_product.mpr ⟨Finset.mem_range.mpr (List.getElem?_eq_some_iff.mp hx).1, Finset.mem_range.mpr (List.getElem?_eq_some_iff.mp hy).1⟩
  exact hn (a, b) x y name xs ys v w hne hx hy hmeasured hv hw depth (Nat.le_trans (Finset.le_sup hmem) hdepth)

theorem structuralEqObjects_found {eq : Value S → Value S → Seen → Except Fault Bool × Seen} {n depth : Nat} {seen : Seen}
    (htimely : Timely leaves g.heap) (hn : Suffices leaves g.heap n) (hdepth : n ≤ depth) (hne : a ≠ b) (hx : g.heap[a]? = some x)
    (hy : g.heap[b]? = some y)
    (heq : ∀ v w seen', (a, b) ∉ seen → (a, b) :: seen ⊆ seen' → Inside g.heap v → Inside g.heap w →
      Found leaves g.heap (fun seen => Met leaves g.heap seen v w) seen' (eq v w seen')) :
    Found leaves g.heap (fun seen => Met leaves g.heap seen (.ref a) (.ref b)) seen
      (structuralEqObjects leaves (hostEq leaves g.heap depth) eq a b x y seen) := by
  have hky := g.keysOnce y (List.mem_of_getElem? hy)
  unfold structuralEqObjects
  by_cases hcontainers : (IsContainer x && IsContainer y) = true
  · rw [if_pos hcontainers]
    by_cases hseen : (a, b) ∈ seen
    · rw [if_pos hseen]
      exact .of_met fun _ => .inr ⟨a, b, rfl, rfl, hseen⟩
    · rw [if_neg hseen]
      cases hmeasured : measured x y with
      | some m =>
          obtain ⟨name, xs, ys⟩ := m
          obtain ⟨v, w, hv, hw⟩ := g.measured_fields hx hy hmeasured
          obtain ⟨r, hr⟩ := hn a b x y name xs ys v w hne hx hy hmeasured hv hw depth hdepth
          simp only [fieldEq, hv, hw, hr]
          obtain ⟨kind, hkind, rfl, rfl⟩ := measured_eq_some hmeasured
          refine Found.of_pair (fun _ => r = true)
            ⟨⟨r, rfl⟩, List.Subset.refl _, fun htrue => ⟨fun p hp hnew => absurd hp hnew, Except.ok.inj htrue⟩⟩ fun _ htrue => ?_
          exact .measure hkind hx hy hv hw ⟨depth, htrue ▸ hr⟩
      | none =>
          cases hparts : parts x y with
          | none => exact .of_false (List.subset_cons_self _ _)
          | some pairs =>
              refine Found.of_pair _ (allSeen_found fun p hp seen' hsub => ?_) fun seen' hmet => alike_of_parts hx hy hky hmeasured hparts hmet
              obtain ⟨hv, hw⟩ := parts_children hparts hp
              exact heq p.1 p.2 seen' hseen hsub (g.child hx hv) (g.child hy hw)
  · rw [if_neg hcontainers]
    by_cases hhandles : (!IsContainer x && !IsContainer y) = true
    · rw [if_pos hhandles]
      cases x with
      | handle kind =>
          cases y with
          | handle kind' =>
              obtain ⟨r, hr⟩ := Option.ne_none_iff_exists'.mp (htimely.handle a b kind kind' hne hx hy)
              rw [hr]
              exact .of_met fun htrue => .inl (.handle hx hy (htrue ▸ hr))
          | _ => exact absurd hhandles Bool.false_ne_true
      | _ => exact absurd hhandles Bool.false_ne_true
    · rw [if_neg hhandles]
      exact .of_false (List.Subset.refl _)

/-- The search returns at every depth that is greater than the number of pairs that have not been met, and what it adds is alike. -/
theorem structuralEq_found {n depth : Nat} {seen : Seen} (htimely : Timely leaves g.heap) (hn : Suffices leaves g.heap n) (hv : Inside g.heap v)
    (hw : Inside g.heap w) (hdepth : missing g.heap seen + n < depth) :
    Found leaves g.heap (fun seen => Met leaves g.heap seen v w) seen (structuralEq leaves g.heap depth v w seen) := by
  induction depth generalizing v w seen with
  | zero => exact absurd hdepth (Nat.not_lt_zero _)
  | succ depth ih =>
      unfold structuralEq
      by_cases hvw : v = w
      · rw [if_pos hvw]
        exact .of_met fun _ => .inl (hvw ▸ .same v)
      · rw [if_neg hvw]
        cases v with
        | scalar s =>
            cases w with
            | scalar t => exact .of_met fun htrue => .inl (.scalar htrue)
            | ref b => exact .of_false (List.Subset.refl _)
        | ref a =>
            cases w with
            | scalar t => exact .of_false (List.Subset.refl _)
            | ref b =>
                have ha := hv a rfl
                have hb := hw b rfl
                have hne : a ≠ b := fun hab => hvw (congrArg Value.ref hab)
                simp only [List.getElem?_eq_getElem ha, List.getElem?_eq_getElem hb]
                refine structuralEqObjects_found htimely hn (by omega) hne (List.getElem?_eq_getElem ha) (List.getElem?_eq_getElem hb) ?_
                intro v w seen' hnew hsub hv hw
                have hfewer := missing_cons ha hb hnew
                have hmono : missing g.heap seen' ≤ missing g.heap _ := missing_mono hsub
                exact ih hv hw (by omega)

theorem bisimilar_of_closed {seen : Seen} (hclosed : Closed leaves g.heap [] seen) (hmet : Met leaves g.heap seen v w) :
    Bisimilar leaves g.heap v w := by
  refine ⟨Met leaves g.heap seen, fun v w h => ?_, hmet⟩
  rcases h with halike | ⟨a, b, rfl, rfl, hpair⟩
  · exact halike.mono fun _ _ h => h.elim
  · exact hclosed (a, b) hpair List.not_mem_nil

theorem allSeen_true {A : Type} {f : A → Seen → Except Fault Bool × Seen} {items : List A} {seen : Seen} {r : Bool}
    (h : ∀ x ∈ items, ∀ seen r, (f x seen).1 = .ok r → r = true) (hr : (allSeen f items seen).1 = .ok r) : r = true := by
  induction items generalizing seen with
  | nil => exact (Except.ok.inj hr).symm
  | cons x rest ih =>
      rw [allSeen] at hr
      have hx := h x List.mem_cons_self seen
      generalize f x seen = result at hr hx
      obtain ⟨result, seen'⟩ := result
      cases result with
      | error fault => exact absurd hr nofun
      | ok here =>
          obtain rfl := hx here rfl
          exact ih (fun y hy => h y (List.mem_cons_of_mem _ hy)) hr

theorem structuralEqObjects_true {R : Value S → Value S → Prop} {eq : Value S → Value S → Seen → Except Fault Bool × Seen} {depth : Nat}
    {seen : Seen} {r : Bool} (hne : a ≠ b) (hx : g.heap[a]? = some x) (hy : g.heap[b]? = some y)
    (heq : ∀ v w seen r, R v w → (eq v w seen).1 = .ok r → r = true) (h : Alike leaves g.heap R (.ref a) (.ref b))
    (hr : (structuralEqObjects leaves (hostEq leaves g.heap depth) eq a b x y seen).1 = .ok r) : r = true := by
  have hky := g.keysOnce y (List.mem_of_getElem? hy)
  unfold structuralEqObjects at hr
  by_cases hcontainers : (IsContainer x && IsContainer y) = true
  · rw [if_pos hcontainers] at hr
    by_cases hseen : (a, b) ∈ seen
    · rw [if_pos hseen] at hr
      exact (Except.ok.inj hr).symm
    · rw [if_neg hseen] at hr
      cases hmeasured : measured x y with
      | none =>
          obtain ⟨pairs, hparts, hR⟩ := parts_of_alike h hne hx hy (Bool.and_eq_true_iff.mp hcontainers).1 hky hmeasured
          simp only [hmeasured, hparts] at hr
          exact allSeen_true (fun p hp seen r => heq p.1 p.2 seen r (hR p hp)) hr
      | some m =>
          obtain ⟨name, xs, ys⟩ := m
          obtain ⟨kind, hkind, rfl, rfl⟩ := measured_eq_some hmeasured
          simp only [hmeasured, fieldEq] at hr
          -- The field decides, whatever the depth.
          have hfield : ∀ v w, xs.lookup name = some v → ys.lookup name = some w → ∃ depth, hostEq leaves g.heap depth v w = .ok true := by
            intro v w hv hw
            cases h with
            | same => exact absurd rfl hne
            | handle hx' => exact absurd (hx.symm.trans hx') nofun
            | list hx' => exact absurd (hx.symm.trans hx') nofun
            | map hx' => exact absurd (hx.symm.trans hx') nofun
            | record hx' _ hother =>
                obtain ⟨rfl, -⟩ : kind = _ ∧ xs = _ := by simpa using hx.symm.trans hx'
                rcases hkind with ⟨rfl, -⟩ | ⟨rfl, -⟩
                · exact absurd rfl hother.1
                · exact absurd rfl hother.2
            | measure hkind' hx' hy' hv' hw' h =>
                obtain ⟨rfl, rfl⟩ : kind = _ ∧ xs = _ := by simpa using hx.symm.trans hx'
                obtain rfl : ys = _ := by simpa using hy.symm.trans hy'
                rw [measured_record hkind'] at hmeasured
                obtain rfl : _ = name := by simpa using hmeasured
                obtain rfl := Option.some.inj (hv.symm.trans hv')
                obtain rfl := Option.some.inj (hw.symm.trans hw')
                exact h
          split at hr
          · next v w hv hw =>
              obtain ⟨depth', htrue⟩ := hfield v w hv hw
              have hsame := (hostEq_mono hr (Nat.le_max_left depth depth')).symm.trans (hostEq_mono htrue (Nat.le_max_right depth depth'))
              exact Except.ok.inj hsame
          · exact absurd hr nofun
  · rw [if_neg hcontainers] at hr
    have hhandles : ∃ kind kind', x = .handle kind ∧ y = .handle kind' ∧ leaves.handle a b = some true := by
      cases h with
      | same => exact absurd rfl hne
      | handle hx' hy' h => exact ⟨_, _, Option.some.inj (hx.symm.trans hx'), Option.some.inj (hy.symm.trans hy'), h⟩
      | list hx' hy' =>
          rw [Option.some.inj (hx.symm.trans hx'), Option.some.inj (hy.symm.trans hy')] at hcontainers
          exact absurd rfl hcontainers
      | map hx' hy' =>
          rw [Option.some.inj (hx.symm.trans hx'), Option.some.inj (hy.symm.trans hy')] at hcontainers
          exact absurd rfl hcontainers
      | record hx' hy' =>
          rw [Option.some.inj (hx.symm.trans hx'), Option.some.inj (hy.symm.trans hy')] at hcontainers
          exact absurd rfl hcontainers
      | measure _ hx' hy' =>
          rw [Option.some.inj (hx.symm.trans hx'), Option.some.inj (hy.symm.trans hy')] at hcontainers
          exact absurd rfl hcontainers
    obtain ⟨kind, kind', rfl, rfl, hequal⟩ := hhandles
    simp only [hequal] at hr
    exact (Except.ok.inj hr).symm

theorem structuralEq_true {R : Value S → Value S → Prop} (hR : ∀ v w, R v w → Alike leaves g.heap R v w) {depth : Nat} {seen : Seen} {r : Bool}
    (h : R v w) (hr : (structuralEq leaves g.heap depth v w seen).1 = .ok r) : r = true := by
  induction depth generalizing v w seen r with
  | zero => exact absurd hr nofun
  | succ depth ih =>
      have halike := hR v w h
      unfold structuralEq at hr
      by_cases hvw : v = w
      · rw [if_pos hvw] at hr
        exact (Except.ok.inj hr).symm
      · rw [if_neg hvw] at hr
        cases v with
        | scalar s =>
            cases halike with
            | same => exact absurd rfl hvw
            | scalar heq => exact (Except.ok.inj hr).symm.trans heq
        | ref a =>
            cases w with
            | scalar t => cases halike
            | ref b =>
                have hne : a ≠ b := fun hab => hvw (congrArg Value.ref hab)
                obtain ⟨⟨x, hx⟩, ⟨y, hy⟩⟩ : (∃ x, g.heap[a]? = some x) ∧ ∃ y, g.heap[b]? = some y := by
                  cases halike with
                  | same => exact absurd rfl hne
                  | handle hx hy => exact ⟨⟨_, hx⟩, ⟨_, hy⟩⟩
                  | list hx hy => exact ⟨⟨_, hx⟩, ⟨_, hy⟩⟩
                  | map hx hy => exact ⟨⟨_, hx⟩, ⟨_, hy⟩⟩
                  | record hx hy => exact ⟨⟨_, hx⟩, ⟨_, hy⟩⟩
                  | measure _ hx hy => exact ⟨⟨_, hx⟩, ⟨_, hy⟩⟩
                simp only [hx, hy] at hr
                exact structuralEqObjects_true hne hx hy (fun v w seen r hvw hr => ih hvw hr) halike hr

theorem lawful_of_timely (htimely : Timely leaves g.heap) (hv : Inside g.heap v) (hw : Inside g.heap w) : Lawful leaves g.heap v w := by
  obtain ⟨n, hn⟩ := exists_suffices htimely
  classical
  refine ⟨missing g.heap [] + n + 1, decide (Bisimilar leaves g.heap v w), fun depth hdepth => ?_, decide_eq_true_iff⟩
  have hfound := structuralEq_found htimely hn hv hw hdepth
  obtain ⟨r, hr⟩ := hfound.returns
  rw [hr]
  refine congrArg Except.ok (Bool.eq_iff_iff.mpr (Iff.trans ⟨fun htrue => ?_, fun hbisimilar => ?_⟩ decide_eq_true_iff.symm))
  · obtain ⟨hclosed, hmet⟩ := hfound.closed (htrue ▸ hr)
    exact bisimilar_of_closed hclosed hmet
  · obtain ⟨R, hR, h⟩ := hbisimilar
    exact structuralEq_true hR h hr

theorem timely_of_lawful (h : ∀ v w, Inside g.heap v → Inside g.heap w → Lawful leaves g.heap v w) : Timely leaves g.heap := by
  have hreturns : ∀ (a b : Address) (x y : Object S K), a ≠ b → g.heap[a]? = some x → g.heap[b]? = some y →
      ∃ depth r, (structuralEqObjects leaves (hostEq leaves g.heap depth) (structuralEq leaves g.heap depth) a b x y []).1 = .ok r := by
    intro a b x y hne hx hy
    have ha : Inside g.heap (.ref a) := fun c hc => Value.ref.inj hc ▸ (List.getElem?_eq_some_iff.mp hx).1
    have hb : Inside g.heap (.ref b) := fun c hc => Value.ref.inj hc ▸ (List.getElem?_eq_some_iff.mp hy).1
    obtain ⟨n, r, hr, -⟩ := h (.ref a) (.ref b) ha hb
    refine ⟨n, r, ?_⟩
    have hdeeper := hr (n + 1) (Nat.le_succ n)
    unfold structuralEq at hdeeper
    rw [if_neg fun hab => hne (Value.ref.inj hab)] at hdeeper
    simpa only [hx, hy] using hdeeper
  constructor
  case handle =>
    intro a b kind kind' hne hx hy hnone
    obtain ⟨depth, r, hr⟩ := hreturns a b _ _ hne hx hy
    simp only [structuralEqObjects, IsContainer, hnone] at hr
    exact absurd hr nofun
  case measured =>
    intro a b x y name xs ys v w hne hx hy hmeasured hv hw
    obtain ⟨depth, r, hr⟩ := hreturns a b x y hne hx hy
    obtain ⟨kind, hkind, rfl, rfl⟩ := measured_eq_some hmeasured
    unfold structuralEqObjects at hr
    simp only [IsContainer, Bool.and_self, if_true, List.not_mem_nil, if_false, hmeasured, fieldEq, hv, hw] at hr
    exact ⟨depth, r, hr⟩

end Graphs

section Counterexample

/-- Numbers. -/
def numbers : Leaves Int := ⟨fun m n => m == n, fun _ _ => some false⟩

/-- Two datetimes to whose field the program has assigned the datetime itself. -/
def selfDated : Graph Int String where
  heap := [.record "datetime" [("epoch_ms", .ref 0)], .record "datetime" [("epoch_ms", .ref 1)]]
  closed := by simp [Object.children, Inside]
  keysOnce := by simp [Object.KeysOnce]
  datetime := by
    intro fields h
    simp only [List.mem_cons, Object.record.injEq, true_and, List.not_mem_nil, or_false] at h
    rcases h with rfl | rfl <;> rfl
  duration := by simp

theorem selfDated_hostEq (depth : Nat) : hostEq numbers selfDated.heap depth (.ref 0) (.ref 1) = .error .recursion := by
  induction depth with
  | zero => rfl
  | succ depth ih =>
      rw [hostEq]
      exact ih

end Counterexample

end Nodus.RecordEquality
