import Mathlib.Data.Finset.Card
import Mathlib.Data.List.Nodup
import Mathlib.Data.Set.Function
import Mathlib.Logic.Function.Basic
import Mathlib.Logic.Relation

/-! The builtin `copy`: a deep copy of a graph of lists, maps and records that keeps what is shared. -/

namespace Nodus.Copies

open Relation

abbrev Address := Nat

/-- A value: nil, a boolean, a number or a string, or what is at an address. -/
inductive Value (S : Type) where
  | scalar (s : S)
  | ref (a : Address)
  deriving DecidableEq, Repr

/-- What is at an address: a container, or a handle, which is a function, a method, a channel, a coroutine or a task. -/
inductive Object (S K : Type) where
  | list (items : List (Value S))
  | map (entries : List (K × Value S))
  | record (kind : String) (fields : List (String × Value S))
  | handle (kind : String)
  deriving Repr

variable {S K : Type} [DecidableEq K]

abbrev Heap (S K : Type) := List (Object S K)

/-- `d[key] = v`. -/
def assign {J : Type} [DecidableEq J] (key : J) (v : Value S) : List (J × Value S) → List (J × Value S)
  | [] => [(key, v)]
  | e :: rest => if e.1 = key then (key, v) :: rest else e :: assign key v rest

/-- Where a value goes in a container. -/
inductive Slot (K : Type) where
  | item
  | key (k : K)
  | field (name : String)

namespace Object

/-- A value is appended to a list, or put into a map or a record. -/
def put (v : Value S) : Slot K → Object S K → Object S K
  | .item, .list items => .list (items ++ [v])
  | .key k, .map entries => .map (assign k v entries)
  | .field name, .record kind fields => .record kind (assign name v fields)
  | _, object => object

end Object

/-- What `copy` raises, with its message. -/
structure CopyError where
  message : String
  deriving DecidableEq, Repr

def copyError (path kind : String) : CopyError :=
  let place := if path = "" then "a " ++ kind else "the value at " ++ path
  ⟨"copy(x) cannot copy " ++ place ++ (if path = "" then "" else " (" ++ kind ++ ")") ++
    "; a function, method, channel, coroutine or task has no meaningful copy"⟩

/-- The heap, and the memo of the containers that have been met with their copies. -/
structure Copying (S K : Type) where
  heap : Heap S K
  memo : Address → Option Address := fun _ => none

namespace Copying

/-- A new container is the copy of the one at an address. -/
def enter (st : Copying S K) (a : Address) (object : Object S K) : Copying S K where
  heap := st.heap ++ [object]
  memo := Function.update st.memo a (some st.heap.length)

def put (st : Copying S K) (out : Address) (slot : Slot K) (v : Value S) : Copying S K :=
  { st with heap := st.heap.modify out (Object.put v slot) }

end Copying

/-- The loop over the parts of a container, each with its place and its path: they are cloned in turn and put into the copy. -/
def fill (clone : String → Value S → Copying S K → Option (Except CopyError (Value S) × Copying S K)) (out : Address) :
    List (Slot K × String × Value S) → Copying S K → Option (Except CopyError (Value S) × Copying S K)
  | [], st => some (.ok (.ref out), st)
  | (slot, path, v) :: rest, st =>
      match clone path v st with
      | none => none
      | some (.error e, st') => some (.error e, st')
      | some (.ok c, st') => fill clone out rest (st'.put out slot c)

/-- `clone`, where `text` writes a key in a path. There are `depth` nested calls at most. -/
def clone (text : K → String) : Nat → String → Value S → Copying S K → Option (Except CopyError (Value S) × Copying S K)
  | _, _, .scalar s, st => some (.ok (.scalar s), st)
  | 0, _, .ref _, _ => none
  | depth + 1, path, .ref a, st =>
      match st.memo a with
      | some b => some (.ok (.ref b), st)
      | none =>
          match st.heap[a]? with
          | some (.list items) =>
              fill (clone text depth) st.heap.length
                (items.mapIdx fun index item => (.item, path ++ "[" ++ toString index ++ "]", item)) (st.enter a (.list []))
          | some (.map entries) =>
              fill (clone text depth) st.heap.length
                (entries.map fun e => (.key e.1, path ++ "[\x22" ++ text e.1 ++ "\x22]", e.2)) (st.enter a (.map []))
          | some (.record kind fields) =>
              fill (clone text depth) st.heap.length
                (fields.map fun e => (.field e.1, if path = "" then e.1 else path ++ "." ++ e.1, e.2)) (st.enter a (.record kind []))
          | some (.handle kind) => some (.error (copyError path kind), st)
          | none => none

/-- `copy(x)`. -/
def copy (text : K → String) (depth : Nat) (heap : Heap S K) (x : Value S) : Option (Except CopyError (Value S) × Heap S K) :=
  (clone text depth "" x { heap }).map fun (result, st) => (result, st.heap)

/-! ### Graphs -/

def Value.image (f : Address → Address) : Value S → Value S
  | .scalar s => .scalar s
  | .ref a => .ref (f a)

namespace Object

/-- What a container holds, in order. -/
def children : Object S K → List (Value S)
  | .list items => items
  | .map entries => entries.map Prod.snd
  | .record _ fields => fields.map Prod.snd
  | .handle _ => []

/-- The same container with other containers in the places of those it holds. -/
def image (f : Address → Address) : Object S K → Object S K
  | .list items => .list (items.map (Value.image f))
  | .map entries => .map (entries.map fun e => (e.1, e.2.image f))
  | .record kind fields => .record kind (fields.map fun e => (e.1, e.2.image f))
  | .handle kind => .handle kind

def IsHandle : Object S K → Prop
  | .handle _ => True
  | _ => False

/-- No key and no field is there twice. -/
def KeysOnce : Object S K → Prop
  | .map entries => (entries.map Prod.fst).Nodup
  | .record _ fields => (fields.map Prod.fst).Nodup
  | _ => True

end Object

/-- Every address in a value is one of the heap. -/
def Inside (heap : Heap S K) (v : Value S) : Prop := ∀ a, v = .ref a → a < heap.length

structure Sound (heap : Heap S K) : Prop where
  closed : ∀ object ∈ heap, ∀ v ∈ object.children, Inside heap v
  keysOnce : ∀ object ∈ heap, object.KeysOnce

/-- A container at an address holds what is at another. -/
def Holds (heap : Heap S K) (a b : Address) : Prop := ∃ object, heap[a]? = some object ∧ .ref b ∈ object.children

/-- An address can be reached from a value. -/
def Reaches (heap : Heap S K) (v : Value S) (a : Address) : Prop := ∃ start, v = .ref start ∧ ReflTransGen (Holds heap) start a

def HandleAt (heap : Heap S K) (a : Address) : Prop := ∃ object, heap[a]? = some object ∧ object.IsHandle

/-- The graph of `y` is that of `x`, with other containers: each of them has the kind, the keys, the order and the leaves of the one
it stands for, and different ones stand for different ones. -/
structure Isomorphic (heap : Heap S K) (x : Value S) (heap' : Heap S K) (y : Value S) (f : Address → Address) : Prop where
  root : y = x.image f
  injective : Set.InjOn f {a | Reaches heap x a}
  objects : ∀ a, Reaches heap x a → heap'[f a]? = (heap[a]?).map (Object.image f)

/-- What a path leads to: it goes through the children by their positions. -/
def walk (heap : Heap S K) : List Nat → Value S → Option (Value S)
  | [], v => some v
  | _ :: _, .scalar _ => none
  | i :: path, .ref a => (heap[a]?).bind fun object => (object.children[i]?).bind (walk heap path)

/-- `y` is a copy of `x` of its own: the old containers are as they were, and none of them is in it. -/
structure Copied (heap : Heap S K) (x : Value S) (heap' : Heap S K) (y : Value S) : Prop where
  unchanged : heap <+: heap'
  isomorphic : ∃ f, Isomorphic heap x heap' y f
  paths : ∀ p q, walk heap' p y = walk heap' q y ↔ walk heap p x = walk heap q x
  apart : ∀ b, Reaches heap' y b → heap.length ≤ b

/-! ### Isomorphic graphs -/

section Isomorphisms

variable {heap heap' : Heap S K} {x y v : Value S} {f : Address → Address} {a : Address}

omit [DecidableEq K] in
@[simp] theorem children_image (f : Address → Address) (object : Object S K) :
    (object.image f).children = object.children.map (Value.image f) := by
  cases object <;> simp [Object.image, Object.children, Function.comp_def]

omit [DecidableEq K] in
theorem Reaches.child {b : Address} (h : Reaches heap x a) (hab : Holds heap a b) : Reaches heap x b := by
  obtain ⟨start, hstart, hreach⟩ := h
  exact ⟨start, hstart, hreach.tail hab⟩

/-- Everything in a value that is no scalar can be reached. -/
def Within (heap : Heap S K) (x v : Value S) : Prop := ∀ a, v = .ref a → Reaches heap x a

omit [DecidableEq K] in
theorem Within.self (heap : Heap S K) (x : Value S) : Within heap x x := fun a h => ⟨a, h, .refl⟩

omit [DecidableEq K] in
theorem Within.child {object : Object S K} (h : Reaches heap x a) (hobject : heap[a]? = some object) (hv : v ∈ object.children) :
    Within heap x v := by
  rintro b rfl
  exact h.child ⟨object, hobject, hv⟩

omit [DecidableEq K] in
theorem Isomorphic.image_inj (h : Isomorphic heap x heap' y f) {v w : Value S} (hv : Within heap x v) (hw : Within heap x w)
    (heq : v.image f = w.image f) : v = w := by
  cases v with
  | scalar s =>
      cases w with
      | scalar t => exact heq
      | ref b => exact absurd heq nofun
  | ref a =>
      cases w with
      | scalar t => exact absurd heq nofun
      | ref b => rw [h.injective (hv a rfl) (hw b rfl) (Value.ref.inj heq)]

omit [DecidableEq K] in
theorem Isomorphic.reaches (h : Isomorphic heap x heap' y f) {b : Address} (hb : Reaches heap' y b) : ∃ a, Reaches heap x a ∧ b = f a := by
  obtain ⟨start, hstart, hreach⟩ := hb
  induction hreach with
  | refl =>
      rw [h.root] at hstart
      cases x with
      | scalar s => exact absurd hstart nofun
      | ref a => exact ⟨a, ⟨a, rfl, .refl⟩, (Value.ref.inj hstart).symm⟩
  | tail _ hstep ih =>
      obtain ⟨a, ha, rfl⟩ := ih
      obtain ⟨copied, hcopied, hchild⟩ := hstep
      rw [h.objects a ha] at hcopied
      obtain ⟨object, hobject, rfl⟩ := Option.map_eq_some_iff.mp hcopied
      rw [children_image] at hchild
      obtain ⟨v, hv, himage⟩ := List.mem_map.mp hchild
      cases v with
      | scalar s => exact absurd himage nofun
      | ref c => exact ⟨c, Within.child ha hobject hv c rfl, (Value.ref.inj himage).symm⟩

omit [DecidableEq K] in
theorem Isomorphic.walk (h : Isomorphic heap x heap' y f) (p : List Nat) {v : Value S} (hv : Within heap x v) :
    Copies.walk heap' p (v.image f) = (Copies.walk heap p v).map (Value.image f) ∧ ∀ w, Copies.walk heap p v = some w → Within heap x w := by
  induction p generalizing v with
  | nil => exact ⟨rfl, fun w hw => Option.some.inj hw ▸ hv⟩
  | cons i p ih =>
      cases v with
      | scalar s => exact ⟨rfl, nofun⟩
      | ref a =>
          have ha := hv a rfl
          rw [Value.image, Copies.walk, Copies.walk, h.objects a ha]
          cases hobject : heap[a]? with
          | none => exact ⟨rfl, nofun⟩
          | some object =>
              rw [Option.map_some, Option.bind_some, Option.bind_some, children_image, List.getElem?_map]
              cases hchild : object.children[i]? with
              | none => exact ⟨rfl, nofun⟩
              | some w => exact ih (Within.child ha hobject (List.mem_of_getElem? hchild))

omit [DecidableEq K] in
theorem Isomorphic.paths (h : Isomorphic heap x heap' y f) (p q : List Nat) :
    Copies.walk heap' p y = Copies.walk heap' q y ↔ Copies.walk heap p x = Copies.walk heap q x := by
  obtain ⟨hp, hpin⟩ := h.walk p (.self heap x)
  obtain ⟨hq, hqin⟩ := h.walk q (.self heap x)
  rw [h.root, hp, hq]
  constructor
  · intro heq
    cases hwp : Copies.walk heap p x with
    | none => exact (Option.map_eq_none_iff.mp (by rw [← heq, hwp, Option.map_none])).symm
    | some v =>
        obtain ⟨w, hwq, himage⟩ := Option.map_eq_some_iff.mp (by rw [← heq, hwp, Option.map_some])
        rw [hwq, h.image_inj (hpin v hwp) (hqin w hwq) himage.symm]
  · exact fun heq => by rw [heq]

end Isomorphisms

/-! ### The invariant -/

namespace Copying

/-- The copy of a container that has been met. -/
def target (st : Copying S K) (a : Address) : Address := (st.memo a).getD a

def Known (st : Copying S K) (v : Value S) : Prop := ∀ a, v = .ref a → st.memo a ≠ none

structure Tracks (heap : Heap S K) (st : Copying S K) : Prop where
  kept : heap <+: st.heap
  memo : ∀ a b, st.memo a = some b → a < heap.length ∧ heap.length ≤ b ∧ b < st.heap.length
  injective : ∀ a a' b, st.memo a = some b → st.memo a' = some b → a = a'

/-- The copy of a container is what it should be. -/
structure Complete (heap : Heap S K) (st : Copying S K) (a : Address) : Prop where
  exact : ∃ b object, st.memo a = some b ∧ heap[a]? = some object ∧ ¬ object.IsHandle ∧ st.heap[b]? = some (object.image st.target) ∧
    ∀ v ∈ object.children, st.Known v

/-- What a call leaves alone, but for the container that is being filled. -/
structure Grows (except : Address → Prop) (st st' : Copying S K) : Prop where
  memo : ∀ a b, st.memo a = some b → st'.memo a = some b
  length : st.heap.length ≤ st'.heap.length
  frame : ∀ i < st.heap.length, ¬ except i → st'.heap[i]? = st.heap[i]?
  fresh : ∀ a b, st.memo a = none → st'.memo a = some b → st.heap.length ≤ b

/-- What has been met for the first time is complete. -/
def Completes (heap : Heap S K) (st st' : Copying S K) : Prop := ∀ a, st.memo a = none → st'.memo a ≠ none → st'.Complete heap a

/-- The containers that have not been met. -/
def missing (heap : Heap S K) (st : Copying S K) : Nat := ((Finset.range heap.length).filter (st.memo · = none)).card

variable {heap : Heap S K} {st st' st'' : Copying S K} {except : Address → Prop} {a b : Address} {v : Value S}

omit [DecidableEq K] in
theorem Grows.known (h : Grows except st st') (hv : st.Known v) : st'.Known v := by
  intro a ha
  obtain ⟨b, hb⟩ := Option.ne_none_iff_exists'.mp (hv a ha)
  rw [h.memo a b hb]
  exact Option.some_ne_none b

omit [DecidableEq K] in
theorem Grows.image (h : Grows except st st') (hv : st.Known v) : v.image st'.target = v.image st.target := by
  cases v with
  | scalar s => rfl
  | ref a =>
      obtain ⟨b, hb⟩ := Option.ne_none_iff_exists'.mp (hv a rfl)
      simp [Value.image, Copying.target, hb, h.memo a b hb]

omit [DecidableEq K] in
theorem image_congr {f g : Address → Address} {object : Object S K} (h : ∀ v ∈ object.children, v.image f = v.image g) :
    object.image f = object.image g := by
  cases object with
  | list items => exact congrArg Object.list (List.map_congr_left h)
  | map entries =>
      refine congrArg Object.map (List.map_congr_left fun e he => ?_)
      rw [h e.2 (List.mem_map_of_mem he)]
  | record kind fields =>
      refine congrArg (Object.record kind) (List.map_congr_left fun e he => ?_)
      rw [h e.2 (List.mem_map_of_mem he)]
  | handle kind => rfl

omit [DecidableEq K] in
theorem Complete.grows (hc : st.Complete heap a) (h : Grows except st st') (hst : Tracks heap st)
    (hb : ∀ b, st.memo a = some b → ¬ except b) : st'.Complete heap a := by
  obtain ⟨b, object, hmemo, hobject, hkind, hcopy, hknown⟩ := hc.exact
  refine ⟨b, object, h.memo a b hmemo, hobject, hkind, ?_, fun v hv => h.known (hknown v hv)⟩
  rw [h.frame b (hst.memo a b hmemo).2.2 (hb b hmemo), hcopy, image_congr fun v hv => h.image (hknown v hv)]

omit [DecidableEq K] in
theorem Grows.refl (st : Copying S K) : Grows except st st :=
  ⟨fun _ _ h => h, le_rfl, fun _ _ _ => rfl, fun _ _ h h' => absurd (h.symm.trans h') nofun⟩

omit [DecidableEq K] in
theorem Grows.trans (h : Grows except st st') (h' : Grows except st' st'') : Grows except st st'' := by
  refine ⟨fun a b hm => h'.memo a b (h.memo a b hm), h.length.trans h'.length, fun i hi hex => ?_, fun a b hnone hsome => ?_⟩
  · rw [h'.frame i (hi.trans_le h.length) hex, h.frame i hi hex]
  · cases hmid : st'.memo a with
    | none => exact h.length.trans (h'.fresh a b hmid hsome)
    | some c =>
        obtain rfl := Option.some.inj ((h'.memo a c hmid).symm.trans hsome)
        exact h.fresh a c hnone hmid

omit [DecidableEq K] in
theorem Grows.weaken {except' : Address → Prop} (h : Grows except st st') (himp : ∀ i, except i → except' i) : Grows except' st st' :=
  ⟨h.memo, h.length, fun i hi hex => h.frame i hi fun he => hex (himp i he), h.fresh⟩

omit [DecidableEq K] in
theorem Grows.missing_le (h : Grows except st st') : missing heap st' ≤ missing heap st := by
  refine Finset.card_le_card fun a ha => ?_
  obtain ⟨hrange, hnone⟩ := Finset.mem_filter.mp ha
  refine Finset.mem_filter.mpr ⟨hrange, ?_⟩
  cases hmemo : st.memo a with
  | none => rfl
  | some b => exact absurd (hnone.symm.trans (h.memo a b hmemo)) nofun

omit [DecidableEq K] in
@[simp] theorem enter_self (st : Copying S K) (a : Address) (object : Object S K) : (st.enter a object).memo a = some st.heap.length :=
  Function.update_self ..

omit [DecidableEq K] in
theorem enter_of_ne {c : Address} (hc : c ≠ a) (object : Object S K) : (st.enter a object).memo c = st.memo c :=
  Function.update_of_ne hc ..

omit [DecidableEq K] in
@[simp] theorem length_enter (st : Copying S K) (a : Address) (object : Object S K) :
    (st.enter a object).heap.length = st.heap.length + 1 := by
  simp [Copying.enter]

omit [DecidableEq K] in
theorem Tracks.enter (h : Tracks heap st) (ha : a < heap.length) (hnone : st.memo a = none) (object : Object S K) :
    Tracks heap (st.enter a object) := by
  have hlength : heap.length ≤ st.heap.length := h.kept.length_le
  refine ⟨h.kept.trans (List.prefix_append _ _), fun c b hm => ?_, fun c c' b hm hm' => ?_⟩
  · by_cases hc : c = a
    · subst hc
      obtain rfl := Option.some.inj ((enter_self ..).symm.trans hm)
      exact ⟨ha, hlength, by simp⟩
    · have hold : st.memo c = some b := (enter_of_ne hc _).symm.trans hm
      obtain ⟨hc', hb, hb'⟩ := h.memo c b hold
      exact ⟨hc', hb, by rw [length_enter]; exact Nat.lt_succ_of_lt hb'⟩
  · -- The new address is no copy of what has been met before.
    have hnew : ∀ c b, c ≠ a → (st.enter a object).memo c = some b → b < st.heap.length :=
      fun c b hc hm => (h.memo c b ((enter_of_ne hc _).symm.trans hm)).2.2
    have hown : ∀ b, (st.enter a object).memo a = some b → b = st.heap.length :=
      fun b hm => (Option.some.inj ((enter_self ..).symm.trans hm)).symm
    by_cases hc : c = a <;> by_cases hc' : c' = a
    · rw [hc, hc']
    · subst hc
      have hlt := hnew c' b hc' hm'
      rw [hown b hm] at hlt
      exact absurd hlt (lt_irrefl _)
    · subst hc'
      have hlt := hnew c b hc hm
      rw [hown b hm'] at hlt
      exact absurd hlt (lt_irrefl _)
    · exact h.injective c c' b ((enter_of_ne hc _).symm.trans hm) ((enter_of_ne hc' _).symm.trans hm')

omit [DecidableEq K] in
theorem Grows.enter (hnone : st.memo a = none) (object : Object S K) : Grows except st (st.enter a object) := by
  refine ⟨fun c b hm => ?_, by simp [Copying.enter], fun i hi _ => by simp [Copying.enter, List.getElem?_append_left hi], fun c b hn hm => ?_⟩
  · have hc : c ≠ a := by
      rintro rfl
      exact absurd (hnone.symm.trans hm) nofun
    exact (enter_of_ne hc _).trans hm
  · by_cases hc : c = a
    · subst hc
      obtain rfl := Option.some.inj ((enter_self ..).symm.trans hm)
      exact le_rfl
    · exact absurd (hn.symm.trans ((enter_of_ne hc _).symm.trans hm)) nofun

omit [DecidableEq K] in
theorem missing_enter (ha : a < heap.length) (hnone : st.memo a = none) (object : Object S K) :
    missing heap (st.enter a object) < missing heap st := by
  refine Finset.card_lt_card ⟨fun c hc => ?_, fun hsub => ?_⟩
  · obtain ⟨hrange, hn⟩ := Finset.mem_filter.mp hc
    by_cases hca : c = a
    · subst hca
      exact Finset.mem_filter.mpr ⟨hrange, hnone⟩
    · exact Finset.mem_filter.mpr ⟨hrange, (enter_of_ne hca _).symm.trans hn⟩
  · have hin := hsub (Finset.mem_filter.mpr ⟨Finset.mem_range.mpr ha, hnone⟩)
    have hself := (Finset.mem_filter.mp hin).2
    simp [Copying.enter] at hself

theorem Tracks.put (h : Tracks heap st) {out : Address} (hout : heap.length ≤ out) (slot : Slot K) (v : Value S) :
    Tracks heap (st.put out slot v) := by
  refine ⟨?_, fun a b hm => ?_, h.injective⟩
  · obtain ⟨rest, hrest⟩ := h.kept
    rw [List.prefix_iff_getElem?]
    intro i hi
    have hne : out ≠ i := fun heq => absurd (heq ▸ hout) (Nat.not_le.mpr hi)
    rw [Copying.put, List.getElem?_modify_ne _ _ hne, ← hrest, List.getElem?_append_left hi, List.getElem?_eq_getElem hi]
  · obtain ⟨ha, hb, hb'⟩ := h.memo a b hm
    exact ⟨ha, hb, by simpa [Copying.put] using hb'⟩

theorem Grows.put (st : Copying S K) (out : Address) (slot : Slot K) (v : Value S) : Grows (· = out) st (st.put out slot v) := by
  refine ⟨fun _ _ h => h, by simp [Copying.put], fun i _ hi => ?_, fun _ _ h h' => absurd (h.symm.trans h') nofun⟩
  exact List.getElem?_modify_ne _ _ (Ne.symm hi)

/-! ### The loops -/

/-- A value has been cloned. -/
structure Cloned (heap : Heap S K) (st : Copying S K) (v c : Value S) (st' : Copying S K) : Prop where
  tracks : Tracks heap st'
  grows : Grows (fun _ => False) st st'
  known : st'.Known v
  value : c = v.image st'.target
  completes : Completes heap st st'

/-- A call ends with a clone, or finds a handle. -/
def Outcome (heap : Heap S K) (st : Copying S K) (v : Value S) : Option (Except CopyError (Value S) × Copying S K) → Prop
  | some (.ok c, st') => Cloned heap st v c st'
  | some (.error _, st') => Tracks heap st' ∧ ∃ a, Reaches heap v a ∧ HandleAt heap a
  | none => False

/-- A container has been filled. -/
structure Filled (heap : Heap S K) (st : Copying S K) (out : Address) (object : Object S K) (parts : List (Slot K × String × Value S))
    (st' : Copying S K) : Prop where
  tracks : Tracks heap st'
  grows : Grows (· = out) st st'
  known : ∀ p ∈ parts, st'.Known p.2.2
  object : st'.heap[out]? = some (parts.foldl (fun object p => object.put (p.2.2.image st'.target) p.1) object)
  completes : Completes heap st st'

def FillOutcome (heap : Heap S K) (st : Copying S K) (out : Address) (object : Object S K) (parts : List (Slot K × String × Value S)) :
    Option (Except CopyError (Value S) × Copying S K) → Prop
  | some (.ok c, st') => c = .ref out ∧ Filled heap st out object parts st'
  | some (.error _, st') => Tracks heap st' ∧ ∃ p ∈ parts, ∃ a, Reaches heap p.2.2 a ∧ HandleAt heap a
  | none => False

theorem Cloned.put {out : Address} {object : Object S K} {slot : Slot K} {path : String} {rest : List (Slot K × String × Value S)}
    {c : Value S} (hclone : Cloned heap st v c st') (hout : out < st.heap.length)
    (hfill : Filled heap (st'.put out slot c) out (object.put c slot) rest st'') :
    Filled heap st out object ((slot, path, v) :: rest) st'' := by
  have hlater : Grows (· = out) st' st'' := (Grows.put st' out slot c).trans hfill.grows
  refine ⟨hfill.tracks, (hclone.grows.weaken fun _ h => h.elim).trans hlater, ?_, ?_, fun a hnone hsome => ?_⟩
  · intro p hp
    rcases List.mem_cons.mp hp with rfl | hp
    · exact hlater.known hclone.known
    · exact hfill.known p hp
  · rw [hfill.object, List.foldl_cons, hclone.value, hlater.image hclone.known]
  · cases hmid : st'.memo a with
    | none => exact hfill.completes a hmid hsome
    | some b =>
        have hcomplete := hclone.completes a hnone (by rw [hmid]; exact Option.some_ne_none b)
        refine hcomplete.grows hlater hclone.tracks fun b hb heq => ?_
        obtain rfl : b = out := heq
        exact absurd hout (Nat.not_lt.mpr (hclone.grows.fresh a b hnone hb))

theorem fill_spec {clone : String → Value S → Copying S K → Option (Except CopyError (Value S) × Copying S K)} {depth : Nat}
    (hclone : ∀ path v st, Inside heap v → Tracks heap st → missing heap st < depth → Outcome heap st v (clone path v st))
    {out : Address} (hout : heap.length ≤ out) (parts : List (Slot K × String × Value S)) (hparts : ∀ p ∈ parts, Inside heap p.2.2)
    {object : Object S K} (htracks : Tracks heap st) (hmissing : missing heap st < depth) (hobject : st.heap[out]? = some object) :
    FillOutcome heap st out object parts (fill clone out parts st) := by
  induction parts generalizing st object with
  | nil => exact ⟨rfl, htracks, .refl st, fun _ hp => absurd hp List.not_mem_nil, hobject, fun a h h' => absurd h h'⟩
  | cons p rest ih =>
      obtain ⟨slot, path, v⟩ := p
      have hlt : out < st.heap.length := (List.getElem?_eq_some_iff.mp hobject).1
      have hone := hclone path v st (hparts _ List.mem_cons_self) htracks hmissing
      rw [fill]
      generalize clone path v st = result at hone
      obtain - | ⟨(e | c), st'⟩ := result
      · exact hone.elim
      · exact ⟨hone.1, _, List.mem_cons_self, hone.2⟩
      · have hcloned : Cloned heap st v c st' := hone
        have hframe : st'.heap[out]? = some object := (hcloned.grows.frame out hlt not_false).trans hobject
        have hput : (st'.put out slot c).heap[out]? = some (object.put c slot) := by
          rw [Copying.put, List.getElem?_modify_eq, hframe]
          rfl
        have hrest := ih (fun p hp => hparts p (List.mem_cons_of_mem _ hp)) (hcloned.tracks.put hout slot c)
          (show missing heap st' < depth from lt_of_le_of_lt hcloned.grows.missing_le hmissing) hput
        simp only
        generalize fill clone out rest (st'.put out slot c) = result at hrest
        obtain - | ⟨(e | r), st''⟩ := result
        · exact hrest.elim
        · obtain ⟨htracks', p, hp, hreach⟩ := hrest
          exact ⟨htracks', p, List.mem_cons_of_mem _ hp, hreach⟩
        · exact ⟨hrest.1, hcloned.put hlt hrest.2⟩

/-! ### The three kinds of containers -/

theorem foldl_item (f : Address → Address) (parts : List (Slot K × String × Value S)) (hparts : ∀ p ∈ parts, p.1 = .item)
    (items : List (Value S)) :
    parts.foldl (fun object p => object.put (p.2.2.image f) p.1) (Object.list items : Object S K) =
      .list (items ++ parts.map fun p => p.2.2.image f) := by
  induction parts generalizing items with
  | nil => simp
  | cons p rest ih =>
      have hslot : p.1 = .item := hparts p List.mem_cons_self
      rw [List.foldl_cons, hslot, Object.put, ih fun p hp => hparts p (List.mem_cons_of_mem _ hp)]
      simp

theorem assign_of_notMem {J : Type} [DecidableEq J] {key : J} {v : Value S} {entries : List (J × Value S)}
    (h : key ∉ entries.map Prod.fst) : assign key v entries = entries ++ [(key, v)] := by
  induction entries with
  | nil => rfl
  | cons e rest ih =>
      obtain ⟨hne, hrest⟩ := not_or.mp (fun hmem => h (List.mem_cons.mpr hmem))
      rw [assign, if_neg (Ne.symm hne), ih hrest]
      rfl

theorem foldl_assign {J : Type} [DecidableEq J] (f : Address → Address) (entries done : List (J × Value S))
    (hnodup : (entries.map Prod.fst).Nodup) (hdone : ∀ e ∈ entries, e.1 ∉ done.map Prod.fst) :
    entries.foldl (fun done e => assign e.1 (e.2.image f) done) done = done ++ entries.map fun e => (e.1, e.2.image f) := by
  induction entries generalizing done with
  | nil => simp
  | cons e rest ih =>
      rw [List.map_cons, List.nodup_cons] at hnodup
      rw [List.foldl_cons, assign_of_notMem (hdone e List.mem_cons_self), ih _ hnodup.2]
      · simp
      · intro e' he' hmem
        rw [List.map_append, List.mem_append] at hmem
        rcases hmem with hmem | hmem
        · exact hdone e' (List.mem_cons_of_mem _ he') hmem
        · have heq : e'.1 = e.1 := by simpa using hmem
          exact hnodup.1 (heq ▸ List.mem_map_of_mem he')

theorem foldl_key (f : Address → Address) (write : K × Value S → String) (entries : List (K × Value S)) (hnodup : (entries.map Prod.fst).Nodup) :
    (entries.map fun e => ((Slot.key e.1 : Slot K), write e, e.2)).foldl (fun object p => object.put (p.2.2.image f) p.1)
      (Object.map [] : Object S K) = .map (entries.map fun e => (e.1, e.2.image f)) := by
  have hfold : ∀ (rest done : List (K × Value S)), (rest.map fun e => ((Slot.key e.1 : Slot K), write e, e.2)).foldl
      (fun object p => object.put (p.2.2.image f) p.1) (Object.map done : Object S K) =
        .map (rest.foldl (fun done e => assign e.1 (e.2.image f) done) done) := by
    intro rest
    induction rest with
    | nil => exact fun _ => rfl
    | cons e rest ih => exact fun done => ih _
  rw [hfold, foldl_assign f entries [] hnodup fun _ _ => List.not_mem_nil, List.nil_append]

theorem foldl_field (f : Address → Address) (kind : String) (write : String × Value S → String) (fields : List (String × Value S))
    (hnodup : (fields.map Prod.fst).Nodup) :
    (fields.map fun e => ((Slot.field e.1 : Slot K), write e, e.2)).foldl (fun object p => object.put (p.2.2.image f) p.1)
      (Object.record kind [] : Object S K) = .record kind (fields.map fun e => (e.1, e.2.image f)) := by
  have hfold : ∀ (rest done : List (String × Value S)), (rest.map fun e => ((Slot.field e.1 : Slot K), write e, e.2)).foldl
      (fun object p => object.put (p.2.2.image f) p.1) (Object.record kind done : Object S K) =
        .record kind (rest.foldl (fun done e => assign e.1 (e.2.image f) done) done) := by
    intro rest
    induction rest with
    | nil => exact fun _ => rfl
    | cons e rest ih => exact fun done => ih _
  rw [hfold, foldl_assign f fields [] hnodup fun _ _ => List.not_mem_nil, List.nil_append]

theorem enter_spec {clone : String → Value S → Copying S K → Option (Except CopyError (Value S) × Copying S K)} {depth : Nat}
    (hsound : Sound heap)
    (hclone : ∀ path v st, Inside heap v → Tracks heap st → missing heap st < depth → Outcome heap st v (clone path v st))
    {object emptied : Object S K} {parts : List (Slot K × String × Value S)} (htracks : Tracks heap st)
    (hmissing : missing heap st < depth + 1) (hnone : st.memo a = none) (hobject : heap[a]? = some object) (hkind : ¬ object.IsHandle)
    (hparts : parts.map (fun p => p.2.2) = object.children)
    (hbuilt : ∀ f, parts.foldl (fun object p => object.put (p.2.2.image f) p.1) emptied = object.image f) :
    Outcome heap st (.ref a) (fill clone st.heap.length parts (st.enter a emptied)) := by
  have ha : a < heap.length := (List.getElem?_eq_some_iff.mp hobject).1
  have hchild : ∀ p ∈ parts, p.2.2 ∈ object.children := fun p hp => hparts ▸ List.mem_map_of_mem hp
  have hinside : ∀ p ∈ parts, Inside heap p.2.2 :=
    fun p hp => hsound.closed object (List.mem_of_getElem? hobject) _ (hchild p hp)
  have henter : (st.enter a emptied).heap[st.heap.length]? = some emptied := by simp [Copying.enter]
  have hless : missing heap (st.enter a emptied) < depth := by
    have hlt := missing_enter ha hnone emptied
    omega
  have hfill := fill_spec hclone htracks.kept.length_le parts hinside (htracks.enter ha hnone emptied) hless henter
  generalize fill clone st.heap.length parts (st.enter a emptied) = result at hfill
  obtain - | ⟨(e | c), st'⟩ := result
  · exact hfill.elim
  · obtain ⟨htracks', p, hp, b, ⟨start, hstart, hreach⟩, hhandle⟩ := hfill
    refine ⟨htracks', b, ⟨a, rfl, .head ⟨object, hobject, ?_⟩ hreach⟩, hhandle⟩
    exact hstart ▸ hchild p hp
  · obtain ⟨rfl, hfilled⟩ := hfill
    have hmemo : st'.memo a = some st.heap.length := hfilled.grows.memo a _ (enter_self st a emptied)
    have hgrows : Grows (· = st.heap.length) st st' := (Grows.enter hnone emptied).trans hfilled.grows
    refine ⟨hfilled.tracks, ⟨hgrows.memo, hgrows.length, fun i hi _ => hgrows.frame i hi (Nat.ne_of_lt hi), hgrows.fresh⟩, ?_, ?_, ?_⟩
    · rintro _ ⟨rfl⟩
      rw [hmemo]
      exact Option.some_ne_none _
    · simp [Value.image, Copying.target, hmemo]
    · intro b hb hb'
      by_cases hba : b = a
      · subst hba
        refine ⟨_, object, hmemo, hobject, hkind, ?_, fun v hv => ?_⟩
        · rw [hfilled.object, hbuilt]
        · rw [← hparts] at hv
          obtain ⟨p, hp, rfl⟩ := List.mem_map.mp hv
          exact hfilled.known p hp
      · exact hfilled.completes b ((enter_of_ne hba emptied).trans hb) hb'

omit [DecidableEq K] in
theorem map_indexed {γ : Type} (write : Nat → String) (read : Value S → γ) (items : List (Value S)) :
    (items.mapIdx fun index item => ((Slot.item : Slot K), write index, item)).map (fun p => read p.2.2) = items.map read := by
  apply List.ext_getElem
  · simp
  · intro i _ _
    simp

theorem clone_spec (text : K → String) (hsound : Sound heap) (depth : Nat) :
    ∀ path v st, Inside heap v → Tracks heap st → missing heap st < depth → Outcome heap st v (clone text depth path v st) := by
  induction depth with
  | zero => exact fun _ _ _ _ _ h => absurd h (Nat.not_lt_zero _)
  | succ depth ih =>
      intro path v st hinside htracks hmissing
      cases v with
      | scalar s => exact ⟨htracks, .refl st, nofun, rfl, fun a h h' => absurd h h'⟩
      | ref a =>
          have ha : a < heap.length := hinside a rfl
          rw [clone]
          cases hmemo : st.memo a with
          | some b =>
              refine ⟨htracks, .refl st, ?_, by simp [Value.image, Copying.target, hmemo], fun a h h' => absurd h h'⟩
              rintro _ ⟨rfl⟩
              rw [hmemo]
              exact Option.some_ne_none b
          | none =>
              obtain ⟨object, hobject⟩ : ∃ object, heap[a]? = some object := ⟨_, List.getElem?_eq_getElem ha⟩
              have hsame : st.heap[a]? = some object := by
                obtain ⟨rest, hrest⟩ := htracks.kept
                rw [← hrest, List.getElem?_append_left ha, hobject]
              have honce := hsound.keysOnce object (List.mem_of_getElem? hobject)
              rw [hsame]
              cases object with
              | list items =>
                  refine enter_spec hsound ih htracks hmissing hmemo hobject not_false ?_ fun f => ?_
                  · exact (map_indexed _ id items).trans (List.map_id items)
                  · rw [foldl_item f _ (fun p hp => ?_), List.nil_append]
                    · exact congrArg Object.list (map_indexed _ (Value.image f) items)
                    · obtain ⟨i, hi, rfl⟩ := List.mem_mapIdx.mp hp
                      rfl
              | map entries =>
                  refine enter_spec hsound ih htracks hmissing hmemo hobject not_false ?_ fun f => foldl_key f _ entries honce
                  rw [List.map_map]
                  rfl
              | record kind fields =>
                  refine enter_spec hsound ih htracks hmissing hmemo hobject not_false ?_ fun f => foldl_field f kind _ fields honce
                  rw [List.map_map]
                  rfl
              | handle kind => exact ⟨htracks, a, ⟨a, rfl, .refl⟩, _, hobject, trivial⟩

omit [DecidableEq K] in
theorem Tracks.start (heap : Heap S K) : Tracks heap { heap } := ⟨List.prefix_rfl, nofun, nofun⟩

omit [DecidableEq K] in
theorem missing_lt (heap : Heap S K) (st : Copying S K) {depth : Nat} (hdepth : heap.length < depth) : missing heap st < depth := by
  have hle : missing heap st ≤ heap.length := (Finset.card_filter_le _ _).trans_eq (Finset.card_range _)
  exact hle.trans_lt hdepth

omit [DecidableEq K] in
theorem Cloned.complete {x y : Value S} (h : Cloned heap { heap } x y st) (ha : Reaches heap x a) : st.Complete heap a := by
  obtain ⟨start, rfl, hreach⟩ := ha
  induction hreach with
  | refl => exact h.completes _ rfl (h.known _ rfl)
  | tail _ hstep ih =>
      obtain ⟨object, hobject, hchild⟩ := hstep
      obtain ⟨b, object', -, hobject', -, -, hknown⟩ := ih.exact
      obtain rfl := Option.some.inj (hobject.symm.trans hobject')
      exact h.completes _ rfl (hknown _ hchild _ rfl)

omit [DecidableEq K] in
theorem Cloned.isomorphic {x y : Value S} (h : Cloned heap { heap } x y st) : Isomorphic heap x st.heap y st.target := by
  refine ⟨h.value, fun a ha a' ha' heq => ?_, fun a ha => ?_⟩
  · obtain ⟨b, -, hmemo, -⟩ := (h.complete ha).exact
    obtain ⟨b', -, hmemo', -⟩ := (h.complete ha').exact
    have hbb : b = b' := by simpa [Copying.target, hmemo, hmemo'] using heq
    exact h.tracks.injective a a' b hmemo (hbb ▸ hmemo')
  · obtain ⟨b, object, hmemo, hobject, -, hcopy, -⟩ := (h.complete ha).exact
    have hb : st.target a = b := by simp [Copying.target, hmemo]
    rw [hb, hcopy, hobject, Option.map_some]

omit [DecidableEq K] in
theorem Cloned.copied {x y : Value S} (h : Cloned heap { heap } x y st) : Copied heap x st.heap y := by
  refine ⟨h.tracks.kept, ⟨_, h.isomorphic⟩, h.isomorphic.paths, fun b hb => ?_⟩
  obtain ⟨a, ha, rfl⟩ := h.isomorphic.reaches hb
  obtain ⟨b, -, hmemo, -⟩ := (h.complete ha).exact
  have hb : st.target a = b := by simp [Copying.target, hmemo]
  exact hb ▸ (h.tracks.memo a b hmemo).2.1

end Copying

/-- A list that holds a map twice and itself, the map, which holds the list, and a list with a function in it. -/
def ring : Heap Nat String :=
  [.list [.ref 1, .ref 1, .ref 0], .map [("back", .ref 0), ("n", .scalar 5)], .handle "function", .list [.scalar 1, .ref 2]]

theorem ring_sound : Sound ring := by
  refine ⟨fun object hobject v hv a ha => ?_, fun object hobject => ?_⟩
  · subst ha
    simp only [ring, List.mem_cons, List.not_mem_nil, or_false] at hobject
    rcases hobject with rfl | rfl | rfl | rfl <;> simp [Object.children] at hv
    · rcases hv with rfl | rfl <;> decide
    · subst hv
      decide
    · subst hv
      decide
  · simp only [ring, List.mem_cons, List.not_mem_nil, or_false] at hobject
    rcases hobject with rfl | rfl | rfl | rfl <;> simp [Object.KeysOnce]

theorem ring_closed {a b : Address} (h : ReflTransGen (Holds ring) a b) (ha : a = 0 ∨ a = 1) : b = 0 ∨ b = 1 := by
  induction h with
  | refl => exact ha
  | tail _ hstep ih =>
      obtain ⟨object, hobject, hchild⟩ := hstep
      rcases ih with rfl | rfl
      · obtain rfl := Option.some.inj hobject
        simp only [Object.children, List.mem_cons, Value.ref.injEq, List.not_mem_nil, or_false] at hchild
        tauto
      · obtain rfl := Option.some.inj hobject
        exact .inl (by simpa [Object.children] using hchild)

end Nodus.Copies
