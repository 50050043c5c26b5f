import Nodus.Binary64
import Mathlib.Data.List.Forall2
import Mathlib.Data.List.Nodup
import Mathlib.Data.List.Perm.Subperm
import Mathlib.Data.List.Basic

/-! The equality of the language and the comparison opcodes, on values without floats. -/

namespace Nodus.Equality

open Binary64

/-! ### Values -/

/-- What a map is indexed by. -/
inductive Key where
  | str (s : String)
  | int (n : Int)
  deriving DecidableEq, Repr

inductive Value where
  | nil
  | bool (b : Bool)
  | int (n : Int)
  | str (s : String)
  | list (items : List Value)
  | map (entries : List (Key × Value))

/-- Every map in the value has one entry for a key. -/
inductive Value.WellFormed : Value → Prop
  | nil : WellFormed .nil
  | bool (b : Bool) : WellFormed (.bool b)
  | int (n : Int) : WellFormed (.int n)
  | str (s : String) : WellFormed (.str s)
  | list {items : List Value} (hitems : ∀ v ∈ items, WellFormed v) : WellFormed (.list items)
  | map {entries : List (Key × Value)} (hkeys : (entries.map Prod.fst).Nodup)
      (hentries : ∀ e ∈ entries, WellFormed e.2) : WellFormed (.map entries)

mutual

/-- `==` of the host language, where `True` is `1`. -/
def hostEq : Value → Value → Bool
  | .nil, .nil => true
  | .bool a, .bool b => a == b
  | .bool a, .int n => (cond a 1 0 : Int) == n
  | .int m, .bool b => m == (cond b 1 0 : Int)
  | .int m, .int n => m == n
  | .str s, .str t => s == t
  | .list xs, .list ys => hostEqItems xs ys
  | .map xs, .map ys => xs.length == ys.length && hostEqEntries xs ys
  | _, _ => false

def hostEqItems : List Value → List Value → Bool
  | [], [] => true
  | x :: xs, y :: ys => hostEq x y && hostEqItems xs ys
  | _, _ => false

/-- Every entry of the one map has an equal one in the other. -/
def hostEqEntries : List (Key × Value) → List (Key × Value) → Bool
  | [], _ => true
  | (key, x) :: xs, ys => (match ys.lookup key with | some y => hostEq x y | none => false) && hostEqEntries xs ys

end

/-- What an operation raises. -/
inductive Fault where
  /-- `runtime_error("type", …)`. -/
  | type (message : String)
  /-- `OverflowError`, of the conversion of an integer. -/
  | overflow
  deriving DecidableEq, Repr

/-- `float(a) == float(b)`. -/
def floatEq (m n : Int) : Except Fault Bool :=
  match ofInt m, ofInt n with
  | some x, some y => .ok (x == y)
  | _, _ => .error .overflow

/-- `_nodus_eq`. -/
def nodusEq : Value → Value → Except Fault Bool
  | .int m, .int n => floatEq m n
  | .bool a, .bool b => .ok (a == b)
  | .bool _, _ => .ok false
  | _, .bool _ => .ok false
  | a, b => .ok (hostEq a b)

/-- `builtin_type`. -/
def Value.typeName : Value → String
  | .nil => "nil"
  | .bool _ => "bool"
  | .int _ => "int"
  | .str _ => "string"
  | .list _ => "list"
  | .map _ => "map"

/-! ### Opcodes -/

inductive Comparison where
  | lt
  | gt
  | le
  | ge

def Comparison.ints : Comparison → Int → Int → Bool
  | .lt, m, n => m < n
  | .gt, m, n => n < m
  | .le, m, n => m ≤ n
  | .ge, m, n => n ≤ m

def Comparison.strs : Comparison → String → String → Bool
  | .lt, s, t => s < t
  | .gt, s, t => t < s
  | .le, s, t => s ≤ t
  | .ge, s, t => t ≤ s

/-- The integer that a value is for the host language. -/
def Value.number : Value → Option Int
  | .bool b => some (cond b 1 0)
  | .int n => some n
  | .nil | .str _ | .list _ | .map _ => none

mutual

/-- A comparison of the host language, which is not defined between all values. -/
def hostCompare (op : Comparison) : Value → Value → Option Bool
  | .str s, .str t => some (op.strs s t)
  | .list xs, .list ys => hostCompareItems op xs ys
  | a, b =>
      match a.number, b.number with
      | some m, some n => some (op.ints m n)
      | _, _ => none

/-- The first items that differ decide, and the lengths if there are none. -/
def hostCompareItems (op : Comparison) : List Value → List Value → Option Bool
  | x :: xs, y :: ys => if hostEq x y then hostCompareItems op xs ys else hostCompare op x y
  | xs, ys => some (op.ints xs.length ys.length)

end

def compareOp (op : Comparison) (a b : Value) : Except Fault Bool :=
  match hostCompare op a b with
  | some result => .ok result
  | none => .error (.type ("Cannot compare " ++ a.typeName ++ " and " ++ b.typeName))

/-- `_op_eq`. -/
def opEq (a b : Value) : Except Fault Bool := nodusEq a b

/-- `_op_ne`. -/
def opNe (a b : Value) : Except Fault Bool := (nodusEq a b).map not

/-- `_op_lt`. -/
def opLt : Value → Value → Except Fault Bool := compareOp .lt

/-- `_op_gt`. -/
def opGt : Value → Value → Except Fault Bool := compareOp .gt

/-- `_op_le`. -/
def opLe : Value → Value → Except Fault Bool := compareOp .le

/-- `_op_ge`. -/
def opGe : Value → Value → Except Fault Bool := compareOp .ge

/-- `EQ` answers with true. -/
def Equal (a b : Value) : Prop := opEq a b = .ok true

instance (a b : Value) : Decidable (Equal a b) := inferInstanceAs (Decidable (_ = _))

/-! ### Searching -/

/-- `find`, of a string. -/
def findSub (needle : List Char) : List Char → Option Nat
  | [] => if needle.isEmpty then some 0 else none
  | c :: rest => if needle.isPrefixOf (c :: rest) then some 0 else (findSub needle rest).map (· + 1)

/-- `rfind`, of a string. -/
def rfindSub (needle : List Char) : List Char → Option Nat
  | [] => if needle.isEmpty then some 0 else none
  | c :: rest =>
      match rfindSub needle rest with
      | some i => some (i + 1)
      | none => if needle.isPrefixOf (c :: rest) then some 0 else none

/-- `count`, of a string: occurrences that do not overlap. The first argument is what remains of the last one. -/
def countSub (needle : List Char) : Nat → List Char → Nat
  | _, [] => if needle.isEmpty then 1 else 0
  | skip + 1, _ :: rest => countSub needle skip rest
  | 0, c :: rest =>
      if needle.isPrefixOf (c :: rest) then 1 + countSub needle (needle.length - 1) rest else countSub needle 0 rest

/-- The last of the first `i` items with the property. -/
def scanDown (p : Value → Bool) (items : List Value) : Nat → Option Nat
  | 0 => none
  | i + 1 => if items[i]?.any p then some i else scanDown p items i

def ensureString (name : String) : Value → Except Fault String
  | .str s => .ok s
  | .nil | .bool _ | .int _ | .list _ | .map _ => .error (.type (name ++ " expects a string"))

/-- `builtin_count`. -/
def builtinCount (haystack needle : Value) : Except Fault Nat :=
  match haystack with
  | .str s => (ensureString "count(string, substring)" needle).map fun t => countSub t.toList 0 s.toList
  | .list items => .ok (items.countP (hostEq · needle))
  | .nil | .bool _ | .int _ | .map _ => .error (.type "count(x, value) expects a string or list")

/-- `builtin_index_of`. -/
def builtinIndexOf (haystack needle : Value) : Except Fault (Option Nat) :=
  match haystack with
  | .str s => (ensureString "index_of(string, substring)" needle).map fun t => findSub t.toList s.toList
  | .list items => .ok (items.findIdx? (hostEq · needle))
  | .nil | .bool _ | .int _ | .map _ => .error (.type "index_of(x, value) expects a string or list")

/-- `builtin_last_index_of`. -/
def builtinLastIndexOf (haystack needle : Value) : Except Fault (Option Nat) :=
  match haystack with
  | .str s => (ensureString "last_index_of(string, substring)" needle).map fun t => rfindSub t.toList s.toList
  | .list items => .ok (scanDown (hostEq · needle) items items.length)
  | .nil | .bool _ | .int _ | .map _ => .error (.type "last_index_of(x, value) expects a string or list")

/-- The arm of a match expression that is taken, if any: what `compile_match` emits. An arm without a pattern is `_`. -/
def selectArm (scrutinee : Value) : List (Option Value) → Except Fault (Option Nat)
  | [] => .ok none
  | none :: _ => .ok (some 0)
  | some pattern :: rest =>
      match opEq scrutinee pattern with
      | .error fault => .error fault
      | .ok true => .ok (some 0)
      | .ok false => (selectArm scrutinee rest).map (Option.map (· + 1))

/-! ### The comparison of integers -/

/-- The comparison opcodes on two integers answer, and their answers fit together. -/
structure Consistent (m n : Int) : Prop where
  total : ∀ op ∈ [opEq, opNe, opLt, opGt, opLe, opGe], ∃ answer, op (.int m) (.int n) = .ok answer
  one : opLt (.int m) (.int n) = .ok true ∧ opEq (.int m) (.int n) = .ok false ∧ opGt (.int m) (.int n) = .ok false ∨
    opLt (.int m) (.int n) = .ok false ∧ opEq (.int m) (.int n) = .ok true ∧ opGt (.int m) (.int n) = .ok false ∨
    opLt (.int m) (.int n) = .ok false ∧ opEq (.int m) (.int n) = .ok false ∧ opGt (.int m) (.int n) = .ok true
  le : opLe (.int m) (.int n) = .ok true ↔ opLt (.int m) (.int n) = .ok true ∨ opEq (.int m) (.int n) = .ok true
  ne : opNe (.int m) (.int n) = (opEq (.int m) (.int n)).map not

theorem compareOp_int (op : Comparison) (m n : Int) : compareOp op (.int m) (.int n) = .ok (op.ints m n) := rfl

/-- The integers for which there is a double. -/
def InRange (n : Int) : Prop := n.natAbs < overflow

theorem exists_ofInt {n : Int} (h : InRange n) : ∃ x, ofInt n = some x := by
  apply Option.ne_none_iff_exists'.mp
  intro hnone
  exact absurd (ofInt_eq_none.mp hnone) (Nat.not_le.mpr h)

theorem opEq_ints (m n : Int) : opEq (.int m) (.int n) = floatEq m n := rfl

theorem floatEq_eq {m n x y : Int} (hm : ofInt m = some x) (hn : ofInt n = some y) : floatEq m n = .ok (x == y) := by
  unfold floatEq
  rw [hm, hn]

theorem inRange_of_floatEq {m n : Int} {answer : Bool} (h : floatEq m n = .ok answer) : InRange m ∧ InRange n := by
  have hrange : ∀ {k x : Int}, ofInt k = some x → InRange k := by
    intro k x hk
    apply Nat.lt_of_not_le
    intro hle
    rw [ofInt_eq_none.mpr hle] at hk
    cases hk
  unfold floatEq at h
  cases hm : ofInt m with
  | none =>
      rw [hm] at h
      cases h
  | some x =>
      cases hn : ofInt n with
      | none =>
          rw [hm, hn] at h
          cases h
      | some y => exact ⟨hrange hm, hrange hn⟩

theorem opEq_int {m n : Int} (hm : InRange m) (hn : InRange n) :
    opEq (.int m) (.int n) = .ok (decide (ofInt m = ofInt n)) := by
  obtain ⟨x, hx⟩ := exists_ofInt hm
  obtain ⟨y, hy⟩ := exists_ofInt hn
  rw [opEq_ints, floatEq_eq hx hy, hx, hy]
  simp only [Option.some.injEq, beq_eq_decide]

/-- The comparisons fit together on integers that have doubles, unless two different ones share their double. -/
theorem consistent_iff (m n : Int) : Consistent m n ↔ InRange m ∧ InRange n ∧ (ofInt m = ofInt n → m = n) := by
  constructor
  · intro h
    obtain ⟨answer, hanswer⟩ := h.total opEq (by simp)
    rw [opEq_ints] at hanswer
    obtain ⟨hm, hn⟩ := inRange_of_floatEq hanswer
    refine ⟨hm, hn, fun heq => ?_⟩
    have hone := h.one
    simp only [opEq_int hm hn, opLt, opGt, compareOp_int, Comparison.ints, Except.ok.injEq, heq] at hone
    rcases hone with ⟨_, hne, _⟩ | ⟨hlt, _, hgt⟩ | ⟨_, hne, _⟩
    · simp at hne
    · simp only [decide_eq_false_iff_not] at hlt hgt
      omega
    · simp at hne
  · rintro ⟨hm, hn, hinj⟩
    have hiff : ofInt m = ofInt n ↔ m = n := ⟨hinj, congrArg ofInt⟩
    have heq := opEq_int hm hn
    constructor
    · intro op hop
      simp only [List.mem_cons, List.not_mem_nil, or_false] at hop
      rcases hop with rfl | rfl | rfl | rfl | rfl | rfl
      · exact ⟨_, heq⟩
      · exact ⟨_, congrArg (Except.map not) heq⟩
      · exact ⟨_, compareOp_int .lt m n⟩
      · exact ⟨_, compareOp_int .gt m n⟩
      · exact ⟨_, compareOp_int .le m n⟩
      · exact ⟨_, compareOp_int .ge m n⟩
    · simp only [heq, opLt, opGt, compareOp_int, Comparison.ints, Except.ok.injEq, decide_eq_true_eq,
        decide_eq_false_iff_not, hiff]
      omega
    · simp only [heq, opLe, opLt, compareOp_int, Comparison.ints, Except.ok.injEq, decide_eq_true_eq, hiff]
      omega
    · rfl

/-- The first two integers that share their double. -/
theorem not_consistent : ¬ Consistent (2 ^ 53) (2 ^ 53 + 1) := by
  intro h
  have hsame : (2 : Int) ^ 53 = 2 ^ 53 + 1 := ((consistent_iff _ _).mp h).2.2 (by decide +kernel)
  omega

/-! ### The equality of the host language -/

theorem hostEqItems_iff {xs ys : List Value} : hostEqItems xs ys = true ↔ List.Forall₂ (hostEq · · = true) xs ys := by
  induction xs generalizing ys with
  | nil => cases ys <;> simp [hostEqItems]
  | cons x xs ih => cases ys <;> simp [hostEqItems, ih]

theorem hostEqEntries_iff {xs ys : List (Key × Value)} :
    hostEqEntries xs ys = true ↔ ∀ e ∈ xs, ∃ y, ys.lookup e.1 = some y ∧ hostEq e.2 y = true := by
  induction xs with
  | nil => simp [hostEqEntries]
  | cons e xs ih =>
      obtain ⟨key, x⟩ := e
      rw [hostEqEntries, Bool.and_eq_true, ih, List.forall_mem_cons]
      refine and_congr_left fun _ => ?_
      cases ys.lookup key with
      | none => exact iff_of_false Bool.false_ne_true nofun
      | some y => exact ⟨fun h => ⟨y, rfl, h⟩, fun ⟨_, hsome, h⟩ => Option.some.inj hsome ▸ h⟩

theorem hostEq_list {xs ys : List Value} : hostEq (.list xs) (.list ys) = true ↔
    xs.length = ys.length ∧ ∀ (i : Nat) (h : i < xs.length) (h' : i < ys.length), hostEq xs[i] ys[i] = true := by
  calc hostEq (.list xs) (.list ys) = true ↔ List.Forall₂ (hostEq · · = true) xs ys := hostEqItems_iff
    _ ↔ _ := List.forall₂_iff_get

theorem hostEq_map {xs ys : List (Key × Value)} : hostEq (.map xs) (.map ys) = true ↔
    xs.length = ys.length ∧ ∀ e ∈ xs, ∃ y, ys.lookup e.1 = some y ∧ hostEq e.2 y = true := by
  calc hostEq (.map xs) (.map ys) = true ↔ (xs.length == ys.length && hostEqEntries xs ys) = true := Iff.rfl
    _ ↔ _ := by rw [Bool.and_eq_true, beq_iff_eq, hostEqEntries_iff]

/-- The keys of a map, in the order in which they have been put in. -/
def keys (entries : List (Key × Value)) : List Key := entries.map Prod.fst

theorem mem_of_lookup {key : Key} {v : Value} {entries : List (Key × Value)} (h : entries.lookup key = some v) :
    (key, v) ∈ entries := by
  induction entries with
  | nil => cases h
  | cons e entries ih =>
      obtain ⟨other, w⟩ := e
      rw [List.lookup_cons] at h
      split at h
      · next heq =>
          cases h
          rw [eq_of_beq heq]
          exact List.mem_cons_self
      · exact List.mem_cons_of_mem _ (ih h)

theorem lookup_of_mem {key : Key} {v : Value} {entries : List (Key × Value)} (hkeys : (keys entries).Nodup)
    (h : (key, v) ∈ entries) : entries.lookup key = some v := by
  induction entries with
  | nil => cases h
  | cons e entries ih =>
      obtain ⟨other, w⟩ := e
      obtain ⟨hfirst, hrest⟩ := List.nodup_cons.mp hkeys
      rw [List.lookup_cons]
      rcases List.mem_cons.mp h with heq | hmem
      · cases heq
        simp only [beq_self_eq_true]
      · have hne : key ≠ other := by
          rintro rfl
          exact hfirst (List.mem_map.mpr ⟨_, hmem, rfl⟩)
        simp only [beq_false_of_ne hne]
        exact ih hrest hmem

theorem mem_keys_iff {xs ys : List (Key × Value)} (hxs : (keys xs).Nodup)
    (h : hostEq (.map xs) (.map ys) = true) (key : Key) : key ∈ keys xs ↔ key ∈ keys ys := by
  obtain ⟨hlength, hall⟩ := hostEq_map.mp h
  have hsub : keys xs ⊆ keys ys := by
    intro key hkey
    obtain ⟨e, he, rfl⟩ := List.mem_map.mp hkey
    obtain ⟨y, hy, -⟩ := hall e he
    exact List.mem_map.mpr ⟨(e.1, y), mem_of_lookup hy, rfl⟩
  have hperm : (keys xs).Perm (keys ys) := by
    apply (List.subperm_of_subset hxs hsub).perm_of_length_le
    unfold keys
    rw [List.length_map, List.length_map, hlength]
  exact hperm.mem_iff

theorem hostEq_refl {a : Value} (h : a.WellFormed) : hostEq a a = true := by
  induction h with
  | nil => rfl
  | bool b => exact beq_self_eq_true b
  | int n => exact beq_self_eq_true n
  | str s => exact beq_self_eq_true s
  | @list items hitems ih => exact hostEq_list.mpr ⟨rfl, fun i h _ => ih _ (List.getElem_mem h)⟩
  | @map entries hkeys hentries ih =>
      exact hostEq_map.mpr ⟨rfl, fun e he => ⟨e.2, lookup_of_mem hkeys he, ih e he⟩⟩

theorem beq_iff_some {m n : Int} : (m == n) = true ↔ some n = some m := by
  rw [beq_iff_eq, Option.some_inj, eq_comm]

theorem hostEq_number {a b : Value} {m : Int} (h : a.number = some m) : hostEq a b = true ↔ b.number = some m := by
  cases a with
  | bool x =>
      obtain rfl := Option.some_inj.mp h
      cases b with
      | bool y => cases x <;> cases y <;> decide
      | int n => exact beq_iff_some
      | _ => exact iff_of_false Bool.false_ne_true nofun
  | int k =>
      obtain rfl := Option.some_inj.mp h
      cases b with
      | bool y => exact beq_iff_some
      | int n => exact beq_iff_some
      | _ => exact iff_of_false Bool.false_ne_true nofun
  | _ => cases h

theorem hostEq_symm {a b : Value} (ha : a.WellFormed) (hb : b.WellFormed) (h : hostEq a b = true) :
    hostEq b a = true := by
  induction ha generalizing b with
  | nil =>
      cases hb with
      | nil => exact h
      | _ => exact absurd h Bool.false_ne_true
  | bool x => exact (hostEq_number ((hostEq_number rfl).mp h)).mpr rfl
  | int m => exact (hostEq_number ((hostEq_number rfl).mp h)).mpr rfl
  | str s =>
      cases hb with
      | str t => exact beq_iff_eq.mpr (beq_iff_eq.mp h).symm
      | _ => exact absurd h Bool.false_ne_true
  | @list xs hxs ih =>
      cases hb with
      | @list ys hys =>
          obtain ⟨hlength, hall⟩ := hostEq_list.mp h
          refine hostEq_list.mpr ⟨hlength.symm, fun i hi hi' => ?_⟩
          exact ih _ (List.getElem_mem hi') (hys _ (List.getElem_mem hi)) (hall i hi' hi)
      | _ => exact absurd h Bool.false_ne_true
  | @map xs hkeys hxs ih =>
      cases hb with
      | @map ys hkeys' hys =>
          obtain ⟨hlength, hall⟩ := hostEq_map.mp h
          refine hostEq_map.mpr ⟨hlength.symm, fun e he => ?_⟩
          have hkey : e.1 ∈ keys xs := (mem_keys_iff hkeys h e.1).mpr (List.mem_map_of_mem he)
          obtain ⟨e', he', hfst⟩ := List.mem_map.mp hkey
          obtain ⟨y, hy, heq⟩ := hall e' he'
          have hsame : y = e.2 := by
            rw [hfst, lookup_of_mem hkeys' he] at hy
            exact (Option.some_inj.mp hy).symm
          refine ⟨e'.2, ?_, ?_⟩
          · rw [← hfst]
            exact lookup_of_mem hkeys he'
          · rw [hsame] at heq
            exact ih e' he' (hys e he) heq
      | _ => exact absurd h Bool.false_ne_true

theorem hostEq_trans {a b c : Value} (ha : a.WellFormed) (hab : hostEq a b = true) (hbc : hostEq b c = true) :
    hostEq a c = true := by
  induction ha generalizing b c with
  | nil =>
      cases b with
      | nil => exact hbc
      | _ => exact absurd hab Bool.false_ne_true
  | bool x => exact (hostEq_number rfl).mpr ((hostEq_number ((hostEq_number rfl).mp hab)).mp hbc)
  | int m => exact (hostEq_number rfl).mpr ((hostEq_number ((hostEq_number rfl).mp hab)).mp hbc)
  | str s =>
      cases b with
      | str t =>
          cases c with
          | str u => exact beq_iff_eq.mpr ((beq_iff_eq.mp hab).trans (beq_iff_eq.mp hbc))
          | _ => exact absurd hbc Bool.false_ne_true
      | _ => exact absurd hab Bool.false_ne_true
  | @list xs hxs ih =>
      cases b with
      | list ys =>
          cases c with
          | list zs =>
              obtain ⟨hlength, hall⟩ := hostEq_list.mp hab
              obtain ⟨hlength', hall'⟩ := hostEq_list.mp hbc
              refine hostEq_list.mpr ⟨hlength.trans hlength', fun i hi hi' => ?_⟩
              have hmid : i < ys.length := hlength ▸ hi
              exact ih _ (List.getElem_mem hi) (hall i hi hmid) (hall' i hmid hi')
          | _ => exact absurd hbc Bool.false_ne_true
      | _ => exact absurd hab Bool.false_ne_true
  | @map xs hkeys hxs ih =>
      cases b with
      | map ys =>
          cases c with
          | map zs =>
              obtain ⟨hlength, hall⟩ := hostEq_map.mp hab
              obtain ⟨hlength', hall'⟩ := hostEq_map.mp hbc
              refine hostEq_map.mpr ⟨hlength.trans hlength', fun e he => ?_⟩
              obtain ⟨y, hy, hey⟩ := hall e he
              obtain ⟨z, hz, hyz⟩ := hall' (e.1, y) (mem_of_lookup hy)
              exact ⟨z, hz, ih e he hey hyz⟩
          | _ => exact absurd hbc Bool.false_ne_true
      | _ => exact absurd hab Bool.false_ne_true

/-! ### Where `EQ` and the equality of the host language part -/

theorem floatEq_iff {m n : Int} : floatEq m n = .ok true ↔ InRange m ∧ ofInt m = ofInt n := by
  constructor
  · intro h
    obtain ⟨hm, hn⟩ := inRange_of_floatEq h
    have heq := opEq_int hm hn
    rw [opEq_ints, h] at heq
    exact ⟨hm, of_decide_eq_true (Except.ok.inj heq).symm⟩
  · rintro ⟨hm, heq⟩
    obtain ⟨x, hx⟩ := exists_ofInt hm
    rw [floatEq_eq hx (heq ▸ hx), beq_self_eq_true]

theorem equal_int {m n : Int} : Equal (.int m) (.int n) ↔ InRange m ∧ ofInt m = ofInt n := floatEq_iff

/-- Two different integers with one double. -/
def Merged (a b : Value) : Prop := ∃ m n, a = .int m ∧ b = .int n ∧ m ≠ n ∧ InRange m ∧ ofInt m = ofInt n

/-- An integer without a double, or a boolean and its number. -/
def Split (a b : Value) : Prop :=
  (∃ n, a = .int n ∧ b = .int n ∧ ¬ InRange n) ∨ (∃ x, a = .bool x ∧ b = .int (cond x 1 0)) ∨
    ∃ x, a = .int (cond x 1 0) ∧ b = .bool x

/-- The values are different, and `EQ` does not merge them. -/
def Apart (a b : Value) : Prop := hostEq a b = false ∧ ¬ Merged a b

theorem Merged.hostEq {a b : Value} (h : Merged a b) : hostEq a b = false := by
  obtain ⟨m, n, rfl, rfl, hne, -, -⟩ := h
  exact beq_false_of_ne hne

theorem Split.hostEq {a b : Value} (h : Split a b) : hostEq a b = true := by
  rcases h with ⟨n, rfl, rfl, -⟩ | ⟨x, rfl, rfl⟩ | ⟨x, rfl, rfl⟩
  · exact beq_self_eq_true n
  · exact beq_self_eq_true (cond x 1 0 : Int)
  · exact beq_self_eq_true (cond x 1 0 : Int)

theorem equal_of_bool {x : Bool} {b : Value} : Equal (.bool x) b ↔ b = .bool x := by
  cases b with
  | bool y =>
      unfold Equal opEq nodusEq
      rw [Except.ok.injEq, beq_iff_eq, Value.bool.injEq, eq_comm]
  | _ => exact iff_of_false (by simp [Equal, opEq, nodusEq]) (by simp)

theorem equal_of_host {a b : Value} (h : nodusEq a b = .ok (hostEq a b)) : Equal a b ↔ hostEq a b = true := by
  unfold Equal opEq
  rw [h, Except.ok.injEq]

theorem not_equal {a b : Value} (h : nodusEq a b = .ok false) : ¬ Equal a b :=
  fun heq => Bool.false_ne_true (Except.ok.inj (h.symm.trans heq))

theorem equal_of_not_number {a b : Value} (h : a.number = none) : Equal a b ↔ hostEq a b = true := by
  cases a with
  | bool x => cases h
  | int m => cases h
  | _ =>
      cases b with
      | bool y => exact iff_of_false (not_equal rfl) Bool.false_ne_true
      | _ => exact equal_of_host rfl

theorem not_merged_bool {x y : Bool} : ¬ Merged (.bool x) (.bool y) := by
  simp [Merged]

theorem not_split_bool {x y : Bool} : ¬ Split (.bool x) (.bool y) := by
  simp [Split]

theorem merged_int {m n : Int} : Merged (.int m) (.int n) ↔ m ≠ n ∧ InRange m ∧ ofInt m = ofInt n := by
  simp [Merged]

theorem split_int {m n : Int} : Split (.int m) (.int n) ↔ m = n ∧ ¬ InRange m := by
  constructor
  · rintro (⟨k, hm, hn, hrange⟩ | ⟨x, hm, -⟩ | ⟨x, -, hn⟩)
    · cases hm
      cases hn
      exact ⟨rfl, hrange⟩
    · cases hm
    · cases hn
  · rintro ⟨rfl, hrange⟩
    exact .inl ⟨m, rfl, rfl, hrange⟩

theorem equal_iff {a b : Value} : Equal a b ↔ Merged a b ∨ hostEq a b = true ∧ ¬ Split a b := by
  cases a with
  | bool x =>
      rw [equal_of_bool]
      cases b with
      | bool y =>
          rw [Value.bool.injEq, iff_false_intro not_merged_bool, iff_false_intro not_split_bool, false_or, not_false_iff,
            and_true]
          exact eq_comm.trans beq_iff_eq.symm
      | int n =>
          refine iff_of_false nofun ?_
          rintro (⟨k, _, hk, -⟩ | ⟨hhost, hsplit⟩)
          · cases hk
          · exact hsplit (.inr (.inl ⟨x, rfl, congrArg Value.int (beq_iff_eq.mp hhost).symm⟩))
      | _ =>
          refine iff_of_false nofun ?_
          rintro (⟨k, _, hk, -⟩ | ⟨hhost, -⟩)
          · cases hk
          · exact Bool.false_ne_true hhost
  | int m =>
      cases b with
      | bool y =>
          refine iff_of_false (not_equal rfl) ?_
          rintro (⟨_, k, -, hk, -⟩ | ⟨hhost, hsplit⟩)
          · cases hk
          · exact hsplit (.inr (.inr ⟨y, congrArg Value.int (beq_iff_eq.mp hhost), rfl⟩))
      | int n =>
          have hhost : hostEq (.int m) (.int n) = true ↔ m = n := beq_iff_eq
          rw [equal_int, merged_int, split_int, hhost]
          rcases eq_or_ne m n with rfl | hne
          · simp
          · simp [hne]
      | _ =>
          refine iff_of_false (not_equal rfl) ?_
          rintro (⟨_, k, -, hk, -⟩ | ⟨hhost, -⟩)
          · cases hk
          · exact Bool.false_ne_true hhost
  | _ =>
      rw [equal_of_not_number rfl]
      simp [Merged, Split]

/-! ### Laws -/

theorem equal_refl_iff {a : Value} (h : a.WellFormed) : Equal a a ↔ ∀ n, a = .int n → InRange n := by
  cases a with
  | int m =>
      rw [equal_int]
      exact ⟨fun heq n hn => Value.int.inj hn ▸ heq.1, fun hall => ⟨hall m rfl, rfl⟩⟩
  | bool x => exact iff_of_true (equal_of_bool.mpr rfl) (by simp)
  | _ => exact iff_of_true ((equal_of_not_number rfl).mpr (hostEq_refl h)) (by simp)

theorem inRange_iff {n : Int} : InRange n ↔ ofInt n ≠ none := by
  rw [Ne, ofInt_eq_none, Nat.not_le]
  exact Iff.rfl

theorem Merged.symm {a b : Value} (h : Merged a b) : Merged b a := by
  obtain ⟨m, n, rfl, rfl, hne, hrange, heq⟩ := h
  exact ⟨n, m, rfl, rfl, hne.symm, inRange_iff.mpr (heq ▸ inRange_iff.mp hrange), heq.symm⟩

theorem Split.symm {a b : Value} (h : Split a b) : Split b a := by
  rcases h with ⟨n, rfl, rfl, hrange⟩ | ⟨x, rfl, rfl⟩ | ⟨x, rfl, rfl⟩
  · exact .inl ⟨n, rfl, rfl, hrange⟩
  · exact .inr (.inr ⟨x, rfl, rfl⟩)
  · exact .inr (.inl ⟨x, rfl, rfl⟩)

theorem Equal.symm {a b : Value} (ha : a.WellFormed) (hb : b.WellFormed) (h : Equal a b) : Equal b a := by
  apply equal_iff.mpr
  exact (equal_iff.mp h).imp Merged.symm fun ⟨hhost, hsplit⟩ => ⟨hostEq_symm ha hb hhost, fun h' => hsplit h'.symm⟩

theorem exists_of_equal_int {m : Int} {b : Value} (h : Equal (.int m) b) : ∃ n, b = .int n := by
  cases b with
  | int n => exact ⟨n, rfl⟩
  | _ => simp [Equal, opEq, nodusEq, hostEq] at h

theorem Equal.trans {a b c : Value} (ha : a.WellFormed) (hb : b.WellFormed) (h : Equal a b) (h' : Equal b c) :
    Equal a c := by
  cases a with
  | bool x =>
      obtain rfl := equal_of_bool.mp h
      exact h'
  | int m =>
      obtain ⟨n, rfl⟩ := exists_of_equal_int h
      obtain ⟨k, rfl⟩ := exists_of_equal_int h'
      rw [equal_int] at h h' ⊢
      exact ⟨h.1, h.2.trans h'.2⟩
  | _ =>
      have hhost := (equal_of_not_number rfl).mp h
      have hnumber : b.number = none := by
        by_contra hne
        obtain ⟨m, hm⟩ := Option.ne_none_iff_exists'.mp hne
        cases (hostEq_number hm).mp (hostEq_symm ha hb hhost)
      exact (equal_of_not_number rfl).mpr (hostEq_trans ha hhost ((equal_of_not_number hnumber).mp h'))

/-- On pairs of components the equality of the host language decides as `EQ` does: no pair is clashing, or a pair is
different for both, or the pairs that clash do so both ways. -/
def Compatible (beside : Value → Value → Prop) : Prop :=
  (∀ x y, beside x y → ¬ Merged x y ∧ ¬ Split x y) ∨ (∃ x y, beside x y ∧ Apart x y) ∨
    (∃ x y, beside x y ∧ Merged x y) ∧ ∃ x y, beside x y ∧ Split x y

theorem forall_iff_forall {beside : Value → Value → Prop} :
    ((∀ x y, beside x y → hostEq x y = true) ↔ ∀ x y, beside x y → Equal x y) ↔ Compatible beside := by
  constructor
  · intro h
    by_cases hapart : ∃ x y, beside x y ∧ Apart x y
    · exact .inr (.inl hapart)
    by_cases hmerged : ∃ x y, beside x y ∧ Merged x y
    · obtain ⟨x, y, hxy, hmerged⟩ := hmerged
      have hnot : ¬ ∀ x y, beside x y → Equal x y := by
        intro hall
        have hhost := h.mpr hall x y hxy
        rw [hmerged.hostEq] at hhost
        cases hhost
      simp only [not_forall] at hnot
      obtain ⟨u, v, huv, hne⟩ := hnot
      refine .inr (.inr ⟨⟨x, y, hxy, hmerged⟩, u, v, huv, ?_⟩)
      by_contra hsplit
      have hmerged' : ¬ Merged u v := fun hm => hne (equal_iff.mpr (.inl hm))
      have hhost : hostEq u v = false := by
        apply Bool.eq_false_of_not_eq_true
        exact fun hhost => hne (equal_iff.mpr (.inr ⟨hhost, hsplit⟩))
      exact hapart ⟨u, v, huv, hhost, hmerged'⟩
    · refine .inl fun x y hxy => ⟨fun hm => hmerged ⟨x, y, hxy, hm⟩, fun hsplit => ?_⟩
      have hhost : ∀ x y, beside x y → hostEq x y = true := by
        intro x y hxy
        apply Bool.eq_true_of_not_eq_false
        exact fun hfalse => hapart ⟨x, y, hxy, hfalse, fun hm => hmerged ⟨x, y, hxy, hm⟩⟩
      rcases equal_iff.mp (h.mp hhost x y hxy) with hm | ⟨-, hno⟩
      · exact hmerged ⟨x, y, hxy, hm⟩
      · exact hno hsplit
  · rintro (hnone | ⟨x, y, hxy, hhost, hmerged⟩ | ⟨⟨x, y, hxy, hmerged⟩, u, v, huv, hsplit⟩)
    · have hpair : ∀ x y, beside x y → (hostEq x y = true ↔ Equal x y) := by
        intro x y hxy
        obtain ⟨hm, hs⟩ := hnone x y hxy
        rw [equal_iff]
        exact ⟨fun hhost => .inr ⟨hhost, hs⟩, fun heq => heq.elim (absurd · hm) And.left⟩
      exact forall_congr' fun x => forall_congr' fun y => forall_congr' fun hxy => hpair x y hxy
    · have hequal : ¬ Equal x y := by
        rw [equal_iff, hhost]
        simp [hmerged]
      refine iff_of_false (fun hall => ?_) fun hall => hequal (hall x y hxy)
      have htrue := hall x y hxy
      rw [hhost] at htrue
      cases htrue
    · have hequal : ¬ Equal u v := by
        rw [equal_iff]
        rintro (hm | ⟨-, hno⟩)
        · have hhost := hsplit.hostEq
          rw [hm.hostEq] at hhost
          cases hhost
        · exact hno hsplit
      refine iff_of_false (fun hall => ?_) fun hall => hequal (hall u v huv)
      have htrue := hall x y hxy
      rw [hmerged.hostEq] at htrue
      cases htrue

/-- The components of two lists at one position. -/
def Beside (xs ys : List Value) (x y : Value) : Prop := ∃ i : Nat, xs[i]? = some x ∧ ys[i]? = some y

/-- The components of two maps under one key. -/
def Shared (xs ys : List (Key × Value)) (x y : Value) : Prop := ∃ key, (key, x) ∈ xs ∧ (key, y) ∈ ys

def SameKeys (xs ys : List (Key × Value)) : Prop := ∀ key, key ∈ keys xs ↔ key ∈ keys ys

/-- Two lists have equal length and equal elements, position by position. -/
def Pointwise (xs ys : List Value) : Prop :=
  xs.length = ys.length ∧ ∀ (i : Nat) (h : i < xs.length) (h' : i < ys.length), Equal xs[i] ys[i]

/-- Two maps have the same keys and equal values. -/
def Keywise (xs ys : List (Key × Value)) : Prop :=
  SameKeys xs ys ∧ ∀ key x y, (key, x) ∈ xs → (key, y) ∈ ys → Equal x y

theorem forall_beside {p : Value → Value → Prop} {xs ys : List Value} :
    (∀ (i : Nat) (h : i < xs.length) (h' : i < ys.length), p xs[i] ys[i]) ↔ ∀ x y, Beside xs ys x y → p x y := by
  constructor
  · rintro h x y ⟨i, hx, hy⟩
    obtain ⟨hi, rfl⟩ := List.getElem?_eq_some_iff.mp hx
    obtain ⟨hi', rfl⟩ := List.getElem?_eq_some_iff.mp hy
    exact h i hi hi'
  · intro h i hi hi'
    exact h _ _ ⟨i, List.getElem?_eq_getElem hi, List.getElem?_eq_getElem hi'⟩

theorem forall_shared {p : Value → Value → Prop} {xs ys : List (Key × Value)} :
    (∀ key x y, (key, x) ∈ xs → (key, y) ∈ ys → p x y) ↔ ∀ x y, Shared xs ys x y → p x y :=
  ⟨fun h x y ⟨key, hx, hy⟩ => h key x y hx hy, fun h key x y hx hy => h x y ⟨key, hx, hy⟩⟩

theorem and_iff_and_iff {p q r : Prop} : (p ∧ q ↔ p ∧ r) ↔ (p → (q ↔ r)) := by
  tauto

theorem pointwise_iff {xs ys : List Value} :
    (Equal (.list xs) (.list ys) ↔ Pointwise xs ys) ↔ (xs.length = ys.length → Compatible (Beside xs ys)) := by
  rw [equal_of_not_number rfl, hostEq_list]
  unfold Pointwise
  rw [and_iff_and_iff, forall_beside (p := fun x y => hostEq x y = true), forall_beside, forall_iff_forall]

theorem hostEq_map_iff {xs ys : List (Key × Value)} (hxs : (keys xs).Nodup) (hys : (keys ys).Nodup) :
    hostEq (.map xs) (.map ys) = true ↔ SameKeys xs ys ∧ ∀ key x y, (key, x) ∈ xs → (key, y) ∈ ys → hostEq x y = true := by
  constructor
  · intro h
    refine ⟨mem_keys_iff hxs h, fun key x y hx hy => ?_⟩
    obtain ⟨z, hz, heq⟩ := (hostEq_map.mp h).2 (key, x) hx
    rw [lookup_of_mem hys hy] at hz
    cases hz
    exact heq
  · rintro ⟨hkeys, hall⟩
    have hlength : (keys xs).length = (keys ys).length :=
      ((List.perm_ext_iff_of_nodup hxs hys).mpr hkeys).length_eq
    unfold keys at hlength
    rw [List.length_map, List.length_map] at hlength
    refine hostEq_map.mpr ⟨hlength, fun e he => ?_⟩
    have hkey : e.1 ∈ keys ys := (hkeys e.1).mp (List.mem_map_of_mem he)
    obtain ⟨e', he', hfst⟩ := List.mem_map.mp hkey
    have hmem : (e.1, e'.2) ∈ ys := by
      rw [← hfst]
      exact he'
    exact ⟨e'.2, lookup_of_mem hys hmem, hall e.1 e.2 e'.2 he hmem⟩

theorem keywise_iff {xs ys : List (Key × Value)} (hxs : (keys xs).Nodup) (hys : (keys ys).Nodup) :
    (Equal (.map xs) (.map ys) ↔ Keywise xs ys) ↔ (SameKeys xs ys → Compatible (Shared xs ys)) := by
  rw [equal_of_not_number rfl, hostEq_map_iff hxs hys]
  unfold Keywise
  rw [and_iff_and_iff, forall_shared (p := fun x y => hostEq x y = true), forall_shared, forall_iff_forall]

/-- The builtins that search a list find what is equal to the needle. -/
structure Finds (items : List Value) (needle : Value) : Prop where
  first : builtinIndexOf (.list items) needle = .ok (items.findIdx? fun x => decide (Equal x needle))
  last : builtinLastIndexOf (.list items) needle = .ok (scanDown (fun x => decide (Equal x needle)) items items.length)
  count : builtinCount (.list items) needle = .ok (items.countP fun x => decide (Equal x needle))

/-- Two predicates of which the one implies the other hold of equally many items only if they agree there. -/
theorem of_countP_eq {p q : Value → Bool} {items : List Value} (himp : ∀ x ∈ items, p x = true → q x = true)
    (hcount : items.countP p = items.countP q) : ∀ x ∈ items, q x = true → p x = true := by
  induction items with
  | nil => exact fun x hx => absurd hx List.not_mem_nil
  | cons y items ih =>
      have hrest : ∀ x ∈ items, p x = true → q x = true := fun x hx => himp x (List.mem_cons_of_mem _ hx)
      have hle : items.countP p ≤ items.countP q := List.countP_mono_left hrest
      have hy := himp y List.mem_cons_self
      rw [List.countP_cons, List.countP_cons] at hcount
      have hsplit : (q y = true → p y = true) ∧ items.countP p = items.countP q := by
        cases hp : p y with
        | true =>
            rw [hp, hy hp] at hcount
            exact ⟨fun _ => rfl, Nat.add_right_cancel hcount⟩
        | false =>
            cases hq : q y with
            | true =>
                rw [hp, hq, if_neg Bool.false_ne_true, if_pos rfl] at hcount
                omega
            | false =>
                rw [hp, hq] at hcount
                exact ⟨fun h => h, Nat.add_right_cancel hcount⟩
      intro x hx
      rcases List.mem_cons.mp hx with rfl | hx
      · exact hsplit.1
      · exact ih hrest hsplit.2 x hx

theorem not_split_of_merged {x y needle : Value} (h : Merged x needle) : ¬ Split y needle := by
  obtain ⟨m, n, rfl, rfl, hne, hrange, heq⟩ := h
  have hn : InRange n := inRange_iff.mpr (heq ▸ inRange_iff.mp hrange)
  rintro (⟨k, -, hk, hout⟩ | ⟨b, -, hb⟩ | ⟨b, -, hb⟩)
  · obtain rfl := Value.int.inj hk
    exact hout hn
  · obtain rfl := Value.int.inj hb
    refine hne (ofInt_inj_of_lt ?_ heq)
    cases b <;> decide
  · cases hb

theorem scanDown_congr {p q : Value → Bool} {items : List Value} (h : ∀ x ∈ items, p x = q x) (i : Nat) :
    scanDown p items i = scanDown q items i := by
  induction i with
  | zero => rfl
  | succ i ih =>
      have hitem : items[i]?.any p = items[i]?.any q := by
        cases hget : items[i]? with
        | none => rfl
        | some x => exact h x (List.mem_of_getElem? hget)
      unfold scanDown
      rw [hitem, ih]

theorem findIdx?_congr {p q : Value → Bool} {items : List Value} (h : ∀ x ∈ items, p x = q x) :
    items.findIdx? p = items.findIdx? q := by
  induction items with
  | nil => rfl
  | cons x items ih =>
      rw [List.findIdx?_cons, List.findIdx?_cons, h x List.mem_cons_self,
        ih fun y hy => h y (List.mem_cons_of_mem _ hy)]

theorem finds_iff {items : List Value} {needle : Value} :
    Finds items needle ↔ ∀ x ∈ items, ¬ Merged x needle ∧ ¬ Split x needle := by
  constructor
  · intro h
    have hcount := Except.ok.inj h.count
    by_cases hmerged : ∃ x ∈ items, Merged x needle
    · obtain ⟨x, hx, hmerged⟩ := hmerged
      have himp : ∀ y ∈ items, hostEq y needle = true → decide (Equal y needle) = true := by
        intro y _ hhost
        exact decide_eq_true (equal_iff.mpr (.inr ⟨hhost, not_split_of_merged hmerged⟩))
      have hhost := of_countP_eq himp hcount x hx (decide_eq_true (equal_iff.mpr (.inl hmerged)))
      rw [hmerged.hostEq] at hhost
      cases hhost
    · refine fun x hx => ⟨fun hm => hmerged ⟨x, hx, hm⟩, fun hsplit => ?_⟩
      have himp : ∀ y ∈ items, decide (Equal y needle) = true → hostEq y needle = true := by
        intro y hy hequal
        rcases equal_iff.mp (of_decide_eq_true hequal) with hm | ⟨hhost, -⟩
        · exact absurd ⟨y, hy, hm⟩ hmerged
        · exact hhost
      have hequal := of_countP_eq himp hcount.symm x hx hsplit.hostEq
      rcases equal_iff.mp (of_decide_eq_true hequal) with hm | ⟨-, hno⟩
      · exact hmerged ⟨x, hx, hm⟩
      · exact hno hsplit
  · intro h
    have hsame : ∀ x ∈ items, hostEq x needle = decide (Equal x needle) := by
      intro x hx
      obtain ⟨hm, hs⟩ := h x hx
      rw [Bool.eq_iff_iff, decide_eq_true_iff, equal_iff]
      exact ⟨fun hhost => .inr ⟨hhost, hs⟩, fun heq => heq.elim (absurd · hm) And.left⟩
    constructor
    · exact congrArg Except.ok (findIdx?_congr hsame)
    · exact congrArg Except.ok (scanDown_congr hsame items.length)
    · exact congrArg Except.ok (List.countP_congr fun x hx => by rw [hsame x hx])

/-- Two integers of which one has no double. -/
def Unanswered (a b : Value) : Prop := ∃ m n, a = .int m ∧ b = .int n ∧ ¬ (InRange m ∧ InRange n)

def SameDouble (a b : Value) : Prop := ∃ m n, a = .int m ∧ b = .int n ∧ ofInt m = ofInt n

/-- No comparison with an arm raises before an arm is taken. -/
def Answered (scrutinee : Value) : List (Option Value) → Prop
  | [] => True
  | none :: _ => True
  | some pattern :: rest => ¬ Unanswered scrutinee pattern ∧ (SameDouble scrutinee pattern ∨ Answered scrutinee rest)

/-- The first arm that is equal to the scrutinee, or has no pattern, is taken. -/
def Selects (scrutinee : Value) (arms : List (Option Value)) : Prop :=
  selectArm scrutinee arms = .ok (arms.findIdx? (Option.all fun pattern => decide (Equal scrutinee pattern)))

theorem opEq_of_unanswered {a b : Value} (h : Unanswered a b) : opEq a b = .error .overflow := by
  obtain ⟨m, n, rfl, rfl, hrange⟩ := h
  rw [opEq_ints]
  unfold floatEq
  cases hm : ofInt m with
  | none => rfl
  | some x =>
      cases hn : ofInt n with
      | none => rfl
      | some y =>
          refine absurd ⟨inRange_iff.mpr ?_, inRange_iff.mpr ?_⟩ hrange
          · exact hm ▸ Option.some_ne_none x
          · exact hn ▸ Option.some_ne_none y

theorem exists_opEq {a b : Value} (h : ¬ Unanswered a b) : ∃ answer, opEq a b = .ok answer := by
  cases a with
  | int m =>
      cases b with
      | int n =>
          have hrange : InRange m ∧ InRange n := by
            by_contra hno
            exact h ⟨m, n, rfl, rfl, hno⟩
          exact ⟨_, opEq_int hrange.1 hrange.2⟩
      | _ => exact ⟨_, rfl⟩
  | bool x => cases b <;> exact ⟨_, rfl⟩
  | _ => cases b <;> exact ⟨_, rfl⟩

theorem sameDouble_iff {m : Int} {b : Value} (h : ¬ Unanswered (.int m) b) :
    SameDouble (.int m) b ↔ Equal (.int m) b := by
  constructor
  · rintro ⟨k, n, hk, rfl, heq⟩
    obtain rfl := Value.int.inj hk
    have hrange : InRange m := by
      by_contra hno
      exact h ⟨m, n, rfl, rfl, fun hboth => hno hboth.1⟩
    exact equal_int.mpr ⟨hrange, heq⟩
  · intro hequal
    obtain ⟨n, rfl⟩ := exists_of_equal_int hequal
    exact ⟨m, n, rfl, rfl, (equal_int.mp hequal).2⟩

theorem answered_of_not_int {scrutinee : Value} (h : ∀ n, scrutinee ≠ .int n) (arms : List (Option Value)) :
    Answered scrutinee arms := by
  induction arms with
  | nil => trivial
  | cons arm arms ih =>
      cases arm with
      | none => trivial
      | some pattern => exact ⟨fun ⟨m, _, hm, _⟩ => h m hm, .inr ih⟩

theorem map_succ_eq_iff {result : Except Fault (Option Nat)} {arm : Option Nat} :
    result.map (Option.map (· + 1)) = .ok (arm.map (· + 1)) ↔ result = .ok arm := by
  cases result with
  | error fault => exact iff_of_false nofun nofun
  | ok taken =>
      have hinj : Function.Injective (Option.map (· + 1 : Nat → Nat)) :=
        Option.map_injective fun i j h => Nat.succ.inj h
      exact ⟨fun h => congrArg Except.ok (hinj (Except.ok.inj h)), fun h => by rw [h]; rfl⟩

theorem selects_iff {scrutinee : Value} {arms : List (Option Value)} :
    Selects scrutinee arms ↔ Answered scrutinee arms := by
  induction arms with
  | nil => exact iff_of_true rfl trivial
  | cons arm arms ih =>
      cases arm with
      | none => exact iff_of_true rfl trivial
      | some pattern =>
          unfold Selects selectArm Answered
          by_cases hraise : Unanswered scrutinee pattern
          · rw [opEq_of_unanswered hraise]
            exact iff_of_false nofun fun h => h.1 hraise
          obtain ⟨answer, hanswer⟩ := exists_opEq hraise
          have hequal : Equal scrutinee pattern ↔ answer = true := by
            unfold Equal
            rw [hanswer, Except.ok.injEq]
          rw [hanswer, List.findIdx?_cons, Option.all_some]
          cases answer with
          | true =>
              rw [decide_eq_true (hequal.mpr rfl)]
              refine iff_of_true rfl ⟨hraise, ?_⟩
              by_cases hint : ∃ m, scrutinee = .int m
              · obtain ⟨m, rfl⟩ := hint
                exact .inl ((sameDouble_iff hraise).mpr (hequal.mpr rfl))
              · exact .inr (answered_of_not_int (fun n hn => hint ⟨n, hn⟩) arms)
          | false =>
              have hne : ¬ Equal scrutinee pattern := fun h => Bool.false_ne_true (hequal.mp h)
              have hdouble : ¬ SameDouble scrutinee pattern := by
                rintro ⟨m, n, rfl, rfl, heq⟩
                exact hne ((sameDouble_iff hraise).mp ⟨m, n, rfl, rfl, heq⟩)
              rw [decide_eq_false hne, and_iff_right hraise, or_iff_right hdouble, ← ih]
              exact map_succ_eq_iff

/-- A value of the running program: a map has one entry for a key. -/
structure Datum where
  value : Value
  wellFormed : value.WellFormed

/-- `EQ` is an equivalence, goes into lists and maps, and is what searching and matching go by. -/
structure Lawful (a b c : Datum) (arms : List (Option Value)) : Prop where
  refl : Equal a.value a.value
  symm : Equal a.value b.value → Equal b.value a.value
  trans : Equal a.value b.value → Equal b.value c.value → Equal a.value c.value
  lists : ∀ xs ys, a.value = .list xs → b.value = .list ys → (Equal a.value b.value ↔ Pointwise xs ys)
  maps : ∀ xs ys, a.value = .map xs → b.value = .map ys → (Equal a.value b.value ↔ Keywise xs ys)
  finds : ∀ xs, a.value = .list xs → Finds xs b.value
  selects : Selects b.value arms

/-- What the values must be for that. -/
structure Regular (a b : Value) (arms : List (Option Value)) : Prop where
  inRange : ∀ n, a = .int n → InRange n
  lists : ∀ xs ys, a = .list xs → b = .list ys → xs.length = ys.length → Compatible (Beside xs ys)
  maps : ∀ xs ys, a = .map xs → b = .map ys → SameKeys xs ys → Compatible (Shared xs ys)
  items : ∀ xs, a = .list xs → ∀ x ∈ xs, ¬ Merged x b ∧ ¬ Split x b
  arms : Answered b arms

theorem Datum.nodup_keys {a : Datum} {entries : List (Key × Value)} (h : a.value = .map entries) :
    (keys entries).Nodup := by
  have hwf := a.wellFormed
  rw [h] at hwf
  cases hwf with
  | map hkeys _ => exact hkeys

/-- The equality of the language is one relation throughout, except where booleans, large integers and their doubles
meet. -/
theorem lawful_iff (a b c : Datum) (arms : List (Option Value)) : Lawful a b c arms ↔ Regular a.value b.value arms := by
  constructor
  · intro h
    constructor
    · exact (equal_refl_iff a.wellFormed).mp h.refl
    · intro xs ys hxs hys
      have hlaw := h.lists xs ys hxs hys
      rw [hxs, hys] at hlaw
      exact pointwise_iff.mp hlaw
    · intro xs ys hxs hys
      have hlaw := h.maps xs ys hxs hys
      rw [hxs, hys] at hlaw
      exact (keywise_iff (a.nodup_keys hxs) (b.nodup_keys hys)).mp hlaw
    · exact fun xs hxs => finds_iff.mp (h.finds xs hxs)
    · exact selects_iff.mp h.selects
  · intro h
    constructor
    · exact (equal_refl_iff a.wellFormed).mpr h.inRange
    · exact Equal.symm a.wellFormed b.wellFormed
    · exact Equal.trans a.wellFormed b.wellFormed
    · intro xs ys hxs hys
      rw [hxs, hys]
      exact pointwise_iff.mpr (h.lists xs ys hxs hys)
    · intro xs ys hxs hys
      rw [hxs, hys]
      exact (keywise_iff (a.nodup_keys hxs) (b.nodup_keys hys)).mpr (h.maps xs ys hxs hys)
    · exact fun xs hxs => finds_iff.mpr (h.items xs hxs)
    · exact selects_iff.mpr h.arms

/-- `[true]` is equal to `[1]`, and `true` is not equal to `1`. -/
theorem not_lawful : ¬ Lawful ⟨.list [.bool true], .list (by simp [Value.WellFormed.bool])⟩
    ⟨.list [.int 1], .list (by simp [Value.WellFormed.int])⟩ ⟨.nil, .nil⟩ [] := by
  intro h
  have hlaw := h.lists _ _ rfl rfl
  have hequal : Equal (.bool true) (.int 1) := (hlaw.mp (by decide)).2 0 (by decide) (by decide)
  cases equal_of_bool.mp hequal

end Nodus.Equality
