import Mathlib.Data.List.Forall2
import Mathlib.Data.List.Nodup
import Mathlib.Data.List.Basic
import Mathlib.Data.Nat.Digits.Lemmas

/-! JSON texts as the host's `json` module writes and reads them, over code points. -/

namespace JsonText

abbrev Text := List Nat

/-- The code points of a text without surrogates. -/
def text (s : String) : Text := s.toList.map Char.toNat

inductive Json (F : Type) where
  | null
  | bool (b : Bool)
  | int (n : Int)
  | float (x : F)
  | str (s : Text)
  | arr (items : List (Json F))
  | obj (entries : List (Text × Json F))

/-- How a float is written and read. -/
structure Floats (F : Type) where
  repr : F → Text
  read : Text → F

/-! ### Decimals -/

/-- More digits than these are neither written nor read. -/
def maxStrDigits : Nat := 4300

def decimal (n : Nat) : Text := if n = 0 then [48] else (Nat.digits 10 n).reverse.map (· + 48)

def intText (n : Int) : Text := if n < 0 then 45 :: decimal n.natAbs else decimal n.natAbs

def isDigit (c : Nat) : Bool := 48 ≤ c && c ≤ 57

def readDecimal (digits : Text) : Nat := digits.foldl (fun n c => 10 * n + (c - 48)) 0

/-! ### Writing -/

/-- A digit of a number to the base 16. -/
def hexDigit (d : Nat) : Nat := if d < 10 then d + 48 else d + 87

/-- `ESCAPE_DCT`. -/
def escapeChar (c : Nat) : Text :=
  if c = 34 then [92, 34]
  else if c = 92 then [92, 92]
  else if c = 8 then [92, 98]
  else if c = 12 then [92, 102]
  else if c = 10 then [92, 110]
  else if c = 13 then [92, 114]
  else if c = 9 then [92, 116]
  else if c < 32 then [92, 117, 48, 48, hexDigit (c / 16), hexDigit (c % 16)]
  else [c]

def quote (s : Text) : Text := 34 :: (s.flatMap escapeChar ++ [34])

/-- The items with `, ` between them. -/
def joined : List Text → Text
  | [] => []
  | [t] => t
  | t :: rest => t ++ 44 :: 32 :: joined rest

section Dumps

variable {F : Type}

/-- `json.dumps` with `ensure_ascii=False`, where `none` is that it raises: a list or a map is nested too deep, or a number has too many
digits. -/
def dumps (floats : Floats F) : Nat → Json F → Option Text
  | _, .null => some (text "null")
  | _, .bool true => some (text "true")
  | _, .bool false => some (text "false")
  | _, .int n => if (decimal n.natAbs).length ≤ maxStrDigits then some (intText n) else none
  | _, .float x => some (floats.repr x)
  | _, .str s => some (quote s)
  | 0, .arr _ => none
  | 0, .obj _ => none
  | level + 1, .arr items => (items.mapM (dumps floats level)).map fun texts => 91 :: (joined texts ++ [93])
  | level + 1, .obj entries =>
      (entries.mapM fun e => (dumps floats level e.2).map fun t => quote e.1 ++ 58 :: 32 :: t).map fun texts => 123 :: (joined texts ++ [125])

end Dumps

/-! ### Reading -/

inductive Fault where
  /-- `JSONDecodeError`. -/
  | decode
  /-- `RecursionError`. -/
  | recursion
  /-- `ValueError`, of a number with too many digits. -/
  | digits
  deriving DecidableEq, Repr

def isSpace (c : Nat) : Bool := c = 32 || c = 9 || c = 10 || c = 13

def skipSpaces (t : Text) : Text := t.dropWhile isSpace

def hexValue (c : Nat) : Option Nat :=
  if isDigit c then some (c - 48)
  else if 97 ≤ c ∧ c ≤ 102 then some (c - 87)
  else if 65 ≤ c ∧ c ≤ 70 then some (c - 55)
  else none

/-- `_decode_uXXXX`. -/
def readHex : Text → Option (Nat × Text)
  | a :: b :: c :: d :: rest => do
      let a ← hexValue a
      let b ← hexValue b
      let c ← hexValue c
      let d ← hexValue d
      return (a * 4096 + b * 256 + c * 16 + d, rest)
  | _ => none

/-- The second half of a surrogate pair, if there is one. -/
def readLow : Text → Option (Nat × Text)
  | 92 :: 117 :: rest => (readHex rest).filter fun p => decide (0xdc00 ≤ p.1) && decide (p.1 ≤ 0xdfff)
  | _ => none

/-- An escape by number, with the other half of a pair. -/
def readEscape (rest : Text) : Option (Nat × Text) :=
  (readHex rest).map fun (high, rest) =>
    if 0xd800 ≤ high ∧ high ≤ 0xdbff then
      match readLow rest with
      | some (low, rest) => (0x10000 + (high - 0xd800) * 0x400 + (low - 0xdc00), rest)
      | none => (high, rest)
    else (high, rest)

/-- `BACKSLASH`. -/
def backslash (c : Nat) : Option Nat :=
  if c = 34 then some 34
  else if c = 92 then some 92
  else if c = 47 then some 47
  else if c = 98 then some 8
  else if c = 102 then some 12
  else if c = 110 then some 10
  else if c = 114 then some 13
  else if c = 116 then some 9
  else none

/-- `scanstring`, after the first quote. A turn of the loop takes a character at least. -/
def scanString : Nat → Text → Option (Text × Text)
  | 0, _ => none
  | _ + 1, [] => none
  | turns + 1, c :: rest =>
      if c = 34 then some ([], rest)
      else if c = 92 then
        match rest with
        | [] => none
        | esc :: rest =>
            if esc = 117 then (readEscape rest).bind fun (c, rest) => (scanString turns rest).map fun (s, rest) => (c :: s, rest)
            else (backslash esc).bind fun c => (scanString turns rest).map fun (s, rest) => (c :: s, rest)
      else if c < 32 then none
      else (scanString turns rest).map fun (s, rest) => (c :: s, rest)

/-- The digits of a whole number, without leading zeros. -/
def wholePart : Text → Option (Text × Text)
  | [] => none
  | c :: rest =>
      if c = 48 then some ([48], rest)
      else if isDigit c then some (c :: rest.takeWhile isDigit, rest.dropWhile isDigit)
      else none

/-- `(\.[0-9]+)?` -/
def fractionPart (t : Text) : Text × Text :=
  match t with
  | 46 :: rest => if rest.takeWhile isDigit = [] then ([], t) else (46 :: rest.takeWhile isDigit, rest.dropWhile isDigit)
  | _ => ([], t)

/-- `([eE][-+]?[0-9]+)?` -/
def exponentPart (t : Text) : Text × Text :=
  match t with
  | e :: s :: rest =>
      if (e = 69 ∨ e = 101) ∧ (s = 43 ∨ s = 45) ∧ rest.takeWhile isDigit ≠ [] then
        (e :: s :: rest.takeWhile isDigit, rest.dropWhile isDigit)
      else if (e = 69 ∨ e = 101) ∧ isDigit s then (e :: (s :: rest).takeWhile isDigit, (s :: rest).dropWhile isDigit)
      else ([], t)
  | _ => ([], t)

section Loads

variable {F : Type}

/-- `NUMBER_RE` after the sign. -/
def scanUnsigned (floats : Floats F) (negative : Bool) (t : Text) : Except Fault (Json F × Text) :=
  match wholePart t with
  | none => .error .decode
  | some (whole, rest) =>
      let (fraction, rest) := fractionPart rest
      let (exponent, rest) := exponentPart rest
      if fraction = [] ∧ exponent = [] then
        if whole.length ≤ maxStrDigits then
          .ok (.int (if negative then - (readDecimal whole : Int) else readDecimal whole), rest)
        else .error .digits
      else .ok (.float (floats.read ((if negative then [45] else []) ++ whole ++ fraction ++ exponent)), rest)

def stripPrefix : Text → Text → Option Text
  | [], t => some t
  | _ :: _, [] => none
  | c :: word, d :: t => if c = d then stripPrefix word t else none

/-- The first of the words that the text begins with, and what it stands for. -/
def scanWord : List (Text × Json F) → Text → Option (Json F × Text)
  | [], _ => none
  | (word, j) :: words, t =>
      match stripPrefix word t with
      | some rest => some (j, rest)
      | none => scanWord words t

def words (floats : Floats F) : List (Text × Json F) :=
  [(text "null", .null), (text "true", .bool true), (text "false", .bool false), (text "NaN", .float (floats.read (text "NaN"))),
    (text "Infinity", .float (floats.read (text "Infinity"))), (text "-Infinity", .float (floats.read (text "-Infinity")))]

/-- The loops of `JSONArray` and `JSONObject`, which take a character at least in a turn. -/
def scanLoop {A : Type} (close : Nat) (scan : Text → Except Fault (A × Text)) : Nat → Text → Except Fault (List A × Text)
  | 0, _ => .error .decode
  | turns + 1, t =>
      match scan t with
      | .error fault => .error fault
      | .ok (a, rest) =>
          match skipSpaces rest with
          | [] => .error .decode
          | c :: rest =>
              if c = close then .ok ([a], rest)
              else if c = 44 then (scanLoop close scan turns (skipSpaces rest)).map fun (items, rest) => (a :: items, rest)
              else .error .decode

/-- `JSONArray`, after the bracket. -/
def scanArray (scan : Text → Except Fault (Json F × Text)) (t : Text) : Except Fault (Json F × Text) :=
  match skipSpaces t with
  | 93 :: rest => .ok (.arr [], rest)
  | t => (scanLoop 93 scan (t.length + 1) t).map fun (items, rest) => (.arr items, rest)

/-- A key with its value. -/
def scanEntry (scan : Text → Except Fault (Json F × Text)) : Text → Except Fault ((Text × Json F) × Text)
  | 34 :: t =>
      match scanString (t.length + 1) t with
      | none => .error .decode
      | some (key, rest) =>
          match skipSpaces rest with
          | 58 :: rest => (scan (skipSpaces rest)).map fun (j, rest) => ((key, j), rest)
          | _ => .error .decode
  | _ => .error .decode

/-- `d[key] = value`, in the place that the key has or at the end. -/
def assign (e : Text × Json F) : List (Text × Json F) → List (Text × Json F)
  | [] => [e]
  | d :: rest => if d.1 = e.1 then e :: rest else d :: assign e rest

/-- `dict(pairs)`. -/
def dictOf (pairs : List (Text × Json F)) : List (Text × Json F) := pairs.foldl (fun d e => assign e d) []

/-- `JSONObject`, after the brace. -/
def scanObject (scan : Text → Except Fault (Json F × Text)) (t : Text) : Except Fault (Json F × Text) :=
  match skipSpaces t with
  | 125 :: rest => .ok (.obj [], rest)
  | t => (scanLoop 125 (scanEntry scan) (t.length + 1) t).map fun (entries, rest) => (.obj (dictOf entries), rest)

/-- `scan_once`, where `nested` reads what is in a list or a map, unless that is too deep. -/
def scanValue (floats : Floats F) (nested : Option (Text → Except Fault (Json F × Text))) (t : Text) : Except Fault (Json F × Text) :=
  match t with
  | [] => .error .decode
  | c :: rest =>
      if c = 34 then
        match scanString (rest.length + 1) rest with
        | some (s, rest) => .ok (.str s, rest)
        | none => .error .decode
      else if c = 91 then nested.elim (.error .recursion) fun scan => scanArray scan rest
      else if c = 123 then nested.elim (.error .recursion) fun scan => scanObject scan rest
      else
        match scanWord (words floats) t with
        | some result => .ok result
        | none => if c = 45 then scanUnsigned floats true rest else scanUnsigned floats false t

def scanOnce (floats : Floats F) : Nat → Text → Except Fault (Json F × Text)
  | 0 => scanValue floats none
  | level + 1 => scanValue floats (some (scanOnce floats level))

/-- `json.loads`. -/
def loads (floats : Floats F) (levels : Nat) (t : Text) : Except Fault (Json F) :=
  match scanOnce floats levels (skipSpaces t) with
  | .error fault => .error fault
  | .ok (j, rest) => if skipSpaces rest = [] then .ok j else .error .decode

end Loads

/-! ### What is written is read -/

section Decimals

theorem isDigit_add {d : Nat} (h : d < 10) : isDigit (d + 48) = true := by
  rw [isDigit, Bool.and_eq_true, decide_eq_true_iff, decide_eq_true_iff]
  omega

theorem decimal_digits {n c : Nat} (h : c ∈ decimal n) : isDigit c = true := by
  unfold decimal at h
  split at h
  · rw [List.mem_singleton.mp h]
    rfl
  · obtain ⟨d, hd, rfl⟩ := List.mem_map.mp h
    exact isDigit_add (Nat.digits_lt_base (by decide) (List.mem_reverse.mp hd))

theorem readDecimal_append (ds : List Nat) (n : Nat) : (ds.map (· + 48)).foldl (fun n c => 10 * n + (c - 48)) n = ds.foldl (fun n d => 10 * n + d) n := by
  induction ds generalizing n with
  | nil => rfl
  | cons d ds ih =>
      rw [List.map_cons, List.foldl_cons, List.foldl_cons, Nat.add_sub_cancel]
      exact ih _

theorem foldl_reverse_digits (ds : List Nat) : ds.reverse.foldl (fun n d => 10 * n + d) 0 = Nat.ofDigits 10 ds := by
  induction ds with
  | nil => rfl
  | cons d ds ih => rw [List.reverse_cons, List.foldl_append, ih, Nat.ofDigits_cons, List.foldl_cons, List.foldl_nil, Nat.add_comm]

theorem readDecimal_decimal (n : Nat) : readDecimal (decimal n) = n := by
  unfold decimal readDecimal
  split
  · next h => rw [h]; rfl
  · rw [readDecimal_append, foldl_reverse_digits, Nat.ofDigits_digits]

theorem decimal_cons {n : Nat} (h : n ≠ 0) : ∃ c ds, decimal n = c :: ds ∧ c ≠ 48 := by
  have hne : Nat.digits 10 n ≠ [] := Nat.digits_ne_nil_iff_ne_zero.mpr h
  refine ⟨(Nat.digits 10 n).getLast hne + 48, ((Nat.digits 10 n).dropLast).reverse.map (· + 48), ?_, ?_⟩
  · conv_lhs => rw [decimal, if_neg h, ← List.dropLast_append_getLast hne]
    rw [List.reverse_append, List.map_append]
    rfl
  · have hlast := Nat.getLast_digit_ne_zero 10 h
    omega

/-- The text does not go on with a digit. -/
def NoDigit (rest : Text) : Prop := ∀ c r, rest = c :: r → isDigit c = false

theorem takeWhile_digits {ds rest : Text} (h : ∀ c ∈ ds, isDigit c = true) (hrest : NoDigit rest) :
    (ds ++ rest).takeWhile isDigit = ds ∧ (ds ++ rest).dropWhile isDigit = rest := by
  induction ds with
  | nil =>
      cases rest with
      | nil => exact ⟨rfl, rfl⟩
      | cons c r =>
          have hc := hrest c r rfl
          exact ⟨List.takeWhile_cons_of_neg (by rw [hc]; exact Bool.false_ne_true), List.dropWhile_cons_of_neg (by rw [hc]; exact Bool.false_ne_true)⟩
  | cons c ds ih =>
      obtain ⟨htake, hdrop⟩ := ih fun d hd => h d (List.mem_cons_of_mem _ hd)
      have hc := h c List.mem_cons_self
      rw [List.cons_append, List.takeWhile_cons_of_pos hc, List.dropWhile_cons_of_pos hc, htake, hdrop]
      exact ⟨rfl, rfl⟩

theorem length_decimal_le {n k : Nat} (hk : 0 < k) (h : n < 10 ^ k) : (decimal n).length ≤ k := by
  unfold decimal
  split
  · exact hk
  · rw [List.length_map, List.length_reverse]
    exact (Nat.digits_length_le_iff (by decide) n).mpr h

theorem wholePart_decimal (n : Nat) {rest : Text} (hrest : NoDigit rest) : wholePart (decimal n ++ rest) = some (decimal n, rest) := by
  by_cases hn : n = 0
  · rw [hn]
    rfl
  · obtain ⟨c, ds, hcons, hc⟩ := decimal_cons hn
    have hdigits : ∀ d ∈ c :: ds, isDigit d = true := fun d hd => decimal_digits (hcons ▸ hd)
    obtain ⟨htake, hdrop⟩ := takeWhile_digits (fun d hd => hdigits d (List.mem_cons_of_mem _ hd)) hrest
    rw [hcons, List.cons_append, wholePart, if_neg hc, if_pos (hdigits c List.mem_cons_self), htake, hdrop]

end Decimals

/-- What may come after a value: nothing, a comma or the end of a list or a map. -/
def Stops (rest : Text) : Prop := rest = [] ∨ ∃ c r, rest = c :: r ∧ (c = 44 ∨ c = 93 ∨ c = 125)

theorem Stops.noDigit {rest : Text} (h : Stops rest) : NoDigit rest := by
  rintro c r rfl
  rcases h with h | ⟨d, r', h, hd⟩
  · exact absurd h nofun
  · obtain ⟨rfl, -⟩ := List.cons.inj h
    rcases hd with rfl | rfl | rfl <;> rfl

theorem Stops.parts {rest : Text} (h : Stops rest) : fractionPart rest = ([], rest) ∧ exponentPart rest = ([], rest) := by
  rcases h with rfl | ⟨c, r, rfl, hc⟩
  · exact ⟨rfl, rfl⟩
  · rcases hc with rfl | rfl | rfl <;> cases r <;> exact ⟨rfl, rfl⟩

section Strings

theorem hexValue_hexDigit {d : Nat} (h : d < 16) : hexValue (hexDigit d) = some d := by
  have hall : ∀ d < 16, hexValue (hexDigit d) = some d := by decide
  exact hall d h

theorem readEscape_control {c : Nat} (h : c < 32) (rest : Text) :
    readEscape (48 :: 48 :: hexDigit (c / 16) :: hexDigit (c % 16) :: rest) = some (c, rest) := by
  have hhigh := hexValue_hexDigit (d := c / 16) (by omega)
  have hlow := hexValue_hexDigit (d := c % 16) (by omega)
  have hzero : hexValue 48 = some 0 := rfl
  have hread : readHex (48 :: 48 :: hexDigit (c / 16) :: hexDigit (c % 16) :: rest) = some (c, rest) := by
    rw [readHex, hzero, hhigh, hlow]
    show some (0 * 4096 + 0 * 256 + c / 16 * 16 + c % 16, rest) = some (c, rest)
    rw [show 0 * 4096 + 0 * 256 + c / 16 * 16 + c % 16 = c by omega]
  rw [readEscape, hread, Option.map_some]
  exact congrArg some (if_neg (by omega))

theorem scanString_escape (c turns : Nat) (rest : Text) :
    scanString (turns + 1) (escapeChar c ++ rest) = (scanString turns rest).map fun (s, rest) => (c :: s, rest) := by
  unfold escapeChar
  by_cases h34 : c = 34
  · rw [if_pos h34, h34]
    rfl
  by_cases h92 : c = 92
  · rw [if_neg h34, if_pos h92, h92]
    rfl
  by_cases h8 : c = 8
  · rw [if_neg h34, if_neg h92, if_pos h8, h8]
    rfl
  by_cases h12 : c = 12
  · rw [if_neg h34, if_neg h92, if_neg h8, if_pos h12, h12]
    rfl
  by_cases h10 : c = 10
  · rw [if_neg h34, if_neg h92, if_neg h8, if_neg h12, if_pos h10, h10]
    rfl
  by_cases h13 : c = 13
  · rw [if_neg h34, if_neg h92, if_neg h8, if_neg h12, if_neg h10, if_pos h13, h13]
    rfl
  by_cases h9 : c = 9
  · rw [if_neg h34, if_neg h92, if_neg h8, if_neg h12, if_neg h10, if_neg h13, if_pos h9, h9]
    rfl
  rw [if_neg h34, if_neg h92, if_neg h8, if_neg h12, if_neg h10, if_neg h13, if_neg h9]
  by_cases hcontrol : c < 32
  · rw [if_pos hcontrol]
    show (readEscape (48 :: 48 :: hexDigit (c / 16) :: hexDigit (c % 16) :: rest)).bind _ = _
    rw [readEscape_control hcontrol]
    rfl
  · rw [if_neg hcontrol]
    show (if c = 34 then _ else if c = 92 then _ else if c < 32 then none else (scanString turns rest).map _) = _
    rw [if_neg h34, if_neg h92, if_neg hcontrol]

theorem scanString_quote (s rest : Text) {turns : Nat} (h : s.length < turns) :
    scanString turns (s.flatMap escapeChar ++ 34 :: rest) = some (s, rest) := by
  induction s generalizing turns with
  | nil =>
      obtain ⟨turns, rfl⟩ := Nat.exists_eq_add_of_lt h
      rfl
  | cons c s ih =>
      obtain ⟨turns, rfl⟩ := Nat.exists_eq_add_of_le' (Nat.lt_of_le_of_lt (Nat.zero_le _) h)
      rw [List.flatMap_cons, List.append_assoc, scanString_escape, ih (Nat.lt_of_succ_lt_succ h)]
      rfl

theorem length_escape (s : Text) : s.length ≤ (s.flatMap escapeChar).length := by
  induction s with
  | nil => exact Nat.le_refl _
  | cons c s ih =>
      have hone : 1 ≤ (escapeChar c).length := by
        unfold escapeChar
        repeat' split
        all_goals exact Nat.succ_le_succ (Nat.zero_le _)
      rw [List.flatMap_cons, List.length_append, List.length_cons]
      omega

theorem scanString_quoted (s rest : Text) :
    scanString ((s.flatMap escapeChar ++ 34 :: rest).length + 1) (s.flatMap escapeChar ++ 34 :: rest) = some (s, rest) := by
  have hlength := length_escape s
  refine scanString_quote s rest ?_
  rw [List.length_append, List.length_cons]
  omega

end Strings

section Values

variable {F : Type} {floats : Floats F}

/-- There are no floats in the value, and no key twice. -/
inductive Plain : Json F → Prop where
  | null : Plain .null
  | bool (b : Bool) : Plain (.bool b)
  | int (n : Int) : Plain (.int n)
  | str (s : Text) : Plain (.str s)
  | arr {items : List (Json F)} (h : ∀ j ∈ items, Plain j) : Plain (.arr items)
  | obj {entries : List (Text × Json F)} (hkeys : (entries.map Prod.fst).Nodup) (h : ∀ e ∈ entries, Plain e.2) : Plain (.obj entries)

theorem mapM_eq_some {A B : Type} {f : A → Option B} {l : List A} {r : List B} :
    l.mapM f = some r ↔ List.Forall₂ (fun a b => f a = some b) l r := by
  induction l generalizing r with
  | nil =>
      rw [List.mapM_nil, List.forall₂_nil_left_iff]
      exact ⟨fun h => (Option.some.inj h).symm, fun h => congrArg some h.symm⟩
  | cons a l ih =>
      rw [List.mapM_cons, List.forall₂_cons_left_iff]
      constructor
      · intro h
        obtain ⟨b, hb, h⟩ := Option.bind_eq_some_iff.mp h
        obtain ⟨rest, hrest, h⟩ := Option.bind_eq_some_iff.mp h
        exact ⟨b, rest, hb, ih.mp hrest, (Option.some.inj h).symm⟩
      · rintro ⟨b, rest, hb, hrest, rfl⟩
        rw [hb, ih.mpr hrest]
        rfl

/-- What is written of a value begins neither with a space nor with the end of a list or a map. -/
structure Begins (t : Text) : Prop where
  head : ∃ c r, t = c :: r ∧ isSpace c = false ∧ c ≠ 93 ∧ c ≠ 125

theorem Begins.of_digit {c : Nat} {r : Text} (h : isDigit c = true) : Begins (c :: r) := by
  rw [isDigit, Bool.and_eq_true, decide_eq_true_iff, decide_eq_true_iff] at h
  refine ⟨c, r, rfl, ?_, by omega, by omega⟩
  simp only [isSpace, Bool.or_eq_false_iff, decide_eq_false_iff_not]
  omega

theorem decimal_head (n : Nat) : ∃ c ds, decimal n = c :: ds ∧ isDigit c = true := by
  cases h : decimal n with
  | nil =>
      by_cases hn : n = 0
      · rw [hn] at h
        exact absurd h nofun
      · obtain ⟨c, ds, hcons, -⟩ := decimal_cons hn
        exact absurd (h.symm.trans hcons) nofun
  | cons c ds => exact ⟨c, ds, rfl, decimal_digits (h ▸ List.mem_cons_self)⟩

theorem dumps_begins {level : Nat} {j : Json F} {t : Text} (hj : Plain j) (h : dumps floats level j = some t) : Begins t := by
  cases hj with
  | null =>
      rw [dumps] at h
      exact Option.some.inj h ▸ ⟨_, _, rfl, rfl, by decide, by decide⟩
  | bool b =>
      cases b <;> rw [dumps] at h <;> exact Option.some.inj h ▸ ⟨_, _, rfl, rfl, by decide, by decide⟩
  | int n =>
      rw [dumps] at h
      obtain ⟨-, h⟩ := Option.ite_none_right_eq_some.mp h
      obtain rfl := Option.some.inj h
      unfold intText
      split
      · exact ⟨_, _, rfl, rfl, by decide, by decide⟩
      · obtain ⟨c, ds, hcons, hc⟩ := decimal_head n.natAbs
        rw [hcons]
        exact .of_digit hc
  | str s =>
      rw [dumps] at h
      exact Option.some.inj h ▸ ⟨_, _, rfl, rfl, by decide, by decide⟩
  | arr hitems =>
      cases level with
      | zero => exact absurd h nofun
      | succ level =>
          rw [dumps] at h
          obtain ⟨texts, -, rfl⟩ := Option.map_eq_some_iff.mp h
          exact ⟨_, _, rfl, rfl, by decide, by decide⟩
  | obj hkeys hentries =>
      cases level with
      | zero => exact absurd h nofun
      | succ level =>
          rw [dumps] at h
          obtain ⟨texts, -, rfl⟩ := Option.map_eq_some_iff.mp h
          exact ⟨_, _, rfl, rfl, by decide, by decide⟩

theorem skipSpaces_begins {t : Text} (h : Begins t) (rest : Text) : skipSpaces (t ++ rest) = t ++ rest := by
  obtain ⟨c, r, rfl, hc, -⟩ := h
  rw [skipSpaces, List.cons_append, List.dropWhile_cons_of_neg (by rw [hc]; exact Bool.false_ne_true)]

theorem skipSpaces_stops {rest : Text} (h : Stops rest) : skipSpaces rest = rest := by
  rcases h with rfl | ⟨c, r, rfl, hc⟩
  · rfl
  · rcases hc with rfl | rfl | rfl <;> rfl

/-- A text is read back, whatever stops it. -/
def ReadsAs {A : Type} (scan : Text → Except Fault (A × Text)) (a : A) (t : Text) : Prop :=
  Begins t ∧ ∀ rest, Stops rest → scan (t ++ rest) = .ok (a, rest)

theorem joined_begins {t : Text} (h : Begins t) (texts : List Text) (rest : Text) :
    ∃ c r, joined (t :: texts) ++ rest = c :: r ∧ skipSpaces (c :: r) = c :: r ∧ c ≠ 93 ∧ c ≠ 125 := by
  have hmore : ∃ more, joined (t :: texts) = t ++ more := by
    cases texts with
    | nil => exact ⟨[], (List.append_nil t).symm⟩
    | cons => exact ⟨_, rfl⟩
  obtain ⟨more, hmore⟩ := hmore
  obtain ⟨c, r, rfl, hspace, hne⟩ := h
  refine ⟨c, r ++ (more ++ rest), by rw [hmore, List.append_assoc]; rfl, ?_, hne⟩
  rw [skipSpaces, List.dropWhile_cons_of_neg (by rw [hspace]; exact Bool.false_ne_true)]

theorem skipSpaces_joined {t : Text} (h : Begins t) (texts : List Text) (rest : Text) :
    skipSpaces (joined (t :: texts) ++ rest) = joined (t :: texts) ++ rest := by
  obtain ⟨c, r, htext, hskip, -⟩ := joined_begins h texts rest
  rw [htext, hskip]

theorem joined_cons (t t' : Text) (texts : List Text) (rest : Text) :
    joined (t :: t' :: texts) ++ rest = t ++ 44 :: 32 :: (joined (t' :: texts) ++ rest) := by
  simp only [joined, List.append_assoc, List.cons_append]

theorem scanLoop_joined {A : Type} {close : Nat} (hclose : close = 93 ∨ close = 125) {scan : Text → Except Fault (A × Text)} {items : List A}
    {texts : List Text} (h : List.Forall₂ (ReadsAs scan) items texts) (hne : items ≠ []) (turns : Nat) (hturns : items.length ≤ turns)
    (rest : Text) : scanLoop close scan turns (joined texts ++ close :: rest) = .ok (items, rest) := by
  induction h generalizing turns with
  | nil => exact absurd rfl hne
  | @cons a t items texts ha hitems ih =>
      obtain ⟨turns, rfl⟩ := Nat.exists_eq_add_of_le' (Nat.lt_of_lt_of_le (Nat.succ_pos _) hturns)
      obtain ⟨-, hread⟩ := ha
      have hcomma : close ≠ 44 := by omega
      cases hitems with
      | nil =>
          have hstops : Stops (close :: rest) := .inr ⟨close, rest, rfl, .inr hclose⟩
          rw [joined, scanLoop, hread _ hstops]
          simp only [skipSpaces_stops hstops, if_true]
      | @cons b t' items texts hb htail =>
          have hstops : Stops (44 :: 32 :: (joined (t' :: texts) ++ close :: rest)) := .inr ⟨44, _, rfl, .inl rfl⟩
          rw [joined_cons, scanLoop, hread _ hstops]
          simp only [skipSpaces_stops hstops]
          rw [if_neg hcomma.symm, if_pos trivial]
          show (scanLoop close scan turns (skipSpaces (joined (t' :: texts) ++ close :: rest))).map _ = _
          rw [skipSpaces_joined hb.1, ih (by simp) _ (Nat.le_of_succ_le_succ hturns)]
          rfl

theorem length_joined {A : Type} {scan : Text → Except Fault (A × Text)} {items : List A} {texts : List Text}
    (h : List.Forall₂ (ReadsAs scan) items texts) : items.length ≤ (joined texts).length := by
  induction h with
  | nil => exact Nat.le_refl _
  | @cons a t items texts ha hitems ih =>
      obtain ⟨c, r, rfl, -⟩ := ha.1
      cases hitems with
      | nil => exact Nat.succ_le_succ (Nat.zero_le _)
      | cons hb htail =>
          simp only [joined, List.length_append, List.length_cons] at ih ⊢
          omega

theorem scanArray_joined {scan : Text → Except Fault (Json F × Text)} {items : List (Json F)} {texts : List Text}
    (h : List.Forall₂ (ReadsAs scan) items texts) (rest : Text) : scanArray scan (joined texts ++ 93 :: rest) = .ok (.arr items, rest) := by
  cases h with
  | nil => rfl
  | @cons _ t _ texts ha hitems =>
      have hall := List.Forall₂.cons ha hitems
      obtain ⟨c, r, htext, hskip, hne, -⟩ := joined_begins ha.1 texts (93 :: rest)
      have hloop := scanLoop_joined (.inl rfl) hall (List.cons_ne_nil _ _) ((c :: r).length + 1)
        (by
          have hlength := length_joined hall
          have hmore := congrArg List.length htext
          rw [List.length_append] at hmore
          omega) rest
      rw [htext] at hloop ⊢
      rw [scanArray, hskip]
      split
      · next heq => exact absurd (List.cons.inj heq).1 hne
      · rw [hloop]
        rfl

theorem dictOf_nodup {entries : List (Text × Json F)} (h : (entries.map Prod.fst).Nodup) : dictOf entries = entries := by
  have hassign : ∀ (d : List (Text × Json F)) e, e.1 ∉ d.map Prod.fst → assign e d = d ++ [e] := by
    intro d e hnew
    induction d with
    | nil => rfl
    | cons d rest ih =>
        rw [List.map_cons, List.mem_cons, not_or] at hnew
        rw [assign, if_neg (Ne.symm hnew.1), ih hnew.2]
        rfl
  have hfold : ∀ (d rest : List (Text × Json F)), ((d ++ rest).map Prod.fst).Nodup → rest.foldl (fun d e => assign e d) d = d ++ rest := by
    intro d rest hnodup
    induction rest generalizing d with
    | nil => exact (List.append_nil d).symm
    | cons e rest ih =>
        have hnew : e.1 ∉ d.map Prod.fst := by
          rw [List.map_append, List.map_cons, List.nodup_append] at hnodup
          exact fun hmem => hnodup.2.2 e.1 hmem e.1 List.mem_cons_self rfl
        rw [List.foldl_cons, hassign d e hnew, ih (d ++ [e]) (by rwa [List.append_assoc]), List.append_assoc]
        rfl
  exact hfold [] entries h

theorem scanObject_joined {scan : Text → Except Fault (Json F × Text)} {entries : List (Text × Json F)} {texts : List Text}
    (hkeys : (entries.map Prod.fst).Nodup) (h : List.Forall₂ (ReadsAs (scanEntry scan)) entries texts) (rest : Text) :
    scanObject scan (joined texts ++ 125 :: rest) = .ok (.obj entries, rest) := by
  cases h with
  | nil => rfl
  | @cons _ t _ texts ha hentries =>
      have hall := List.Forall₂.cons ha hentries
      obtain ⟨c, r, htext, hskip, -, hne⟩ := joined_begins ha.1 texts (125 :: rest)
      have hloop := scanLoop_joined (.inr rfl) hall (List.cons_ne_nil _ _) ((c :: r).length + 1)
        (by
          have hlength := length_joined hall
          have hmore := congrArg List.length htext
          rw [List.length_append] at hmore
          omega) rest
      rw [htext] at hloop ⊢
      rw [scanObject, hskip]
      split
      · next heq => exact absurd (List.cons.inj heq).1 hne
      · rw [hloop]
        exact congrArg (fun entries => Except.ok (Json.obj entries, rest)) (dictOf_nodup hkeys)

theorem readsAs_entry {scan : Text → Except Fault (Json F × Text)} {j : Json F} {t : Text} (h : ReadsAs scan j t) (key : Text) :
    ReadsAs (scanEntry scan) (key, j) (quote key ++ 58 :: 32 :: t) := by
  refine ⟨⟨_, _, rfl, rfl, by decide, by decide⟩, fun rest hrest => ?_⟩
  have htext : quote key ++ 58 :: 32 :: t ++ rest = 34 :: (key.flatMap escapeChar ++ 34 :: 58 :: 32 :: (t ++ rest)) := by
    simp only [quote, List.cons_append, List.append_assoc, List.nil_append]
  rw [htext, scanEntry, scanString_quoted]
  show (scan (skipSpaces (t ++ rest))).map _ = _
  rw [skipSpaces_begins h.1, h.2 rest hrest]
  rfl

theorem stripPrefix_ne {c d : Nat} (h : c ≠ d) (word t : Text) : stripPrefix (c :: word) (d :: t) = none := if_neg h

theorem scanWord_none {ws : List (Text × Json F)} {t : Text} (h : ∀ e ∈ ws, stripPrefix e.1 t = none) : scanWord ws t = none := by
  induction ws with
  | nil => rfl
  | cons e ws ih =>
      rw [scanWord, h e List.mem_cons_self]
      exact ih fun e he => h e (List.mem_cons_of_mem _ he)

theorem words_head : ∀ e ∈ words floats, ∃ c d word, e.1 = c :: d :: word ∧ (57 < c ∨ c = 45 ∧ 57 < d) := by
  intro e he
  simp only [words, List.mem_cons, List.not_mem_nil, or_false] at he
  rcases he with rfl | rfl | rfl | rfl | rfl | rfl
  · exact ⟨_, _, _, rfl, by decide⟩
  · exact ⟨_, _, _, rfl, by decide⟩
  · exact ⟨_, _, _, rfl, by decide⟩
  · exact ⟨_, _, _, rfl, by decide⟩
  · exact ⟨_, _, _, rfl, by decide⟩
  · exact ⟨_, _, _, rfl, by decide⟩

theorem scanWord_digit (floats : Floats F) {c : Nat} (hc : isDigit c = true) (t : Text) :
    scanWord (words floats) (c :: t) = none ∧ scanWord (words floats) (45 :: c :: t) = none := by
  rw [isDigit, Bool.and_eq_true, decide_eq_true_iff, decide_eq_true_iff] at hc
  constructor
  · refine scanWord_none fun e he => ?_
    obtain ⟨a, b, word, hword, hhead⟩ := words_head e he
    rw [hword]
    exact stripPrefix_ne (by omega) _ _
  · refine scanWord_none fun e he => ?_
    obtain ⟨a, b, word, hword, hhead⟩ := words_head e he
    rw [hword]
    by_cases hsign : a = 45
    · rw [hsign, stripPrefix, if_pos rfl]
      exact stripPrefix_ne (by omega) _ _
    · exact stripPrefix_ne hsign _ _

theorem scanUnsigned_decimal (floats : Floats F) (negative : Bool) {n : Nat} (hn : (decimal n).length ≤ maxStrDigits) {rest : Text} (hrest : Stops rest) :
    scanUnsigned floats negative (decimal n ++ rest) = .ok (.int (if negative then - (n : Int) else n), rest) := by
  rw [scanUnsigned, wholePart_decimal n hrest.noDigit]
  simp only [hrest.parts.1, hrest.parts.2, and_self, if_true, if_pos hn, readDecimal_decimal]

theorem scanValue_int (nested : Option (Text → Except Fault (Json F × Text))) {n : Int} (hn : (decimal n.natAbs).length ≤ maxStrDigits) {rest : Text}
    (hrest : Stops rest) : scanValue floats nested (intText n ++ rest) = .ok (.int n, rest) := by
  obtain ⟨c, ds, hcons, hc⟩ := decimal_head n.natAbs
  have hrange := hc
  rw [isDigit, Bool.and_eq_true, decide_eq_true_iff, decide_eq_true_iff] at hrange
  have hwords := scanWord_digit floats hc (ds ++ rest)
  unfold intText
  by_cases hneg : n < 0
  · have hread := scanUnsigned_decimal floats true hn hrest
    rw [hcons, List.cons_append] at hread
    rw [if_pos hneg, hcons, List.cons_append, List.cons_append, scanValue, if_neg (by decide), if_neg (by decide), if_neg (by decide), hwords.2]
    simp only [if_true, hread]
    rw [show -(n.natAbs : Int) = n by omega]
  · have hread := scanUnsigned_decimal floats false hn hrest
    rw [hcons, List.cons_append] at hread
    rw [if_neg hneg, hcons, List.cons_append, scanValue, if_neg (by omega), if_neg (by omega), if_neg (by omega), hwords.1]
    simp only [hread]
    rw [if_neg (by omega), if_neg Bool.false_ne_true, show (n.natAbs : Int) = n by omega]

theorem scanValue_scalar (nested : Option (Text → Except Fault (Json F × Text))) {level : Nat} {j : Json F} {t : Text} (hj : Plain j)
    (hscalar : (∀ items, j ≠ .arr items) ∧ ∀ entries, j ≠ .obj entries) (h : dumps floats level j = some t) :
    ReadsAs (scanValue floats nested) j t := by
  refine ⟨dumps_begins hj h, fun rest hrest => ?_⟩
  cases hj with
  | null =>
      rw [dumps] at h
      obtain rfl := Option.some.inj h
      rfl
  | bool b =>
      cases b <;> rw [dumps] at h <;> obtain rfl := Option.some.inj h <;> rfl
  | int n =>
      rw [dumps] at h
      obtain ⟨hn, ht⟩ := Option.ite_none_right_eq_some.mp h
      obtain rfl := Option.some.inj ht
      exact scanValue_int nested hn hrest
  | str s =>
      rw [dumps] at h
      obtain rfl := Option.some.inj h
      have htext : quote s ++ rest = 34 :: (s.flatMap escapeChar ++ 34 :: rest) := by
        simp only [quote, List.cons_append, List.append_assoc, List.nil_append]
      rw [htext, scanValue, if_pos rfl, scanString_quoted]
  | arr _ => exact absurd rfl (hscalar.1 _)
  | obj _ _ => exact absurd rfl (hscalar.2 _)

theorem scanOnce_dumps {level : Nat} {j : Json F} {t : Text} (hj : Plain j) (h : dumps floats level j = some t) :
    ReadsAs (scanOnce floats level) j t := by
  induction level generalizing j t with
  | zero =>
      refine scanValue_scalar none hj ⟨?_, ?_⟩ h
      · rintro items rfl
        exact absurd h nofun
      · rintro entries rfl
        exact absurd h nofun
  | succ level ih =>
      cases hj with
      | arr hitems =>
          refine ⟨dumps_begins (.arr hitems) h, fun rest _ => ?_⟩
          rw [dumps] at h
          obtain ⟨texts, htexts, rfl⟩ := Option.map_eq_some_iff.mp h
          have hread : List.Forall₂ (ReadsAs (scanOnce floats level)) _ texts :=
            (List.forall₂_and_left (p := Plain) _ _).mpr ⟨hitems, mapM_eq_some.mp htexts⟩ |>.imp fun j t hjt => ih hjt.1 hjt.2
          show scanArray (scanOnce floats level) ((joined texts ++ [93]) ++ rest) = _
          rw [List.append_assoc]
          exact scanArray_joined hread rest
      | obj hkeys hentries =>
          refine ⟨dumps_begins (.obj hkeys hentries) h, fun rest _ => ?_⟩
          rw [dumps] at h
          obtain ⟨texts, htexts, rfl⟩ := Option.map_eq_some_iff.mp h
          have hread : List.Forall₂ (ReadsAs (scanEntry (scanOnce floats level))) _ texts :=
            (List.forall₂_and_left (p := fun e : Text × Json F => Plain e.2) _ _).mpr ⟨hentries, mapM_eq_some.mp htexts⟩ |>.imp fun e t het => by
              obtain ⟨t, ht, rfl⟩ := Option.map_eq_some_iff.mp het.2
              exact readsAs_entry (ih het.1 ht) e.1
          show scanObject (scanOnce floats level) ((joined texts ++ [125]) ++ rest) = _
          rw [List.append_assoc]
          exact scanObject_joined hkeys hread rest
      | null => exact scanValue_scalar _ .null ⟨nofun, nofun⟩ h
      | bool b => exact scanValue_scalar _ (.bool b) ⟨nofun, nofun⟩ h
      | int n => exact scanValue_scalar _ (.int n) ⟨nofun, nofun⟩ h
      | str s => exact scanValue_scalar _ (.str s) ⟨nofun, nofun⟩ h

theorem loads_dumps {levels : Nat} {j : Json F} {t : Text} (hj : Plain j) (h : dumps floats levels j = some t) : loads floats levels t = .ok j := by
  obtain ⟨hbegins, hread⟩ := scanOnce_dumps hj h
  have hstart := skipSpaces_begins hbegins []
  have hresult := hread [] (.inl rfl)
  rw [List.append_nil] at hstart hresult
  rw [loads, hstart, hresult]
  rfl

theorem dumps_inj {levels : Nat} {j j' : Json F} {t : Text} (hj : Plain j) (hj' : Plain j') (h : dumps floats levels j = some t)
    (h' : dumps floats levels j' = some t) : j = j' := Except.ok.inj ((loads_dumps hj h).symm.trans (loads_dumps hj' h'))

/-! ### Values that are nested too deep -/

def Json.IsScalar : Json F → Bool
  | .arr _ => false
  | .obj _ => false
  | _ => true

/-- Lists and maps are nested so deep at most, when a value that is neither counts for as much as `leaf`. -/
inductive Nests (leaf : Nat) : Nat → Json F → Prop where
  | scalar {n : Nat} {j : Json F} (hleaf : leaf ≤ n) (hj : j.IsScalar) : Nests leaf n j
  | arr {n : Nat} {items : List (Json F)} (h : ∀ j ∈ items, Nests leaf n j) : Nests leaf (n + 1) (.arr items)
  | obj {n : Nat} {entries : List (Text × Json F)} (h : ∀ e ∈ entries, Nests leaf n e.2) : Nests leaf (n + 1) (.obj entries)

theorem exists_of_mem {A B : Type} {R : A → B → Prop} {l : List A} {u : List B} (h : List.Forall₂ R l u) {a : A} (ha : a ∈ l) : ∃ b ∈ u, R a b := by
  induction h with
  | nil => exact absurd ha List.not_mem_nil
  | @cons a' b l u hab _ ih =>
      rcases List.mem_cons.mp ha with rfl | ha
      · exact ⟨b, List.mem_cons_self, hab⟩
      · obtain ⟨b', hb', hab'⟩ := ih ha
        exact ⟨b', List.mem_cons_of_mem _ hb', hab'⟩

theorem nests_of_dumps {n : Nat} {j : Json F} {t : Text} (h : dumps floats n j = some t) : Nests 0 n j := by
  induction n generalizing j t with
  | zero =>
      cases j with
      | arr items => exact absurd h nofun
      | obj entries => exact absurd h nofun
      | _ => exact .scalar (Nat.le_refl 0) rfl
  | succ n ih =>
      cases j with
      | arr items =>
          rw [dumps] at h
          obtain ⟨texts, htexts, -⟩ := Option.map_eq_some_iff.mp h
          refine .arr fun j hj => ?_
          obtain ⟨t, -, ht⟩ := exists_of_mem (mapM_eq_some.mp htexts) hj
          exact ih ht
      | obj entries =>
          rw [dumps] at h
          obtain ⟨texts, htexts, -⟩ := Option.map_eq_some_iff.mp h
          refine .obj fun e he => ?_
          obtain ⟨t, -, ht⟩ := exists_of_mem (mapM_eq_some.mp htexts) he
          obtain ⟨t, ht, -⟩ := Option.map_eq_some_iff.mp ht
          exact ih ht
      | _ => exact .scalar (Nat.zero_le _) rfl

theorem dumps_scalar {j : Json F} (hj : j.IsScalar) (level n : Nat) : dumps floats level j = dumps floats n j := by
  cases j with
  | arr items => exact absurd hj Bool.false_ne_true
  | obj entries => exact absurd hj Bool.false_ne_true
  | bool b => cases b <;> rw [dumps, dumps]
  | _ => rw [dumps, dumps]

theorem dumps_of_nests {n level : Nat} {j : Json F} {t : Text} (h : dumps floats level j = some t) (hnests : Nests 0 n j) :
    dumps floats n j = some t := by
  induction level generalizing n j t with
  | zero =>
      cases hnests with
      | arr _ => exact absurd h nofun
      | obj _ => exact absurd h nofun
      | scalar _ hj => exact (dumps_scalar hj n 0).trans h
  | succ level ih =>
      cases hnests with
      | @arr n items hitems =>
          rw [dumps] at h ⊢
          obtain ⟨texts, htexts, rfl⟩ := Option.map_eq_some_iff.mp h
          refine Option.map_eq_some_iff.mpr ⟨texts, mapM_eq_some.mpr ?_, rfl⟩
          exact ((List.forall₂_and_left (p := Nests 0 n) _ _).mpr ⟨hitems, mapM_eq_some.mp htexts⟩).imp fun j t hjt => ih hjt.2 hjt.1
      | @obj n entries hentries =>
          rw [dumps] at h ⊢
          obtain ⟨texts, htexts, rfl⟩ := Option.map_eq_some_iff.mp h
          refine Option.map_eq_some_iff.mpr ⟨texts, mapM_eq_some.mpr ?_, rfl⟩
          refine ((List.forall₂_and_left (p := fun e : Text × Json F => Nests 0 n e.2) _ _).mpr ⟨hentries, mapM_eq_some.mp htexts⟩).imp ?_
          intro e t het
          obtain ⟨t, ht, rfl⟩ := Option.map_eq_some_iff.mp het.2
          exact Option.map_eq_some_iff.mpr ⟨t, ih ht het.1, rfl⟩
      | scalar _ hj => exact (dumps_scalar hj n (level + 1)).trans h

/-- A text cannot be read, whatever comes after it. -/
def Fails {A : Type} (scan : Text → Except Fault (A × Text)) (t : Text) : Prop :=
  Begins t ∧ ∀ rest, Stops rest → ∃ fault, scan (t ++ rest) = .error fault

theorem scanLoop_fails {A : Type} {close : Nat} (hclose : close = 93 ∨ close = 125) {scan : Text → Except Fault (A × Text)} {items : List A}
    {texts : List Text} (h : List.Forall₂ (fun a t => ReadsAs scan a t ∨ Fails scan t) items texts) (hfails : ∃ t ∈ texts, Fails scan t)
    (turns : Nat) (rest : Text) : ∃ fault, scanLoop close scan turns (joined texts ++ close :: rest) = .error fault := by
  induction h generalizing turns with
  | nil =>
      obtain ⟨t, ht, -⟩ := hfails
      exact absurd ht List.not_mem_nil
  | @cons a t items texts ha hitems ih =>
      cases turns with
      | zero => exact ⟨_, rfl⟩
      | succ turns =>
          have hcomma : close ≠ 44 := by omega
          cases hitems with
          | nil =>
              have hstops : Stops (close :: rest) := .inr ⟨close, rest, rfl, .inr hclose⟩
              obtain ⟨t', ht', hfail⟩ := hfails
              obtain rfl := List.mem_singleton.mp ht'
              obtain ⟨fault, hfault⟩ := hfail.2 _ hstops
              rw [joined, scanLoop, hfault]
              exact ⟨fault, rfl⟩
          | @cons b t' items texts hb htail =>
              have hstops : Stops (44 :: 32 :: (joined (t' :: texts) ++ close :: rest)) := .inr ⟨44, _, rfl, .inl rfl⟩
              rw [joined_cons, scanLoop]
              rcases ha with hread | hfail
              · rw [hread.2 _ hstops]
                simp only [skipSpaces_stops hstops]
                rw [if_neg hcomma.symm, if_pos trivial]
                by_cases hlater : ∃ u ∈ t' :: texts, Fails scan u
                · obtain ⟨fault, hfault⟩ := ih hlater turns
                  refine ⟨fault, ?_⟩
                  show (scanLoop close scan turns (skipSpaces (joined (t' :: texts) ++ close :: rest))).map _ = _
                  rw [skipSpaces_joined (hb.elim (·.1) (·.1)), hfault]
                  rfl
                · obtain ⟨u, hu, hfail⟩ := hfails
                  rcases List.mem_cons.mp hu with rfl | hu
                  · obtain ⟨fault, hfault⟩ := hfail.2 _ hstops
                    exact absurd (hfault.symm.trans (hread.2 _ hstops)) nofun
                  · exact absurd ⟨u, hu, hfail⟩ hlater
              · obtain ⟨fault, hfault⟩ := hfail.2 _ hstops
                rw [hfault]
                exact ⟨fault, rfl⟩

theorem scanArray_fails {scan : Text → Except Fault (Json F × Text)} {items : List (Json F)} {texts : List Text}
    (h : List.Forall₂ (fun a t => ReadsAs scan a t ∨ Fails scan t) items texts) (hfails : ∃ t ∈ texts, Fails scan t) (rest : Text) :
    ∃ fault, scanArray scan (joined texts ++ 93 :: rest) = .error fault := by
  cases h with
  | nil =>
      obtain ⟨t, ht, -⟩ := hfails
      exact absurd ht List.not_mem_nil
  | @cons _ t _ texts ha hitems =>
      obtain ⟨c, r, htext, hskip, hne, -⟩ := joined_begins (ha.elim (·.1) (·.1)) texts (93 :: rest)
      obtain ⟨fault, hfault⟩ := scanLoop_fails (.inl rfl) (.cons ha hitems) hfails ((c :: r).length + 1) rest
      rw [htext] at hfault ⊢
      refine ⟨fault, ?_⟩
      rw [scanArray, hskip]
      split
      · next heq => exact absurd (List.cons.inj heq).1 hne
      · rw [hfault]
        rfl

theorem scanObject_fails {scan : Text → Except Fault (Json F × Text)} {entries : List (Text × Json F)} {texts : List Text}
    (h : List.Forall₂ (fun e t => ReadsAs (scanEntry scan) e t ∨ Fails (scanEntry scan) t) entries texts)
    (hfails : ∃ t ∈ texts, Fails (scanEntry scan) t) (rest : Text) : ∃ fault, scanObject scan (joined texts ++ 125 :: rest) = .error fault := by
  cases h with
  | nil =>
      obtain ⟨t, ht, -⟩ := hfails
      exact absurd ht List.not_mem_nil
  | @cons _ t _ texts ha hentries =>
      obtain ⟨c, r, htext, hskip, -, hne⟩ := joined_begins (ha.elim (·.1) (·.1)) texts (125 :: rest)
      obtain ⟨fault, hfault⟩ := scanLoop_fails (.inr rfl) (.cons ha hentries) hfails ((c :: r).length + 1) rest
      rw [htext] at hfault ⊢
      refine ⟨fault, ?_⟩
      rw [scanObject, hskip]
      split
      · next heq => exact absurd (List.cons.inj heq).1 hne
      · rw [hfault]
        rfl

theorem fails_entry {scan : Text → Except Fault (Json F × Text)} {t : Text} (h : Fails scan t) (key : Text) :
    Fails (scanEntry scan) (quote key ++ 58 :: 32 :: t) := by
  refine ⟨⟨_, _, rfl, rfl, by decide, by decide⟩, fun rest hrest => ?_⟩
  obtain ⟨fault, hfault⟩ := h.2 rest hrest
  have htext : quote key ++ 58 :: 32 :: t ++ rest = 34 :: (key.flatMap escapeChar ++ 34 :: 58 :: 32 :: (t ++ rest)) := by
    simp only [quote, List.cons_append, List.append_assoc, List.nil_append]
  refine ⟨fault, ?_⟩
  rw [htext, scanEntry, scanString_quoted]
  show (scan (skipSpaces (t ++ rest))).map _ = _
  rw [skipSpaces_begins h.1, hfault]
  rfl

theorem scanOnce_fails {level n : Nat} {j : Json F} {t : Text} (hj : Plain j) (h : dumps floats level j = some t) (hdeep : ¬ Nests 0 n j) :
    Fails (scanOnce floats n) t := by
  refine ⟨dumps_begins hj h, ?_⟩
  induction n generalizing level j t with
  | zero =>
      intro rest _
      cases hj with
      | arr hitems =>
          cases level with
          | zero => exact absurd h nofun
          | succ level =>
              rw [dumps] at h
              obtain ⟨texts, -, rfl⟩ := Option.map_eq_some_iff.mp h
              exact ⟨_, rfl⟩
      | obj hkeys hentries =>
          cases level with
          | zero => exact absurd h nofun
          | succ level =>
              rw [dumps] at h
              obtain ⟨texts, -, rfl⟩ := Option.map_eq_some_iff.mp h
              exact ⟨_, rfl⟩
      | _ => exact absurd (.scalar (Nat.zero_le _) rfl) hdeep
  | succ n ih =>
      -- Each part is read if it is not nested too deep, and makes the rest fail otherwise.
      have hpart : ∀ {level : Nat} {j : Json F} {t : Text}, Plain j → dumps floats level j = some t →
          Nests 0 n j ∧ ReadsAs (scanOnce floats n) j t ∨ Fails (scanOnce floats n) t := by
        intro level j t hj h
        by_cases hnests : Nests 0 n j
        · exact .inl ⟨hnests, scanOnce_dumps hj (dumps_of_nests h hnests)⟩
        · exact .inr ⟨dumps_begins hj h, ih hj h hnests⟩
      intro rest _
      cases hj with
      | arr hitems =>
          cases level with
          | zero => exact absurd h nofun
          | succ level =>
              rw [dumps] at h
              obtain ⟨texts, htexts, rfl⟩ := Option.map_eq_some_iff.mp h
              have hall := (List.forall₂_and_left (p := Plain) _ _).mpr ⟨hitems, mapM_eq_some.mp htexts⟩
              show ∃ fault, scanArray (scanOnce floats n) ((joined texts ++ [93]) ++ rest) = .error fault
              rw [List.append_assoc]
              refine scanArray_fails (hall.imp fun j t hjt => (hpart hjt.1 hjt.2).imp_left (·.2)) ?_ rest
              by_contra hnone
              refine hdeep (.arr fun j hj => ?_)
              obtain ⟨t, ht, hjt⟩ := exists_of_mem hall hj
              rcases hpart hjt.1 hjt.2 with hreads | hfails
              · exact hreads.1
              · exact absurd ⟨t, ht, hfails⟩ hnone
      | obj hkeys hentries =>
          cases level with
          | zero => exact absurd h nofun
          | succ level =>
              rw [dumps] at h
              obtain ⟨texts, htexts, rfl⟩ := Option.map_eq_some_iff.mp h
              have hall := (List.forall₂_and_left (p := fun e : Text × Json F => Plain e.2) _ _).mpr ⟨hentries, mapM_eq_some.mp htexts⟩
              have hentry : ∀ e t, (Plain e.2 ∧ (dumps floats level e.2).map (fun t => quote e.1 ++ 58 :: 32 :: t) = some t) →
                  Nests 0 n e.2 ∧ ReadsAs (scanEntry (scanOnce floats n)) e t ∨ Fails (scanEntry (scanOnce floats n)) t := by
                intro e t het
                obtain ⟨t, ht, rfl⟩ := Option.map_eq_some_iff.mp het.2
                exact (hpart het.1 ht).imp (fun h => ⟨h.1, readsAs_entry h.2 e.1⟩) fun h => fails_entry h e.1
              show ∃ fault, scanObject (scanOnce floats n) ((joined texts ++ [125]) ++ rest) = .error fault
              rw [List.append_assoc]
              refine scanObject_fails (hall.imp fun e t het => (hentry e t het).imp_left (·.2)) ?_ rest
              by_contra hnone
              refine hdeep (.obj fun e he => ?_)
              obtain ⟨t, ht, het⟩ := exists_of_mem hall he
              rcases hentry e t het with hreads | hfails
              · exact hreads.1
              · exact absurd ⟨t, ht, hfails⟩ hnone
      | _ => exact absurd (.scalar (Nat.zero_le _) rfl) hdeep

theorem loads_error {level n : Nat} {j : Json F} {t : Text} (hj : Plain j) (h : dumps floats level j = some t) (hdeep : ¬ Nests 0 n j) :
    ∃ fault, loads floats n t = .error fault := by
  obtain ⟨hbegins, hfails⟩ := scanOnce_fails (n := n) hj h hdeep
  obtain ⟨fault, hfault⟩ := hfails [] (.inl rfl)
  have hstart := skipSpaces_begins hbegins []
  rw [List.append_nil] at hstart hfault
  refine ⟨fault, ?_⟩
  rw [loads, hstart, hfault]

theorem loads_dumps_iff {level n : Nat} {j : Json F} {t : Text} (hj : Plain j) (h : dumps floats level j = some t) :
    loads floats n t = .ok j ↔ Nests 0 n j := by
  constructor
  · intro hloads
    by_contra hdeep
    obtain ⟨fault, hfault⟩ := loads_error (n := n) hj h hdeep
    exact absurd (hfault.symm.trans hloads) nofun
  · exact fun hnests => loads_dumps hj (dumps_of_nests h hnests)

end Values

end JsonText
