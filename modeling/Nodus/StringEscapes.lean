import Mathlib.Algebra.Group.Nat.Defs
import Nodus.Lexer

/-! String literals without interpolation: the scanner of the lexer, `decode_string_literal`, and what the escapes stand for. -/

namespace Nodus.Frontend.StringLiterals

/-- The characters of a text by their code points. -/
abbrev Points := List Nat

def quote : Nat := '\x22'.toNat

def backslash : Nat := '\x5c'.toNat

def newline : Nat := '\n'.toNat

def openParen : Nat := '('.toNat

/-- `ESCAPE_MAP`. -/
def escapeOf (c : Nat) : Option Nat := (escapeMap.map fun p => (p.1.toNat, p.2.toNat)).lookup c

/-! ### `int(text, 16)` and `chr` -/

/-- The blanks and the decimal digits of Unicode beyond ASCII. -/
structure UnicodeTables where
  isSpace : Nat → Bool
  decimal : Nat → Option (Fin 10)

/-- Blanks and decimal digits are read as those of ASCII. -/
def UnicodeTables.toAscii (u : UnicodeTables) (c : Nat) : Nat :=
  if c < 127 then c
  else if u.isSpace c then ' '.toNat
  else match u.decimal c with
    | some d => '0'.toNat + d
    | none => '?'.toNat

def isSpace (c : Nat) : Bool := c = 32 || (9 ≤ c && c ≤ 13)

def hexValue (c : Nat) : Option Nat :=
  if 48 ≤ c ∧ c ≤ 57 then some (c - 48)
  else if 97 ≤ c ∧ c ≤ 102 then some (c - 87)
  else if 65 ≤ c ∧ c ≤ 70 then some (c - 55)
  else none

/-- The digits with single underscores between them, and what follows. -/
def readDigits : Nat → Bool → Points → Option (Nat × Points)
  | n, underscore, [] => if underscore then none else some (n, [])
  | n, underscore, c :: rest =>
      match hexValue c with
      | some d => readDigits (n * 16 + d) false rest
      | none =>
          if underscore then none
          else if c = '_'.toNat then readDigits n true rest
          else some (n, c :: rest)

/-- A sign, if there is one. -/
def dropSign : Points → Bool × Points
  | c :: rest => if c = '-'.toNat then (true, rest) else if c = '+'.toNat then (false, rest) else (false, c :: rest)
  | [] => (false, [])

/-- `0x`, if it is there, and an underscore after it. -/
def dropPrefix : Points → Points
  | c :: x :: rest =>
      if c = '0'.toNat ∧ (x = 'x'.toNat ∨ x = 'X'.toNat) then
        match rest with
        | c :: rest => if c = '_'.toNat then rest else c :: rest
        | [] => []
      else c :: x :: rest
  | cs => cs

/-- `int(text, 16)`. -/
def parseInt (text : Points) : Option Int :=
  let (negative, unsigned) := dropSign (text.dropWhile isSpace)
  let digits := dropPrefix unsigned
  if (digits.head?.bind hexValue).isNone then none
  else (readDigits 0 false digits).bind fun (n, rest) =>
    if rest.all isSpace then some (if negative then -n else n) else none

/-- `chr(int(text, 16))`. -/
def readHex (u : UnicodeTables) (text : Points) : Option Nat :=
  (parseInt (text.map u.toAscii)).bind fun n => if 0 ≤ n ∧ n < 0x110000 then some n.toNat else none

/-! ### The two scanners -/

inductive EscapeError where
  | unterminatedEscape
  | unterminatedLiteral
  | incomplete (expected : Nat)
  | invalid (digits : Points)
  | unsupported (escape : Nat)
  deriving DecidableEq, Repr

variable (u : UnicodeTables)

/-- The loop of `decode_string_literal`. -/
def decodeBody : Points → Except EscapeError Points
  | [] => .ok []
  | ch :: rest =>
      if ch ≠ backslash then (decodeBody rest).map (ch :: ·)
      else match rest with
        | [] => .error .unterminatedEscape
        | esc :: rest =>
            if esc = 'x'.toNat then
              match rest with
              | a :: b :: rest =>
                  match readHex u [a, b] with
                  | some c => (decodeBody rest).map (c :: ·)
                  | none => .error (.invalid [a, b])
              | _ => .error (.incomplete 2)
            else if esc = 'u'.toNat then
              match rest with
              | a :: b :: c :: d :: rest =>
                  match readHex u [a, b, c, d] with
                  | some c => (decodeBody rest).map (c :: ·)
                  | none => .error (.invalid [a, b, c, d])
              | _ => .error (.incomplete 4)
            else
              match escapeOf esc with
              | some c => (decodeBody rest).map (c :: ·)
              | none => .error (.unsupported esc)

/-- `decode_string_literal`: the first and the last character are the quotes. -/
def decodeStringLiteral (tokenText : Points) : Except EscapeError Points := decodeBody u (tokenText.drop 1).dropLast

/-- What the lexer finds after an opening quote. -/
inductive Scan where
  | literal (value rest : Points)
  | interpolation
  | refused (error : EscapeError)
  deriving DecidableEq, Repr

/-- The loop of `_lex_string` up to the closing quote or the first interpolation. -/
def lexPlain : Points → Points → Scan
  | [], _ => .refused .unterminatedLiteral
  | ch :: rest, buf =>
      if ch = quote then .literal buf rest
      else if ch = backslash then
        match rest with
        | [] => .refused .unterminatedLiteral
        | next :: rest =>
            if next = openParen then .interpolation
            else match escapeOf next with
              | some c => lexPlain rest (buf ++ [c])
              | none =>
                  if next = 'x'.toNat then
                    match rest with
                    | a :: b :: rest =>
                        match readHex u [a, b] with
                        | some c => lexPlain rest (buf ++ [c])
                        | none => .refused (.invalid [a, b])
                    | _ => .refused (.incomplete 2)
                  else if next = 'u'.toNat then
                    match rest with
                    | a :: b :: c :: d :: rest =>
                        match readHex u [a, b, c, d] with
                        | some c => lexPlain rest (buf ++ [c])
                        | none => .refused (.invalid [a, b, c, d])
                    | _ => .refused (.incomplete 4)
                  else .refused (.unsupported next)
      else if ch = newline then .refused .unterminatedLiteral
      else lexPlain rest (buf ++ [ch])

/-! ### What the literals stand for -/

/-- What stands between the quotes of a plain literal: no quote, no line break and no interpolation, but after a backslash the first
two are any other character. -/
inductive PlainBody : Points → Prop
  | nil : PlainBody []
  | char {c : Nat} {cs : Points} : c ≠ quote → c ≠ backslash → c ≠ newline → PlainBody cs → PlainBody (c :: cs)
  | escape {c : Nat} {cs : Points} : c ≠ openParen → PlainBody cs → PlainBody (backslash :: c :: cs)

/-- The number that hexadecimal digits write. -/
def hexNumber (text : Points) : Option Nat := (text.mapM hexValue).map (List.foldl (fun n d => n * 16 + d) 0)

/-- The value of a body, where `hex` reads the characters of an escape by number. -/
inductive Reads (hex : Points → Option Nat) : Points → Points → Prop
  | nil : Reads hex [] []
  | char {c : Nat} {cs value : Points} : c ≠ backslash → Reads hex cs value → Reads hex (c :: cs) (c :: value)
  | plain {e c : Nat} {cs value : Points} : escapeOf e = some c → Reads hex cs value → Reads hex (backslash :: e :: cs) (c :: value)
  | byte {a b c : Nat} {cs value : Points} : hex [a, b] = some c → Reads hex cs value →
      Reads hex (backslash :: 'x'.toNat :: a :: b :: cs) (c :: value)
  | point {a b c d e : Nat} {cs value : Points} : hex [a, b, c, d] = some e → Reads hex cs value →
      Reads hex (backslash :: 'u'.toNat :: a :: b :: c :: d :: cs) (e :: value)

/-- The value of a body by the language specification. -/
def Denotes : Points → Points → Prop := Reads hexNumber

/-- Every escape is one of the list, or one by number whose characters are as `spelled` says. -/
inductive Escapes (spelled : Points → Prop) : Points → Prop
  | nil : Escapes spelled []
  | char {c : Nat} {cs : Points} : c ≠ backslash → Escapes spelled cs → Escapes spelled (c :: cs)
  | plain {e : Nat} {cs : Points} : (escapeOf e).isSome → Escapes spelled cs → Escapes spelled (backslash :: e :: cs)
  | byte {a b : Nat} {cs : Points} : spelled [a, b] → Escapes spelled cs → Escapes spelled (backslash :: 'x'.toNat :: a :: b :: cs)
  | point {a b c d : Nat} {cs : Points} : spelled [a, b, c, d] → Escapes spelled cs →
      Escapes spelled (backslash :: 'u'.toNat :: a :: b :: c :: d :: cs)

/-- The characters are hexadecimal digits. -/
def HexDigits (text : Points) : Prop := ∀ c ∈ text, (hexValue c).isSome

/-- `int(text, 16)` is a code point. -/
def Readable (text : Points) : Prop := (readHex u text).isSome

/-- Both scanners accept a literal exactly if the specification gives it a value, and give it that value. -/
structure LawfulLiteral (body : Points) : Prop where
  decoded : ∀ value, decodeStringLiteral u (quote :: body ++ [quote]) = .ok value ↔ Denotes body value
  lexed : ∀ rest value rest', lexPlain u (body ++ quote :: rest) [] = .literal value rest' ↔ Denotes body value ∧ rest' = rest

/-! ### Reading a number -/

variable {u}

/-- What may stand in a number: blanks, a sign, the prefix, digits and underscores. -/
def Numeral (c : Nat) : Prop :=
  isSpace c ∨ c = '+'.toNat ∨ c = '-'.toNat ∨ c = '_'.toNat ∨ c = 'x'.toNat ∨ c = 'X'.toNat ∨ (hexValue c).isSome

theorem readDigits_numeral {text rest : Points} {n m : Nat} {underscore : Bool} (h : readDigits n underscore text = some (m, rest))
    (hrest : ∀ c ∈ rest, Numeral c) : ∀ c ∈ text, Numeral c := by
  induction text generalizing n underscore with
  | nil => exact fun c hc => absurd hc List.not_mem_nil
  | cons head tail ih =>
      rw [readDigits] at h
      cases hvalue : hexValue head with
      | some d =>
          rw [hvalue] at h
          intro c hc
          rcases List.mem_cons.mp hc with rfl | hc
          · simp [Numeral, hvalue]
          · exact ih h c hc
      | none =>
          rw [hvalue] at h
          simp only at h
          split at h
          · exact absurd h nofun
          · split at h
            · next hunder =>
                intro c hc
                rcases List.mem_cons.mp hc with rfl | hc
                · simp [Numeral, hunder]
                · exact ih h c hc
            · obtain ⟨-, rfl⟩ := Prod.mk.inj (Option.some.inj h)
              exact hrest

theorem dropPrefix_numeral {text : Points} (h : ∀ c ∈ dropPrefix text, Numeral c) : ∀ c ∈ text, Numeral c := by
  cases text with
  | nil => exact fun c hc => absurd hc List.not_mem_nil
  | cons a tail =>
      cases tail with
      | nil => exact h
      | cons x rest =>
          unfold dropPrefix at h
          dsimp only at h
          split at h
          · next hpre =>
              have ha : Numeral a := by simp [Numeral, hpre.1, hexValue]
              have hx : Numeral x := by
                rcases hpre.2 with rfl | rfl <;> simp [Numeral]
              have hrest : ∀ c ∈ rest, Numeral c := by
                cases rest with
                | nil => exact fun c hc => absurd hc List.not_mem_nil
                | cons b rest =>
                    simp only at h
                    split at h
                    · next hunder =>
                        intro c hc
                        rcases List.mem_cons.mp hc with rfl | hc
                        · simp [Numeral, hunder]
                        · exact h c hc
                    · exact h
              simpa [ha, hx] using hrest
          · exact h

theorem dropSign_numeral {text : Points} (h : ∀ c ∈ (dropSign text).2, Numeral c) : ∀ c ∈ text, Numeral c := by
  cases text with
  | nil => exact fun c hc => absurd hc List.not_mem_nil
  | cons head tail =>
      rw [dropSign] at h
      intro c hc
      rcases List.mem_cons.mp hc with rfl | hc
      · split at h
        · next hminus => simp [Numeral, hminus]
        · split at h
          · next hplus => simp [Numeral, hplus]
          · exact h c List.mem_cons_self
      · split at h
        · exact h c hc
        · split at h
          · exact h c hc
          · exact h c (List.mem_cons_of_mem _ hc)

theorem parseInt_numeral {text : Points} {n : Int} (h : parseInt text = some n) : ∀ c ∈ text, Numeral c := by
  have hdrop : ∀ c ∈ text.dropWhile isSpace, Numeral c := by
    simp only [parseInt] at h
    split at h
    · exact absurd h nofun
    · obtain ⟨⟨m, rest⟩, hdigits, hend⟩ := Option.bind_eq_some_iff.mp h
      split at hend
      · next hall =>
          apply dropSign_numeral
          apply dropPrefix_numeral
          exact readDigits_numeral hdigits fun c hc => .inl (List.all_eq_true.mp hall c hc)
      · exact absurd hend nofun
  intro c hc
  rw [← List.takeWhile_append_dropWhile (p := isSpace) (l := text)] at hc
  rcases List.mem_append.mp hc with hspace | hrest
  · exact .inl (List.all_eq_true.mp List.all_takeWhile c hspace)
  · exact hdrop c hrest

theorem readHex_numeral {text : Points} {n : Nat} (h : readHex u text = some n) : ∀ c ∈ text, Numeral (u.toAscii c) := by
  obtain ⟨m, hparse, -⟩ := Option.bind_eq_some_iff.mp h
  exact fun c hc => parseInt_numeral hparse _ (List.mem_map_of_mem hc)

theorem not_quote_of_readHex {text : Points} {n : Nat} (h : readHex u text = some n) : quote ∉ text ∧ backslash ∉ text := by
  constructor
  · intro hmem
    have hnumeral := readHex_numeral h _ hmem
    revert hnumeral
    have hascii : u.toAscii quote = 34 := by simp [UnicodeTables.toAscii, quote]
    rw [hascii]
    unfold Numeral
    decide
  · intro hmem
    have hnumeral := readHex_numeral h _ hmem
    revert hnumeral
    have hascii : u.toAscii backslash = 92 := by simp [UnicodeTables.toAscii, backslash]
    rw [hascii]
    unfold Numeral
    decide

/-! ### Hexadecimal digits -/

theorem hexValue_lt {c d : Nat} (h : hexValue c = some d) : c < 127 ∧ d < 16 ∧ isSpace c = false ∧ c ≠ '-'.toNat ∧ c ≠ '+'.toNat ∧
    c ≠ 'x'.toNat ∧ c ≠ 'X'.toNat := by
  have hminus : '-'.toNat = 45 := rfl
  have hplus : '+'.toNat = 43 := rfl
  have hx : 'x'.toNat = 120 := rfl
  have hX : 'X'.toNat = 88 := rfl
  rw [hminus, hplus, hx, hX]
  simp only [isSpace, Bool.or_eq_false_iff, decide_eq_false_iff_not, Bool.and_eq_false_iff]
  unfold hexValue at h
  split at h
  · obtain rfl := Option.some.inj h
    omega
  · split at h
    · obtain rfl := Option.some.inj h
      omega
    · split at h
      · obtain rfl := Option.some.inj h
        omega
      · exact absurd h nofun

theorem readDigits_hex {text ds : Points} (h : text.mapM hexValue = some ds) (n : Nat) :
    readDigits n false text = some (ds.foldl (fun n d => n * 16 + d) n, []) := by
  induction text generalizing ds n with
  | nil =>
      obtain rfl := Option.some.inj h
      rfl
  | cons c rest ih =>
      rw [List.mapM_cons] at h
      obtain ⟨d, hd, h⟩ := Option.bind_eq_some_iff.mp h
      obtain ⟨ds', hrest, h⟩ := Option.bind_eq_some_iff.mp h
      obtain rfl := Option.some.inj h
      rw [readDigits, hd]
      exact ih hrest _

theorem foldl_hex_lt {text ds : Points} (h : text.mapM hexValue = some ds) (n : Nat) :
    ds.foldl (fun n d => n * 16 + d) n < (n + 1) * 16 ^ text.length := by
  induction text generalizing ds n with
  | nil =>
      obtain rfl := Option.some.inj h
      simp
  | cons c rest ih =>
      rw [List.mapM_cons] at h
      obtain ⟨d, hd, h⟩ := Option.bind_eq_some_iff.mp h
      obtain ⟨ds', hrest, h⟩ := Option.bind_eq_some_iff.mp h
      obtain rfl := Option.some.inj h
      have hlt : d < 16 := (hexValue_lt hd).2.1
      calc (d :: ds').foldl (fun n d => n * 16 + d) n
          < (n * 16 + d + 1) * 16 ^ rest.length := ih hrest _
        _ ≤ ((n + 1) * 16) * 16 ^ rest.length := Nat.mul_le_mul_right _ (by omega)
        _ = (n + 1) * 16 ^ (c :: rest).length := by rw [List.length_cons, Nat.pow_succ, Nat.mul_assoc, Nat.mul_comm 16]

theorem hexDigits_iff {text : Points} : HexDigits text ↔ (hexNumber text).isSome := by
  unfold HexDigits hexNumber
  rw [Option.isSome_map]
  induction text with
  | nil => simp
  | cons c rest ih =>
      rw [List.forall_mem_cons, ih, List.mapM_cons]
      cases hexValue c <;> cases rest.mapM hexValue <;> simp

theorem readHex_of_hexNumber {text : Points} {n : Nat} (hpos : text ≠ []) (hlen : text.length ≤ 4) (h : hexNumber text = some n) :
    readHex u text = some n := by
  obtain ⟨ds, hds, rfl⟩ := Option.map_eq_some_iff.mp h
  have hdigits : ∀ c ∈ text, ∃ d, hexValue c = some d :=
    fun c hc => Option.isSome_iff_exists.mp (hexDigits_iff.mpr (by rw [h]; rfl) c hc)
  have hascii : text.map u.toAscii = text := by
    have hsame : ∀ c ∈ text, u.toAscii c = id c := by
      intro c hc
      obtain ⟨d, hd⟩ := hdigits c hc
      exact if_pos (hexValue_lt hd).1
    rw [List.map_congr_left hsame, List.map_id]
  have hbound : ds.foldl (fun n d => n * 16 + d) 0 < (0 + 1) * 16 ^ 4 :=
    Nat.lt_of_lt_of_le (foldl_hex_lt hds 0) (Nat.mul_le_mul_left _ (Nat.pow_le_pow_right (by decide) hlen))
  have hparse : parseInt text = some ((ds.foldl (fun n d => n * 16 + d) 0 : Nat) : Int) := by
    obtain ⟨c, rest, rfl⟩ := List.exists_cons_of_ne_nil hpos
    obtain ⟨d, hd⟩ := hdigits c List.mem_cons_self
    obtain ⟨-, -, hspace, hminus, hplus, -, -⟩ := hexValue_lt hd
    have hzerox : dropPrefix (c :: rest) = c :: rest := by
      cases rest with
      | nil => rfl
      | cons x rest =>
          obtain ⟨e, he⟩ := hdigits x (List.mem_cons_of_mem _ List.mem_cons_self)
          obtain ⟨-, -, -, -, -, hx, hX⟩ := hexValue_lt he
          exact if_neg fun hpre => hpre.2.elim hx hX
    have hsign : dropSign (c :: rest) = (false, c :: rest) := by rw [dropSign, if_neg hminus, if_neg hplus]
    have hhead : ((c :: rest).head?.bind hexValue).isNone = false := by
      rw [List.head?_cons, Option.bind_some, hd]
      rfl
    rw [parseInt, List.dropWhile_cons_of_neg (by simp [hspace]), hsign]
    simp only [hzerox, hhead, Bool.false_eq_true, if_false]
    rw [readDigits_hex hds]
    rfl
  rw [readHex, hascii, hparse, Option.bind_some, if_pos]
  · rfl
  · omega

/-! ### The scanners agree -/

theorem Reads.mono {hex hex' : Points → Option Nat} {body value : Points}
    (h : ∀ text n, text ≠ [] → text.length ≤ 4 → hex text = some n → hex' text = some n) (hreads : Reads hex body value) :
    Reads hex' body value := by
  induction hreads with
  | nil => exact .nil
  | char hc _ ih => exact .char hc ih
  | plain he _ ih => exact .plain he ih
  | byte hn _ ih => exact .byte (h _ _ (List.cons_ne_nil _ _) (by simp) hn) ih
  | point hn _ ih => exact .point (h _ _ (List.cons_ne_nil _ _) (by simp) hn) ih

theorem Denotes.reads {body value : Points} (h : Denotes body value) : Reads (readHex u) body value :=
  h.mono fun _ _ hpos hlen hn => readHex_of_hexNumber hpos hlen hn

theorem escapes_iff {hex : Points → Option Nat} {body : Points} : Escapes (fun text => (hex text).isSome) body ↔ ∃ value, Reads hex body value := by
  constructor
  · intro h
    induction h with
    | nil => exact ⟨[], .nil⟩
    | char hc _ ih =>
        obtain ⟨value, hv⟩ := ih
        exact ⟨_, .char hc hv⟩
    | plain he _ ih =>
        obtain ⟨value, hv⟩ := ih
        obtain ⟨c, hc⟩ := Option.isSome_iff_exists.mp he
        exact ⟨_, .plain hc hv⟩
    | byte hs _ ih =>
        obtain ⟨value, hv⟩ := ih
        obtain ⟨n, hn⟩ := Option.isSome_iff_exists.mp hs
        exact ⟨_, .byte hn hv⟩
    | point hs _ ih =>
        obtain ⟨value, hv⟩ := ih
        obtain ⟨n, hn⟩ := Option.isSome_iff_exists.mp hs
        exact ⟨_, .point hn hv⟩
  · rintro ⟨value, h⟩
    induction h with
    | nil => exact .nil
    | char hc _ ih => exact .char hc ih
    | plain he _ ih => exact .plain (by rw [he]; rfl) ih
    | byte hn _ ih => exact .byte (by rw [hn]; rfl) ih
    | point hn _ ih => exact .point (by rw [hn]; rfl) ih

theorem escapeOf_x : escapeOf 'x'.toNat = none := by decide

theorem escapeOf_u : escapeOf 'u'.toNat = none := by decide

theorem map_cons_ok {result : Except EscapeError Points} {c : Nat} {value : Points} :
    result.map (c :: ·) = .ok value ↔ ∃ v, result = .ok v ∧ value = c :: v := by
  cases result <;> simp [Except.map, eq_comm]

theorem Reads.decoded {body value : Points} (h : Reads (readHex u) body value) : decodeBody u body = .ok value := by
  induction h with
  | nil => rfl
  | char hc _ ih => rw [decodeBody.eq_def]; simp only [if_pos hc, ih]; rfl
  | @plain e c cs v he _ ih =>
      have hx : e ≠ 'x'.toNat := by
        rintro rfl
        exact absurd (he.symm.trans escapeOf_x) nofun
      have hu : e ≠ 'u'.toNat := by
        rintro rfl
        exact absurd (he.symm.trans escapeOf_u) nofun
      rw [decodeBody.eq_def]
      simp only [ne_eq, not_true_eq_false, if_false, if_neg hx, if_neg hu, he, ih]
      rfl
  | byte hn _ ih =>
      rw [decodeBody.eq_def]
      simp only [ne_eq, not_true_eq_false, if_false, if_true, hn, ih]
      rfl
  | point hn _ ih =>
      rw [decodeBody.eq_def]
      simp only [ne_eq, not_true_eq_false, if_false, if_true, hn, ih]
      rfl

theorem reads_of_decoded {body value : Points} (h : decodeBody u body = .ok value) : Reads (readHex u) body value := by
  fun_induction decodeBody u body generalizing value with
  | case1 =>
      obtain rfl := Except.ok.inj h
      exact .nil
  | case2 ch rest hch ih =>
      obtain ⟨v, hv, rfl⟩ := map_cons_ok.mp h
      exact .char hch (ih hv)
  | case3 => exact absurd h nofun
  | case4 ch hch a b rest c hhex ih =>
      obtain rfl := Decidable.not_not.mp hch
      obtain ⟨v, hv, rfl⟩ := map_cons_ok.mp h
      exact .byte hhex (ih hv)
  | case5 => exact absurd h nofun
  | case6 => exact absurd h nofun
  | case7 ch hch a b c d rest e hhex _ ih =>
      obtain rfl := Decidable.not_not.mp hch
      obtain ⟨v, hv, rfl⟩ := map_cons_ok.mp h
      exact .point hhex (ih hv)
  | case8 => exact absurd h nofun
  | case9 => exact absurd h nofun
  | case10 ch hch esc rest _ _ c hesc ih =>
      obtain rfl := Decidable.not_not.mp hch
      obtain ⟨v, hv, rfl⟩ := map_cons_ok.mp h
      exact .plain hesc (ih hv)
  | case11 => exact absurd h nofun

theorem decodeBody_iff {body value : Points} : decodeBody u body = .ok value ↔ Reads (readHex u) body value :=
  ⟨reads_of_decoded, Reads.decoded⟩

theorem lexPlain_char {c : Nat} {t buf : Points} (hquote : c ≠ quote) (hback : c ≠ backslash) (hline : c ≠ newline) :
    lexPlain u (c :: t) buf = lexPlain u t (buf ++ [c]) := by
  rw [lexPlain.eq_def]
  simp only [if_neg hquote, if_neg hback, if_neg hline]

theorem backslash_ne_quote : backslash ≠ quote := by decide

theorem escapeOf_paren : escapeOf openParen = none := by decide

/-- What follows a backslash, with the character that it stands for. -/
inductive EscapeText (u : UnicodeTables) : Points → Nat → Prop
  | plain {e c : Nat} : escapeOf e = some c → EscapeText u [e] c
  | byte {a b c : Nat} : readHex u [a, b] = some c → EscapeText u ['x'.toNat, a, b] c
  | point {a b c d e : Nat} : readHex u [a, b, c, d] = some e → EscapeText u ['u'.toNat, a, b, c, d] e

theorem lexPlain_escape {text t buf : Points} {c : Nat} (h : EscapeText u text c) :
    lexPlain u (backslash :: (text ++ t)) buf = lexPlain u t (buf ++ [c]) := by
  have hparen : 'x'.toNat ≠ openParen ∧ 'u'.toNat ≠ openParen ∧ 'u'.toNat ≠ 'x'.toNat := by decide
  cases h with
  | @plain e c he =>
      have hne : e ≠ openParen := by
        rintro rfl
        exact absurd (he.symm.trans escapeOf_paren) nofun
      rw [List.singleton_append, lexPlain.eq_def]
      simp only [if_neg backslash_ne_quote, if_true, if_neg hne, he]
  | byte h =>
      simp only [List.cons_append, List.nil_append]
      rw [lexPlain.eq_def]
      simp only [if_neg backslash_ne_quote, if_true, if_neg hparen.1, escapeOf_x, h]
  | point h =>
      simp only [List.cons_append, List.nil_append]
      rw [lexPlain.eq_def]
      simp only [if_neg backslash_ne_quote, if_true, if_neg hparen.2.1, if_neg hparen.2.2, escapeOf_u, h]

/-- What follows a backslash is no escape. -/
inductive NoEscape (u : UnicodeTables) : Points → Prop
  | byte {t : Points} : (2 ≤ t.length → readHex u (t.take 2) = none) → NoEscape u ('x'.toNat :: t)
  | point {t : Points} : (4 ≤ t.length → readHex u (t.take 4) = none) → NoEscape u ('u'.toNat :: t)
  | unsupported {e : Nat} {t : Points} : e ≠ openParen → e ≠ 'x'.toNat → e ≠ 'u'.toNat → escapeOf e = none → NoEscape u (e :: t)

/-- The scanner raises an error. -/
def Scan.Refuses (scan : Scan) : Prop := ∃ error, scan = .refused error

theorem refuses_escape {text buf : Points} (h : NoEscape u text) : (lexPlain u (backslash :: text) buf).Refuses := by
  have hparen : 'x'.toNat ≠ openParen ∧ 'u'.toNat ≠ openParen ∧ 'u'.toNat ≠ 'x'.toNat := by decide
  cases h with
  | @byte t h =>
      rw [lexPlain.eq_def]
      simp only [if_neg backslash_ne_quote, if_true, if_neg hparen.1, escapeOf_x]
      rcases t with - | ⟨a, - | ⟨b, t⟩⟩
      · exact ⟨_, rfl⟩
      · exact ⟨_, rfl⟩
      · have hnone : readHex u [a, b] = none := h (by simp)
        simp only [hnone]
        exact ⟨_, rfl⟩
  | @point t h =>
      rw [lexPlain.eq_def]
      simp only [if_neg backslash_ne_quote, if_true, if_neg hparen.2.1, if_neg hparen.2.2, escapeOf_u]
      rcases t with - | ⟨a, - | ⟨b, - | ⟨c, - | ⟨d, t⟩⟩⟩⟩
      · exact ⟨_, rfl⟩
      · exact ⟨_, rfl⟩
      · exact ⟨_, rfl⟩
      · exact ⟨_, rfl⟩
      · have hnone : readHex u [a, b, c, d] = none := h (by simp)
        simp only [hnone]
        exact ⟨_, rfl⟩
  | unsupported hne hx hu he =>
      rw [lexPlain.eq_def]
      simp only [if_neg backslash_ne_quote, if_true, if_neg hne, if_neg hx, if_neg hu, he]
      exact ⟨_, rfl⟩

theorem readHex_of_quote {text : Points} (h : quote ∈ text) : readHex u text = none := by
  cases hread : readHex u text with
  | none => rfl
  | some n => exact absurd h (not_quote_of_readHex hread).1

theorem quote_mem_take {body rest : Points} {n : Nat} (h : body.length < n) : quote ∈ (body ++ quote :: rest).take n := by
  rw [List.mem_take_iff_getElem]
  exact ⟨body.length, by simp; omega, by simp⟩

theorem PlainBody.tail {c : Nat} {cs : Points} (h : PlainBody (c :: cs)) (hc : c ≠ backslash) : PlainBody cs := by
  cases h with
  | char _ _ _ h => exact h
  | escape _ _ => exact absurd rfl hc

theorem PlainBody.escaped {e : Nat} {cs : Points} (h : PlainBody (backslash :: e :: cs)) : e ≠ openParen ∧ PlainBody cs := by
  cases h with
  | char _ hback _ _ => exact absurd rfl hback
  | escape hparen h => exact ⟨hparen, h⟩

theorem PlainBody.after (body : Points) {rest : Points} (h : PlainBody (body ++ rest)) (hback : backslash ∉ body) : PlainBody rest := by
  induction body with
  | nil => exact h
  | cons c cs ih => exact ih (h.tail fun hc => hback (hc ▸ List.mem_cons_self)) fun hmem => hback (List.mem_cons_of_mem _ hmem)

theorem PlainBody.head {c : Nat} {cs : Points} (h : PlainBody (c :: cs)) (hc : c ≠ backslash) : c ≠ quote ∧ c ≠ newline := by
  cases h with
  | char hquote _ hline _ => exact ⟨hquote, hline⟩
  | escape _ _ => exact absurd rfl hc

/-- The lexer finds the literal that a decoder gives, or refuses what it refuses. -/
def Matches (result : Except EscapeError Points) (scan : Scan) (buf rest : Points) : Prop :=
  (∀ value, result = .ok value → scan = .literal (buf ++ value) rest) ∧ ∀ error, result = .error error → scan.Refuses

theorem Matches.cons {result : Except EscapeError Points} {scan : Scan} {c : Nat} {buf rest : Points}
    (h : Matches result scan (buf ++ [c]) rest) : Matches (result.map (c :: ·)) scan buf rest := by
  constructor
  · intro value hvalue
    obtain ⟨v, hv, rfl⟩ := map_cons_ok.mp hvalue
    rw [h.1 v hv, List.append_assoc]
    rfl
  · intro error herror
    cases result with
    | ok v => exact absurd herror nofun
    | error e => exact h.2 e rfl

theorem Matches.error {scan : Scan} {e : EscapeError} {buf rest : Points} (h : scan.Refuses) : Matches (.error e) scan buf rest :=
  ⟨fun _ hvalue => absurd hvalue nofun, fun _ _ => h⟩

theorem lexPlain_matches {body : Points} (h : PlainBody body) (rest buf : Points) :
    Matches (decodeBody u body) (lexPlain u (body ++ quote :: rest) buf) buf rest := by
  fun_induction decodeBody u body generalizing buf with
  | case1 =>
      refine ⟨fun value hvalue => ?_, fun error herror => absurd herror nofun⟩
      obtain rfl := Except.ok.inj hvalue
      rw [List.append_nil, List.nil_append, lexPlain.eq_def]
      exact if_pos rfl
  | case2 ch t hch ih =>
      obtain ⟨hquote, hline⟩ := h.head hch
      rw [List.cons_append, lexPlain_char hquote hch hline]
      exact (ih (h.tail hch) (buf ++ [ch])).cons
  | case3 ch hch =>
      obtain rfl := Decidable.not_not.mp hch
      cases h with
      | char _ hback _ _ => exact absurd rfl hback
  | case4 ch hch a b t c hhex ih =>
      obtain rfl := Decidable.not_not.mp hch
      have ht : PlainBody t := PlainBody.after [a, b] h.escaped.2 (not_quote_of_readHex hhex).2
      exact (lexPlain_escape (.byte hhex)).symm ▸ (ih ht (buf ++ [c])).cons
  | case5 ch hch a b t hhex =>
      obtain rfl := Decidable.not_not.mp hch
      exact .error (refuses_escape <| .byte fun _ => hhex)
  | case6 ch hch t hshort =>
      obtain rfl := Decidable.not_not.mp hch
      have hlt : t.length < 2 := by
        rcases t with - | ⟨a, - | ⟨b, t⟩⟩
        · simp
        · simp
        · exact (hshort a b t rfl).elim
      exact .error (refuses_escape <| .byte fun _ => readHex_of_quote (quote_mem_take hlt))
  | case7 ch hch a b c d t e hhex _ ih =>
      obtain rfl := Decidable.not_not.mp hch
      have ht : PlainBody t := PlainBody.after [a, b, c, d] h.escaped.2 (not_quote_of_readHex hhex).2
      exact (lexPlain_escape (.point hhex)).symm ▸ (ih ht (buf ++ [e])).cons
  | case8 ch hch a b c d t hhex =>
      obtain rfl := Decidable.not_not.mp hch
      exact .error (refuses_escape <| .point fun _ => hhex)
  | case9 ch hch t hshort =>
      obtain rfl := Decidable.not_not.mp hch
      have hlt : t.length < 4 := by
        rcases t with - | ⟨a, - | ⟨b, - | ⟨c, - | ⟨d, t⟩⟩⟩⟩
        · simp
        · simp
        · simp
        · simp
        · exact (hshort a b c d t rfl).elim
      exact .error (refuses_escape <| .point fun _ => readHex_of_quote (quote_mem_take hlt))
  | case10 ch hch esc t hx hu c hesc ih =>
      obtain rfl := Decidable.not_not.mp hch
      exact (lexPlain_escape (.plain hesc)).symm ▸ (ih h.escaped.2 (buf ++ [c])).cons
  | case11 ch hch esc t hx hu hesc =>
      obtain rfl := Decidable.not_not.mp hch
      exact .error (refuses_escape (.unsupported h.escaped.1 hx hu hesc))

theorem scanners_agree {body : Points} (h : PlainBody body) (rest value rest' : Points) :
    lexPlain u (body ++ quote :: rest) [] = .literal value rest' ↔ decodeBody u body = .ok value ∧ rest' = rest := by
  obtain ⟨hok, herror⟩ := lexPlain_matches (u := u) h rest []
  cases hdecode : decodeBody u body with
  | ok v =>
      rw [hok v hdecode]
      simp [eq_comm]
  | error e =>
      obtain ⟨error, hrefused⟩ := herror e hdecode
      rw [hrefused]
      simp

theorem decodeStringLiteral_quoted (u : UnicodeTables) (body : Points) :
    decodeStringLiteral u (quote :: body ++ [quote]) = decodeBody u body := by
  rw [decodeStringLiteral, List.cons_append, List.drop_one, List.tail_cons, List.dropLast_concat]

theorem hexDigits_eq : HexDigits = fun text => (hexNumber text).isSome = true := by
  funext text
  exact propext hexDigits_iff

theorem Reads.unique {body value value' : Points} (h : Reads (readHex u) body value) (h' : Reads (readHex u) body value') :
    value = value' := Except.ok.inj (h.decoded.symm.trans h'.decoded)

/-- A plain literal is read as the specification says unless all of it can be read and an escape by number is not spelled with
hexadecimal digits. -/
theorem literal_lawful_iff (u : UnicodeTables) {body : Points} (hplain : PlainBody body) :
    LawfulLiteral u body ↔ (Escapes (Readable u) body → Escapes HexDigits body) := by
  constructor
  · intro h hread
    obtain ⟨value, hvalue⟩ := escapes_iff.mp hread
    have hdecoded := (h.decoded value).mp ((decodeStringLiteral_quoted u body).trans hvalue.decoded)
    rw [hexDigits_eq]
    exact escapes_iff.mpr ⟨value, hdecoded⟩
  · intro h
    have hiff : ∀ value, decodeBody u body = .ok value ↔ Denotes body value := by
      intro value
      rw [decodeBody_iff]
      refine ⟨fun hreads => ?_, Denotes.reads⟩
      have hspelled := h (escapes_iff.mpr ⟨value, hreads⟩)
      rw [hexDigits_eq] at hspelled
      obtain ⟨value', hdenotes⟩ := escapes_iff.mp hspelled
      exact hreads.unique (Denotes.reads hdenotes) ▸ hdenotes
    constructor
    · intro value
      rw [decodeStringLiteral_quoted]
      exact hiff value
    · intro rest value rest'
      rw [scanners_agree hplain, hiff]

/-! ### A sign for a digit -/

/-- Between its quotes the literal is a backslash, `x+4`. -/
def signed : Points := [backslash, 'x'.toNat, '+'.toNat, '4'.toNat]

theorem signed_plain : PlainBody signed :=
  .escape (by decide) (.char (by decide) (by decide) (by decide) (.char (by decide) (by decide) (by decide) .nil))

/-- No blank and no decimal digit outside ASCII. -/
def asciiOnly : UnicodeTables := ⟨fun _ => false, fun _ => none⟩

theorem signed_lawful_iff : LawfulLiteral asciiOnly signed ↔ (Escapes (Readable asciiOnly) signed → Escapes HexDigits signed) :=
  literal_lawful_iff asciiOnly signed_plain

/-- Both scanners take it for U+0004. -/
theorem signed_not_lawful : PlainBody signed ∧ ∀ u, decodeBody u signed = .ok [4] ∧ ¬ LawfulLiteral u signed := by
  refine ⟨signed_plain, fun u => ?_⟩
  have hascii : ['+'.toNat, '4'.toNat].map u.toAscii = ['+'.toNat, '4'.toNat] := by simp [UnicodeTables.toAscii]
  have hparse : parseInt ['+'.toNat, '4'.toNat] = some 4 := by decide
  have hread : readHex u ['+'.toNat, '4'.toNat] = some 4 := by
    rw [readHex, hascii, hparse]
    rfl
  have hdecoded : decodeBody u signed = .ok [4] := Reads.decoded (.byte hread .nil)
  refine ⟨hdecoded, fun h => ?_⟩
  have hdenotes := (h.decoded [4]).mp ((decodeStringLiteral_quoted u signed).trans hdecoded)
  have hspelled := escapes_iff.mpr ⟨_, hdenotes⟩
  cases hspelled with
  | char hback _ => exact hback rfl
  | plain he _ => exact absurd he (by decide)
  | byte hhex _ => exact absurd hhex (by decide)

end Nodus.Frontend.StringLiterals
