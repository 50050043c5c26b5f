import Nodus.TimeFormats

/-! `int` of a text. -/

namespace Nodus.HostInts

open JsonText TimeFormats

variable (tables : CharTables)

/-- The text that `int` reads: digits and blanks are written in ASCII. -/
def toAscii (c : Nat) : Nat :=
  if c < 127 then c else if tables.isSpace c then 32 else match tables.decimal c with
    | some d => d + 48
    | none => 63

def isBlank (c : Nat) : Bool := c = 32 || (9 ≤ c && c ≤ 13)

def dropSign : Text → Bool × Text
  | c :: rest => if c = 45 then (true, rest) else if c = 43 then (false, rest) else (false, c :: rest)
  | [] => (false, [])

/-- A digit, or an underscore between digits. -/
def isNumeral (c : Nat) : Bool := isDigit c || c = 95

/-- `int`; none stands for a `ValueError`. -/
def parseInt (t : Text) : Option Int :=
  let (negative, t) := dropSign ((t.map (toAscii tables)).dropWhile isBlank)
  let groups := (t.takeWhile isNumeral).splitOn 95
  let digits := groups.flatten
  if groups.any List.isEmpty || maxStrDigits < digits.length || !(t.dropWhile isNumeral).all isBlank then none
  else some (if negative then -readDecimal digits else readDecimal digits)

/-! ### What `int` takes -/

theorem isDigit_iff {c : Nat} : JsonText.isDigit c = true ↔ 48 ≤ c ∧ c ≤ 57 := by
  rw [JsonText.isDigit, Bool.and_eq_true, decide_eq_true_iff, decide_eq_true_iff]

theorem isNumeral_iff {c : Nat} : isNumeral c = true ↔ 48 ≤ c ∧ c ≤ 57 ∨ c = 95 := by
  rw [isNumeral, Bool.or_eq_true, isDigit_iff, decide_eq_true_iff]

theorem isBlank_iff {c : Nat} : isBlank c = true ↔ c = 32 ∨ 9 ≤ c ∧ c ≤ 13 := by
  rw [isBlank, Bool.or_eq_true, Bool.and_eq_true, decide_eq_true_iff, decide_eq_true_iff, decide_eq_true_iff]

theorem toAscii_of_lt {c : Nat} (h : toAscii tables c < 48) (h' : toAscii tables c ≠ 32) : toAscii tables c = c := by
  rw [toAscii] at h h' ⊢
  split
  · rfl
  · rename_i hc
    rw [if_neg hc] at h h'
    split at h
    · rename_i hspace
      rw [if_pos hspace] at h'
      exact absurd rfl h'
    · split at h <;> omega

theorem dropSign_spec (t : Text) : ∃ sign, t = sign ++ (dropSign t).2 ∧ (sign = [] ∨ sign = [43] ∨ sign = [45] ∧ (dropSign t).1 = true) := by
  cases t with
  | nil => exact ⟨[], rfl, .inl rfl⟩
  | cons c rest =>
      rw [dropSign]
      split
      · rename_i hc
        exact ⟨[45], by rw [hc]; rfl, .inr (.inr ⟨rfl, rfl⟩)⟩
      · split
        · rename_i hc
          exact ⟨[43], by rw [hc]; rfl, .inr (.inl rfl)⟩
        · exact ⟨[], rfl, .inl rfl⟩

theorem parseInt_shape {t : Text} {n : Int} (h : parseInt tables t = some n) :
    ∃ blanks sign body after, t.map (toAscii tables) = blanks ++ (sign ++ (body ++ after)) ∧ (∀ c ∈ blanks, isBlank c = true) ∧
      (sign = [] ∨ sign = [43] ∨ sign = [45] ∧ n ≤ 0) ∧ (∀ c ∈ body, isNumeral c = true) ∧ body ≠ [] ∧ ∀ c ∈ after, isBlank c = true := by
  rw [parseInt] at h
  dsimp only at h
  obtain ⟨sign, hsign, hcases⟩ := dropSign_spec ((t.map (toAscii tables)).dropWhile isBlank)
  generalize hunsigned : (dropSign ((t.map (toAscii tables)).dropWhile isBlank)).2 = unsigned at h hsign
  split at h
  · cases h
  · rename_i hvalid
    rw [Bool.or_eq_true, Bool.or_eq_true, not_or, not_or] at hvalid
    refine ⟨(t.map (toAscii tables)).takeWhile isBlank, sign, unsigned.takeWhile isNumeral, unsigned.dropWhile isNumeral, ?_,
      fun c hc => List.mem_takeWhile_imp hc, ?_, fun c hc => List.mem_takeWhile_imp hc, ?_, fun c hc => ?_⟩
    · rw [List.takeWhile_append_dropWhile, ← hsign, List.takeWhile_append_dropWhile]
    · refine hcases.imp_right (.imp_right fun hminus => ⟨hminus.1, ?_⟩)
      rw [hminus.2, if_pos rfl] at h
      have := Option.some.inj h
      omega
    · intro hnil
      rw [hnil] at hvalid
      exact hvalid.1.1 rfl
    · have hall := hvalid.2
      rw [Bool.not_eq_true', Bool.not_eq_false, List.all_eq_true] at hall
      exact hall c hc

theorem parseInt_chars {t : Text} {n : Int} (h : parseInt tables t = some n) :
    t ≠ [] ∧ 42 ∉ t ∧ 47 ∉ t ∧ t.count 45 ≤ 1 ∧ (45 ∈ t → n ≤ 0) := by
  obtain ⟨blanks, sign, body, after, hmap, hblanks, hsign, hbody, hne, hafter⟩ := parseInt_shape tables h
  have hblank : ∀ l : Text, (∀ c ∈ l, isBlank c = true) → ∀ c, c = 42 ∨ c = 47 ∨ c = 45 → c ∉ l := by
    intro l hl c hc hmem
    have := isBlank_iff.mp (hl c hmem)
    omega
  have hnumeral : ∀ c, c = 42 ∨ c = 47 ∨ c = 45 → c ∉ body := by
    intro c hc hmem
    have := isNumeral_iff.mp (hbody c hmem)
    omega
  have hnone : ∀ c, c = 42 ∨ c = 47 → c ∉ t := by
    intro c hc hmem
    have hascii : toAscii tables c = c := by
      rw [toAscii, if_pos (by omega)]
    have hin := List.mem_map_of_mem (f := toAscii tables) hmem
    rw [hascii, hmap, List.mem_append, List.mem_append, List.mem_append] at hin
    rcases hin with hin | hin | hin | hin
    · exact hblank blanks hblanks c (by omega) hin
    · rcases hsign with rfl | rfl | ⟨rfl, -⟩
      · cases hin
      · have := List.mem_singleton.mp hin
        omega
      · have := List.mem_singleton.mp hin
        omega
    · exact hnumeral c (by omega) hin
    · exact hblank after hafter c (by omega) hin
  have hcount : (t.map (toAscii tables)).count 45 = t.count 45 := by
    have hone : ∀ c : Nat, (toAscii tables c == 45) = (c == 45) := by
      intro c
      rw [Bool.eq_iff_iff, beq_iff_eq, beq_iff_eq]
      constructor
      · intro hc
        have := toAscii_of_lt tables (c := c) (by omega) (by omega)
        omega
      · rintro rfl
        rw [toAscii, if_pos (by omega)]
    rw [List.count_eq_countP, List.countP_map, List.count_eq_countP]
    exact List.countP_congr fun c _ => by rw [Function.comp_apply, hone c]
  have hsigns : t.count 45 = sign.count 45 := by
    rw [← hcount, hmap, List.count_append, List.count_append, List.count_append,
      List.count_eq_zero_of_not_mem (hblank blanks hblanks 45 (by omega)), List.count_eq_zero_of_not_mem (hnumeral 45 (by omega)),
      List.count_eq_zero_of_not_mem (hblank after hafter 45 (by omega)), Nat.add_zero, Nat.zero_add]
  refine ⟨?_, hnone 42 (.inl rfl), hnone 47 (.inr rfl), ?_, fun hmem => ?_⟩
  · rintro rfl
    have hlength := congrArg List.length hmap
    rw [List.map_nil, List.length_append, List.length_append, List.length_append, List.length_nil] at hlength
    have := List.length_pos_of_ne_nil hne
    omega
  · rw [hsigns]
    rcases hsign with rfl | rfl | ⟨rfl, -⟩ <;> decide
  · have hpos := List.count_pos_iff.mpr hmem
    rw [hsigns] at hpos
    rcases hsign with rfl | rfl | ⟨-, hn⟩
    · exact absurd hpos (by decide)
    · exact absurd hpos (by decide)
    · exact hn

theorem parseInt_digits {p : Text} (hne : p ≠ []) (hdigits : ∀ c ∈ p, JsonText.isDigit c = true) :
    parseInt tables p = if maxStrDigits < p.length then none else some (readDecimal p : Int) := by
  have hmap : p.map (toAscii tables) = p := by
    refine (List.map_congr_left fun c hc => ?_).trans (List.map_id p)
    have := isDigit_iff.mp (hdigits c hc)
    rw [toAscii, if_pos (by omega)]
    rfl
  have hnumeral : ∀ c ∈ p, isNumeral c = true := fun c hc => isNumeral_iff.mpr (.inl (isDigit_iff.mp (hdigits c hc)))
  have hunderscore : 95 ∉ p := by
    intro h
    have := isDigit_iff.mp (hdigits 95 h)
    omega
  have hhead : (p.dropWhile isBlank) = p ∧ dropSign p = (false, p) := by
    cases p with
    | nil => exact absurd rfl hne
    | cons c rest =>
        have hc := isDigit_iff.mp (hdigits c List.mem_cons_self)
        refine ⟨List.dropWhile_cons_of_neg fun hblank => ?_, ?_⟩
        · have := isBlank_iff.mp hblank
          omega
        · rw [dropSign, if_neg (by omega), if_neg (by omega)]
  have htake : p.takeWhile isNumeral = p := List.takeWhile_eq_self_iff.mpr hnumeral
  have hdrop : p.dropWhile isNumeral = [] := List.dropWhile_eq_nil_iff.mpr hnumeral
  rw [parseInt, hmap, hhead.1, hhead.2]
  dsimp only
  rw [htake, hdrop, List.splitOn_eq_singleton hunderscore, List.flatten_singleton]
  have hempty : ([p] : List Text).any List.isEmpty = false := by
    rw [List.any_cons, List.any_nil, Bool.or_false]
    exact List.isEmpty_eq_false_iff.mpr hne
  rw [hempty, Bool.false_or, List.all_nil, Bool.not_true, Bool.or_false]
  by_cases hlong : maxStrDigits < p.length
  · rw [if_pos hlong, if_pos (decide_eq_true hlong)]
  · rw [if_neg hlong, if_neg (by rwa [decide_eq_true_iff])]
    rfl

end Nodus.HostInts
