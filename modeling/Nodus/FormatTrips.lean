import Nodus.Iso8601
import Nodus.LocalTimes
import Nodus.TimeFormats

/-! A datetime that is written with a format and read back with the same one. -/

namespace Nodus.TimeFormats

open JsonText DateTimes Regex LocalTimes

/-! ### Formats that show a civil time -/

section Formats

variable (tables : CharTables)

/-- The characters of what the tokens of a civil time stand for. -/
def isWord (c : Nat) : Bool := isDigit tables c || isAsciiLetter c

/-- No token follows at once. -/
def Apart : List Part → Prop
  | [] => True
  | .literal [] :: rest => Apart rest
  | .literal (_ :: _) :: _ => True
  | .token _ :: _ => False

/-- No literal has a letter or a digit in it, and one that is not empty stands between any two tokens. -/
def Spaced : List Part → Prop
  | [] => True
  | .literal l :: rest => (∀ c ∈ l, isWord tables c = false) ∧ Spaced rest
  | .token _ :: rest => Apart rest ∧ Spaced rest

def months : List Token := [.MM, .M, .MMMM, .MMM]

def days : List Token := [.dd, .d]

def hours : List Token := [.HH, .H, .hh, .h]

def minutes : List Token := [.mm, .m]

def seconds : List Token := [.ss, .s]

/-- The tokens that may be there beside these. -/
def others : List Token := [.yyyy, .SSS, .a, .EEEE, .EEE]

/-- The tokens show each field of a civil time once, and nothing else but the day of the week. An hour of twelve goes with the half of the
day, and one of twenty-four without it. -/
structure Complete (toks : List Token) : Prop where
  year : .yyyy ∈ toks
  month : ∃ tok, toks.filter (· ∈ months) = [tok]
  day : ∃ tok, toks.filter (· ∈ days) = [tok]
  hour : ∃ tok, toks.filter (· ∈ hours) = [tok] ∧ (.a ∈ toks ↔ tok ∈ [.hh, .h])
  minute : ∃ tok, toks.filter (· ∈ minutes) = [tok]
  second : ∃ tok, toks.filter (· ∈ seconds) = [tok]
  milli : .SSS ∈ toks
  only : ∀ tok ∈ toks, tok ∈ months ++ days ++ hours ++ minutes ++ seconds ++ others

end Formats

/-- What a datetime shows. -/
def shows (dt : DateTime) : List Int := [dt.year, dt.month, dt.day, dt.hour, dt.minute, dt.second, dt.ms]

/-- What is written with the format is read as a datetime that shows the same. -/
def Trips (platform : Platform) (dt : DateTime) (fmt : Text) : Prop :=
  ∃ s, timeFormat platform dt fmt = .ok (.ok s) ∧ ∃ dt', timeParse platform s fmt none {} = .ok (.ok dt') ∧ shows dt' = shows dt

/-! ### The words -/

section Words

variable (tables : CharTables) (l : Local)

theorem isWord_of_digit {c : Nat} (h : isDigit tables c = true) : isWord tables c = true := by
  rw [isWord, h]
  rfl

theorem isWord_of_letter {c : Nat} (h : isAsciiLetter c = true) : isWord tables c = true := by
  rw [isWord, h, Bool.or_true]

theorem isWord_linefeed : isWord tables 10 = false := by
  rw [isWord, isDigit, tables.decimal_ascii 10 (by decide)]
  rfl

theorem names_all {names : List Text} (h : ∀ name ∈ names, name.all isAsciiLetter = true) : ∀ name ∈ names, name.all (isWord tables) = true :=
  fun name hname => List.all_eq_true.mpr fun c hc => isWord_of_letter tables (List.all_eq_true.mp (h name hname) c hc)

theorem padded_words (w : Nat) (n : Int) : (padded w n).all (isWord tables) = true :=
  List.all_eq_true.mpr fun c hc => isWord_of_digit tables (List.all_eq_true.mp (padded_all tables w n) c hc)

theorem letters_monthFull : ∀ name ∈ monthFull, name.all isAsciiLetter = true := by decide

theorem letters_monthShort : ∀ name ∈ monthShort, name.all isAsciiLetter = true := by decide

theorem letters_weekdayFull : ∀ name ∈ weekdayFull, name.all isAsciiLetter = true := by decide

theorem letters_weekdayShort : ∀ name ∈ weekdayShort, name.all isAsciiLetter = true := by decide

theorem letters_half : ∀ name ∈ [text "AM", text "PM"], name.all isAsciiLetter = true := by decide

theorem getD_mem {names : List Text} {i : Int} (h : 0 ≤ i) (h' : i < names.length) : names.getD i.toNat [] ∈ names := by
  have hlt : i.toNat < names.length := by omega
  rw [List.getD_eq_getElem?_getD, List.getElem?_eq_getElem hlt, Option.getD_some]
  exact List.getElem_mem hlt

theorem monthFull_mem (d : Calendar.Date) : monthFull.getD (d.month - 1).toNat [] ∈ monthFull := by
  have hmonth := d.one_le_month
  have hmonth' := d.month_le
  exact getD_mem (by omega) (by rw [show monthFull.length = 12 from rfl]; omega)

theorem monthShort_mem (d : Calendar.Date) : monthShort.getD (d.month - 1).toNat [] ∈ monthShort := by
  have hmonth := d.one_le_month
  have hmonth' := d.month_le
  exact getD_mem (by omega) (by rw [show monthShort.length = 12 from rfl]; omega)

theorem weekdayFull_mem (d : Calendar.Date) : weekdayFull.getD d.weekday.toNat [] ∈ weekdayFull := by
  unfold Calendar.Date.weekday
  exact getD_mem (by omega) (by rw [show weekdayFull.length = 7 from rfl]; omega)

theorem weekdayShort_mem (d : Calendar.Date) : weekdayShort.getD d.weekday.toNat [] ∈ weekdayShort := by
  unfold Calendar.Date.weekday
  exact getD_mem (by omega) (by rw [show weekdayShort.length = 7 from rfl]; omega)

theorem half_mem (b : Prop) [Decidable b] : text (if b then "AM" else "PM") ∈ [text "AM", text "PM"] := by
  split
  · exact List.mem_cons_self
  · exact List.mem_cons_of_mem _ List.mem_cons_self

/-- The tokens that may be there. -/
abbrev Readable (tok : Token) : Prop := tok ∈ months ++ days ++ hours ++ minutes ++ seconds ++ others

theorem wordy_token {tok : Token} (h : Readable tok) : Wordy (isWord tables) (tokenParseRegex tables true tok) := by
  have hdigits := fun n => wordy_times n fun c (hc : isDigit tables c = true) => isWord_of_digit tables hc
  have honeOrTwo : Wordy (isWord tables) (.oneOrTwo (isDigit tables)) :=
    ⟨fun c hc => isWord_of_digit tables hc, fun c hc => isWord_of_digit tables hc⟩
  cases tok with
  | yyyy => exact hdigits 4
  | SSS => exact hdigits 3
  | MM | dd | HH | hh | mm | ss => exact hdigits 2
  | M | d => exact hdigits 1
  | H | h | m | s => exact honeOrTwo
  | MMMM => exact wordy_oneOf (names_all tables letters_monthFull)
  | MMM => exact wordy_oneOf (names_all tables letters_monthShort)
  | EEEE => exact wordy_oneOf (names_all tables letters_weekdayFull)
  | EEE => exact wordy_oneOf (names_all tables letters_weekdayShort)
  | a => exact wordy_oneOf (names_all tables letters_half)
  | ZZZZ | zzzz | VV | yy | Z | z => exact absurd h (by decide)

theorem words_token {tok : Token} (h : Readable tok) : (renderToken l .utc tok).all (isWord tables) = true := by
  cases tok with
  | yyyy | MM | M | dd | d | HH | H | hh | h | mm | m | ss | s | SSS => exact padded_words tables _ _
  | MMMM => exact names_all tables letters_monthFull _ (monthFull_mem _)
  | MMM => exact names_all tables letters_monthShort _ (monthShort_mem _)
  | EEEE => exact names_all tables letters_weekdayFull _ (weekdayFull_mem _)
  | EEE => exact names_all tables letters_weekdayShort _ (weekdayShort_mem _)
  | a => exact names_all tables letters_half _ (half_mem _)
  | ZZZZ | zzzz | VV | yy | Z | z => exact absurd h (by decide)

end Words

/-! ### The numbers -/

section Digits

variable (tables : CharTables)

theorem length_decimal_pos (n : Nat) : 0 < (decimal n).length := by
  obtain ⟨c, ds, h, -⟩ := decimal_head n
  rw [h]
  exact Nat.succ_pos _

theorem length_decimal_one_iff (n : Nat) : (decimal n).length = 1 ↔ n < 10 := by
  constructor
  · intro h
    obtain ⟨c, hc⟩ := List.length_eq_one_iff.mp h
    have hdigit : JsonText.isDigit c = true := decimal_digits (hc ▸ List.mem_singleton_self c)
    have hread := readDecimal_decimal n
    rw [hc, readDecimal, List.foldl_cons, List.foldl_nil] at hread
    rw [JsonText.isDigit, Bool.and_eq_true, decide_eq_true_iff, decide_eq_true_iff] at hdigit
    omega
  · intro h
    have hle := length_decimal_le Nat.one_pos (show n < 10 ^ 1 from h)
    have hpos := length_decimal_pos n
    omega

theorem length_padded_zero (n : Int) : (padded 0 n).length = (decimal n.toNat).length := by
  rw [padded, Nat.zero_sub, List.replicate_zero, List.nil_append]

theorem accepts_padded {w : Nat} {n : Int} (hw : 0 < w) (h : n < 10 ^ w) : ([], []) ∈ (Re.times w (isDigit tables)).find (padded w n) := by
  have haccepts := accepts_times (padded_all tables w n)
  rwa [length_padded hw h] at haccepts

theorem accepts_short {n : Int} (h : n < 100) : ([], []) ∈ (Re.oneOrTwo (isDigit tables)).find (padded 0 n) := by
  apply accepts_oneOrTwo (padded_all tables 0 n)
  have hle := length_decimal_le (show 0 < 2 by decide) (show n.toNat < 10 ^ 2 by omega)
  have hpos := length_decimal_pos n.toNat
  rw [length_padded_zero]
  omega

theorem accepts_single_iff {n : Int} : ([], []) ∈ (Re.times 1 (isDigit tables)).find (padded 0 n) ↔ n < 10 := by
  constructor
  · intro h
    have hlength := length_of_times h
    rw [length_padded_zero] at hlength
    have hlt := (length_decimal_one_iff n.toNat).mp hlength
    omega
  · intro h
    have haccepts := accepts_times (padded_all tables 0 n)
    rwa [length_padded_zero, (length_decimal_one_iff n.toNat).mpr (by omega)] at haccepts

end Digits

/-! ### The match -/

section Matching

variable (tables : CharTables) {l : Local}

/-- The month or the day that the token stands for has one digit, where one digit is read. -/
def Fits (l : Local) (tok : Token) : Prop := (tok = .M → (dateOf l.ms).month < 10) ∧ (tok = .d → (dateOf l.ms).day < 10)

theorem accepts_iff {tok : Token} (h : Readable tok) (hyears : InYears l.ms) :
    ([], []) ∈ (tokenParseRegex tables true tok).find (renderToken l .utc tok) ↔ Fits l tok := by
  have hyear := dateOf_year hyears
  have hmonth := (dateOf l.ms).month_le
  have hday := (dateOf l.ms).day_le_31
  have hhour := (Civil.ofMs l.ms).hour_mem.2
  have hminute := (Civil.ofMs l.ms).minute_mem.2
  have hsecond := (Civil.ofMs l.ms).second_mem.2
  have hmilli := (Civil.ofMs l.ms).milli_mem.2
  simp only [Civil.ofMs] at hhour hminute hsecond hmilli
  have hhour12 : hour12 (hourOf l.ms) < 100 := by
    unfold hour12
    split <;> omega
  -- Every other token is read whatever it stands for.
  have hread : ∀ {tok : Token} {P : Prop}, tok ≠ .M ∧ tok ≠ .d → P → (P ↔ Fits l tok) :=
    fun hne hP => iff_of_true hP ⟨fun h => absurd h hne.1, fun h => absurd h hne.2⟩
  cases tok with
  | yyyy | MM | dd | HH | mm | ss | SSS => exact hread (by decide) (accepts_padded tables (by decide) (by omega))
  | hh => exact hread (by decide) (accepts_padded tables (by decide) hhour12)
  | H | m | s => exact hread (by decide) (accepts_short tables (by omega))
  | h => exact hread (by decide) (accepts_short tables hhour12)
  | M => exact (accepts_single_iff tables).trans ⟨fun h => ⟨fun _ => h, fun hd => absurd hd (by decide)⟩, fun h => h.1 rfl⟩
  | MMMM => exact hread (by decide) (accepts_oneOf (names_all tables letters_monthFull) (monthFull_mem _))
  | MMM => exact hread (by decide) (accepts_oneOf (names_all tables letters_monthShort) (monthShort_mem _))
  | d => exact (accepts_single_iff tables).trans ⟨fun h => ⟨fun hM => absurd hM (by decide), fun _ => h⟩, fun h => h.2 rfl⟩
  | EEEE => exact hread (by decide) (accepts_oneOf (names_all tables letters_weekdayFull) (weekdayFull_mem _))
  | EEE => exact hread (by decide) (accepts_oneOf (names_all tables letters_weekdayShort) (weekdayShort_mem _))
  | a => exact hread (by decide) (accepts_oneOf (names_all tables letters_half) (half_mem _))
  | ZZZZ | zzzz | VV | yy | Z | z => exact absurd h (by decide)

/-- A part with what it stands for in the text. -/
def Part.piece (l : Local) : Part → Piece
  | .literal t => .lit t
  | .token tok => .word (tokenParseRegex tables true tok) (renderToken l .utc tok)

theorem pattern_pieces (l : Local) (parts : List Part) :
    pattern (parts.map (Part.piece tables l)) = (compileParsePattern tables parts true).1 := by
  rw [pattern, compileParsePattern, List.map_map]
  refine congrArg Re.sequence (List.map_congr_left fun part _ => ?_)
  cases part with
  | literal t => rfl
  | token tok => rfl

theorem content_pieces (l : Local) (parts : List Part) : content (parts.map (Part.piece tables l)) = renderFmt parts l .utc := by
  rw [content, renderFmt, List.flatMap_map]
  refine List.flatMap_congr fun part _ => ?_
  cases part with
  | literal t => rfl
  | token tok => rfl

theorem captures_pieces (l : Local) (parts : List Part) : (parts.map (Part.piece tables l)).filterMap Piece.capture =
    (parts.flatMap Part.tokens).map fun tok => some (renderToken l .utc tok) := by
  induction parts with
  | nil => rfl
  | cons part parts ih =>
      cases part with
      | literal t => exact ih
      | token tok => exact congrArg (some (renderToken l .utc tok) :: ·) ih

theorem delimited_pieces {parts : List Part} (h : Spaced tables parts) (hapart : Apart parts) :
    Delimited (isWord tables) (parts.map (Part.piece tables l)) := by
  induction parts with
  | nil => exact trivial
  | cons part parts ih =>
      cases part with
      | literal t =>
          cases t with
          | nil => exact ih h.2 hapart
          | cons c t => exact h.1 c List.mem_cons_self
      | token tok => exact hapart.elim

theorem separated_pieces {parts : List Part} (h : Spaced tables parts) (honly : ∀ tok ∈ parts.flatMap Part.tokens, Readable tok) :
    Separated (isWord tables) (parts.map (Part.piece tables l)) := by
  induction parts with
  | nil => exact trivial
  | cons part parts ih =>
      have hrest := fun hparts => ih hparts fun tok htok => honly tok (List.mem_append_right _ htok)
      cases part with
      | literal t => exact hrest h.2
      | token tok =>
          have htok := honly tok List.mem_cons_self
          exact ⟨(wordy_token tables htok).readsWords, words_token tables l htok, delimited_pieces tables h.2 h.1, hrest h.2⟩

theorem accepted_pieces {parts : List Part} (hyears : InYears l.ms) (honly : ∀ tok ∈ parts.flatMap Part.tokens, Readable tok) :
    (∀ piece ∈ parts.map (Part.piece tables l), piece.Accepted) ↔
      (.M ∈ parts.flatMap Part.tokens → (dateOf l.ms).month < 10) ∧ (.d ∈ parts.flatMap Part.tokens → (dateOf l.ms).day < 10) := by
  have htokens : (∀ piece ∈ parts.map (Part.piece tables l), piece.Accepted) ↔
      ∀ tok ∈ parts.flatMap Part.tokens, Fits l tok := by
    induction parts with
    | nil => exact iff_of_true (fun _ h => absurd h List.not_mem_nil) fun _ h => absurd h List.not_mem_nil
    | cons part parts ih =>
        have hrest := ih fun tok htok => honly tok (List.mem_append_right _ htok)
        rw [List.map_cons, List.forall_mem_cons, hrest]
        cases part with
        | literal t => exact and_iff_right trivial
        | token tok =>
            have htok := accepts_iff tables (honly tok List.mem_cons_self) hyears
            exact (and_congr_left' htok).trans (List.forall_mem_cons (p := Fits l)).symm
  rw [htokens]
  constructor
  · exact fun h => ⟨fun hM => (h _ hM).1 rfl, fun hd => (h _ hd).2 rfl⟩
  · exact fun h tok htok => ⟨fun hM => h.1 (hM ▸ htok), fun hd => h.2 (hd ▸ htok)⟩

end Matching

/-! ### The fields -/

section Fields

variable (tables : CharTables) {l : Local} {toks : List Token}

/-- What the tokens of a text have been read as. -/
def shownValues (l : Local) (toks : List Token) : Values := fun tok => if tok ∈ toks then some (renderToken l .utc tok) else none

theorem valuesOf_shown (l : Local) (toks : List Token) :
    valuesOf toks (toks.map fun tok => some (renderToken l .utc tok)) = shownValues l toks := by
  funext tok
  have hlookup : ∀ ts : List Token, ((ts.map fun t => (t, some (renderToken l .utc t))).lookup tok).join =
      if tok ∈ ts then some (renderToken l .utc tok) else none := by
    intro ts
    induction ts with
    | nil => rfl
    | cons t ts ih =>
        rw [List.map_cons, List.lookup_cons]
        by_cases ht : tok = t
        · subst ht
          rw [if_pos List.mem_cons_self, beq_self_eq_true]
          rfl
        · have hne : (tok == t) = false := beq_eq_false_iff_ne.mpr ht
          rw [hne, ih]
          exact if_congr (List.mem_cons.trans (or_iff_right ht)).symm rfl rfl
  have hzip : toks.zip (toks.map fun tok => some (renderToken l .utc tok)) = toks.map fun t => (t, some (renderToken l .utc t)) := by
    induction toks with
    | nil => rfl
    | cons t ts ih => exact congrArg ((t, some (renderToken l .utc t)) :: ·) ih
  rw [valuesOf, hzip, ← List.map_reverse, hlookup, shownValues]
  exact if_congr List.mem_reverse rfl rfl

theorem shown_of_mem {tok : Token} (h : tok ∈ toks) : shownValues l toks tok = some (renderToken l .utc tok) := if_pos h

theorem shown_group {group : List Token} {tok : Token} (h : toks.filter (· ∈ group) = [tok]) :
    tok ∈ group ∧ ∀ t ∈ group, shownValues l toks t = if t = tok then some (renderToken l .utc t) else none := by
  have hmem : ∀ t ∈ group, t ∈ toks ↔ t = tok := fun t ht => by
    rw [← List.mem_singleton, ← h, List.mem_filter, and_iff_left (decide_eq_true ht)]
  have htok : tok ∈ toks.filter (· ∈ group) := h ▸ List.mem_singleton_self tok
  exact ⟨of_decide_eq_true (List.mem_filter.mp htok).2, fun t ht => if_congr (hmem t ht) rfl rfl⟩

theorem orElse_of_ne {n : Int} (h : n ≠ 0) (b : Option Int) : orElse (some n) b = some n := if_neg h

theorem orValue_zero (a : Option Int) : orValue a 0 = a.getD 0 := by
  cases a with
  | none => rfl
  | some n =>
      rw [orValue, orElse]
      split <;> simp_all

theorem getD_orElse_none (a : Option Int) : (orElse a none).getD 0 = a.getD 0 := by
  cases a with
  | none => rfl
  | some n =>
      rw [orElse]
      split <;> simp_all

theorem idxOf_name {names : List Text} (h : ∀ i : Fin 12, names.idxOf (names.getD i []) = i) {month : Int} (hlow : 1 ≤ month) (hhigh : month ≤ 12) :
    (names.idxOf (names.getD (month - 1).toNat []) : Int) + 1 = month := by
  have hidx := h ⟨(month - 1).toNat, by omega⟩
  rw [hidx]
  dsimp only
  omega

theorem idxOf_monthFull : ∀ i : Fin 12, monthFull.idxOf (monthFull.getD i []) = i := by decide

theorem idxOf_monthShort : ∀ i : Fin 12, monthShort.idxOf (monthShort.getD i []) = i := by decide

theorem monthValue_shown (h : ∃ tok, toks.filter (· ∈ months) = [tok]) : monthValue tables (shownValues l toks) = (dateOf l.ms).month := by
  obtain ⟨tok, htok⟩ := h
  obtain ⟨hmem, hshown⟩ := shown_group (l := l) htok
  have hMM := hshown .MM (by decide)
  have hM := hshown .M (by decide)
  have hMMMM := hshown .MMMM (by decide)
  have hMMM := hshown .MMM (by decide)
  have hlow := (dateOf l.ms).one_le_month
  have hhigh := (dateOf l.ms).month_le
  have hread := fun w => readInt_padded tables w (show 0 ≤ (dateOf l.ms).month by omega)
  simp only [months, List.mem_cons, List.not_mem_nil, or_false] at hmem
  rw [monthValue, intValue, intValue, hMM, hM, hMMMM, hMMM]
  rcases hmem with rfl | rfl | rfl | rfl
  · rw [if_pos rfl, Option.map_some, show renderToken l .utc .MM = padded 2 _ from rfl, hread, orElse_of_ne (by omega)]
  · rw [if_neg (by decide), if_pos rfl, Option.map_none, Option.map_some, show renderToken l .utc .M = padded 0 _ from rfl, hread]
    rfl
  · exact idxOf_name idxOf_monthFull hlow hhigh
  · exact idxOf_name idxOf_monthShort hlow hhigh

theorem dayValue_shown (h : ∃ tok, toks.filter (· ∈ days) = [tok]) :
    orValue (orElse (intValue tables (shownValues l toks) .dd) (intValue tables (shownValues l toks) .d)) 1 = (dateOf l.ms).day := by
  obtain ⟨tok, htok⟩ := h
  obtain ⟨hmem, hshown⟩ := shown_group (l := l) htok
  have hlow := (dateOf l.ms).one_le_day
  have hread := fun w => readInt_padded tables w (show 0 ≤ (dateOf l.ms).day by omega)
  simp only [days, List.mem_cons, List.not_mem_nil, or_false] at hmem
  rw [intValue, intValue, hshown .dd (by decide), hshown .d (by decide)]
  rcases hmem with rfl | rfl
  · rw [if_pos rfl, Option.map_some, renderToken, hread, orElse_of_ne (by omega), orValue, orElse_of_ne (by omega)]
    rfl
  · rw [if_neg (by decide), if_pos rfl, Option.map_none, Option.map_some, renderToken, hread, orElse, orValue, orElse_of_ne (by omega)]
    rfl

/-- A field that may be zero, and that one of two tokens shows. -/
theorem pairValue_shown {long short : Token} {n : Int} (hn : 0 ≤ n) (hne : long ≠ short) (hlong : renderToken l .utc long = padded 2 n)
    (hshort : renderToken l .utc short = padded 0 n) (h : ∃ tok, toks.filter (· ∈ [long, short]) = [tok]) :
    orValue (orElse (intValue tables (shownValues l toks) long) (intValue tables (shownValues l toks) short)) 0 = n := by
  obtain ⟨tok, htok⟩ := h
  obtain ⟨hmem, hshown⟩ := shown_group (l := l) htok
  have hread := fun w => readInt_padded tables w hn
  rw [intValue, intValue, hshown long List.mem_cons_self, hshown short (List.mem_cons_of_mem _ List.mem_cons_self), orValue_zero]
  simp only [List.mem_cons, List.not_mem_nil, or_false] at hmem
  rcases hmem with rfl | rfl
  · rw [if_pos rfl, if_neg hne.symm, Option.map_some, Option.map_none, getD_orElse_none, hlong, hread]
    rfl
  · rw [if_neg hne, if_pos rfl, Option.map_some, Option.map_none, hshort, hread]
    rfl

theorem adjustHour_half {hour : Int} (h : 0 ≤ hour ∧ hour ≤ 23) :
    adjustHour (some (text (if hour < 12 then "AM" else "PM"))) (hour12 hour) = hour := by
  have hne : text "AM" ≠ text "PM" := by decide
  rw [adjustHour, hour12]
  by_cases hhalf : hour < 12
  · simp only [if_pos hhalf, Option.some.injEq, hne, false_and, if_false, true_and]
    split <;> split <;> omega
  · simp only [if_neg hhalf, Option.some.injEq, hne.symm, false_and, if_false, true_and]
    split <;> split <;> omega

theorem hourValue_shown (h : ∃ tok, toks.filter (· ∈ hours) = [tok] ∧ (.a ∈ toks ↔ tok ∈ [.hh, .h])) :
    adjustHour (shownValues l toks .a)
      (orValue (orElse (orElse (orElse (intValue tables (shownValues l toks) .HH) (intValue tables (shownValues l toks) .H))
        (intValue tables (shownValues l toks) .hh)) (intValue tables (shownValues l toks) .h)) 0) = hourOf l.ms := by
  obtain ⟨tok, htok, ha⟩ := h
  obtain ⟨hmem, hshown⟩ := shown_group (l := l) htok
  have hhour := (Civil.ofMs l.ms).hour_mem
  simp only [Civil.ofMs] at hhour
  have hhour12 : 0 ≤ hour12 (hourOf l.ms) := by
    unfold hour12
    split <;> omega
  have hread := fun w => readInt_padded tables w hhour.1
  have hread12 := fun w => readInt_padded tables w hhour12
  rw [intValue, intValue, intValue, intValue, hshown .HH (by decide), hshown .H (by decide), hshown .hh (by decide), hshown .h (by decide),
    orValue_zero, shownValues]
  simp only [hours, List.mem_cons, List.not_mem_nil, or_false] at hmem
  rcases hmem with rfl | rfl | rfl | rfl
  · rw [if_neg (ha.not.mpr (by decide)), if_pos rfl, if_neg (by decide), if_neg (by decide), if_neg (by decide)]
    simp only [Option.map_some, Option.map_none, getD_orElse_none, renderToken, hread, Option.getD_some]
    rfl
  · rw [if_neg (ha.not.mpr (by decide)), if_neg (by decide), if_pos rfl, if_neg (by decide), if_neg (by decide)]
    simp only [Option.map_some, Option.map_none, getD_orElse_none, renderToken, hread]
    rfl
  · rw [if_pos (ha.mpr (by decide)), if_neg (by decide), if_neg (by decide), if_pos rfl, if_neg (by decide)]
    simp only [Option.map_some, Option.map_none, getD_orElse_none, renderToken, hread12]
    exact adjustHour_half hhour
  · rw [if_pos (ha.mpr (by decide)), if_neg (by decide), if_neg (by decide), if_neg (by decide), if_pos rfl]
    simp only [Option.map_some, Option.map_none, renderToken, hread12]
    exact adjustHour_half hhour

theorem fieldsOf_shown (hyears : InYears l.ms) (h : Complete toks) :
    fieldsOf tables (shownValues l toks) =
      ⟨some (dateOf l.ms).year, (dateOf l.ms).month, (dateOf l.ms).day, hourOf l.ms, minuteOf l.ms, secondOf l.ms, milliOf l.ms⟩ := by
  have hyear := dateOf_year hyears
  have hminute : 0 ≤ minuteOf l.ms := (Civil.ofMs l.ms).minute_mem.1
  have hsecond : 0 ≤ secondOf l.ms := (Civil.ofMs l.ms).second_mem.1
  have hmilli : 0 ≤ milliOf l.ms := (Civil.ofMs l.ms).milli_mem.1
  rw [fieldsOf, monthValue_shown tables h.month, dayValue_shown tables h.day, hourValue_shown tables h.hour,
    pairValue_shown tables hminute (by decide) rfl rfl h.minute, pairValue_shown tables hsecond (by decide) rfl rfl h.second, yearValue,
    intValue, intValue, shown_of_mem h.year, shown_of_mem h.milli, orValue_zero]
  simp only [Option.map_some, renderToken, Option.getD_some]
  rw [readInt_padded tables 4 (by omega), readInt_padded tables 3 hmilli]

end Fields

/-! ### The round trip -/

section Trip

variable {platform : Platform} {epochMs : Int} {dt dt' : DateTime} {fmt : Text}

theorem makeDt_shows (h : makeDt epochMs .utc = .ok dt) : InYears epochMs ∧ dt.zone = .utc ∧ dt.epochMs = epochMs ∧
    dt.year = (dateOf epochMs).year ∧ dt.month = (dateOf epochMs).month ∧ dt.day = (dateOf epochMs).day ∧ dt.hour = hourOf epochMs ∧
    dt.minute = minuteOf epochMs ∧ dt.second = secondOf epochMs ∧ dt.ms = milliOf epochMs := by
  rw [makeDt] at h
  cases hl : localFromEpochMs .utc epochMs with
  | error e =>
      rw [hl] at h
      cases h
  | ok l =>
      obtain ⟨hyears, -, hoffset, hms⟩ := localFromEpochMs_eq_ok hl
      rw [show l.offset = 0 from hoffset, mul_zero, add_zero] at hms
      rw [hl] at h
      obtain rfl := Except.ok.inj h
      rw [← hms]
      exact ⟨hms ▸ hyears, rfl, hms ▸ rfl, rfl, rfl, rfl, rfl, rfl, rfl, rfl⟩

/-- What a datetime in UTC shows determines the instant. -/
theorem epochMs_of_shows {epochMs' : Int} (h : makeDt epochMs .utc = .ok dt) (h' : makeDt epochMs' .utc = .ok dt')
    (hshows : shows dt' = shows dt) : epochMs' = epochMs := by
  obtain ⟨-, -, -, hyear, hmonth, hday, hhour, hminute, hsecond, hmilli⟩ := makeDt_shows h
  obtain ⟨-, -, -, hyear', hmonth', hday', hhour', hminute', hsecond', hmilli'⟩ := makeDt_shows h'
  simp only [shows, List.cons.injEq, and_true] at hshows
  obtain ⟨hy, hmo, hd, hh, hmi, hs, hms⟩ := hshows
  have hdate : dateOf epochMs' = dateOf epochMs := by
    rw [Calendar.Date.mk.injEq]
    exact ⟨by rw [← hyear', hy, hyear], by rw [← hmonth', hmo, hmonth], by rw [← hday', hd, hday]⟩
  have hcivil : Civil.ofMs epochMs' = Civil.ofMs epochMs :=
    Civil.ext hdate (hhour'.symm.trans (hh.trans hhour)) (hminute'.symm.trans (hmi.trans hminute)) (hsecond'.symm.trans (hs.trans hsecond))
      (hmilli'.symm.trans (hms.trans hmilli))
  rw [← Civil.toMs_ofMs epochMs', hcivil, Civil.toMs_ofMs]

theorem constructAware_utc (writing : Writing) (h : InYears epochMs) (options : Options) :
    constructAware writing (dateOf epochMs).year (dateOf epochMs).month (dateOf epochMs).day (hourOf epochMs) (minuteOf epochMs)
      (secondOf epochMs) (milliOf epochMs) .utc options = answer (awareEpochMs epochMs) .utc := by
  have hreading : ∀ fold, reading .utc fold epochMs = epochMs := fun fold => by
    rw [reading, show Zone.utc.offsetOf fold (epochMs / 1000) = 0 from rfl, mul_zero, sub_zero]
  have hutc : ∀ fold, toUtc .utc fold epochMs = .ok epochMs := fun fold => (toUtc_eq (by rwa [hreading])).trans (by rw [hreading])
  change construct writing .utc (Civil.ofMs epochMs) options = _
  rw [construct_eq (dateOf_year h), Civil.toMs_ofMs, hutc, hutc]
  exact if_pos rfl

variable (platform) in
theorem timeFormat_utc (h : makeDt epochMs .utc = .ok dt) (hplain : 37 ∉ fmt) :
    ∃ l : Local, l.ms = epochMs ∧ timeFormat platform dt fmt = .ok (.ok (renderFmt (tokenizeFmt fmt) l .utc)) := by
  obtain ⟨hyears, hzone, hepoch, -⟩ := makeDt_shows h
  have hzero : Zone.utc.offsetAt (epochMs / 1000) = 0 := rfl
  rw [timeFormat, hzone, hepoch, localFromEpochMs, hzero, mul_zero, add_zero, if_pos ⟨hyears, hyears⟩]
  exact ⟨_, rfl, congrArg Except.ok (if_neg hplain)⟩

variable (platform) in
/-- A text that the format has written is refused, or it is the civil time that is converted. -/
theorem timeParse_rendered {l : Local} (hyears : InYears l.ms) (hspaced : Spaced platform.tables (tokenizeFmt fmt))
    (hcomplete : Complete ((tokenizeFmt fmt).flatMap Part.tokens)) :
    if (.M ∈ (tokenizeFmt fmt).flatMap Part.tokens → (dateOf l.ms).month < 10) ∧ (.d ∈ (tokenizeFmt fmt).flatMap Part.tokens → (dateOf l.ms).day < 10)
    then timeParse platform (renderFmt (tokenizeFmt fmt) l .utc) fmt none {} = lift (answer (awareEpochMs l.ms) .utc)
    else ∃ e, timeParse platform (renderFmt (tokenizeFmt fmt) l .utc) fmt none {} = .ok (.error e) := by
  have hsep := separated_pieces (l := l) platform.tables hspaced hcomplete.only
  have haccepted := accepted_pieces (l := l) platform.tables hyears hcomplete.only
  have hline := isWord_linefeed platform.tables
  rw [timeParse, timeParseIn, ← content_pieces platform.tables, ← pattern_pieces platform.tables l]
  split
  · rename_i hfits
    rw [fullMatch_content hline hsep (haccepted.mpr hfits), captures_pieces]
    have hnot : ∀ tok, ¬ Readable tok → shownValues l ((tokenizeFmt fmt).flatMap Part.tokens) tok = none :=
      fun tok htok => if_neg fun hmem => htok (hcomplete.only tok hmem)
    simp only [compileParsePattern, valuesOf_shown, fieldsOf_shown platform.tables hyears hcomplete]
    rw [inZone, hnot .VV (by decide), hnot .ZZZZ (by decide), hnot .Z (by decide)]
    exact congrArg lift (constructAware_utc _ hyears _)
  · rename_i hfits
    rw [fullMatch_eq_none hline hsep (haccepted.not.mpr hfits)]
    exact ⟨_, rfl⟩

/-- A datetime in UTC that a format shows in full is read back from what is written, unless a month or a day of two digits is written with a
token that is read as one digit, or the conversion of the instant loses a millisecond. -/
theorem trips_iff (h : makeDt epochMs .utc = .ok dt) (hplain : 37 ∉ fmt) (hspaced : Spaced platform.tables (tokenizeFmt fmt))
    (hcomplete : Complete ((tokenizeFmt fmt).flatMap Part.tokens)) :
    Trips platform dt fmt ↔ (.M ∈ (tokenizeFmt fmt).flatMap Part.tokens → dt.month < 10) ∧
      (.d ∈ (tokenizeFmt fmt).flatMap Part.tokens → dt.day < 10) ∧ ¬ Timestamps.Lossy epochMs := by
  obtain ⟨hyears, -, -, -, hmonth, hday, -⟩ := makeDt_shows h
  obtain ⟨l, hms, hwritten⟩ := timeFormat_utc platform h hplain
  have hparsed := timeParse_rendered platform (by rwa [hms] : InYears l.ms) hspaced hcomplete
  have hexact := awareEpochMs_eq_iff hyears
  rw [hms] at hparsed
  rw [hmonth, hday, ← and_assoc]
  split at hparsed
  · rename_i hfits
    rw [and_iff_right hfits, ← hexact]
    constructor
    · rintro ⟨s, hs, dt', hdt', hshows⟩
      obtain rfl := Except.ok.inj (Except.ok.inj (hwritten.symm.trans hs))
      rw [hparsed, answer] at hdt'
      cases hmade : makeDt (awareEpochMs epochMs) .utc with
      | error e =>
          rw [hmade] at hdt'
          cases e
          cases hdt'
      | ok made =>
          rw [hmade] at hdt'
          cases hdt'
          exact epochMs_of_shows h hmade hshows
    · intro heq
      rw [heq, answer, h] at hparsed
      exact ⟨_, hwritten, dt, hparsed, rfl⟩
  · rename_i hfits
    refine iff_of_false ?_ fun hboth => hfits hboth.1
    rintro ⟨s, hs, dt', hdt', -⟩
    obtain rfl := Except.ok.inj (Except.ok.inj (hwritten.symm.trans hs))
    obtain ⟨e, he⟩ := hparsed
    cases hdt'.symm.trans he

/-- A second of a leap day. -/
theorem leap_day_trips : ∃ dt, makeDt 1709210096000 .utc = .ok dt ∧ Trips Iso8601.plainPlatform dt (text "yyyy-MM-dd HH:mm:ss.SSS") := by
  obtain ⟨dt, hdt⟩ := DateTimes.makeDt_utc (by decide : InYears 1709210096000)
  have hcomplete : Complete ((tokenizeFmt (text "yyyy-MM-dd HH:mm:ss.SSS")).flatMap Part.tokens) :=
    ⟨by decide, ⟨.MM, by decide⟩, ⟨.dd, by decide⟩, ⟨.HH, by decide⟩, ⟨.mm, by decide⟩, ⟨.ss, by decide⟩, by decide, by decide⟩
  have hspaced : Spaced Iso8601.asciiTables (tokenizeFmt (text "yyyy-MM-dd HH:mm:ss.SSS")) := by
    rw [show tokenizeFmt (text "yyyy-MM-dd HH:mm:ss.SSS") = [.token .yyyy, .literal (text "-"), .token .MM, .literal (text "-"), .token .dd,
      .literal (text " "), .token .HH, .literal (text ":"), .token .mm, .literal (text ":"), .token .ss, .literal (text "."), .token .SSS] from by
        decide]
    exact ⟨trivial, by decide, trivial, by decide, trivial, by decide, trivial, by decide, trivial, by decide, trivial, by decide, trivial, trivial⟩
  exact ⟨dt, hdt, (trips_iff hdt (by decide) hspaced hcomplete).mpr ⟨fun h => absurd h (by decide), fun h => absurd h (by decide), by decide⟩⟩

end Trip

end Nodus.TimeFormats
