import Nodus.TimeFormats

/-! `time_to_iso8601` and `time_from_iso8601`. -/

namespace Nodus.Iso8601

open Calendar JsonText DateTimes TimeFormats Regex

/-- The format of `time_to_iso8601`. -/
def isoFormat : Text := text "yyyy-MM-dd'T'HH:mm:ss.SSSZZZZ"

/-- `time_to_iso8601`. -/
def toIso8601 (platform : Platform) (dt : DateTime) : Except HostFault (Except TimeError Text) := timeFormat platform dt isoFormat

section Reading

variable (tables : CharTables)

/-- `str.strip`. -/
def strip (t : Text) : Text := ((t.dropWhile tables.isSpace).reverse.dropWhile tables.isSpace).reverse

/-- `s.strip().replace(" ", "T")`. -/
def normalized (s : Text) : Text := (strip tables s).map fun c => if c = 32 then 84 else c

def digits (n : Nat) : Re := .times n (isDigit tables)

/-- A fraction. -/
def fractionRe : Re := .seq (.lit (text ".")) (.group (.some1 (isDigit tables)))

/-- `Z` or an offset. -/
def offsetRe : Re :=
  .alt (.alt (.lit (text "Z")) (.seq (.one isSign) (.seq (digits tables 2) (.seq (.lit (text ":")) (digits tables 2)))))
    (.seq (.one isSign) (digits tables 4))

/-- `_ISO_RE`. -/
def isoRe : Re :=
  .seq (.group (digits tables 4)) (.seq (.lit (text "-")) (.seq (.group (digits tables 2)) (.seq (.lit (text "-"))
    (.seq (.group (digits tables 2)) (.seq (.one (· = 84)) (.seq (.group (digits tables 2)) (.seq (.lit (text ":"))
      (.seq (.group (digits tables 2)) (.seq (.lit (text ":")) (.seq (.group (digits tables 2))
        (.seq (.opt (fractionRe tables)) (.group (offsetRe tables)))))))))))))

/-- The milliseconds of a fraction: its first three digits. -/
def fractionMs : Option Text → Int
  | none => 0
  | some frac => if frac = [] then 0 else readInt tables ((frac ++ text "000").take 3)

def offsetMs (offset : Text) : Int := if offset = text "Z" then 0 else offsetSeconds tables offset * 1000

end Reading

/-- The conversion of the civil fields of `time_from_iso8601`. -/
def isoEpochMs (localMs offsetMs : Int) : Int := Timestamps.toMs (1000 * localMs) - offsetMs

/-- `time_from_iso8601` of the fields that have been read. -/
def fromIsoFields (platform : Platform) (s : Text) (year month day hour minute second ms offset : Int) : Answer :=
  if ¬ (1900 ≤ year ∧ year ≤ 2099) then
    .ok (.error
      { category := "out_of_range", message := text "year " ++ intText year ++ text " out of range", input := some s, field := some "year" })
  else if ¬ (1 ≤ month ∧ month ≤ 12) then
    .ok (.error
      { category := "out_of_range", message := text "month " ++ intText month ++ text " out of range", input := some s, field := some "month" })
  else match naive year month day hour minute second ms with
    | none => .ok (.error { category := "parse_error", message := platform.writing.refusal, input := some s })
    | some localMs => answer (isoEpochMs localMs offset) .utc

/-- `time_from_iso8601`. -/
def fromIso8601 (platform : Platform) (s : Text) : Answer :=
  let read := readInt platform.tables
  match (isoRe platform.tables).fullMatch (normalized platform.tables s) with
  | some [some year, some month, some day, some hour, some minute, some second, frac, some offset] =>
      fromIsoFields platform s (read year) (read month) (read day) (read hour) (read minute) (read second) (fractionMs platform.tables frac)
        (offsetMs platform.tables offset)
  | _ => .ok (.error { category := "parse_error", message := text "invalid ISO 8601 string: " ++ platform.writing.repr s, input := some s })

/-! ### What is written is read -/

theorem tokenize_iso : tokenizeFmt isoFormat =
    [.token .yyyy, .literal (text "-"), .token .MM, .literal (text "-"), .token .dd, .literal (text "T"), .token .HH, .literal (text ":"),
      .token .mm, .literal (text ":"), .token .ss, .literal (text "."), .token .SSS, .token .ZZZZ] := by decide

section RoundTrip

variable (tables : CharTables)

/-- The characters of such a text. -/
def Plain (c : Nat) : Prop := JsonText.isDigit c = true ∨ c ∈ text "-T:.+"

theorem Plain.isSpace {c : Nat} (h : Plain c) : tables.isSpace c = false ∧ c ≠ 32 := by
  have hascii : c < 128 ∧ 43 ≤ c := by
    rcases h with h | h
    · rw [JsonText.isDigit, Bool.and_eq_true, decide_eq_true_iff, decide_eq_true_iff] at h
      omega
    · have hall : ∀ c ∈ text "-T:.+", c < 128 ∧ 43 ≤ c := by decide
      exact hall c h
  refine ⟨?_, by omega⟩
  rw [tables.isSpace_ascii c hascii.1]
  simp only [Bool.or_eq_false_iff, Bool.and_eq_false_iff, decide_eq_false_iff_not]
  omega

theorem dropWhile_of_all {p : Nat → Bool} {t : Text} (h : ∀ c ∈ t, p c = false) : t.dropWhile p = t := by
  cases t with
  | nil => rfl
  | cons c t => exact List.dropWhile_cons_of_neg (by rw [h c List.mem_cons_self]; exact Bool.false_ne_true)

theorem normalized_plain {t : Text} (h : ∀ c ∈ t, Plain c) : normalized tables t = t := by
  have hspace : ∀ c ∈ t, tables.isSpace c = false := fun c hc => ((h c hc).isSpace tables).1
  have hstrip : strip tables t = t := by
    rw [strip, dropWhile_of_all hspace, dropWhile_of_all fun c hc => hspace c (List.mem_reverse.mp hc), List.reverse_reverse]
  rw [normalized, hstrip]
  exact (List.map_congr_left fun c hc => if_neg ((h c hc).isSpace tables).2).trans (List.map_id' t)

theorem digit_of_padded {w : Nat} {n : Int} : ∀ c ∈ padded w n, Plain c := fun _ hc => .inl (padded_digits hc)

variable {tables}

theorem not_digit {c : Nat} (h : c ∈ text "-T:.+Z") : isDigit tables c = false := by
  have hall : ∀ c ∈ text "-T:.+Z", c < 128 ∧ ¬ (48 ≤ c ∧ c ≤ 57) := by decide
  rw [TimeFormats.isDigit, tables.decimal_ascii c (hall c h).1, if_neg (hall c h).2]
  rfl

theorem find_fraction {d₁ d₂ d₃ sign : Nat} {rest : Text} (h₁ : JsonText.isDigit d₁ = true) (h₂ : JsonText.isDigit d₂ = true)
    (h₃ : JsonText.isDigit d₃ = true) (hsign : isSign sign = true) :
    (Re.opt (fractionRe tables)).find (46 :: d₁ :: d₂ :: d₃ :: sign :: rest) =
      [([some [d₁, d₂, d₃]], sign :: rest), ([some [d₁, d₂]], d₃ :: sign :: rest), ([some [d₁]], d₂ :: d₃ :: sign :: rest),
        ([none], 46 :: d₁ :: d₂ :: d₃ :: sign :: rest)] := by
  have hd₁ := isDigit_of_digit tables h₁
  have hd₂ := isDigit_of_digit tables h₂
  have hd₃ := isDigit_of_digit tables h₃
  have hsign' : TimeFormats.isDigit tables sign = false := by
    rw [isSign, Bool.or_eq_true, decide_eq_true_iff, decide_eq_true_iff] at hsign
    rcases hsign with rfl | rfl
    · exact not_digit (by decide)
    · exact not_digit (by decide)
  have hruns : Re.runs (TimeFormats.isDigit tables) (d₂ :: d₃ :: sign :: rest) = [sign :: rest, d₃ :: sign :: rest, d₂ :: d₃ :: sign :: rest] := by
    simp only [Re.runs, hd₂, hd₃, hsign', if_true, List.cons_append, List.nil_append, Bool.false_eq_true, if_false]
  have hsome : (Re.some1 (TimeFormats.isDigit tables)).find (d₁ :: d₂ :: d₃ :: sign :: rest) =
      [([], sign :: rest), ([], d₃ :: sign :: rest), ([], d₂ :: d₃ :: sign :: rest)] := by
    have hfind := find_seq_of_reads (s := .many (TimeFormats.isDigit tables)) (reads_one hd₁) (d₂ :: d₃ :: sign :: rest)
    rw [find_many, hruns] at hfind
    exact hfind
  have hgroup : (Re.group (.some1 (TimeFormats.isDigit tables))).find (d₁ :: d₂ :: d₃ :: sign :: rest) =
      [([some [d₁, d₂, d₃]], sign :: rest), ([some [d₁, d₂]], d₃ :: sign :: rest), ([some [d₁]], d₂ :: d₃ :: sign :: rest)] := by
    rw [Re.find, hsome, List.map_cons, List.map_cons, List.map_singleton]
    dsimp only
    rw [captured_eq (show d₁ :: d₂ :: d₃ :: sign :: rest = [d₁, d₂, d₃] ++ (sign :: rest) from rfl),
      captured_eq (show d₁ :: d₂ :: d₃ :: sign :: rest = [d₁, d₂] ++ (d₃ :: sign :: rest) from rfl),
      captured_eq (show d₁ :: d₂ :: d₃ :: sign :: rest = [d₁] ++ (d₂ :: d₃ :: sign :: rest) from rfl)]
  have hfraction := find_seq_of_reads (s := .group (.some1 (TimeFormats.isDigit tables))) (reads_lit (text ".")) (d₁ :: d₂ :: d₃ :: sign :: rest)
  rw [hgroup] at hfraction
  rw [Re.find]
  exact congrArg (· ++ _) hfraction

theorem find_lit_other {c : Nat} {rest : Text} (hz : c ≠ 90) : (Re.lit (text "Z")).find (c :: rest) = [] := by
  refine List.eq_nil_iff_forall_not_mem.mpr fun m hm => ?_
  obtain ⟨ht, -⟩ := mem_lit.mp hm
  exact hz (List.cons.inj ht).1

theorem find_offset {sign e₁ e₂ e₃ e₄ : Nat} (hsign : isSign sign = true) (h₁ : JsonText.isDigit e₁ = true) (h₂ : JsonText.isDigit e₂ = true)
    (h₃ : JsonText.isDigit e₃ = true) (h₄ : JsonText.isDigit e₄ = true) :
    (Re.group (offsetRe tables)).find [sign, e₁, e₂, 58, e₃, e₄] = [([some [sign, e₁, e₂, 58, e₃, e₄]], [])] := by
  have hz : sign ≠ 90 := by
    rw [isSign, Bool.or_eq_true, decide_eq_true_iff, decide_eq_true_iff] at hsign
    omega
  have hone : ∀ {d : Nat}, JsonText.isDigit d = true → Reads (.one (TimeFormats.isDigit tables)) [d] [] := fun h =>
    reads_one (isDigit_of_digit tables h)
  have htwo : ∀ {d d' : Nat}, JsonText.isDigit d = true → JsonText.isDigit d' = true → Reads (digits tables 2) [d, d'] [] := fun h h' =>
    (hone h).seq ((hone h').seq (reads_lit []))
  have hlong : Reads (.seq (.one isSign) (.seq (digits tables 2) (.seq (.lit (text ":")) (digits tables 2)))) [sign, e₁, e₂, 58, e₃, e₄] [] :=
    (reads_one hsign).seq ((htwo h₁ h₂).seq ((reads_lit (text ":")).seq (htwo h₃ h₄)))
  have hshort : (Re.seq (.one isSign) (digits tables 4)).find [sign, e₁, e₂, 58, e₃, e₄] = [] := by
    have hcolon : ¬ TimeFormats.isDigit tables 58 = true := by
      rw [not_digit (by decide)]
      exact Bool.false_ne_true
    have hthird : (digits tables 2).find [58, e₃, e₄] = [] := by
      show (Re.seq (.one (TimeFormats.isDigit tables)) (.times 1 (TimeFormats.isDigit tables))).find [58, e₃, e₄] = []
      rw [find_seq, Re.find, if_neg hcolon]
      rfl
    have htwo := find_seq_of_reads (s := digits tables 2) (hone h₂) [58, e₃, e₄]
    rw [hthird] at htwo
    have hthree := find_seq_of_reads (s := .seq (.one (TimeFormats.isDigit tables)) (digits tables 2)) (hone h₁) ([e₂] ++ [58, e₃, e₄])
    rw [htwo] at hthree
    have hfour := find_seq_of_reads (s := digits tables 4) (reads_one hsign) [e₁, e₂, 58, e₃, e₄]
    rw [show (digits tables 4).find [e₁, e₂, 58, e₃, e₄] = [] from hthree] at hfour
    exact hfour
  have hoffset : (offsetRe tables).find [sign, e₁, e₂, 58, e₃, e₄] = [([], [])] := by
    rw [offsetRe, find_alt, find_alt, find_lit_other hz, hshort, ← List.append_nil [sign, e₁, e₂, 58, e₃, e₄], hlong]
    rfl
  rw [Re.find, hoffset, List.map_singleton]
  rfl

theorem find_offset_other {c : Nat} {rest : Text} (hsign : isSign c = false) (hz : c ≠ 90) : (Re.group (offsetRe tables)).find (c :: rest) = [] := by
  have hnot : ¬ isSign c = true := by
    rw [hsign]
    exact Bool.false_ne_true
  have hoffset : (offsetRe tables).find (c :: rest) = [] := by
    rw [offsetRe, find_alt, find_alt, find_lit_other hz, find_seq, find_seq, Re.find, if_neg hnot]
    rfl
  rw [Re.find, hoffset]
  rfl

theorem find_tail {d₁ d₂ d₃ sign e₁ e₂ e₃ e₄ : Nat} (hd : ∀ d ∈ [d₁, d₂, d₃], JsonText.isDigit d = true) (hsign : isSign sign = true)
    (he : ∀ e ∈ [e₁, e₂, e₃, e₄], JsonText.isDigit e = true) :
    (Re.seq (.opt (fractionRe tables)) (.group (offsetRe tables))).find (46 :: d₁ :: d₂ :: d₃ :: [sign, e₁, e₂, 58, e₃, e₄]) =
      [([some [d₁, d₂, d₃], some [sign, e₁, e₂, 58, e₃, e₄]], [])] := by
  simp only [List.forall_mem_cons] at hd he
  obtain ⟨hd₁, hd₂, hd₃, -⟩ := hd
  obtain ⟨he₁, he₂, he₃, he₄, -⟩ := he
  have hother : ∀ {d : Nat}, JsonText.isDigit d = true → isSign d = false ∧ d ≠ 90 := by
    intro d hd
    rw [JsonText.isDigit, Bool.and_eq_true, decide_eq_true_iff, decide_eq_true_iff] at hd
    refine ⟨?_, by omega⟩
    rw [isSign, Bool.or_eq_false_iff, decide_eq_false_iff_not, decide_eq_false_iff_not]
    omega
  rw [find_seq, find_fraction hd₁ hd₂ hd₃ hsign]
  simp only [List.flatMap_cons, List.flatMap_nil, find_offset hsign he₁ he₂ he₃ he₄, find_offset_other (hother hd₂).1 (hother hd₂).2,
    find_offset_other (hother hd₃).1 (hother hd₃).2, find_offset_other (c := 46) rfl (by decide)]
  rfl

theorem fullMatch_iso {year month day hour minute second : Text} {d₁ d₂ d₃ sign e₁ e₂ e₃ e₄ : Nat} (hyear : Reads (digits tables 4) year [])
    (hmonth : Reads (digits tables 2) month []) (hday : Reads (digits tables 2) day []) (hhour : Reads (digits tables 2) hour [])
    (hminute : Reads (digits tables 2) minute []) (hsecond : Reads (digits tables 2) second [])
    (hd : ∀ d ∈ [d₁, d₂, d₃], JsonText.isDigit d = true) (hsign : isSign sign = true) (he : ∀ e ∈ [e₁, e₂, e₃, e₄], JsonText.isDigit e = true) :
    (isoRe tables).fullMatch (year ++ (text "-" ++ (month ++ (text "-" ++ (day ++ (text "T" ++ (hour ++ (text ":" ++ (minute ++ (text ":" ++
      (second ++ (46 :: d₁ :: d₂ :: d₃ :: [sign, e₁, e₂, 58, e₃, e₄])))))))))))) =
      some [some year, some month, some day, some hour, some minute, some second, some [d₁, d₂, d₃], some [sign, e₁, e₂, 58, e₃, e₄]] := by
  rw [isoRe, Re.fullMatch, find_seq_of_reads hyear.group, find_seq_of_reads (reads_lit _), find_seq_of_reads hmonth.group,
    find_seq_of_reads (reads_lit _), find_seq_of_reads hday.group, find_seq_of_reads (w := text "T") (reads_one rfl),
    find_seq_of_reads hhour.group, find_seq_of_reads (reads_lit _), find_seq_of_reads hminute.group, find_seq_of_reads (reads_lit _),
    find_seq_of_reads hsecond.group, find_tail hd hsign he]
  rfl

theorem offset_parts {offset : Int} (hminutes : offset % 60 = 0) :
    (if 0 ≤ offset then 1 else -1) * ((offset.natAbs : Int) / 3600 * 3600 + (offset.natAbs : Int) % 3600 / 60 * 60) = offset := by
  split <;> omega

theorem offset_text (tables : CharTables) {l : Local} (hbound : l.offset.natAbs < 86400) (hminutes : l.offset % 60 = 0) (zone : Zone) :
    ∃ sign e₁ e₂ e₃ e₄, renderToken l zone .ZZZZ = [sign, e₁, e₂, 58, e₃, e₄] ∧ isSign sign = true ∧
      (∀ e ∈ [e₁, e₂, e₃, e₄], JsonText.isDigit e = true) ∧ offsetMs tables [sign, e₁, e₂, 58, e₃, e₄] = 1000 * l.offset := by
  obtain ⟨e₁, e₂, hhours⟩ := List.length_eq_two.mp (length_padded (w := 2) (n := (l.offset.natAbs : Int) / 3600) (by decide) (by omega))
  obtain ⟨e₃, e₄, hmins⟩ := List.length_eq_two.mp (length_padded (w := 2) (n := (l.offset.natAbs : Int) % 3600 / 60) (by decide) (by omega))
  have hdigits₁ : ∀ e ∈ [e₁, e₂], JsonText.isDigit e = true := fun e he => padded_digits (hhours ▸ he)
  have hdigits₂ : ∀ e ∈ [e₃, e₄], JsonText.isDigit e = true := fun e he => padded_digits (hmins ▸ he)
  have hread₁ := readInt_padded tables 2 (n := (l.offset.natAbs : Int) / 3600) (by omega)
  have hread₂ := readInt_padded tables 2 (n := (l.offset.natAbs : Int) % 3600 / 60) (by omega)
  rw [hhours] at hread₁
  rw [hmins] at hread₂
  have hne : ∀ {e : Nat}, JsonText.isDigit e = true → e ≠ 58 := by
    rintro e he rfl
    exact absurd he (by decide)
  have hparts := offset_parts hminutes
  refine ⟨if 0 ≤ l.offset then 43 else 45, e₁, e₂, e₃, e₄, ?_, by split <;> rfl, ?_, ?_⟩
  · rw [renderToken, utcOffsetParts, hhours, hmins]
    split <;> rfl
  · intro e he
    rcases List.mem_append.mp (show e ∈ [e₁, e₂] ++ [e₃, e₄] from he) with he | he
    · exact hdigits₁ e he
    · exact hdigits₂ e he
  · have hfilter : [e₁, e₂, 58, e₃, e₄].filter (· ≠ 58) = [e₁, e₂, e₃, e₄] := by
      simp only [List.filter_cons, List.filter_nil, hne (hdigits₁ e₁ (by simp)), hne (hdigits₁ e₂ (by simp)), hne (hdigits₂ e₃ (by simp)),
        hne (hdigits₂ e₄ (by simp)), ne_eq, not_false_eq_true, decide_true, if_true, not_true_eq_false, decide_false, Bool.false_eq_true, if_false]
    have hlong : [if 0 ≤ l.offset then 43 else 45, e₁, e₂, 58, e₃, e₄] ≠ text "Z" := fun h =>
      absurd (congrArg List.length h) (show ¬ (6 : Nat) = 1 by decide)
    rw [offsetMs, if_neg hlong, offsetSeconds, List.tail_cons, hfilter]
    by_cases hpos : 0 ≤ l.offset
    · rw [if_pos hpos] at hparts
      rw [if_pos hpos, List.head?_cons, if_pos rfl]
      show 1 * (readInt tables [e₁, e₂] * 3600 + readInt tables [e₃, e₄] * 60) * 1000 = 1000 * l.offset
      rw [hread₁, hread₂, hparts, mul_comm]
    · rw [if_neg hpos] at hparts
      rw [if_neg hpos, List.head?_cons, if_neg (by decide)]
      show -1 * (readInt tables [e₁, e₂] * 3600 + readInt tables [e₃, e₄] * 60) * 1000 = 1000 * l.offset
      rw [hread₁, hread₂, hparts, mul_comm]

theorem naive_ofMs {ms : Int} (hyear : 1900 ≤ (dateOf ms).year ∧ (dateOf ms).year ≤ 2099) :
    naive (dateOf ms).year (dateOf ms).month (dateOf ms).day (hourOf ms) (minuteOf ms) (secondOf ms) (milliOf ms) = some ms := by
  have hnaive := naive_civil (c := .ofMs ms) ⟨le_trans (by decide) hyear.1, le_trans hyear.2 (by decide)⟩
  rw [Civil.toMs_ofMs] at hnaive
  exact hnaive

/-- The civil fields of the text, up to the seconds. -/
def isoFields (ms : Int) (rest : Text) : Text :=
  padded 4 (dateOf ms).year ++ (text "-" ++ (padded 2 (dateOf ms).month ++ (text "-" ++ (padded 2 (dateOf ms).day ++ (text "T" ++
    (padded 2 (hourOf ms) ++ (text ":" ++ (padded 2 (minuteOf ms) ++ (text ":" ++ (padded 2 (secondOf ms) ++ rest))))))))))

theorem plain_isoFields (ms : Int) {rest : Text} (h : ∀ c ∈ rest, Plain c) : ∀ c ∈ isoFields ms rest, Plain c := by
  have hletters : ∀ t ⊆ text "-T:.+", ∀ c ∈ t, Plain c := fun t ht c hc => .inr (ht hc)
  have hdash := hletters (text "-") (by decide)
  have hcolon := hletters (text ":") (by decide)
  simp only [isoFields, List.forall_mem_append]
  exact ⟨digit_of_padded, hdash, digit_of_padded, hdash, digit_of_padded, hletters (text "T") (by decide), digit_of_padded, hcolon,
    digit_of_padded, hcolon, digit_of_padded, h⟩

theorem renderFmt_iso (l : Local) (zone : Zone) :
    renderFmt (tokenizeFmt isoFormat) l zone = isoFields l.ms (46 :: (padded 3 (milliOf l.ms) ++ renderToken l zone .ZZZZ)) := by
  rw [tokenize_iso, ← List.append_nil (renderToken l zone .ZZZZ)]
  rfl

theorem fieldsIn {ms : Int} (hyear : 1900 ≤ (dateOf ms).year ∧ (dateOf ms).year ≤ 2099) :
    (dateOf ms).year < 10 ^ 4 ∧ (dateOf ms).month < 10 ^ 2 ∧ (dateOf ms).day < 10 ^ 2 ∧ hourOf ms < 10 ^ 2 ∧ minuteOf ms < 10 ^ 2 ∧
      secondOf ms < 10 ^ 2 := by
  have hmonth := (dateOf ms).month_le
  have hday := (dateOf ms).day_le_31
  unfold hourOf minuteOf secondOf msPerDay
  omega

theorem fromIso8601_toIso8601 (platform : Platform) {zone : Zone} {epochMs : Int} {d : DateTime} {l : Local}
    (hminutes : zone.offsetAt (epochMs / 1000) % 60 = 0) (hl : localFromEpochMs zone epochMs = .ok l) (hepoch : d.epochMs = epochMs)
    (hzone : d.zone = zone) (hyear : 1900 ≤ (dateOf l.ms).year ∧ (dateOf l.ms).year ≤ 2099) :
    ∃ t, toIso8601 platform d = .ok (.ok t) ∧ fromIso8601 platform t = answer (isoEpochMs l.ms (1000 * l.offset)) .utc := by
  obtain ⟨-, -, hoffset, -⟩ := localFromEpochMs_eq_ok hl
  have hbound : l.offset.natAbs < 86400 := hoffset ▸ zone.offsetAt_bounded _
  obtain ⟨sign, e₁, e₂, e₃, e₄, htext, hsign, he, hms⟩ := offset_text platform.tables hbound (hoffset ▸ hminutes) zone
  obtain ⟨d₁, d₂, d₃, hmilli⟩ := List.length_eq_three.mp (length_padded (w := 3) (n := milliOf l.ms) (by decide) (by unfold milliOf; omega))
  have hd : ∀ e ∈ [d₁, d₂, d₃], JsonText.isDigit e = true := fun e he => padded_digits (hmilli ▸ he)
  have hrendered : toIso8601 platform d = .ok (.ok (isoFields l.ms (46 :: d₁ :: d₂ :: d₃ :: [sign, e₁, e₂, 58, e₃, e₄]))) := by
    have hbody : renderFmt (tokenizeFmt isoFormat) l zone = isoFields l.ms (46 :: d₁ :: d₂ :: d₃ :: [sign, e₁, e₂, 58, e₃, e₄]) := by
      rw [renderFmt_iso, hmilli, htext]
      rfl
    rw [toIso8601, timeFormat, hepoch, hzone, hl]
    exact congrArg Except.ok ((if_neg (by decide)).trans (congrArg Except.ok hbody))
  have hplain : ∀ c ∈ isoFields l.ms (46 :: d₁ :: d₂ :: d₃ :: [sign, e₁, e₂, 58, e₃, e₄]), Plain c := by
    refine plain_isoFields l.ms ?_
    have hpoint : Plain 46 := .inr (by decide)
    have hcolon : Plain 58 := .inr (by decide)
    have hsign' : Plain sign := by
      rw [isSign, Bool.or_eq_true, decide_eq_true_iff, decide_eq_true_iff] at hsign
      rcases hsign with rfl | rfl
      · exact .inr (by decide)
      · exact .inr (by decide)
    simp only [List.forall_mem_cons] at hd he ⊢
    exact ⟨hpoint, .inl hd.1, .inl hd.2.1, .inl hd.2.2.1, hsign', .inl he.1, .inl he.2.1, hcolon, .inl he.2.2.1, .inl he.2.2.2.1,
      fun c hc => absurd hc List.not_mem_nil⟩
  obtain ⟨hyear4, hmonth2, hday2, hhour2, hminute2, hsecond2⟩ := fieldsIn hyear
  refine ⟨_, hrendered, ?_⟩
  have hread : ∀ {n : Int}, n < 10 ^ 2 → Reads (digits platform.tables 2) (padded 2 n) [] := fun h =>
    reads_padded platform.tables (by decide) h
  have hmatch := fullMatch_iso (reads_padded platform.tables (by decide) hyear4) (hread hmonth2) (hread hday2)
    (hread hhour2) (hread hminute2) (hread hsecond2) hd hsign he
  have hyear0 := readInt_padded platform.tables 4 (n := (dateOf l.ms).year) (by omega)
  have hmonth0 := readInt_padded platform.tables 2 (n := (dateOf l.ms).month) (by have := (dateOf l.ms).one_le_month; omega)
  have hday0 := readInt_padded platform.tables 2 (n := (dateOf l.ms).day) (by have := (dateOf l.ms).one_le_day; omega)
  have hhour0 := readInt_padded platform.tables 2 (n := hourOf l.ms) (by unfold hourOf msPerDay; omega)
  have hminute0 := readInt_padded platform.tables 2 (n := minuteOf l.ms) (by unfold minuteOf; omega)
  have hsecond0 := readInt_padded platform.tables 2 (n := secondOf l.ms) (by unfold secondOf; omega)
  have hfraction : fractionMs platform.tables (some [d₁, d₂, d₃]) = milliOf l.ms := by
    have hmilli0 := readInt_padded platform.tables 3 (n := milliOf l.ms) (by unfold milliOf; omega)
    rw [hmilli] at hmilli0
    exact hmilli0
  have hbody : fromIso8601 platform (isoFields l.ms (46 :: d₁ :: d₂ :: d₃ :: [sign, e₁, e₂, 58, e₃, e₄])) =
      fromIsoFields platform (isoFields l.ms (46 :: d₁ :: d₂ :: d₃ :: [sign, e₁, e₂, 58, e₃, e₄])) (dateOf l.ms).year (dateOf l.ms).month
        (dateOf l.ms).day (hourOf l.ms) (minuteOf l.ms) (secondOf l.ms) (milliOf l.ms) (1000 * l.offset) := by
    rw [fromIso8601, normalized_plain platform.tables hplain, isoFields, hmatch]
    simp only [hyear0, hmonth0, hday0, hhour0, hminute0, hsecond0, hfraction, hms]
  rw [hbody, fromIsoFields, if_neg (not_not.mpr hyear), if_neg (not_not.mpr ⟨(dateOf l.ms).one_le_month, (dateOf l.ms).month_le⟩),
    naive_ofMs hyear]

end RoundTrip

/-! ### The instant that comes back -/

theorem isoEpochMs_eq_iff {localMs : Int} (offset : Int) (h : InYears localMs) :
    isoEpochMs localMs offset = localMs - offset ↔ ¬ Timestamps.Lossy localMs := by
  rw [← Timestamps.toMs_eq_iff (natAbs_of_inYears h), isoEpochMs]
  omega

theorem isoEpochMs_near {localMs : Int} (offset : Int) (h : InYears localMs) : (isoEpochMs localMs offset - (localMs - offset)).natAbs ≤ 1 := by
  have hnear := Timestamps.toMs_near (natAbs_of_inYears h)
  rw [isoEpochMs]
  omega

theorem inYears_of_supported {ms : Int} (shift : Int) (hyear : 1900 ≤ (dateOf ms).year ∧ (dateOf ms).year ≤ 2099) (hshift : shift.natAbs ≤ 86400001) :
    InYears (ms + shift) := by
  obtain ⟨hlow, hhigh⟩ := (dateOf ms).ordinal_year
  have hlow' := daysBeforeYear_mono hyear.1
  have hhigh' := daysBeforeYear_mono (show (dateOf ms).year + 1 ≤ 2100 by omega)
  have h1900 : daysBeforeYear 1900 = 693595 := by decide
  have h2100 : daysBeforeYear 2100 = 766644 := by decide
  rw [dateOf, Date.ordinal_ofOrdinal, ← dateOf] at hlow hhigh
  unfold msPerDay epochOrdinal at hlow hhigh
  unfold InYears minMs maxMs
  omega

theorem answer_utc {epochMs : Int} (h : InYears epochMs) : ∃ dt, answer epochMs .utc = .ok (.ok dt) := by
  obtain ⟨dt, hdt⟩ := makeDt_utc h
  exact ⟨dt, by rw [answer, hdt]; rfl⟩

theorem read_back (platform : Platform) (zone : Zone) (epochMs : Int) {d : DateTime} (hminutes : zone.offsetAt (epochMs / 1000) % 60 = 0)
    (hd : makeDt epochMs zone = .ok d) (hyear : 1900 ≤ d.year ∧ d.year ≤ 2099) :
    ∃ t d', toIso8601 platform d = .ok (.ok t) ∧ fromIso8601 platform t = .ok (.ok d') ∧
      d'.epochMs = isoEpochMs (epochMs + 1000 * zone.offsetAt (epochMs / 1000)) (1000 * zone.offsetAt (epochMs / 1000)) := by
  rw [makeDt] at hd
  cases hl : localFromEpochMs zone epochMs with
  | error fault =>
      rw [hl] at hd
      cases hd
  | ok l =>
      obtain ⟨-, hlocal, hoffset, hms⟩ := localFromEpochMs_eq_ok hl
      rw [hl] at hd
      have hfields := Except.ok.inj hd
      have hepoch : d.epochMs = epochMs := by rw [← hfields]
      have hzone : d.zone = zone := by rw [← hfields]
      have hyears : d.year = (dateOf l.ms).year := by rw [← hfields]
      rw [hyears] at hyear
      obtain ⟨t, hwritten, hread⟩ := fromIso8601_toIso8601 platform hminutes hl hepoch hzone hyear
      have hnear := isoEpochMs_near (1000 * l.offset) hlocal
      have hbound := zone.offsetAt_bounded (epochMs / 1000)
      have hinstant : InYears (isoEpochMs l.ms (1000 * l.offset)) := by
        have hshift := inYears_of_supported (isoEpochMs l.ms (1000 * l.offset) - l.ms) hyear (by omega)
        rwa [add_sub_cancel] at hshift
      obtain ⟨d', hd'⟩ := answer_utc hinstant
      refine ⟨t, d', hwritten, hread.trans hd', ?_⟩
      rw [answer_epochMs hd', hms, hoffset]

/-- The round trip is exact, and so is each conversion, unless the product of the seconds and a thousand falls below the milliseconds. -/
theorem conversion_exact_iff (platform : Platform) :
    (∀ (zone : Zone) (epochMs : Int) (d : DateTime), zone.offsetAt (epochMs / 1000) % 60 = 0 → makeDt epochMs zone = .ok d →
      1900 ≤ d.year → d.year ≤ 2099 →
      ((∃ t d', toIso8601 platform d = .ok (.ok t) ∧ fromIso8601 platform t = .ok (.ok d') ∧ d'.epochMs = d.epochMs) ↔
        ¬ Timestamps.Lossy (epochMs + 1000 * zone.offsetAt (epochMs / 1000)))) ∧
    (∀ localMs offset : Int, InYears localMs → (isoEpochMs localMs offset = localMs - offset ↔ ¬ Timestamps.Lossy localMs)) ∧
    ∀ utcMs : Int, InYears utcMs → (awareEpochMs utcMs = utcMs ↔ ¬ Timestamps.Lossy utcMs) := by
  refine ⟨?_, fun localMs offset h => isoEpochMs_eq_iff offset h, fun utcMs h => awareEpochMs_eq_iff h⟩
  intro zone epochMs d hminutes hd hlow hhigh
  obtain ⟨t, d', hwritten, hread, hinstant⟩ := read_back platform zone epochMs hminutes hd ⟨hlow, hhigh⟩
  have hmade : answer epochMs zone = .ok (.ok d) := by rw [answer, hd]; rfl
  have hlocal : InYears (epochMs + 1000 * zone.offsetAt (epochMs / 1000)) := by
    cases hl : localFromEpochMs zone epochMs with
    | error fault =>
        rw [makeDt, hl] at hd
        cases hd
    | ok l =>
        obtain ⟨-, hlocal, hoffset, hms⟩ := localFromEpochMs_eq_ok hl
        rwa [hms, hoffset] at hlocal
  rw [← isoEpochMs_eq_iff (1000 * zone.offsetAt (epochMs / 1000)) hlocal, add_sub_cancel_right, ← hinstant]
  constructor
  · rintro ⟨t', d'', hwritten', hread', hsame⟩
    obtain rfl := Except.ok.inj (Except.ok.inj (hwritten.symm.trans hwritten'))
    obtain rfl := Except.ok.inj (Except.ok.inj (hread.symm.trans hread'))
    rw [hsame, answer_epochMs hmade]
  · intro hsame
    exact ⟨t, d', hwritten, hread, by rw [hsame, answer_epochMs hmade]⟩

/-- Tables with the digits and the blanks of ASCII only. -/
def asciiTables : CharTables where
  decimal c := if 48 ≤ c ∧ c ≤ 57 then some (c - 48) else none
  isSpace c := c = 32 || (9 ≤ c && c ≤ 13) || (28 ≤ c && c ≤ 31)
  decimal_ascii _ _ := rfl
  isSpace_ascii _ _ := rfl

/-- A host with such tables that knows no zone. -/
def plainPlatform : Platform := ⟨asciiTables, ⟨id, text "day is out of range for month"⟩, fun _ => none, fun _ fmt => .ok fmt⟩

theorem second_exact : (∃ t d', (makeDt 1000 .utc).map (toIso8601 plainPlatform) = .ok (.ok (.ok t)) ∧
    fromIso8601 plainPlatform t = .ok (.ok d') ∧ d'.epochMs = 1000) ∧ isoEpochMs 1000 0 = 1000 ∧ awareEpochMs 1000 = 1000 := by
  obtain ⟨hround, hiso, haware⟩ := conversion_exact_iff plainPlatform
  refine ⟨?_, (hiso 1000 0 (by decide)).mpr (by decide), (haware 1000 (by decide)).mpr (by decide)⟩
  obtain ⟨d, hd⟩ := makeDt_utc (by decide : InYears 1000)
  have hfields := hd
  rw [makeDt, localFromEpochMs, if_pos (by decide)] at hfields
  obtain ⟨t, d', hwritten, hread, hinstant⟩ := (hround .utc 1000 d (by decide) hd (by rw [← Except.ok.inj hfields]; decide)
    (by rw [← Except.ok.inj hfields]; decide)).mpr (by decide)
  refine ⟨t, d', by rw [hd]; exact congrArg Except.ok hwritten, hread, ?_⟩
  rw [hinstant, ← Except.ok.inj hfields]

/-- A thousandth of a second after a second: it is written as it is, and read as the second. -/
theorem millisecond_lost : ∃ d d', makeDt 1001 .utc = .ok d ∧
    toIso8601 plainPlatform d = .ok (.ok (text "1970-01-01T00:00:01.001+00:00")) ∧
    fromIso8601 plainPlatform (text "1970-01-01T00:00:01.001+00:00") = .ok (.ok d') ∧ d'.epochMs = 1000 := by
  obtain ⟨d, hd⟩ := makeDt_utc (by decide : InYears 1001)
  have hfields := hd
  rw [makeDt, localFromEpochMs, if_pos (by decide)] at hfields
  have hwritten : toIso8601 plainPlatform d = .ok (.ok (text "1970-01-01T00:00:01.001+00:00")) := by
    rw [← Except.ok.inj hfields]
    decide
  obtain ⟨t, d', hwritten', hread, hinstant⟩ := read_back plainPlatform .utc 1001 (by decide) hd
    (by rw [← Except.ok.inj hfields]; decide)
  obtain rfl := Except.ok.inj (Except.ok.inj (hwritten.symm.trans hwritten'))
  refine ⟨d, d', hd, hwritten, hread, ?_⟩
  rw [hinstant, isoEpochMs, Timestamps.toMs_eq (by decide)]
  decide

end Nodus.Iso8601
