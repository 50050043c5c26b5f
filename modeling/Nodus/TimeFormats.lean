import Nodus.DateTimes
import Nodus.Regex

/-! The format strings of `std:time`: how they are cut into tokens, and how a datetime is written and read with them. -/

namespace Nodus.TimeFormats

open JsonText DateTimes Regex

inductive Token where
  | ZZZZ | zzzz | MMMM | EEEE | yyyy | SSS | EEE | MMM | VV | HH | hh | mm | ss | yy | MM | dd | H | h | m | s | M | d | Z | z | a
  deriving DecidableEq, Repr

def Token.letters : Token → Text
  | .ZZZZ => text "ZZZZ"
  | .zzzz => text "zzzz"
  | .MMMM => text "MMMM"
  | .EEEE => text "EEEE"
  | .yyyy => text "yyyy"
  | .SSS => text "SSS"
  | .EEE => text "EEE"
  | .MMM => text "MMM"
  | .VV => text "VV"
  | .HH => text "HH"
  | .hh => text "hh"
  | .mm => text "mm"
  | .ss => text "ss"
  | .yy => text "yy"
  | .MM => text "MM"
  | .dd => text "dd"
  | .H => text "H"
  | .h => text "h"
  | .m => text "m"
  | .s => text "s"
  | .M => text "M"
  | .d => text "d"
  | .Z => text "Z"
  | .z => text "z"
  | .a => text "a"

/-- `_FMT_TOKENS`. -/
def fmtTokens : List Token :=
  [.ZZZZ, .zzzz, .MMMM, .EEEE, .yyyy, .SSS, .EEE, .MMM, .VV, .HH, .hh, .mm, .ss, .yy, .MM, .dd, .H, .h, .m, .s, .M, .d, .Z, .z, .a]

inductive Part where
  | literal (l : Text)
  | token (tok : Token)
  deriving DecidableEq

/-- What stands between quotes, and what follows. Two quotes are one. -/
def quoted : Text → Text × Text
  | [] => ([], [])
  | 39 :: 39 :: rest => (39 :: (quoted rest).1, (quoted rest).2)
  | 39 :: rest => ([], rest)
  | c :: rest => (c :: (quoted rest).1, (quoted rest).2)

/-- The first of the tokens that the text begins with. -/
def firstToken (t : Text) : Option (Token × Text) :=
  fmtTokens.findSome? fun tok => if tok.letters.isPrefixOf t then some (tok, t.drop tok.letters.length) else none

/-- The loop of `_tokenize_fmt`. Each turn takes one character at least. -/
def tokenizeFrom : Nat → Text → List Part
  | 0, _ => []
  | _, [] => []
  | n + 1, c :: rest =>
      if c = 39 then .literal (quoted rest).1 :: tokenizeFrom n (quoted rest).2
      else match firstToken (c :: rest) with
        | some (tok, rest') => .token tok :: tokenizeFrom n rest'
        | none => .literal [c] :: tokenizeFrom n rest

/-- `_tokenize_fmt`. -/
def tokenizeFmt (fmt : Text) : List Part := tokenizeFrom fmt.length fmt

/-! ### Writing -/

def monthFull : List Text := ["January", "February", "March", "April", "May", "June", "July", "August", "September", "October", "November",
  "December"].map text

def monthShort : List Text := ["Jan", "Feb", "Mar", "Apr", "May", "Jun", "Jul", "Aug", "Sep", "Oct", "Nov", "Dec"].map text

def weekdayFull : List Text := ["Monday", "Tuesday", "Wednesday", "Thursday", "Friday", "Saturday", "Sunday"].map text

def weekdayShort : List Text := ["Mon", "Tue", "Wed", "Thu", "Fri", "Sat", "Sun"].map text

/-- `hour % 12 or 12`. -/
def hour12 (hour : Int) : Int := if hour % 12 = 0 then 12 else hour % 12

/-- `_utc_offset_parts`. -/
def utcOffsetParts (l : Local) : Text × Int × Int :=
  (text (if 0 ≤ l.offset then "+" else "-"), (l.offset.natAbs : Int) / 3600, (l.offset.natAbs : Int) % 3600 / 60)

/-- What a token stands for. -/
def renderToken (l : Local) (zone : Zone) : Token → Text
  | .yyyy => padded 4 (dateOf l.ms).year
  | .yy => padded 2 ((dateOf l.ms).year % 100)
  | .MMMM => monthFull.getD ((dateOf l.ms).month - 1).toNat []
  | .MMM => monthShort.getD ((dateOf l.ms).month - 1).toNat []
  | .MM => padded 2 (dateOf l.ms).month
  | .M => padded 0 (dateOf l.ms).month
  | .dd => padded 2 (dateOf l.ms).day
  | .d => padded 0 (dateOf l.ms).day
  | .EEEE => weekdayFull.getD (dateOf l.ms).weekday.toNat []
  | .EEE => weekdayShort.getD (dateOf l.ms).weekday.toNat []
  | .HH => padded 2 (hourOf l.ms)
  | .H => padded 0 (hourOf l.ms)
  | .hh => padded 2 (hour12 (hourOf l.ms))
  | .h => padded 0 (hour12 (hourOf l.ms))
  | .mm => padded 2 (minuteOf l.ms)
  | .m => padded 0 (minuteOf l.ms)
  | .ss => padded 2 (secondOf l.ms)
  | .s => padded 0 (secondOf l.ms)
  | .SSS => padded 3 (milliOf l.ms)
  | .a => text (if hourOf l.ms < 12 then "AM" else "PM")
  | .Z => (utcOffsetParts l).1 ++ padded 2 (utcOffsetParts l).2.1 ++ padded 2 (utcOffsetParts l).2.2
  | .ZZZZ => (utcOffsetParts l).1 ++ padded 2 (utcOffsetParts l).2.1 ++ text ":" ++ padded 2 (utcOffsetParts l).2.2
  | .z => if l.tzname = [] then text "UTC" else l.tzname
  | .zzzz => if l.tzname = [] then text "UTC" else l.tzname
  | .VV => zone.key

def renderPart (l : Local) (zone : Zone) : Part → Text
  | .literal t => t
  | .token tok => renderToken l zone tok

/-- `_render_fmt`. -/
def renderFmt (parts : List Part) (l : Local) (zone : Zone) : Text := parts.flatMap (renderPart l zone)

/-- What the standard library says of characters: the decimal digits of Unicode, and the blanks that `strip` removes. -/
structure CharTables where
  decimal : Nat → Option Nat
  isSpace : Nat → Bool
  decimal_ascii : ∀ c < 128, decimal c = if 48 ≤ c ∧ c ≤ 57 then some (c - 48) else none
  isSpace_ascii : ∀ c < 128, isSpace c = (c = 32 || (9 ≤ c && c ≤ 13) || (28 ≤ c && c ≤ 31))

/-- The host: how it writes, the zones that it knows, and `strftime`, which may raise. -/
structure Platform where
  tables : CharTables
  writing : Writing
  zones : Text → Option Zone
  strftime : Local → Text → Except Text Text

/-- `time_format`. -/
def timeFormat (platform : Platform) (dt : DateTime) (fmt : Text) : Except HostFault (Except TimeError Text) :=
  (localFromEpochMs dt.zone dt.epochMs).map fun l =>
    -- A format with a percent sign is one of `strftime`.
    if 37 ∈ fmt then
      (platform.strftime l fmt).mapError fun e => { category := "parse_error", message := text "invalid format string: " ++ e, format := some fmt }
    else .ok (renderFmt (tokenizeFmt fmt) l dt.zone)

/-! ### Reading -/

section Reading

variable (tables : CharTables)

def isDigit (c : Nat) : Bool := (tables.decimal c).isSome

/-- `int` of decimal digits. -/
def readInt (t : Text) : Int := (t.foldl (fun n c => 10 * n + (tables.decimal c).getD 0) 0 : Nat)

def isUpper (c : Nat) : Bool := 65 ≤ c && c ≤ 90

def isAsciiLetter (c : Nat) : Bool := isUpper c || (97 ≤ c && c ≤ 122)

/-- `[A-Za-z0-9_/+-]`. -/
def isZoneChar (c : Nat) : Bool := isAsciiLetter c || (48 ≤ c && c ≤ 57) || c = 95 || c = 47 || c = 43 || c = 45

/-- `[+-]`. -/
def isSign (c : Nat) : Bool := c = 43 || c = 45

/-- `_token_parse_regex`. -/
def tokenParseRegex (strict : Bool) : Token → Re
  | .yyyy => .times 4 (isDigit tables)
  | .yy => .times 2 (isDigit tables)
  | .MMMM => .oneOf monthFull
  | .MMM => .oneOf monthShort
  | .MM => if strict then .times 2 (isDigit tables) else .oneOrTwo (isDigit tables)
  | .M => if strict then .times 1 (isDigit tables) else .oneOrTwo (isDigit tables)
  | .dd => if strict then .times 2 (isDigit tables) else .oneOrTwo (isDigit tables)
  | .d => if strict then .times 1 (isDigit tables) else .oneOrTwo (isDigit tables)
  | .EEEE => .oneOf weekdayFull
  | .EEE => .oneOf weekdayShort
  | .HH => if strict then .times 2 (isDigit tables) else .oneOrTwo (isDigit tables)
  | .H => .oneOrTwo (isDigit tables)
  | .hh => if strict then .times 2 (isDigit tables) else .oneOrTwo (isDigit tables)
  | .h => .oneOrTwo (isDigit tables)
  | .mm => if strict then .times 2 (isDigit tables) else .oneOrTwo (isDigit tables)
  | .m => .oneOrTwo (isDigit tables)
  | .ss => if strict then .times 2 (isDigit tables) else .oneOrTwo (isDigit tables)
  | .s => .oneOrTwo (isDigit tables)
  | .SSS => .times 3 (isDigit tables)
  | .a => .oneOf [text "AM", text "PM"]
  | .Z => .seq (.one isSign) (.times 4 (isDigit tables))
  | .ZZZZ => .alt (.seq (.one isSign) (.seq (.times 2 (isDigit tables)) (.seq (.lit (text ":")) (.times 2 (isDigit tables))))) (.lit (text "Z"))
  | .z => .seq (.one isUpper) (.many isZoneChar)
  | .zzzz => .seq (.one isUpper) (.many isZoneChar)
  | .VV => .seq (.one isAsciiLetter) (.many isZoneChar)

def Part.regex (strict : Bool) : Part → Re
  | .literal l => .lit l
  | .token tok => .group (tokenParseRegex tables strict tok)

def Part.tokens : Part → List Token
  | .literal _ => []
  | .token tok => [tok]

/-- `_compile_parse_pattern`. -/
def compileParsePattern (parts : List Part) (strict : Bool) : Re × List Token :=
  (.sequence (parts.map (Part.regex tables strict)), parts.flatMap Part.tokens)

/-- What the tokens have been read as. Of a token that is there twice the last one counts. -/
abbrev Values := Token → Option Text

def valuesOf (tokens : List Token) (captures : List (Option Text)) : Values := fun tok => ((tokens.zip captures).reverse.lookup tok).join

/-- `a or b` of an integer that may be missing. -/
def orElse (a b : Option Int) : Option Int :=
  match a with
  | some n => if n = 0 then b else some n
  | none => b

def orValue (a : Option Int) (b : Int) : Int := (orElse a (some b)).getD b

/-- `_iv`. -/
def intValue (values : Values) (tok : Token) : Option Int := (values tok).map (readInt tables)

/-- The fields that are read from the values. -/
structure Fields where
  year : Option Int
  month : Int
  day : Int
  hour : Int
  minute : Int
  second : Int
  ms : Int
  deriving DecidableEq

def yearValue (values : Values) : Option Int :=
  match intValue tables values .yyyy with
  | some year => some year
  | none => (values .yy).map fun t => 2000 + readInt tables t

def monthValue (values : Values) : Int :=
  match orElse (intValue tables values .MM) (intValue tables values .M) with
  | some month => month
  | none =>
      match values .MMMM, values .MMM with
      | some name, _ => monthFull.idxOf name + 1
      | none, some name => monthShort.idxOf name + 1
      | none, none => 1

/-- The adjustment for the half of the day. -/
def adjustHour (half : Option Text) (hour : Int) : Int :=
  if half = some (text "PM") ∧ hour < 12 then hour + 12 else if half = some (text "AM") ∧ hour = 12 then 0 else hour

def fieldsOf (values : Values) : Fields where
  year := yearValue tables values
  month := monthValue tables values
  day := orValue (orElse (intValue tables values .dd) (intValue tables values .d)) 1
  hour := adjustHour (values .a)
    (orValue (orElse (orElse (orElse (intValue tables values .HH) (intValue tables values .H)) (intValue tables values .hh))
      (intValue tables values .h)) 0)
  minute := orValue (orElse (intValue tables values .mm) (intValue tables values .m)) 0
  second := orValue (orElse (intValue tables values .ss) (intValue tables values .s)) 0
  ms := orValue (intValue tables values .SSS) 0

/-- The seconds of an offset. -/
def offsetSeconds (t : Text) : Int :=
  let digits := t.tail.filter (· ≠ 58)
  (if t.head? = some 43 then 1 else -1) * (readInt tables (digits.take 2) * 3600 + readInt tables ((digits.drop 2).take 2) * 60)

end Reading

/-- `options` of `time_parse`. -/
structure ParseOptions extends Options where
  strict : Bool := true

/-- A fault of the host that the program sees as a runtime error. -/
inductive ParseFault where
  | overflow
  /-- `ValueError`, of an offset of a day or more. -/
  | offset
  deriving DecidableEq, Repr

def lift {X : Type} : Except HostFault X → Except ParseFault X
  | .ok x => .ok x
  | .error .overflow => .error .overflow

/-- The time with a fixed offset. -/
def withOffset (platform : Platform) (fields : Fields) (year offset : Int) (zone : Zone) (s fmt : Text) :
    Except ParseFault (Except TimeError DateTime) :=
  if offset.natAbs < 86400 then
    match naive year fields.month fields.day fields.hour fields.minute fields.second fields.ms with
    | none => .ok (.error { category := "parse_error", message := platform.writing.refusal, input := some s, format := some fmt })
    | some localMs =>
        if InYears (localMs - 1000 * offset) then lift (answer (awareEpochMs (localMs - 1000 * offset)) zone) else .error .overflow
  else .error .offset

/-- The time in the zone of the format, if it has one, or else in the zone of the call. -/
def inZone (platform : Platform) (values : Values) (fields : Fields) (year : Int) (zone : Zone) (options : Options) (s fmt : Text) :
    Except ParseFault (Except TimeError DateTime) :=
  let construct (zone : Zone) := lift
    (constructAware platform.writing year fields.month fields.day fields.hour fields.minute fields.second fields.ms zone options)
  match values .VV, (values .ZZZZ).or (values .Z) with
  | some key, _ =>
      match platform.zones key with
      | some zone => construct zone
      | none => .ok (.error
          { category := "invalid_zone", message := text "unknown timezone: " ++ platform.writing.repr key, zone := some key })
  | none, some offset =>
      if offset = text "Z" ∨ offset = text "+00:00" ∨ offset = text "+0000" then construct .utc
      else withOffset platform fields year (offsetSeconds platform.tables offset) zone s fmt
  | none, none => construct zone

/-- `time_parse` in a zone. -/
def timeParseIn (platform : Platform) (s fmt : Text) (zone : Zone) (options : ParseOptions) : Except ParseFault (Except TimeError DateTime) :=
  let compiled := compileParsePattern platform.tables (tokenizeFmt fmt) options.strict
  match compiled.1.fullMatch s with
  | none => .ok (.error
      { category := "parse_error"
        message := text "input " ++ platform.writing.repr s ++ text " does not match format " ++ platform.writing.repr fmt
        input := some s
        format := some fmt })
  | some captures =>
      let values := valuesOf compiled.2 captures
      let fields := fieldsOf platform.tables values
      match fields.year with
      | none => .ok (.error
          { category := "parse_error", message := text "format must include year token (yyyy or yy)", format := some fmt })
      | some year => inZone platform values fields year zone options.toOptions s fmt

/-- `time_parse`. -/
def timeParse (platform : Platform) (s fmt : Text) (zoneName : Option Text) (options : ParseOptions) :
    Except ParseFault (Except TimeError DateTime) :=
  match zoneName with
  | none => timeParseIn platform s fmt .utc options
  | some name =>
      match platform.zones name with
      | some zone => timeParseIn platform s fmt zone options
      | none => .ok (.error
          { category := "invalid_zone", message := text "unknown timezone: " ++ platform.writing.repr name, zone := some name })

/-! ### Numbers -/

section Numbers

variable (tables : CharTables)

theorem decimal_of_digit {c : Nat} (h : JsonText.isDigit c = true) : tables.decimal c = some (c - 48) := by
  rw [JsonText.isDigit, Bool.and_eq_true, decide_eq_true_iff, decide_eq_true_iff] at h
  rw [tables.decimal_ascii c (by omega), if_pos h]

theorem isDigit_of_digit {c : Nat} (h : JsonText.isDigit c = true) : isDigit tables c = true := by
  rw [isDigit, decimal_of_digit tables h]
  rfl

theorem padded_digits {w : Nat} {n : Int} {c : Nat} (h : c ∈ padded w n) : JsonText.isDigit c = true := by
  rcases List.mem_append.mp h with h | h
  · rw [List.eq_of_mem_replicate h]
    rfl
  · exact decimal_digits h

theorem padded_all (w : Nat) (n : Int) : (padded w n).all (isDigit tables) = true :=
  List.all_eq_true.mpr fun _ hc => isDigit_of_digit tables (padded_digits hc)

theorem readInt_digits {ds : Text} (h : ∀ c ∈ ds, JsonText.isDigit c = true) : readInt tables ds = readDecimal ds := by
  have hfold : ∀ n : Nat, ds.foldl (fun n c => 10 * n + (tables.decimal c).getD 0) n = ds.foldl (fun n c => 10 * n + (c - 48)) n := by
    induction ds with
    | nil => exact fun n => rfl
    | cons c ds ih =>
        intro n
        rw [List.foldl_cons, List.foldl_cons, decimal_of_digit tables (h c List.mem_cons_self)]
        exact ih (fun d hd => h d (List.mem_cons_of_mem _ hd)) _
  exact congrArg Nat.cast (hfold 0)

theorem readDecimal_zeros (k : Nat) (ds : Text) : readDecimal (List.replicate k 48 ++ ds) = readDecimal ds := by
  induction k with
  | zero => rfl
  | succ k ih => exact ih

theorem readInt_padded (w : Nat) {n : Int} (hn : 0 ≤ n) : readInt tables (padded w n) = n := by
  rw [readInt_digits tables fun c hc => padded_digits hc, padded, readDecimal_zeros, readDecimal_decimal]
  exact Int.toNat_of_nonneg hn

theorem length_padded {w : Nat} {n : Int} (hw : 0 < w) (h : n < 10 ^ w) : (padded w n).length = w := by
  have hlt : n.toNat < 10 ^ w := by
    have hpos : 0 < 10 ^ w := Nat.pow_pos (by decide)
    have hcast : ((10 ^ w : Nat) : Int) = 10 ^ w := Nat.cast_pow 10 w
    omega
  have hle := length_decimal_le hw hlt
  rw [padded, List.length_append, List.length_replicate]
  omega

theorem reads_padded {w : Nat} {n : Int} (hw : 0 < w) (h : n < 10 ^ w) : Reads (.times w (isDigit tables)) (padded w n) [] := by
  have hreads := reads_times (padded_all tables w n)
  rwa [length_padded hw h] at hreads

end Numbers

end Nodus.TimeFormats
