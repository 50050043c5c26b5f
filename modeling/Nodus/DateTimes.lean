import Nodus.Calendar
import Nodus.JsonText
import Nodus.Timestamps

/-! The datetimes of `std:time`: civil times, time zones, and the instant that a civil time stands for. -/

namespace Nodus.DateTimes

open Calendar JsonText Timestamps

/-! ### Civil times -/

/-- The days from the first day of the year 1 to the first of January of 1970. -/
def epochOrdinal : Int := 719163

def msPerDay : Int := 86400000

/-- The first and the last millisecond of the years from 1 to 9999. -/
def minMs : Int := -62135596800000

def maxMs : Int := 253402300799999

/-- The datetimes of the host begin with the year 1 and end with the year 9999. -/
def InYears (ms : Int) : Prop := minMs ≤ ms ∧ ms ≤ maxMs

instance (ms : Int) : Decidable (InYears ms) := inferInstanceAs (Decidable (_ ∧ _))

/-- The fields of a number of milliseconds from the beginning of 1970. -/
def dateOf (ms : Int) : Date := .ofOrdinal (ms / msPerDay + epochOrdinal)

def hourOf (ms : Int) : Int := ms % msPerDay / 3600000

def minuteOf (ms : Int) : Int := ms % 3600000 / 60000

def secondOf (ms : Int) : Int := ms % 60000 / 1000

def milliOf (ms : Int) : Int := ms % 1000

/-- A civil time: a day, and a time of this day. -/
@[ext]
structure Civil where
  date : Date
  hour : Int
  minute : Int
  second : Int
  milli : Int
  hour_mem : 0 ≤ hour ∧ hour ≤ 23
  minute_mem : 0 ≤ minute ∧ minute ≤ 59
  second_mem : 0 ≤ second ∧ second ≤ 59
  milli_mem : 0 ≤ milli ∧ milli ≤ 999

namespace Civil

/-- The milliseconds from the beginning of 1970. -/
def toMs (c : Civil) : Int :=
  (c.date.ordinal - epochOrdinal) * msPerDay + c.hour * 3600000 + c.minute * 60000 + c.second * 1000 + c.milli

def ofMs (ms : Int) : Civil where
  date := dateOf ms
  hour := hourOf ms
  minute := minuteOf ms
  second := secondOf ms
  milli := milliOf ms
  hour_mem := by unfold hourOf msPerDay; omega
  minute_mem := by unfold minuteOf; omega
  second_mem := by unfold secondOf; omega
  milli_mem := by unfold milliOf; omega

@[simp]
theorem toMs_ofMs (ms : Int) : (ofMs ms).toMs = ms := by
  rw [toMs, ofMs]
  dsimp only
  rw [dateOf, Date.ordinal_ofOrdinal]
  unfold hourOf minuteOf secondOf milliOf msPerDay
  omega

theorem toMs_injective : Function.Injective toMs := by
  intro c c' h
  have hhour := c.hour_mem
  have hminute := c.minute_mem
  have hsecond := c.second_mem
  have hmilli := c.milli_mem
  have hhour' := c'.hour_mem
  have hminute' := c'.minute_mem
  have hsecond' := c'.second_mem
  have hmilli' := c'.milli_mem
  unfold toMs msPerDay at h
  have hdate : c.date = c'.date := Date.ordinal_injective (by omega)
  rw [hdate] at h
  exact Civil.ext hdate (by omega) (by omega) (by omega) (by omega)

@[simp]
theorem ofMs_toMs (c : Civil) : ofMs c.toMs = c := toMs_injective (toMs_ofMs _)

end Civil

/-- `datetime(year, month, day, hour, minute, second, ms * 1000)`, without a time zone. -/
def naive (year month day hour minute second ms : Int) : Option Int :=
  if h : 1 ≤ month ∧ month ≤ 12 ∧ 1 ≤ day ∧ day ≤ daysInMonth year month then
    if 1 ≤ year ∧ year ≤ 9999 ∧ (0 ≤ hour ∧ hour ≤ 23) ∧ (0 ≤ minute ∧ minute ≤ 59) ∧ (0 ≤ second ∧ second ≤ 59) ∧ 0 ≤ ms ∧ ms ≤ 999 then
      some (((Date.mk year month day h.1 h.2.1 h.2.2.1 h.2.2.2).ordinal - epochOrdinal) * msPerDay + hour * 3600000 + minute * 60000 +
        second * 1000 + ms)
    else none
  else none

theorem naive_civil {c : Civil} (hyear : 1 ≤ c.date.year ∧ c.date.year ≤ 9999) :
    naive c.date.year c.date.month c.date.day c.hour c.minute c.second c.milli = some c.toMs := by
  rw [naive, dif_pos ⟨c.date.one_le_month, c.date.month_le, c.date.one_le_day, c.date.day_le⟩,
    if_pos ⟨hyear.1, hyear.2, c.hour_mem, c.minute_mem, c.second_mem, c.milli_mem⟩]
  rfl

/-! ### Time zones -/

/-- A time zone: the offset from UTC in seconds, which changes at some instants, the name of the time, and whether it is daylight saving
time. -/
structure Zone where
  key : Text
  initial : Int
  /-- The second of each transition, and the offset after it. -/
  transitions : List (Int × Int)
  tzname : Int → Text
  isDst : Int → Bool
  /-- The host allows offsets of less than a day only. -/
  bounded : ∀ offset ∈ initial :: transitions.map Prod.snd, offset.natAbs < 86400

namespace Zone

/-- The offset at a second, when it is `offset` before the first transition. -/
def offsetFrom (offset : Int) : List (Int × Int) → Int → Int
  | [], _ => offset
  | (t, offset') :: rest, s => if s < t then offset else offsetFrom offset' rest s

/-- `utcoffset` at an instant. -/
def offsetAt (zone : Zone) (s : Int) : Int := offsetFrom zone.initial zone.transitions s

/-- The second of the wall clock at which a transition is taken, for a time with this fold. -/
def wall (fold : Bool) (t offset offset' : Int) : Int := t + if fold then min offset offset' else max offset offset'

/-- The offset of a second of the wall clock, when it is `offset` before the first transition. -/
def localFrom (fold : Bool) (offset : Int) : List (Int × Int) → Int → Int
  | [], _ => offset
  | (t, offset') :: rest, s => if s < wall fold t offset offset' then offset else localFrom fold offset' rest s

/-- `utcoffset` of a civil time with a fold. -/
def offsetOf (zone : Zone) (fold : Bool) (s : Int) : Int := localFrom fold zone.initial zone.transitions s

def utc : Zone := ⟨text "UTC", 0, [], fun _ => text "UTC", fun _ => false, by decide⟩

theorem offsetFrom_mem (offset : Int) (transitions : List (Int × Int)) (s : Int) :
    offsetFrom offset transitions s ∈ offset :: transitions.map Prod.snd := by
  induction transitions generalizing offset with
  | nil => exact List.mem_cons_self
  | cons p rest ih =>
      rw [offsetFrom]
      split
      · exact List.mem_cons_self
      · exact List.mem_cons_of_mem _ (ih p.2)

theorem offsetAt_bounded (zone : Zone) (s : Int) : (zone.offsetAt s).natAbs < 86400 :=
  zone.bounded _ (offsetFrom_mem zone.initial zone.transitions s)

end Zone

inductive HostFault where
  /-- `OverflowError`. -/
  | overflow
  deriving DecidableEq, Repr

/-- A datetime of the host with a time zone: what its clock shows, and what the zone says. -/
structure Local where
  ms : Int
  offset : Int
  tzname : Text
  dst : Bool

/-- `_local_from_epoch_ms`. -/
def localFromEpochMs (zone : Zone) (epochMs : Int) : Except HostFault Local :=
  let offset := zone.offsetAt (epochMs / 1000)
  if InYears epochMs ∧ InYears (epochMs + 1000 * offset) then
    .ok ⟨epochMs + 1000 * offset, offset, zone.tzname (epochMs / 1000), zone.isDst (epochMs / 1000)⟩
  else .error .overflow

/-- A record of the kind `datetime`. -/
structure DateTime where
  epochMs : Int
  zone : Zone
  year : Int
  month : Int
  day : Int
  hour : Int
  minute : Int
  second : Int
  ms : Int
  weekday : Int
  dayOfYear : Int
  isDst : Bool

/-- `_make_dt`. -/
def makeDt (epochMs : Int) (zone : Zone) : Except HostFault DateTime :=
  (localFromEpochMs zone epochMs).map fun l =>
    { epochMs, zone
      year := (dateOf l.ms).year
      month := (dateOf l.ms).month
      day := (dateOf l.ms).day
      hour := hourOf l.ms
      minute := minuteOf l.ms
      second := secondOf l.ms
      ms := milliOf l.ms
      weekday := (dateOf l.ms).weekday
      dayOfYear := (dateOf l.ms).ordinal - daysBeforeYear (dateOf l.ms).year
      isDst := l.dst }

/-! ### Errors -/

/-- What the host writes. -/
structure Writing where
  /-- `repr` of a string. -/
  repr : Text → Text
  /-- The message of the `ValueError` that a datetime without a time zone is refused with. -/
  refusal : Text

/-- `_time_err`. -/
structure TimeError where
  category : String
  message : Text
  input : Option Text := none
  format : Option Text := none
  zone : Option Text := none
  field : Option String := none
  deriving DecidableEq

/-- A datetime, or an error as a value. -/
abbrev Answer := Except HostFault (Except TimeError DateTime)

def answer (epochMs : Int) (zone : Zone) : Answer := (makeDt epochMs zone).map .ok

/-! ### The instant of a civil time -/

/-- `options`. -/
structure Options where
  onInvalid : Option Text := none
  onAmbiguous : Option Text := none

/-- A number with leading zeros. -/
def padded (width : Nat) (n : Int) : Text := List.replicate (width - (decimal n.toNat).length) 48 ++ decimal n.toNat

/-- The time with this fold, in UTC. -/
def toUtc (zone : Zone) (fold : Bool) (localMs : Int) : Except HostFault Int :=
  let ms := localMs - 1000 * zone.offsetOf fold (localMs / 1000)
  if InYears ms then .ok ms else .error .overflow

/-- The conversion of `_construct_aware`: a time in UTC as a number of milliseconds. -/
def awareEpochMs (utcMs : Int) : Int := Timestamps.toMs (1000 * utcMs)

def hms (ms : Int) : Int × Int × Int := (hourOf ms, minuteOf ms, secondOf ms)

/-- The civil time as an error shows it. -/
def shown (year month day hour minute second : Int) : Text :=
  padded 4 year ++ text "-" ++ padded 2 month ++ text "-" ++ padded 2 day ++ text " " ++ padded 2 hour ++ text ":" ++ padded 2 minute ++
    text ":" ++ padded 2 second

/-- The answer for a civil time that the clock skips. -/
def gapAnswer (writing : Writing) (time : Text) (zone : Zone) (options : Options) (em0 em1 : Int) : Answer :=
  if options.onInvalid = some (text "shift_forward") then answer em0 zone
  else if options.onInvalid = some (text "shift_backward") then answer em1 zone
  else .ok (.error
    { category := "out_of_range"
      message := text "invalid time " ++ writing.repr time ++ text " in " ++ writing.repr zone.key ++ text " (spring-forward gap)"
      zone := some zone.key })

/-- The answer for a civil time that the clock shows twice. -/
def overlapAnswer (writing : Writing) (time : Text) (zone : Zone) (options : Options) (em0 em1 : Int) : Answer :=
  if options.onAmbiguous = some (text "earliest") then answer em0 zone
  else if options.onAmbiguous = some (text "latest") then answer em1 zone
  else .ok (.error
    { category := "ambiguous"
      message := text "ambiguous time " ++ writing.repr time ++ text " in " ++ writing.repr zone.key ++ text " (fall-back overlap)"
      zone := some zone.key })

/-- `_construct_aware`. -/
def constructAware (writing : Writing) (year month day hour minute second ms : Int) (zone : Zone) (options : Options) : Answer := do
  match naive year month day hour minute second ms with
  | none => return .error { category := "out_of_range", message := writing.refusal, field := some "day" }
  | some localMs =>
      let utc0 ← toUtc zone false localMs
      let utc1 ← toUtc zone true localMs
      let em0 := awareEpochMs utc0
      let em1 := awareEpochMs utc1
      if em0 = em1 then answer em0 zone
      else do
        let rt0 ← localFromEpochMs zone em0
        let rt1 ← localFromEpochMs zone em1
        let time := shown year month day hour minute second
        if hms rt0.ms ≠ (hour, minute, second) ∧ hms rt1.ms ≠ (hour, minute, second) then gapAnswer writing time zone options em0 em1
        else overlapAnswer writing time zone options em0 em1

theorem localFromEpochMs_eq_ok {zone : Zone} {epochMs : Int} {l : Local} (h : localFromEpochMs zone epochMs = .ok l) :
    InYears epochMs ∧ InYears l.ms ∧ l.offset = zone.offsetAt (epochMs / 1000) ∧ l.ms = epochMs + 1000 * l.offset := by
  rw [localFromEpochMs] at h
  split at h
  · rename_i hyears
    obtain rfl := Except.ok.inj h
    exact ⟨hyears.1, hyears.2, rfl, rfl⟩
  · cases h

theorem answer_epochMs {epochMs : Int} {zone : Zone} {dt : DateTime} (h : answer epochMs zone = .ok (.ok dt)) : dt.epochMs = epochMs := by
  rw [answer, makeDt] at h
  cases hlocal : localFromEpochMs zone epochMs with
  | error fault =>
      rw [hlocal] at h
      cases h
  | ok l =>
      rw [hlocal] at h
      cases h
      rfl

theorem makeDt_utc {epochMs : Int} (h : InYears epochMs) : ∃ dt, makeDt epochMs .utc = .ok dt := by
  have hzero : Zone.utc.offsetAt (epochMs / 1000) = 0 := rfl
  rw [makeDt, localFromEpochMs, hzero, mul_zero, add_zero, if_pos ⟨h, h⟩]
  exact ⟨_, rfl⟩

theorem natAbs_of_inYears {ms : Int} (h : InYears ms) : ms.natAbs < 2 ^ 52 := by
  unfold InYears minMs maxMs at h
  omega

theorem awareEpochMs_eq_iff {utcMs : Int} (h : InYears utcMs) : awareEpochMs utcMs = utcMs ↔ ¬ Timestamps.Lossy utcMs :=
  toMs_eq_iff (natAbs_of_inYears h)

end Nodus.DateTimes
