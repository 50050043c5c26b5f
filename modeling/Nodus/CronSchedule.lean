import Nodus.CronFields
import Nodus.LocalTimes

/-! The next firing of a cron expression: how `next_after` searches for it, and that it is the first instant at which the schedule fires. -/

namespace Nodus.CronSchedule

open JsonText TimeFormats Iso8601 HostInts DateTimes LocalTimes CronFields Calendar

/-! ### The search -/

/-- A parsed expression. -/
structure Spec where
  minutes : List Int
  hours : List Int
  days : List Int
  months : List Int
  weekdays : List Int
  domAny : Bool
  dowAny : Bool

/-- What ends the search without an answer. -/
inductive Fault where
  | host (fault : HostFault)
  | message (text : Text)
  /-- The record of an error has no such field. -/
  | noField

section Source

variable (platform : Platform)

def cleaned (expression : Text) : List Text := ((strip platform.tables expression).splitOn 32).filter (· ≠ [])

def parse (expression : Text) : Except Text Spec :=
  match cleaned platform expression with
  | [minute, hour, day, month, weekday] => do
      let listed ← parseField platform.tables weekday 0 7
      -- Both 7 and 0 are Sunday.
      let weekdays := if 7 ∈ listed then sortedUnique (listed ++ [0]) else listed
      let minutes ← parseField platform.tables minute 0 59
      let hours ← parseField platform.tables hour 0 23
      let days ← parseField platform.tables day 1 31
      let months ← parseField platform.tables month 1 12
      return { minutes, hours, days, months, weekdays
               domAny := strip platform.tables day = text "*"
               dowAny := strip platform.tables weekday = text "*" }
  | fields => .error (text "a schedule needs 5 fields (minute hour day month weekday), got " ++ decimal fields.length ++ text ": " ++ expression)

/-- The day of the week from Sunday on. -/
def cronWeekday (weekday : Int) : Int := (weekday + 1) % 7

def dayMatches (spec : Spec) (dt : DateTime) : Bool :=
  if dt.month ∉ spec.months then false
  else
    let domOk : Bool := dt.day ∈ spec.days
    let dowOk : Bool := cronWeekday dt.weekday ∈ spec.weekdays
    if spec.domAny && spec.dowAny then true
    else if spec.domAny then dowOk
    else if spec.dowAny then domOk
    else domOk || dowOk

/-- The loops over the hours and the minutes. -/
def firstTime (spec : Spec) (dt : DateTime) : Option (Int × Int) :=
  spec.hours.findSome? fun hour =>
    if dt.hour ≤ hour then (spec.minutes.find? fun minute => !(hour = dt.hour && minute < dt.minute)).map fun minute => (hour, minute)
    else none

def firstFiringOnDay (spec : Spec) (dt : DateTime) : Except HostFault (Option (Except TimeError DateTime)) :=
  match firstTime spec dt with
  | none => .ok none
  | some (hour, minute) =>
      (timeAt platform.writing platform.zones dt.year dt.month dt.day hour minute 0 0 dt.zone.key {}).map some

/-- `time_add`. -/
def add (dt : DateTime) (totalMs : Int) : Except HostFault DateTime := makeDt (dt.epochMs + totalMs) dt.zone

/-- The loop of `next_after`. -/
def search (spec : Spec) : Nat → Except TimeError DateTime → Except Fault (Option (Except TimeError DateTime))
  | 0, _ => .ok none
  | _ + 1, .error _ => .error .noField
  | looks + 1, .ok cursor => do
      let hit ← (if dayMatches spec cursor then firstFiringOnDay platform spec cursor else .ok none).mapError .host
      match hit with
      | some hit => return some hit
      | none => do
          let moved ← (add cursor msPerDay).mapError .host
          let next ← (startOfDay platform.writing moved).mapError .host
          search spec looks next

/-- `SEARCH_HORIZON_DAYS`. -/
def searchHorizonDays : Nat := 1500

def nextAfter (expression : Text) (origin : DateTime) : Except Fault (Option (Except TimeError DateTime)) := do
  let spec ← (parse platform expression).mapError .message
  let moved ← (add origin 60000).mapError .host
  let cursor ← (timeAt platform.writing platform.zones moved.year moved.month moved.day moved.hour moved.minute 0 0 moved.zone.key {}).mapError .host
  search platform spec searchHorizonDays cursor

end Source

/-! ### When a schedule fires -/

namespace Spec

variable (spec : Spec)

/-- The two fields for the day are one condition if both are restricted, and two conditions otherwise. -/
def OnDay (date : Date) : Prop :=
  date.month ∈ spec.months ∧
    if spec.domAny = true ∨ spec.dowAny = true then
      (spec.domAny = true ∨ date.day ∈ spec.days) ∧ (spec.dowAny = true ∨ cronWeekday date.weekday ∈ spec.weekdays)
    else date.day ∈ spec.days ∨ cronWeekday date.weekday ∈ spec.weekdays

/-- A civil time at which the schedule fires. -/
structure Fires (c : Civil) : Prop where
  onDay : spec.OnDay c.date
  hour : c.hour ∈ spec.hours
  minute : c.minute ∈ spec.minutes
  second : c.second = 0
  milli : c.milli = 0

/-- The instants at which the schedule fires. -/
def firings (zone : Zone) : Set Int := {u | spec.Fires (Civil.ofMs (shownAt zone u))}

/-- The values of a field. -/
structure Field (values : List Int) (lo hi : Int) : Prop where
  sorted : values.Pairwise (· < ·)
  range : ∀ v ∈ values, lo ≤ v ∧ v ≤ hi

/-- The times of day are within a day, in order. -/
structure Sound : Prop where
  minutes : Field spec.minutes 0 59
  hours : Field spec.hours 0 23

end Spec

/-! ### What is parsed -/

section Parsing

variable {platform : Platform}

theorem bind_eq_ok {E X Y : Type} {x : Except E X} {f : X → Except E Y} {y : Y} (h : x >>= f = .ok y) : ∃ v, x = .ok v ∧ f v = .ok y := by
  cases x with
  | error e => cases h
  | ok v => exact ⟨v, rfl, h⟩

theorem field_of_parse {field : Text} {lo hi : Int} {out : List Int} (h : parseField platform.tables field lo hi = .ok out) :
    Spec.Field out lo hi := by
  obtain ⟨terms, hterms⟩ := reads_of_parseField h
  obtain ⟨out', hout, hsorted, hmem⟩ := parseField_of_reads hterms
  obtain rfl := Except.ok.inj (hout.symm.trans h)
  refine ⟨hsorted, fun v hv => ?_⟩
  obtain ⟨t, ht, hlists⟩ := (hmem v).mp hv
  have haccepted := hterms.accepted t ht
  obtain ⟨hlow, hhigh, -⟩ := ((Term.lists_iff haccepted).mp hlists).1
  exact ⟨haccepted.low.trans hlow, hhigh.trans haccepted.high⟩

theorem sound_of_parse {expression : Text} {spec : Spec} (h : parse platform expression = .ok spec) : spec.Sound := by
  rw [parse] at h
  split at h
  · obtain ⟨listed, -, h⟩ := bind_eq_ok h
    obtain ⟨minutes, hminutes, h⟩ := bind_eq_ok h
    obtain ⟨hours, hhours, h⟩ := bind_eq_ok h
    obtain ⟨days, -, h⟩ := bind_eq_ok h
    obtain ⟨months, -, h⟩ := bind_eq_ok h
    obtain rfl := Except.ok.inj h
    exact ⟨field_of_parse hminutes, field_of_parse hhours⟩
  · cases h

end Parsing

/-! ### Times in a zone without transitions -/

/-- A day or more within the years of the host. -/
def Inner (t : Int) : Prop := minMs + msPerDay ≤ t ∧ t + msPerDay ≤ maxMs

theorem year_iff {t : Int} : 1900 ≤ (dateOf t).year ∧ (dateOf t).year ≤ 2099 ↔ -2208988800000 ≤ t ∧ t < 4102444800000 := by
  have hordinal : (dateOf t).ordinal = t / msPerDay + epochOrdinal := Date.ordinal_ofOrdinal _
  obtain ⟨hlow, hhigh⟩ := (dateOf t).ordinal_year
  have hmono : ∀ {y y' : Int}, y ≤ y' → daysBeforeYear y ≤ daysBeforeYear y' := daysBeforeYear_mono
  have h1900 : daysBeforeYear 1900 = 693595 := by decide
  have h2100 : daysBeforeYear 2100 = 766644 := by decide
  unfold msPerDay epochOrdinal at hordinal
  constructor
  · rintro ⟨h, h'⟩
    have hfirst := hmono h
    have hlast := hmono (show (dateOf t).year + 1 ≤ 2100 by omega)
    omega
  · rintro ⟨h, h'⟩
    constructor
    · by_contra hlt
      have hbefore := hmono (show (dateOf t).year + 1 ≤ 1900 by omega)
      omega
    · by_contra hlt
      have hafter := hmono (show 2100 ≤ (dateOf t).year by omega)
      omega

theorem not_lossy_of_second {m : Int} (h : m % 1000 = 0) : ¬ Timestamps.Lossy m := by
  rintro ⟨-, hlow, -⟩
  have hdvd : 1000 ∣ m.natAbs := by omega
  rw [Nat.mod_eq_zero_of_dvd (hdvd.mul_right _)] at hlow
  omega

section Fixed

variable {zone : Zone} {dt : DateTime} {t : Int}

/-- The datetime shows this time. -/
structure Shown (zone : Zone) (dt : DateTime) (t : Int) : Prop where
  made : makeDt (t - 1000 * zone.initial) zone = .ok dt
  epochMs : dt.epochMs = t - 1000 * zone.initial
  zone : dt.zone = zone
  year : dt.year = (dateOf t).year
  month : dt.month = (dateOf t).month
  day : dt.day = (dateOf t).day
  hour : dt.hour = hourOf t
  minute : dt.minute = minuteOf t
  weekday : dt.weekday = (dateOf t).weekday

variable (hfixed : zone.transitions = [])

include hfixed

theorem offsetAt_fixed (s : Int) : zone.offsetAt s = zone.initial := by rw [Zone.offsetAt, hfixed, Zone.offsetFrom]

theorem offsetOf_fixed (fold : Bool) (s : Int) : zone.offsetOf fold s = zone.initial := by rw [Zone.offsetOf, hfixed, Zone.localFrom]

theorem shownAt_fixed (u : Int) : shownAt zone u = u + 1000 * zone.initial := by rw [shownAt, offsetAt_fixed hfixed]

theorem shown_of_made {u : Int} (h : makeDt u zone = .ok dt) : Shown zone dt (shownAt zone u) := by
  have hmade := h
  have hoffset := offsetAt_fixed hfixed (u / 1000)
  rw [makeDt] at h
  cases hl : localFromEpochMs zone u with
  | error e =>
      rw [hl] at h
      cases h
  | ok l =>
      obtain ⟨-, -, hlocal, hms⟩ := localFromEpochMs_eq_ok hl
      have hshown : shownAt zone u = l.ms := by rw [hms, hlocal, shownAt]
      have hinstant : l.ms - 1000 * zone.initial = u := by rw [hms, hlocal, hoffset, add_sub_cancel_right]
      rw [hl] at h
      obtain rfl := Except.ok.inj h
      rw [hshown]
      exact ⟨by rw [hinstant, hmade], hinstant.symm, rfl, rfl, rfl, rfl, rfl, rfl, rfl⟩

theorem shown_exists (h : Inner t) : ∃ dt, Shown zone dt t := by
  have hbounded := zone.bounded _ List.mem_cons_self
  have hoffset := offsetAt_fixed hfixed ((t - 1000 * zone.initial) / 1000)
  unfold Inner msPerDay at h
  have hyears : InYears (t - 1000 * zone.initial) := ⟨by omega, by omega⟩
  have hlocal : InYears (t - 1000 * zone.initial + 1000 * zone.offsetAt ((t - 1000 * zone.initial) / 1000)) := by
    rw [hoffset]
    exact ⟨by omega, by omega⟩
  obtain ⟨dt, hmade, -⟩ := returns_answer hyears hlocal
  have hshown := shown_of_made hfixed hmade
  rw [shownAt_fixed hfixed, sub_add_cancel] at hshown
  exact ⟨dt, hshown⟩

/-- A whole second within the years of the host is constructed. -/
theorem construct_shown (writing : Writing) {c : Civil} (h : Inner c.toMs) (hsecond : c.toMs % 1000 = 0) (options : Options) :
    ∃ dt, construct writing zone c options = .ok (.ok dt) ∧ Shown zone dt c.toMs := by
  obtain ⟨dt, hdt⟩ := shown_exists hfixed h
  have hbounded := zone.bounded _ List.mem_cons_self
  have hreading : ∀ fold, reading zone fold c.toMs = c.toMs - 1000 * zone.initial := fun fold => by rw [reading, offsetOf_fixed hfixed]
  have hyear : 1 ≤ c.date.year ∧ c.date.year ≤ 9999 := by
    have hyears := dateOf_year (show InYears c.toMs from ⟨by unfold Inner msPerDay at h; omega, by unfold Inner msPerDay at h; omega⟩)
    rwa [show dateOf c.toMs = c.date from congrArg Civil.date (Civil.ofMs_toMs c)] at hyears
  have hinstant : reading zone false c.toMs ∈ instants zone c.toMs := by
    change shownAt zone (reading zone false c.toMs) = c.toMs
    rw [shownAt_fixed hfixed, hreading, sub_add_cancel]
  have hexact : Exact (reading zone false c.toMs) := by
    rw [hreading]
    unfold Inner msPerDay at h
    exact ⟨⟨by omega, by omega⟩, not_lossy_of_second (by omega)⟩
  obtain ⟨dt', hmade, hanswer⟩ := (construct_once writing hyear ((hreading false).trans (hreading true).symm) hinstant).mpr hexact options
  rw [hreading, hdt.made] at hmade
  exact ⟨dt, by rw [hanswer, Except.ok.inj hmade], hdt⟩

theorem Shown.add (h : Shown zone dt t) {n : Int} (hinner : Inner (t + n)) : ∃ dt', add dt n = .ok dt' ∧ Shown zone dt' (t + n) := by
  obtain ⟨dt', hdt'⟩ := shown_exists hfixed hinner
  refine ⟨dt', ?_, hdt'⟩
  rw [CronSchedule.add, h.epochMs, h.zone, ← hdt'.made]
  congr 1
  ring

/-- A minute of the day on which the datetime is. -/
def minuteOfDay (t hour minute : Int) : Int := t / msPerDay * msPerDay + hour * 3600000 + minute * 60000

omit hfixed in
theorem toMs_minuteOfDay {hour minute : Int} (hhour : 0 ≤ hour ∧ hour ≤ 23) (hminute : 0 ≤ minute ∧ minute ≤ 59) :
    (Civil.mk (dateOf t) hour minute 0 0 hhour hminute (by decide) (by decide)).toMs = minuteOfDay t hour minute := by
  rw [Civil.toMs, dateOf, Date.ordinal_ofOrdinal, minuteOfDay]
  ring

omit hfixed in
theorem inner_minuteOfDay {hour minute : Int} (h : -2208988800000 ≤ t ∧ t < 4102444800000) (hhour : 0 ≤ hour ∧ hour ≤ 23)
    (hminute : 0 ≤ minute ∧ minute ≤ 59) : Inner (minuteOfDay t hour minute) := by
  unfold Inner minuteOfDay minMs maxMs msPerDay
  omega

theorem Shown.timeAt (h : Shown zone dt t) (writing : Writing) {zones : Text → Option Zone} (hknown : zones zone.key = some zone)
    (hyear : -2208988800000 ≤ t ∧ t < 4102444800000) {hour minute : Int} (hhour : 0 ≤ hour ∧ hour ≤ 23) (hminute : 0 ≤ minute ∧ minute ≤ 59) :
    ∃ dt', timeAt writing zones dt.year dt.month dt.day hour minute 0 0 dt.zone.key {} = .ok (.ok dt') ∧
      Shown zone dt' (minuteOfDay t hour minute) := by
  have htoMs := toMs_minuteOfDay (t := t) hhour hminute
  have hinner := inner_minuteOfDay hyear hhour hminute
  rw [← htoMs] at hinner ⊢
  obtain ⟨dt', hdt', hshown⟩ := construct_shown hfixed writing hinner (by rw [htoMs, minuteOfDay, msPerDay]; omega) {}
  refine ⟨dt', ?_, hshown⟩
  rw [h.year, h.month, h.day, h.zone, ← hdt']
  exact timeAt_eq (c := ⟨dateOf t, hour, minute, 0, 0, hhour, hminute, by decide, by decide⟩) hknown (year_iff.mpr hyear)

theorem Shown.startOfDay (h : Shown zone dt t) (writing : Writing) (hinner : Inner t) :
    ∃ dt', startOfDay writing dt = .ok (.ok dt') ∧ Shown zone dt' (minuteOfDay t 0 0) := by
  have htoMs := toMs_minuteOfDay (t := t) (show 0 ≤ 0 ∧ (0 : Int) ≤ 23 by decide) (show 0 ≤ 0 ∧ (0 : Int) ≤ 59 by decide)
  have hinner' : Inner (minuteOfDay t 0 0) := by
    unfold Inner minuteOfDay minMs maxMs msPerDay at *
    omega
  rw [← htoMs] at hinner' ⊢
  obtain ⟨dt', hdt', hshown⟩ := construct_shown hfixed writing hinner' (by rw [htoMs, minuteOfDay, msPerDay]; omega) {}
  refine ⟨dt', ?_, hshown⟩
  cases hl : localFromEpochMs zone (t - 1000 * zone.initial) with
  | error e =>
      have hmade := h.made
      rw [makeDt, hl] at hmade
      cases hmade
  | ok l =>
      obtain ⟨-, -, hlocal, hms⟩ := localFromEpochMs_eq_ok hl
      rw [offsetAt_fixed hfixed] at hlocal
      rw [hlocal, sub_add_cancel] at hms
      rw [LocalTimes.startOfDay, h.zone, h.epochMs, hl, ← hdt']
      change constructAware _ _ _ _ _ _ _ _ _ _ = _
      rw [hms]
      rfl

end Fixed

/-! ### A day -/

section Day

variable {spec : Spec} {zone : Zone} {dt : DateTime} {t m : Int}

theorem dayMatches_iff (h : Shown zone dt t) : dayMatches spec dt = true ↔ spec.OnDay (dateOf t) := by
  rw [dayMatches, h.month, h.day, h.weekday, Spec.OnDay]
  by_cases hmonth : (dateOf t).month ∈ spec.months
  · rw [if_neg (not_not.mpr hmonth), and_iff_right hmonth]
    cases spec.domAny <;> cases spec.dowAny <;> simp
  · rw [if_pos hmonth]
    exact iff_of_false nofun fun hboth => hmonth hboth.1

theorem fires_iff (hsound : spec.Sound) (hday : m / msPerDay = t / msPerDay) : spec.Fires (Civil.ofMs m) ↔
    spec.OnDay (dateOf t) ∧ ∃ hour ∈ spec.hours, ∃ minute ∈ spec.minutes, m = minuteOfDay t hour minute := by
  have hdate : dateOf m = dateOf t := by rw [dateOf, hday, dateOf]
  constructor
  · rintro ⟨honDay, hhour, hminute, hsecond, hmilli⟩
    refine ⟨hdate ▸ honDay, _, hhour, _, hminute, ?_⟩
    change secondOf m = 0 at hsecond
    change milliOf m = 0 at hmilli
    change m = minuteOfDay t (hourOf m) (minuteOf m)
    rw [minuteOfDay, ← hday]
    unfold secondOf milliOf at *
    unfold hourOf minuteOf msPerDay
    omega
  · rintro ⟨honDay, hour, hhour, minute, hminute, hm⟩
    have hrange := hsound.hours.range hour hhour
    have hrange' := hsound.minutes.range minute hminute
    rw [← toMs_minuteOfDay hrange hrange'] at hm
    rw [hm, Civil.ofMs_toMs]
    exact ⟨honDay, hhour, hminute, rfl, rfl⟩

/-- The first value of an ordered list that is accepted is the least one. -/
theorem find_least {values : List Int} {accepts : Int → Bool} (hsorted : values.Pairwise (· < ·)) {v : Int} (h : values.find? accepts = some v) :
    IsLeast {w | w ∈ values ∧ accepts w = true} v := by
  obtain ⟨haccepted, before, after, rfl, hbefore⟩ := List.find?_eq_some_iff_append.mp h
  refine ⟨⟨List.mem_append_right _ List.mem_cons_self, haccepted⟩, ?_⟩
  rintro w ⟨hw, hwaccepted⟩
  obtain hw | hw := List.mem_append.mp hw
  · exact absurd hwaccepted (by simpa using hbefore w hw)
  · obtain rfl | hw := List.mem_cons.mp hw
    · exact le_rfl
    · exact ((List.pairwise_cons.mp (List.pairwise_append.mp hsorted).2.1).1 w hw).le

/-- The minute of the day. -/
def place (hour minute : Int) : Int := 60 * hour + minute

theorem firstTime_none (hsound : spec.Sound) (hminute : 0 ≤ dt.minute ∧ dt.minute ≤ 59) (h : firstTime spec dt = none) :
    ∀ hour ∈ spec.hours, ∀ minute ∈ spec.minutes, place hour minute < place dt.hour dt.minute := by
  intro hour hhour minute hmem
  have hnone := List.findSome?_eq_none_iff.mp h hour hhour
  have hrange := hsound.minutes.range minute hmem
  unfold place
  split at hnone
  · have husable := List.find?_eq_none.mp (Option.map_eq_none_iff.mp hnone) minute hmem
    simp only [Bool.not_eq_true', Bool.not_eq_false, Bool.and_eq_true, decide_eq_true_eq] at husable
    omega
  · omega

theorem firstTime_some (hsound : spec.Sound) (hminute : 0 ≤ dt.minute ∧ dt.minute ≤ 59) {hour minute : Int}
    (h : firstTime spec dt = some (hour, minute)) :
    (hour ∈ spec.hours ∧ minute ∈ spec.minutes ∧ place dt.hour dt.minute ≤ place hour minute) ∧
      ∀ hour' ∈ spec.hours, ∀ minute' ∈ spec.minutes, place dt.hour dt.minute ≤ place hour' minute' → place hour minute ≤ place hour' minute' := by
  have husable : ∀ {hour' minute' : Int}, 0 ≤ minute' ∧ minute' ≤ 59 → dt.hour ≤ hour' →
      ((!(decide (hour' = dt.hour) && decide (minute' < dt.minute))) = true ↔ place dt.hour dt.minute ≤ place hour' minute') := by
    intro hour' minute' hrange hle
    simp only [Bool.not_eq_true', Bool.and_eq_false_iff, decide_eq_false_iff_not]
    unfold place
    omega
  obtain ⟨before, found, after, hhours, hfound, hbefore⟩ := List.findSome?_eq_some_iff.mp h
  have hsorted := hsound.hours.sorted
  split at hfound
  · rename_i hle
    obtain ⟨minute', hfind, hpair⟩ := Option.map_eq_some_iff.mp hfound
    obtain ⟨rfl, rfl⟩ := Prod.mk.inj hpair
    obtain ⟨⟨hmem, haccepted⟩, hleast⟩ := find_least hsound.minutes.sorted hfind
    have hrange := hsound.minutes.range minute' hmem
    refine ⟨⟨by rw [hhours]; exact List.mem_append_right _ List.mem_cons_self, hmem, (husable hrange hle).mp haccepted⟩, ?_⟩
    intro hour' hhour' minute'' hmem' hplace
    have hrange' := hsound.minutes.range minute'' hmem'
    have hle' : dt.hour ≤ hour' := by
      unfold place at hplace
      omega
    have haccepted' := (husable hrange' hle').mpr hplace
    rw [hhours] at hhour' hsorted
    obtain hearlier | hlater := List.mem_append.mp hhour'
    · have hnone := hbefore hour' hearlier
      rw [if_pos hle'] at hnone
      exact absurd haccepted' (List.find?_eq_none.mp (Option.map_eq_none_iff.mp hnone) minute'' hmem')
    · obtain rfl | hlater := List.mem_cons.mp hlater
      · have := hleast ⟨hmem', haccepted'⟩
        unfold place
        omega
      · have := (List.pairwise_cons.mp (List.pairwise_append.mp hsorted).2.1).1 hour' hlater
        unfold place
        omega
  · cases hfound

end Day

/-! ### The whole search -/

/-- The answer is the datetime that shows the first of these times, or there is none of them. -/
def Finds (zone : Zone) (answer : Except Fault (Option (Except TimeError DateTime))) (times : Set Int) : Prop :=
  (answer = .ok none ∧ times = ∅) ∨ ∃ dt t, answer = .ok (some (.ok dt)) ∧ Shown zone dt t ∧ IsLeast times t

/-- The times from `t` on at which the schedule fires, within a number of days. -/
def Spec.within (spec : Spec) (t : Int) (days : Nat) : Set Int :=
  {m | spec.Fires (Civil.ofMs m) ∧ t ≤ m ∧ m < (t / msPerDay + days) * msPerDay}

section Search

variable {platform : Platform} {spec : Spec} {zone : Zone} {dt : DateTime} {t : Int}

theorem minuteOfDay_le_iff {hour minute hour' minute' : Int} :
    minuteOfDay t hour minute ≤ minuteOfDay t hour' minute' ↔ place hour minute ≤ place hour' minute' := by
  unfold minuteOfDay place
  omega

theorem le_minuteOfDay_iff {hour minute : Int} (hminute : t % 60000 = 0) :
    t ≤ minuteOfDay t hour minute ↔ place (hourOf t) (minuteOf t) ≤ place hour minute := by
  unfold minuteOfDay place hourOf minuteOf msPerDay
  omega

variable (hsound : spec.Sound) (hknown : platform.zones zone.key = some zone) (hfixed : zone.transitions = [])

include hsound hknown hfixed

omit hknown hfixed in
/-- The firings that are left on the day of the cursor are its minutes of the schedule that are not before it. -/
theorem mem_within_one {m : Int} : m ∈ spec.within t 1 ↔
    t ≤ m ∧ spec.OnDay (dateOf t) ∧ ∃ hour ∈ spec.hours, ∃ minute ∈ spec.minutes, m = minuteOfDay t hour minute := by
  constructor
  · rintro ⟨hfires, hle, hlt⟩
    exact ⟨hle, (fires_iff hsound (by unfold msPerDay at *; omega)).mp hfires⟩
  · rintro ⟨hle, honDay, hour, hhour, minute, hminute, hm⟩
    have hrange := hsound.hours.range hour hhour
    have hrange' := hsound.minutes.range minute hminute
    have hday : m / msPerDay = t / msPerDay ∧ m < (t / msPerDay + 1) * msPerDay := by
      rw [hm, minuteOfDay]
      unfold msPerDay
      omega
    exact ⟨(fires_iff hsound hday.1).mpr ⟨honDay, hour, hhour, minute, hminute, hm⟩, hle, hday.2⟩

/-- The day of the cursor. -/
theorem firstFiring_finds (h : Shown zone dt t) (hminute : t % 60000 = 0) (hyear : -2208988800000 ≤ t ∧ t < 4102444800000) :
    Finds zone ((if dayMatches spec dt then firstFiringOnDay platform spec dt else .ok none).mapError .host) (spec.within t 1) := by
  have hrange : 0 ≤ dt.minute ∧ dt.minute ≤ 59 := by
    rw [h.minute]
    exact (Civil.ofMs t).minute_mem
  by_cases honDay : spec.OnDay (dateOf t)
  · rw [if_pos ((dayMatches_iff h).mpr honDay), firstFiringOnDay]
    cases hfirst : firstTime spec dt with
    | none =>
        refine .inl ⟨rfl, Set.eq_empty_of_forall_notMem fun m hm => ?_⟩
        obtain ⟨hle, -, hour, hhour, minute, hmem, rfl⟩ := (mem_within_one hsound).mp hm
        have hbefore := firstTime_none hsound hrange hfirst hour hhour minute hmem
        rw [h.hour, h.minute] at hbefore
        exact absurd ((le_minuteOfDay_iff hminute).mp hle) hbefore.not_ge
    | some time =>
        obtain ⟨hour, minute⟩ := time
        obtain ⟨⟨hhour, hmem, hle⟩, hleast⟩ := firstTime_some hsound hrange hfirst
        obtain ⟨dt', hdt', hshown⟩ := h.timeAt hfixed platform.writing hknown hyear (hsound.hours.range hour hhour)
          (hsound.minutes.range minute hmem)
        refine .inr ⟨dt', minuteOfDay t hour minute, by simp only [hdt']; rfl, hshown, ?_, fun m hm => ?_⟩
        · rw [h.hour, h.minute] at hle
          exact (mem_within_one hsound).mpr ⟨(le_minuteOfDay_iff hminute).mpr hle, honDay, hour, hhour, minute, hmem, rfl⟩
        · obtain ⟨hle', -, hour', hhour', minute', hmem', rfl⟩ := (mem_within_one hsound).mp hm
          refine minuteOfDay_le_iff.mpr (hleast hour' hhour' minute' hmem' ?_)
          rw [h.hour, h.minute]
          exact (le_minuteOfDay_iff hminute).mp hle'
  · rw [if_neg fun hmatches => honDay ((dayMatches_iff h).mp hmatches)]
    exact .inl ⟨rfl, Set.eq_empty_of_forall_notMem fun m hm => honDay ((mem_within_one hsound).mp hm).2.1⟩

/-- From a minute on, the search finds the first time at which the schedule fires. -/
theorem search_finds (days : Nat) (h : Shown zone dt t) (hminute : t % 60000 = 0) (hfirst : -2208988800000 ≤ t)
    (hlast : (t / msPerDay + days) * msPerDay ≤ 4102444800000) : Finds zone (search platform spec days (.ok dt)) (spec.within t days) := by
  induction days generalizing dt t with
  | zero => exact .inl ⟨rfl, Set.eq_empty_of_forall_notMem fun m hm => by
      have hle := hm.2.1
      have hlt := hm.2.2
      unfold msPerDay at hlt
      omega⟩
  | succ days ih =>
      have hyear : -2208988800000 ≤ t ∧ t < 4102444800000 := ⟨hfirst, by unfold msPerDay at hlast; omega⟩
      rw [search]
      obtain ⟨hnone, hempty⟩ | ⟨dt', t', hsome, hshown, hleast⟩ := firstFiring_finds hsound hknown hfixed h hminute hyear
      · rw [hnone]
        obtain ⟨moved, hmoved, hshown⟩ := h.add hfixed (n := msPerDay) (by unfold Inner minMs maxMs msPerDay; omega)
        obtain ⟨next, hnext, hshown'⟩ := hshown.startOfDay hfixed platform.writing (by unfold Inner minMs maxMs msPerDay; omega)
        have hmidnight : minuteOfDay (t + msPerDay) 0 0 = (t / msPerDay + 1) * msPerDay := by
          unfold minuteOfDay msPerDay
          omega
        rw [hmidnight] at hshown'
        have hdays : (t / msPerDay + 1) * msPerDay / msPerDay + days = t / msPerDay + (days + 1 : ℕ) := by
          unfold msPerDay
          omega
        have hrest := ih hshown' (by unfold msPerDay; omega) (by unfold msPerDay; omega) (by rwa [hdays])
        have hsame : spec.within t (days + 1) = spec.within ((t / msPerDay + 1) * msPerDay) days := by
          refine Set.ext fun m => ⟨fun hm => ⟨hm.1, ?_, by rw [hdays]; exact hm.2.2⟩, fun hm => ⟨hm.1, ?_, by rw [← hdays]; exact hm.2.2⟩⟩
          · by_contra hlt
            exact hempty.subset (show m ∈ spec.within t 1 from ⟨hm.1, hm.2.1, not_le.mp hlt⟩)
          · have hle := hm.2.1
            unfold msPerDay at hle
            omega
        rw [hsame, hmoved]
        change Finds zone (((startOfDay platform.writing moved).mapError Fault.host).bind fun next => search platform spec days next) _
        rw [hnext]
        exact hrest
      · rw [hsome]
        refine .inr ⟨dt', t', rfl, hshown, ⟨hleast.1.1, hleast.1.2.1, ?_⟩, fun m hm => ?_⟩
        · have := hleast.1.2.2
          unfold msPerDay at *
          omega
        · by_cases hday : m < (t / msPerDay + 1) * msPerDay
          · exact hleast.2 ⟨hm.1, hm.2.1, hday⟩
          · exact hleast.1.2.2.le.trans (not_lt.mp hday)

end Search

/-! ### The next firing -/

/-- The days that are searched from an instant on are within the years that `time_at` takes. -/
structure Supported (zone : Zone) (epochMs : Int) : Prop where
  first : 1900 ≤ (dateOf (shownAt zone (epochMs + 60000))).year
  last : (dateOf (shownAt zone (epochMs + 60000) + (searchHorizonDays - 1) * msPerDay)).year ≤ 2099

/-- The instants after this one at which the schedule fires, within the days that are searched. -/
def Spec.upcoming (spec : Spec) (zone : Zone) (epochMs : Int) : Set Int :=
  {u | u ∈ spec.firings zone ∧ epochMs < u ∧
    shownAt zone u < (shownAt zone (epochMs + 60000) / msPerDay + searchHorizonDays) * msPerDay}

theorem Supported.range {zone : Zone} {epochMs : Int} (h : Supported zone epochMs) : -2208988800000 ≤ shownAt zone (epochMs + 60000) ∧
    (shownAt zone (epochMs + 60000) / msPerDay + searchHorizonDays) * msPerDay ≤ 4102444800000 := by
  have hmono : (dateOf (shownAt zone (epochMs + 60000))).year ≤
      (dateOf (shownAt zone (epochMs + 60000) + (searchHorizonDays - 1) * msPerDay)).year := Date.year_mono (by
    rw [dateOf, dateOf, Date.ordinal_ofOrdinal, Date.ordinal_ofOrdinal]
    unfold msPerDay searchHorizonDays
    omega)
  have hfirst := year_iff.mp ⟨h.first, hmono.trans h.last⟩
  have hlast := year_iff.mp ⟨h.first.trans hmono, h.last⟩
  unfold msPerDay searchHorizonDays at *
  omega

section Next

variable {platform : Platform} {expression : Text} {spec : Spec} {zone : Zone} {origin : DateTime} {epochMs : Int}

theorem minute_of_fires {m : Int} (h : spec.Fires (Civil.ofMs m)) : m % 60000 = 0 := by
  have hsecond : secondOf m = 0 := h.second
  have hmilli : milliOf m = 0 := h.milli
  unfold secondOf milliOf at *
  omega

/-- The first of the instants whose times are searched for. -/
theorem Finds.first {answer : Except Fault (Option (Except TimeError DateTime))} {instants : Set Int} (hfixed : zone.transitions = [])
    (h : Finds zone answer (shownAt zone '' instants)) : (answer = .ok none ∧ instants = ∅) ∨
      ∃ dt, answer = .ok (some (.ok dt)) ∧ makeDt dt.epochMs zone = .ok dt ∧ IsLeast instants dt.epochMs := by
  have hshownAt := shownAt_fixed hfixed
  obtain ⟨hnone, hempty⟩ | ⟨dt, t, hsome, hdt, ⟨u, hu, hut⟩, hleast⟩ := h
  · exact .inl ⟨hnone, Set.image_eq_empty.mp hempty⟩
  · have hdtu : dt.epochMs = u := by rw [hdt.epochMs, ← hut, hshownAt, add_sub_cancel_right]
    refine .inr ⟨dt, hsome, by rw [hdt.epochMs, hdt.made], hdtu ▸ hu, fun v hv => ?_⟩
    have hle := hleast (Set.mem_image_of_mem _ hv)
    rw [← hut, hshownAt, hshownAt] at hle
    omega

/-- The times of the firings to come are those of the schedule from the minute after the origin on. -/
theorem upcoming_shown (hfixed : zone.transitions = []) : shownAt zone '' spec.upcoming zone epochMs =
    spec.within ((shownAt zone epochMs + 60000) / 60000 * 60000) searchHorizonDays := by
  have hshownAt := shownAt_fixed hfixed
  have hmem : ∀ u, u ∈ spec.upcoming zone epochMs ↔
      shownAt zone u ∈ spec.within ((shownAt zone epochMs + 60000) / 60000 * 60000) searchHorizonDays := by
    intro u
    refine and_congr_right fun hfires => ?_
    have hwhole := minute_of_fires hfires
    rw [hshownAt, hshownAt epochMs, hshownAt (epochMs + 60000)] at *
    unfold msPerDay
    omega
  refine Set.ext fun t => ⟨?_, fun ht => ?_⟩
  · rintro ⟨u, hu, rfl⟩
    exact (hmem u).mp hu
  · have hshow : shownAt zone (t - 1000 * zone.initial) = t := by rw [hshownAt, sub_add_cancel]
    exact ⟨_, (hmem _).mpr (by rwa [hshow]), hshow⟩

section Answer

variable (hparse : parse platform expression = .ok spec) (hfixed : zone.transitions = []) (hknown : platform.zones zone.key = some zone)
  (hmade : makeDt epochMs zone = .ok origin) (hyears : Supported zone epochMs)

include hparse hfixed hknown hmade hyears

/-- The search begins with the minute after the origin. -/
theorem nextAfter_eq_search : ∃ cursor, nextAfter platform expression origin = search platform spec searchHorizonDays (.ok cursor) ∧
    Shown zone cursor ((shownAt zone epochMs + 60000) / 60000 * 60000) := by
  have hrange := hyears.range
  rw [shownAt_fixed hfixed, add_right_comm, ← shownAt_fixed hfixed] at hrange
  obtain ⟨moved, hmoved, hshown⟩ := (shown_of_made hfixed hmade).add hfixed (n := 60000) (by
    unfold Inner minMs maxMs
    unfold msPerDay searchHorizonDays at *
    omega)
  obtain ⟨cursor, hcursor, hshown'⟩ := hshown.timeAt hfixed platform.writing hknown
    (by unfold msPerDay searchHorizonDays at hrange; omega) (Civil.ofMs _).hour_mem (Civil.ofMs _).minute_mem
  have hfloor : minuteOfDay (shownAt zone epochMs + 60000) (Civil.ofMs (shownAt zone epochMs + 60000)).hour
      (Civil.ofMs (shownAt zone epochMs + 60000)).minute = (shownAt zone epochMs + 60000) / 60000 * 60000 := by
    change minuteOfDay _ (hourOf _) (minuteOf _) = _
    unfold minuteOfDay hourOf minuteOf msPerDay
    omega
  refine ⟨cursor, ?_, hfloor ▸ hshown'⟩
  rw [nextAfter, hparse]
  change ((CronSchedule.add origin 60000).mapError Fault.host).bind _ = _
  rw [hmoved]
  change ((LocalTimes.timeAt _ _ _ _ _ moved.hour moved.minute _ _ _ _).mapError Fault.host).bind _ = _
  rw [hshown.hour, hshown.minute]
  exact congrArg (fun answer => (Except.mapError Fault.host answer).bind (search platform spec searchHorizonDays)) hcursor

theorem nextAfter_finds : Finds zone (nextAfter platform expression origin) (shownAt zone '' spec.upcoming zone epochMs) := by
  have hrange := hyears.range
  rw [shownAt_fixed hfixed, add_right_comm, ← shownAt_fixed hfixed] at hrange
  obtain ⟨cursor, hsearch, hcursor⟩ := nextAfter_eq_search hparse hfixed hknown hmade hyears
  rw [hsearch, upcoming_shown hfixed]
  exact search_finds (sound_of_parse hparse) hknown hfixed searchHorizonDays hcursor (by omega) (by omega) (by
    unfold msPerDay searchHorizonDays at *
    omega)

/-- In a zone without transitions, what `next_after` answers is the first instant after the origin at which the schedule fires, or there is
none within the days that it searches. -/
theorem nextAfter_first : (nextAfter platform expression origin = .ok none ∧ spec.upcoming zone epochMs = ∅) ∨
    ∃ dt, nextAfter platform expression origin = .ok (some (.ok dt)) ∧ makeDt dt.epochMs zone = .ok dt ∧
      IsLeast (spec.upcoming zone epochMs) dt.epochMs :=
  (nextAfter_finds hparse hfixed hknown hmade hyears).first hfixed

end Answer

end Next

/-! A schedule of every minute, in UTC. -/

def utcPlatform : Platform := { plainPlatform with zones := fun key => if key = text "UTC" then some .utc else none }

theorem parse_stars : ∃ spec, parse utcPlatform (text "* * * * *") = .ok spec ∧ ∀ t, t % 60000 = 0 → spec.Fires (Civil.ofMs t) := by
  have hstar : ∀ {lo hi : Int}, lo ≤ hi → ∃ out, parseField utcPlatform.tables (text "*") lo hi = .ok out ∧ ∀ v, lo ≤ v → v ≤ hi → v ∈ out := by
    intro lo hi hle
    have hreads : Reads utcPlatform.tables (Taken utcPlatform.tables) (text "*") lo hi [⟨.any, none⟩] :=
      .cons ⟨.bare .any, ⟨nofun, le_rfl, le_rfl, hle⟩⟩ .nil
    obtain ⟨out, hout, -, hmem⟩ := parseField_of_reads hreads
    exact ⟨out, hout, fun v hlow hhigh => (hmem v).mpr ⟨_, List.mem_singleton_self _, hlow, hhigh, one_dvd _⟩⟩
  obtain ⟨weekdays, hweekdays, -⟩ := hstar (show (0 : Int) ≤ 7 by decide)
  obtain ⟨minutes, hminutes, hminute⟩ := hstar (show (0 : Int) ≤ 59 by decide)
  obtain ⟨hours, hhours, hhour⟩ := hstar (show (0 : Int) ≤ 23 by decide)
  obtain ⟨days, hdays, -⟩ := hstar (show (1 : Int) ≤ 31 by decide)
  obtain ⟨months, hmonths, hmonth⟩ := hstar (show (1 : Int) ≤ 12 by decide)
  have hcleaned : cleaned utcPlatform (text "* * * * *") = [text "*", text "*", text "*", text "*", text "*"] := by decide
  have hany : decide (strip utcPlatform.tables (text "*") = text "*") = true := by decide
  refine ⟨⟨minutes, hours, days, months, if 7 ∈ weekdays then sortedUnique (weekdays ++ [0]) else weekdays, true, true⟩, ?_, fun t ht => ?_⟩
  · rw [parse, hcleaned]
    simp only [hweekdays, hminutes, hhours, hdays, hmonths, hany]
    rfl
  · exact ⟨⟨hmonth _ (Civil.ofMs t).date.one_le_month (Civil.ofMs t).date.month_le, by rw [if_pos (.inl rfl)]; exact ⟨.inl rfl, .inl rfl⟩⟩,
      hhour _ (Civil.ofMs t).hour_mem.1 (Civil.ofMs t).hour_mem.2, hminute _ (Civil.ofMs t).minute_mem.1 (Civil.ofMs t).minute_mem.2,
      show secondOf t = 0 by unfold secondOf; omega, show milliOf t = 0 by unfold milliOf; omega⟩

theorem nextAfter_minute : ∃ spec origin dt, parse utcPlatform (text "* * * * *") = .ok spec ∧ makeDt 0 .utc = .ok origin ∧
    nextAfter utcPlatform (text "* * * * *") origin = .ok (some (.ok dt)) ∧ dt.epochMs = 60000 := by
  obtain ⟨spec, hparse, hevery⟩ := parse_stars
  obtain ⟨origin, hmade⟩ := makeDt_utc (by decide : InYears 0)
  have hin : 60000 ∈ spec.upcoming .utc 0 := ⟨hevery _ (by decide), by decide, by decide⟩
  obtain ⟨-, hempty⟩ | ⟨dt, hnext, -, hupcoming, hleast⟩ := (nextAfter_finds hparse rfl rfl hmade ⟨by decide, by decide⟩).first rfl
  · exact absurd hin (hempty ▸ Set.notMem_empty _)
  · refine ⟨spec, origin, dt, hparse, hmade, hnext, le_antisymm (hleast hin) ?_⟩
    have hminute := minute_of_fires hupcoming.1
    have hlater := hupcoming.2.1
    rw [shownAt_fixed rfl, show Zone.utc.initial = 0 from rfl] at hminute
    omega

theorem minute_after_epoch : ∃ spec origin dt, parse utcPlatform (text "* * * * *") = .ok spec ∧ makeDt 0 .utc = .ok origin ∧
    nextAfter utcPlatform (text "* * * * *") origin = .ok (some (.ok dt)) ∧ IsLeast (spec.upcoming .utc 0) dt.epochMs := by
  obtain ⟨spec, origin, dt, hparse, hmade, hnext, -⟩ := nextAfter_minute
  obtain ⟨hnone, -⟩ | ⟨dt', hnext', -, hleast⟩ := nextAfter_first hparse rfl rfl hmade ⟨by decide, by decide⟩
  · cases hnone.symm.trans hnext
  · exact ⟨spec, origin, dt', hparse, hmade, hnext', hleast⟩

end Nodus.CronSchedule
