import Mathlib.Algebra.Order.Ring.Int
import Mathlib.Tactic.IntervalCases
import Mathlib.Tactic.Ring
import Mathlib.Logic.Equiv.Defs
import Mathlib.Tactic.Common
import Mathlib.Data.Nat.Find

/-! The proleptic Gregorian calendar, with the days numbered from the first of January of the year 1. -/

namespace Calendar

def isLeap (y : Int) : Bool := y % 4 = 0 && (y % 100 ≠ 0 || y % 400 = 0)

def daysInMonth (y m : Int) : Int :=
  if m = 2 then if isLeap y then 29 else 28 else if m = 4 ∨ m = 6 ∨ m = 9 ∨ m = 11 then 30 else 31

/-- The days before the first of January. -/
def daysBeforeYear (y : Int) : Int := (y - 1) * 365 + (y - 1) / 4 - (y - 1) / 100 + (y - 1) / 400

/-- The days of a year that is no leap year before the first of a month. -/
def monthStart (m : Int) : Int :=
  if m ≤ 1 then 0 else if m = 2 then 31 else if m = 3 then 59 else if m = 4 then 90 else if m = 5 then 120 else if m = 6 then 151
  else if m = 7 then 181 else if m = 8 then 212 else if m = 9 then 243 else if m = 10 then 273 else if m = 11 then 304 else 334

/-- The days of a year before the first of a month. -/
def daysBeforeMonth (y m : Int) : Int := monthStart m + if 2 < m ∧ isLeap y then 1 else 0

@[ext]
structure Date where
  year : Int
  month : Int
  day : Int
  one_le_month : 1 ≤ month
  month_le : month ≤ 12
  one_le_day : 1 ≤ day
  day_le : day ≤ daysInMonth year month
  deriving DecidableEq

namespace Date

/-- The number of a day. -/
def ordinal (d : Date) : Int := daysBeforeYear d.year + daysBeforeMonth d.year d.month + d.day

/-- Monday is 0. -/
def weekday (d : Date) : Int := (d.ordinal + 6) % 7

end Date

/-! ### The date with a number -/

/-- The year of a day, and its place in the year, from 0 on. -/
def yearOf (n : Int) : Int × Int :=
  let n400 := (n - 1) / 146097
  let r400 := (n - 1) % 146097
  let n100 := r400 / 36524
  let r100 := r400 % 36524
  let n4 := r100 / 1461
  let r4 := r100 % 1461
  let n1 := r4 / 365
  let r1 := r4 % 365
  let year := 400 * n400 + 100 * n100 + 4 * n4 + n1 + 1
  if n1 = 4 ∨ n100 = 4 then (year - 1, 365) else (year, r1)

/-- The month of a place in a year: the last one that begins before it. -/
def monthOf (y place : Int) : Int := (Nat.findGreatest (fun m => daysBeforeMonth y m ≤ place) 12 : Nat)

def yearLength (y : Int) : Int := if isLeap y then 366 else 365

theorem daysBeforeYear_succ (y : Int) : daysBeforeYear (y + 1) = daysBeforeYear y + yearLength y := by
  unfold daysBeforeYear yearLength isLeap
  simp only [Bool.and_eq_true, Bool.or_eq_true, decide_eq_true_eq]
  split <;> omega

theorem isLeap_iff (y : Int) : isLeap y = true ↔ y % 4 = 0 ∧ (y % 100 ≠ 0 ∨ y % 400 = 0) := by
  simp only [isLeap, Bool.and_eq_true, Bool.or_eq_true, decide_eq_true_eq]

theorem daysBeforeYear_cycles {a b c d : Int} (hb : 0 ≤ b) (hb' : b ≤ 3) (hc : 0 ≤ c) (hc' : c ≤ 24) (hd : 0 ≤ d) (hd' : d ≤ 3) :
    daysBeforeYear (400 * a + 100 * b + 4 * c + d + 1) = 146097 * a + 36524 * b + 1461 * c + 365 * d := by
  have hfours : (400 * a + 100 * b + 4 * c + d) / 4 = 100 * a + 25 * b + c := by omega
  have hcenturies : (400 * a + 100 * b + 4 * c + d) / 100 = 4 * a + b := by omega
  have hcycles : (400 * a + 100 * b + 4 * c + d) / 400 = a := by omega
  rw [daysBeforeYear, Int.add_sub_cancel, hfours, hcenturies, hcycles]
  ring

/-- The last year of a group of four is a leap year, if it is not the last of a century that is not the last of a cycle. -/
theorem isLeap_cycles {a b c d : Int} (hb : 0 ≤ b) (hb' : b ≤ 3) (hc : 0 ≤ c) (hc' : c ≤ 24) (hd : 0 ≤ d) (hd' : d ≤ 3) :
    isLeap (400 * a + 100 * b + 4 * c + d + 1) = true ↔ d = 3 ∧ (c ≠ 24 ∨ b = 3) := by
  rw [isLeap_iff]
  omega

theorem yearOf_spec (n : Int) : daysBeforeYear (yearOf n).1 + (yearOf n).2 + 1 = n ∧ 0 ≤ (yearOf n).2 ∧ (yearOf n).2 < yearLength (yearOf n).1 := by
  have h400 := Int.mul_ediv_add_emod (n - 1) 146097
  have h100 := Int.mul_ediv_add_emod ((n - 1) % 146097) 36524
  have h4 := Int.mul_ediv_add_emod ((n - 1) % 146097 % 36524) 1461
  have h1 := Int.mul_ediv_add_emod ((n - 1) % 146097 % 36524 % 1461) 365
  have hr400 := Int.emod_nonneg (n - 1) (show (146097 : Int) ≠ 0 by decide)
  have hr400' := Int.emod_lt_of_pos (n - 1) (show (0 : Int) < 146097 by decide)
  unfold yearOf
  dsimp only
  generalize (n - 1) / 146097 = a at *
  generalize (n - 1) % 146097 = r at *
  have hr100 := Int.emod_nonneg r (show (36524 : Int) ≠ 0 by decide)
  have hr100' := Int.emod_lt_of_pos r (show (0 : Int) < 36524 by decide)
  have hb : 0 ≤ r / 36524 := by omega
  generalize r / 36524 = b at *
  generalize r % 36524 = r at *
  have hr4 := Int.emod_nonneg r (show (1461 : Int) ≠ 0 by decide)
  have hr4' := Int.emod_lt_of_pos r (show (0 : Int) < 1461 by decide)
  have hc : 0 ≤ r / 1461 := by omega
  generalize r / 1461 = c at *
  generalize r % 1461 = r at *
  have hr1 := Int.emod_nonneg r (show (365 : Int) ≠ 0 by decide)
  have hr1' := Int.emod_lt_of_pos r (show (0 : Int) < 365 by decide)
  have hd : 0 ≤ r / 365 := by omega
  generalize r / 365 = d at *
  generalize r % 365 = r at *
  split
  · rename_i hlast
    have hyear : 400 * a + 100 * b + 4 * c + d + 1 - 1 = 400 * a + 100 * min b 3 + 4 * (if b = 4 then 24 else c) + 3 + 1 := by
      split <;> omega
    have hdays := daysBeforeYear_cycles (a := a) (b := min b 3) (c := if b = 4 then 24 else c) (d := 3) (by omega) (by omega) (by split <;> omega)
      (by split <;> omega) (by omega) (by omega)
    have hleap := isLeap_cycles (a := a) (b := min b 3) (c := if b = 4 then 24 else c) (d := 3) (by omega) (by omega) (by split <;> omega)
      (by split <;> omega) (by omega) (by omega)
    dsimp only
    rw [hyear, hdays]
    unfold yearLength
    rw [if_pos (hleap.mpr (by split <;> omega))]
    refine ⟨?_, by omega, by omega⟩
    split <;> omega
  · rename_i hlast
    have hdays := daysBeforeYear_cycles (a := a) (b := b) (c := c) (d := d) (by omega) (by omega) (by omega) (by omega) (by omega) (by omega)
    have hleap := isLeap_cycles (a := a) (b := b) (c := c) (d := d) (by omega) (by omega) (by omega) (by omega) (by omega) (by omega)
    dsimp only
    rw [hdays]
    refine ⟨by omega, by omega, ?_⟩
    unfold yearLength
    split <;> omega

theorem daysBeforeYear_mono {y y' : Int} (h : y ≤ y') : daysBeforeYear y ≤ daysBeforeYear y' := by
  unfold daysBeforeYear
  omega

theorem daysBeforeMonth_one (y : Int) : daysBeforeMonth y 1 = 0 := by
  unfold daysBeforeMonth
  rw [if_neg (by omega)]
  rfl

theorem daysInMonth_pos (y m : Int) : 0 < daysInMonth y m := by
  unfold daysInMonth
  split
  · split <;> decide
  · split <;> decide

theorem daysBeforeMonth_succ (y : Int) {m : Int} (hm : 1 ≤ m) (hm' : m ≤ 11) : daysBeforeMonth y (m + 1) = daysBeforeMonth y m + daysInMonth y m := by
  cases hleap : isLeap y with
  | true => interval_cases m <;> simp [daysBeforeMonth, daysInMonth, monthStart, hleap]
  | false => interval_cases m <;> simp [daysBeforeMonth, daysInMonth, monthStart, hleap]

theorem daysBeforeMonth_december (y : Int) : daysBeforeMonth y 12 + daysInMonth y 12 = yearLength y := by
  cases hleap : isLeap y <;> simp [daysBeforeMonth, daysInMonth, monthStart, yearLength, hleap]

theorem daysBeforeMonth_mono (y : Int) {m m' : Int} (hm : 1 ≤ m) (h : m < m') (hm' : m' ≤ 12) :
    daysBeforeMonth y m + daysInMonth y m ≤ daysBeforeMonth y m' := by
  obtain ⟨k, rfl⟩ : ∃ k : Nat, m' = m + 1 + k := ⟨(m' - m - 1).toNat, by omega⟩
  induction k with
  | zero => exact (daysBeforeMonth_succ y hm (by omega)).ge.trans (by simp)
  | succ k ih =>
      have hrest := ih (by omega) (by omega)
      have hlast := daysBeforeMonth_succ y (m := m + 1 + k) (by omega) (by omega)
      have hpos := daysInMonth_pos y (m + 1 + k)
      rw [show m + 1 + ((k + 1 : Nat) : Int) = m + 1 + k + 1 by push_cast; ring, hlast]
      omega

theorem monthOf_spec (y : Int) {place : Int} (h : 0 ≤ place) (h' : place < yearLength y) :
    1 ≤ monthOf y place ∧ monthOf y place ≤ 12 ∧ daysBeforeMonth y (monthOf y place) ≤ place ∧
      place < daysBeforeMonth y (monthOf y place) + daysInMonth y (monthOf y place) := by
  have hjanuary : daysBeforeMonth y ((1 : Nat) : Int) ≤ place := (daysBeforeMonth_one y).trans_le h
  have hone : 1 ≤ monthOf y place := Int.ofNat_le.mpr (Nat.le_findGreatest (by decide) hjanuary)
  have htwelve : monthOf y place ≤ 12 := Int.ofNat_le.mpr (Nat.findGreatest_le 12)
  have hbegins : daysBeforeMonth y (monthOf y place) ≤ place :=
    Nat.findGreatest_spec (P := fun m : Nat => daysBeforeMonth y m ≤ place) (by decide) hjanuary
  refine ⟨hone, htwelve, hbegins, ?_⟩
  rcases htwelve.eq_or_lt with heq | hlt
  · rw [heq, daysBeforeMonth_december]
    exact h'
  · have hnext : ¬ daysBeforeMonth y ((Nat.findGreatest (fun m => daysBeforeMonth y m ≤ place) 12 + 1 : Nat) : Int) ≤ place :=
      Nat.findGreatest_is_greatest (Nat.lt_succ_self _) (Int.ofNat_lt.mp hlt)
    rw [← daysBeforeMonth_succ y hone (by omega)]
    exact not_le.mp hnext

namespace Date

/-- The date of a day. -/
def ofOrdinal (n : Int) : Date :=
  have hyear := yearOf_spec n
  have hmonth := monthOf_spec (yearOf n).1 hyear.2.1 hyear.2.2
  { year := (yearOf n).1
    month := monthOf (yearOf n).1 (yearOf n).2
    day := (yearOf n).2 - daysBeforeMonth (yearOf n).1 (monthOf (yearOf n).1 (yearOf n).2) + 1
    one_le_month := hmonth.1
    month_le := hmonth.2.1
    one_le_day := by omega
    day_le := by omega }

@[simp]
theorem ordinal_ofOrdinal (n : Int) : (ofOrdinal n).ordinal = n := by
  have hyear := yearOf_spec n
  rw [ordinal, ofOrdinal]
  dsimp only
  omega

theorem day_le_31 (d : Date) : d.day ≤ 31 := by
  have hday := d.day_le
  unfold daysInMonth at hday
  split_ifs at hday <;> omega

theorem ordinal_le_month (d : Date) : d.ordinal ≤ daysBeforeYear d.year + daysBeforeMonth d.year d.month + daysInMonth d.year d.month := by
  have hday := d.day_le
  rw [ordinal]
  omega

theorem ordinal_year (d : Date) : daysBeforeYear d.year < d.ordinal ∧ d.ordinal ≤ daysBeforeYear (d.year + 1) := by
  have hday := d.one_le_day
  have hmonth := d.one_le_month
  have hmonth' := d.month_le
  have hmax := d.ordinal_le_month
  have hdecember := daysBeforeMonth_december d.year
  constructor
  · have hstart : 0 ≤ daysBeforeMonth d.year d.month := by
      rcases hmonth.eq_or_lt with heq | hlt
      · rw [← heq, daysBeforeMonth_one]
      · have hmono := daysBeforeMonth_mono d.year le_rfl hlt hmonth'
        have hpos := daysInMonth_pos d.year 1
        rw [daysBeforeMonth_one] at hmono
        omega
    rw [ordinal]
    omega
  · rw [daysBeforeYear_succ]
    rcases hmonth'.eq_or_lt with heq | hlt
    · rw [heq] at hmax
      omega
    · have hmono := daysBeforeMonth_mono d.year hmonth hlt le_rfl
      have hpos := daysInMonth_pos d.year 12
      omega

theorem year_mono {d d' : Date} (h : d.ordinal ≤ d'.ordinal) : d.year ≤ d'.year := by
  by_contra hlt
  have hyears := daysBeforeYear_mono (show d'.year + 1 ≤ d.year by omega)
  have hd := d.ordinal_year
  have hd' := d'.ordinal_year
  omega

theorem ordinal_injective : Function.Injective ordinal := by
  intro d d' h
  have hyear : d.year = d'.year := le_antisymm (year_mono h.le) (year_mono h.ge)
  have hmonths : ∀ {d d' : Date}, d.ordinal = d'.ordinal → d.year = d'.year → ¬ d.month < d'.month := by
    intro d d' h hyear hlt
    have hmono := daysBeforeMonth_mono d.year d.one_le_month hlt d'.month_le
    have hd := d.ordinal_le_month
    have hd' := d'.one_le_day
    rw [h, hyear, ordinal] at hd
    rw [hyear] at hmono
    omega
  have hmonth : d.month = d'.month := le_antisymm (not_lt.mp (hmonths h.symm hyear.symm)) (not_lt.mp (hmonths h hyear))
  have hday : d.day = d'.day := by
    rw [ordinal, ordinal, hyear, hmonth] at h
    omega
  exact Date.ext hyear hmonth hday

@[simp]
theorem ofOrdinal_ordinal (d : Date) : ofOrdinal d.ordinal = d := ordinal_injective (ordinal_ofOrdinal _)

/-- The dates are the days. -/
def equiv : Date ≃ Int where
  toFun := ordinal
  invFun := ofOrdinal
  left_inv := ofOrdinal_ordinal
  right_inv := ordinal_ofOrdinal

end Date

end Calendar
