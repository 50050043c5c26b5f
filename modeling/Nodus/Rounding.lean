import Mathlib.Algebra.Order.Floor.Ring
import Mathlib.Data.Int.Log
import Mathlib.Data.Rat.Floor
import Mathlib.Tactic.Linarith
import Mathlib.Tactic.Positivity
import Mathlib.Tactic.FieldSimp

/-! Rounding to binary floating-point numbers of double precision, as long as they are normal ones: 53 significant bits, ties to even. -/

namespace Binary64

/-- The nearest integer, of two the even one. -/
def nearest (x : ℚ) : ℤ :=
  if x - ⌊x⌋ < 1 / 2 then ⌊x⌋ else if 1 / 2 < x - ⌊x⌋ then ⌊x⌋ + 1 else if ⌊x⌋ % 2 = 0 then ⌊x⌋ else ⌊x⌋ + 1

/-- The double that is nearest to a positive number. -/
def roundPos (x : ℚ) : ℚ := nearest (x / 2 ^ (Int.log 2 x - 52)) * 2 ^ (Int.log 2 x - 52)

def toDouble (x : ℚ) : ℚ := if x < 0 then - roundPos (-x) else roundPos x

/-- What is left without the digits after the point. -/
def truncate (x : ℚ) : ℤ := if x < 0 then - ⌊-x⌋ else ⌊x⌋

theorem floor_le_nearest (x : ℚ) : ⌊x⌋ ≤ nearest x := by
  unfold nearest
  split_ifs <;> omega

theorem nearest_le_floor (x : ℚ) : nearest x ≤ ⌊x⌋ + 1 := by
  unfold nearest
  split_ifs <;> omega

theorem nearest_eq {x : ℚ} {n : ℤ} (h : n - 1 / 2 < x) (h' : x < n + 1 / 2) : nearest x = n := by
  unfold nearest
  rcases le_or_gt (n : ℚ) x with hle | hlt
  · have hfloor : ⌊x⌋ = n := Int.floor_eq_iff.mpr ⟨hle, by linarith⟩
    rw [hfloor, if_pos (by linarith)]
  · have hfloor : ⌊x⌋ = n - 1 := Int.floor_eq_iff.mpr ⟨by push_cast; linarith, by push_cast; linarith⟩
    rw [hfloor, if_neg (by push_cast; linarith), if_pos (by push_cast; linarith)]
    omega

theorem nearest_half {n : ℤ} (h : n % 2 = 0) : nearest (n - 1 / 2) = n := by
  have hfloor : ⌊(n : ℚ) - 1 / 2⌋ = n - 1 := Int.floor_eq_iff.mpr ⟨by push_cast; linarith, by push_cast; linarith⟩
  unfold nearest
  rw [hfloor, if_neg (by push_cast; linarith), if_neg (by push_cast; linarith), if_neg (by omega)]
  omega

theorem log_eq {x : ℚ} {e : ℤ} (h : 2 ^ e ≤ x) (h' : x < 2 ^ (e + 1)) : Int.log 2 x = e := by
  have hpos : 0 < x := lt_of_lt_of_le (zpow_pos (by norm_num) e) h
  have hle : e ≤ Int.log 2 x := (Int.zpow_le_iff_le_log (by decide) hpos).mp (by exact_mod_cast h)
  have hlt : Int.log 2 x < e + 1 := (Int.lt_zpow_iff_log_lt (by decide) hpos).mp (by exact_mod_cast h')
  omega

theorem roundPos_eq {x : ℚ} {k : ℕ} (h : 2 ^ 52 ≤ x * 2 ^ k) (h' : x * 2 ^ k < 2 ^ 53) : roundPos x = nearest (x * 2 ^ k) / 2 ^ k := by
  have hpow : (0 : ℚ) < 2 ^ k := by positivity
  have hlog : Int.log 2 x = 52 - k := by
    refine log_eq ?_ ?_
    · rw [zpow_sub₀ (by norm_num), zpow_natCast, div_le_iff₀ hpow]
      exact_mod_cast h
    · rw [show (52 : ℤ) - k + 1 = 53 - k by omega, zpow_sub₀ (by norm_num), zpow_natCast, lt_div_iff₀ hpow]
      exact_mod_cast h'
  have hunit : (2 : ℚ) ^ (Int.log 2 x - 52) = 1 / 2 ^ k := by
    rw [hlog, show (52 : ℤ) - k - 52 = -k by omega, zpow_neg, zpow_natCast, one_div]
  rw [roundPos, hunit, div_div_eq_mul_div, div_one, mul_one_div]

theorem roundPos_zero : roundPos 0 = 0 := by
  have hnearest : nearest 0 = 0 := nearest_eq (by norm_num) (by norm_num)
  rw [roundPos, zero_div, hnearest, Int.cast_zero, zero_mul]

theorem toDouble_neg (x : ℚ) : toDouble (-x) = - toDouble x := by
  unfold toDouble
  rcases lt_trichotomy x 0 with hneg | rfl | hpos
  · rw [if_neg (by linarith), if_pos hneg, neg_neg]
  · rw [neg_zero, if_neg (lt_irrefl _), if_neg (lt_irrefl _), roundPos_zero, neg_zero]
  · rw [if_pos (by linarith), if_neg (by linarith), neg_neg]

theorem truncate_neg (x : ℚ) : truncate (-x) = - truncate x := by
  unfold truncate
  rcases lt_trichotomy x 0 with hneg | rfl | hpos
  · rw [if_neg (by linarith), if_pos hneg, neg_neg]
  · rw [neg_zero, if_neg (lt_irrefl _), if_neg (lt_irrefl _), Int.floor_zero, neg_zero]
  · rw [if_pos (by linarith), if_neg (by linarith), neg_neg]

end Binary64
