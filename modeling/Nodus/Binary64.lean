import Mathlib.Data.Nat.Log
import Mathlib.Algebra.Order.Ring.Int
import Mathlib.Tactic.Ring

/-! Integers as binary floating-point numbers of double precision: 53 significant bits, rounding to the nearest, ties to even. -/

namespace Binary64

/-- `q * unit + r` as a multiple of `unit`. -/
def roundUnits (unit q r : Nat) : Nat := if unit < 2 * r ∨ unit = 2 * r ∧ q % 2 = 1 then q + 1 else q

/-- Rounding to 53 significant bits. -/
def roundNat (n : Nat) : Nat :=
  let unit := 2 ^ (Nat.log 2 n + 1 - 53)
  roundUnits unit (n / unit) (n % unit) * unit

/-- The double nearest to an integer; an integer that is too large has none. -/
def ofInt (n : Int) : Option Int :=
  if 2 ^ 1024 ≤ roundNat n.natAbs then none else some (n.sign * roundNat n.natAbs)

/-- From here on an integer has no double. -/
def overflow : Nat := 2 ^ 1024 - 2 ^ 970

theorem le_roundUnits (unit q r : Nat) : q ≤ roundUnits unit q r := by
  unfold roundUnits
  split <;> omega

theorem roundUnits_le (unit q r : Nat) : roundUnits unit q r ≤ q + 1 := by
  unfold roundUnits
  split <;> omega

theorem roundNat_eq {n k : Nat} (h : 2 ^ (k + 52) ≤ n) (h' : n < 2 ^ (k + 53)) :
    roundNat n = roundUnits (2 ^ k) (n / 2 ^ k) (n % 2 ^ k) * 2 ^ k := by
  have hlog : Nat.log 2 n = k + 52 := Nat.log_eq_of_pow_le_of_lt_pow h h'
  unfold roundNat
  rw [hlog, show k + 52 + 1 - 53 = k by omega]

theorem roundNat_of_lt {n : Nat} (h : n < 2 ^ 53) : roundNat n = n := by
  have hlog : Nat.log 2 n + 1 - 53 = 0 := by
    have := Nat.log_lt_of_lt_pow' (b := 2) (by decide) h
    omega
  have hround : roundUnits 1 n 0 = n := by
    unfold roundUnits
    split <;> omega
  unfold roundNat
  simp only [hlog, Nat.pow_zero, Nat.div_one, Nat.mod_one, hround, Nat.mul_one]

theorem div_lt_of_lt {n k : Nat} (h : n < 2 ^ (k + 53)) : n / 2 ^ k < 2 ^ 53 := by
  apply Nat.div_lt_of_lt_mul
  rwa [← Nat.pow_add]

theorem le_div_of_le {n k : Nat} (h : 2 ^ (k + 52) ≤ n) : 2 ^ 52 ≤ n / 2 ^ k := by
  apply (Nat.le_div_iff_mul_le (Nat.two_pow_pos k)).mpr
  rwa [← Nat.pow_add, Nat.add_comm]

theorem exists_units {n : Nat} (h : 2 ^ 53 ≤ n) : ∃ k, 2 ^ (k + 52) ≤ n ∧ n < 2 ^ (k + 53) := by
  have hn : n ≠ 0 := by
    rintro rfl
    exact absurd h (by decide)
  have hlog : 53 ≤ Nat.log 2 n := Nat.le_log_of_pow_le (by decide) h
  refine ⟨Nat.log 2 n - 52, ?_, ?_⟩
  · rw [show Nat.log 2 n - 52 + 52 = Nat.log 2 n by omega]
    exact Nat.pow_log_le_self 2 hn
  · rw [show Nat.log 2 n - 52 + 53 = (Nat.log 2 n).succ by omega]
    exact Nat.lt_pow_succ_log_self (by decide) n

theorem roundNat_le {n k : Nat} (h : n < 2 ^ (k + 53)) : roundNat n ≤ 2 ^ (k + 53) := by
  rcases Nat.lt_or_ge n (2 ^ 53) with hsmall | hlarge
  · rw [roundNat_of_lt hsmall]
    omega
  · obtain ⟨j, hj, hj'⟩ := exists_units hlarge
    have hjk : j ≤ k := by
      by_contra hgt
      have : 2 ^ (k + 53) ≤ 2 ^ (j + 52) := Nat.pow_le_pow_right (by decide) (by omega)
      omega
    calc roundNat n = roundUnits (2 ^ j) (n / 2 ^ j) (n % 2 ^ j) * 2 ^ j := roundNat_eq hj hj'
      _ ≤ 2 ^ 53 * 2 ^ j := Nat.mul_le_mul_right _ ((roundUnits_le _ _ _).trans (div_lt_of_lt hj'))
      _ = 2 ^ (j + 53) := by rw [← Nat.pow_add, Nat.add_comm]
      _ ≤ 2 ^ (k + 53) := Nat.pow_le_pow_right (by decide) (by omega)

theorem le_roundNat {n k : Nat} (h : 2 ^ (k + 53) ≤ n) : 2 ^ (k + 53) ≤ roundNat n := by
  have hlarge : 2 ^ 53 ≤ n := (Nat.pow_le_pow_right (by decide) (Nat.le_add_left 53 k)).trans h
  obtain ⟨j, hj, hj'⟩ := exists_units hlarge
  have hkj : k + 53 < j + 53 := by
    apply (Nat.pow_lt_pow_iff_right (a := 2) (by decide)).mp
    exact h.trans_lt hj'
  calc 2 ^ (k + 53) ≤ 2 ^ (j + 52) := Nat.pow_le_pow_right (by decide) (by omega)
    _ = 2 ^ 52 * 2 ^ j := by rw [← Nat.pow_add, Nat.add_comm]
    _ ≤ roundUnits (2 ^ j) (n / 2 ^ j) (n % 2 ^ j) * 2 ^ j :=
        Nat.mul_le_mul_right _ ((le_div_of_le hj).trans (le_roundUnits _ _ _))
    _ = roundNat n := (roundNat_eq hj hj').symm

/-- A number of 53 bits and a rest is rounded up to the next power of two if half a unit at most is missing. -/
theorem roundUnits_top {q r h : Nat} (hq : q < 2 ^ 53) (hr : r < 2 * h) :
    2 ^ 53 ≤ roundUnits (2 * h) q r ↔ 2 ^ 53 * (2 * h) ≤ q * (2 * h) + r + h := by
  rcases Nat.lt_or_ge q (2 ^ 53 - 1) with hlt | hge
  · have hround := roundUnits_le (2 * h) q r
    have hmul : (q + 2) * (2 * h) ≤ 2 ^ 53 * (2 * h) := Nat.mul_le_mul_right _ (by omega)
    have hadd : (q + 2) * (2 * h) = q * (2 * h) + 2 * (2 * h) := Nat.add_mul _ _ _
    omega
  · obtain rfl : q = 2 ^ 53 - 1 := by omega
    have hadd : 2 ^ 53 * (2 * h) = (2 ^ 53 - 1) * (2 * h) + 2 * h := by ring
    rw [hadd]
    unfold roundUnits
    split <;> omega

theorem pow_le_roundNat_of_le {n k : Nat} (h : 2 ^ (k + 53) ≤ n) (h' : n < 2 ^ (k + 54)) :
    2 ^ (k + 54) ≤ roundNat n ↔ 2 ^ (k + 54) - 2 ^ k ≤ n := by
  have hpow : 2 ^ (k + 54) = 2 ^ 53 * (2 * 2 ^ k) := by
    ring
  have hunit : 2 ^ (k + 1) = 2 * 2 ^ k := by rw [Nat.pow_succ, Nat.mul_comm]
  have hpos : 0 < 2 ^ k := Nat.two_pow_pos k
  have hlow : 2 ^ (k + 1 + 52) ≤ n := h
  have hhigh : n < 2 ^ (k + 1 + 53) := h'
  have hq := div_lt_of_lt hhigh
  have hr : n % 2 ^ (k + 1) < 2 ^ (k + 1) := Nat.mod_lt _ (Nat.two_pow_pos _)
  have hn : n / 2 ^ (k + 1) * 2 ^ (k + 1) + n % 2 ^ (k + 1) = n := Nat.div_add_mod' n _
  rw [roundNat_eq hlow hhigh, hpow, hunit]
  rw [hunit] at hq hr hn
  generalize 2 ^ k = half at *
  rw [Nat.mul_le_mul_right_iff (by omega), roundUnits_top hq hr, hn]
  omega

theorem pow_le_roundNat {n k : Nat} : 2 ^ (k + 54) ≤ roundNat n ↔ 2 ^ (k + 54) - 2 ^ k ≤ n := by
  rcases Nat.lt_or_ge n (2 ^ (k + 54)) with hlt | hge
  · rcases Nat.lt_or_ge n (2 ^ (k + 53)) with hsmall | hlarge
    · have hle := roundNat_le hsmall
      have hhalf : 2 ^ (k + 54) = 2 * 2 ^ (k + 53) := by rw [Nat.pow_succ, Nat.mul_comm]
      have hk : 2 ^ k < 2 ^ (k + 53) := Nat.pow_lt_pow_right (by decide) (by omega)
      omega
    · exact pow_le_roundNat_of_le hlarge hlt
  · exact iff_of_true (le_roundNat (k := k + 1) hge) ((Nat.sub_le _ _).trans hge)

theorem pow_le_roundNat_iff {n : Nat} : 2 ^ 1024 ≤ roundNat n ↔ overflow ≤ n := by
  unfold overflow
  rw [show (1024 : Nat) = 970 + 54 from rfl]
  exact pow_le_roundNat

theorem ofInt_eq_none {n : Int} : ofInt n = none ↔ overflow ≤ n.natAbs := by
  unfold ofInt
  split
  · next h => exact iff_of_true rfl (pow_le_roundNat_iff.mp h)
  · next h => exact iff_of_false (Option.some_ne_none _) fun hle => h (pow_le_roundNat_iff.mpr hle)

theorem ofInt_of_lt {n : Int} (h : n.natAbs < 2 ^ 53) : ofInt n = some n := by
  have hlt : ¬ 2 ^ 1024 ≤ roundNat n.natAbs := by
    rw [roundNat_of_lt h]
    exact Nat.not_le.mpr (h.trans_le (Nat.pow_le_pow_right (by decide) (by decide)))
  unfold ofInt
  rw [if_neg hlt, roundNat_of_lt h, Int.sign_mul_natAbs]

theorem natAbs_of_ofInt {n x : Int} (h : ofInt n = some x) : x.natAbs = roundNat n.natAbs := by
  unfold ofInt at h
  split at h
  · cases h
  · obtain rfl := Option.some_inj.mp h
    rcases eq_or_ne n 0 with rfl | hne
    · rfl
    · rw [Int.natAbs_mul, Int.natAbs_sign_of_ne_zero hne, Nat.one_mul, Int.natAbs_natCast]

theorem ofInt_inj_of_lt {m n : Int} (hn : n.natAbs < 2 ^ 53) (h : ofInt m = ofInt n) : m = n := by
  rw [ofInt_of_lt hn] at h
  have hround := natAbs_of_ofInt h
  rcases Nat.lt_or_ge m.natAbs (2 ^ 53) with hlt | hge
  · rw [ofInt_of_lt hlt] at h
    exact Option.some_inj.mp h
  · have hle : 2 ^ (0 + 53) ≤ roundNat m.natAbs := le_roundNat hge
    rw [Nat.zero_add] at hle
    omega

attribute [irreducible] ofInt overflow

end Binary64
