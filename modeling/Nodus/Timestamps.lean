import Nodus.Rounding
import Mathlib.Data.Nat.Log
import Mathlib.Algebra.Order.Ring.Int

/-! The conversion of a difference of two datetimes of the host into milliseconds: `int(td.total_seconds() * 1000)`. -/

namespace Nodus.Timestamps

open Binary64

/-- `timedelta.total_seconds`, of a difference in microseconds. -/
def totalSeconds (us : Int) : ℚ := toDouble (us / 10 ^ 6)

/-- `int(td.total_seconds() * 1000)`. -/
def toMs (us : Int) : Int := Binary64.truncate (toDouble (totalSeconds us * 1000))

/-- A number of milliseconds comes out as the one before it. -/
def Lossy (m : Int) : Prop :=
  1000 * 2 ^ Nat.log 2 m.natAbs ≤ m.natAbs * 2 ^ 9 ∧ 256 < m.natAbs * 2 ^ (61 - Nat.log 2 m.natAbs) % 1000 ∧
    m.natAbs * 2 ^ (61 - Nat.log 2 m.natAbs) % 1000 < 500

instance (m : Int) : Decidable (Lossy m) := by unfold Lossy; infer_instance

section Positive

variable {a g j q r : ℕ}

theorem totalSeconds_eq (hlow : 1000 * 2 ^ 52 ≤ a * 2 ^ (g + j)) (hhigh : a * 2 ^ (g + j) < 1000 * 2 ^ 53) :
    totalSeconds (1000 * a) = nearest ((a * 2 ^ (g + j) : ℕ) / 1000 : ℚ) / 2 ^ (g + j) := by
  have hseconds : (((1000 * a : Int) : ℚ) / 10 ^ 6) * 2 ^ (g + j) = (a * 2 ^ (g + j) : ℕ) / 1000 := by
    push_cast
    ring
  have hlow' : (1000 * 2 ^ 52 : ℚ) ≤ (a * 2 ^ (g + j) : ℕ) := by exact_mod_cast hlow
  have hhigh' : ((a * 2 ^ (g + j) : ℕ) : ℚ) < 1000 * 2 ^ 53 := by exact_mod_cast hhigh
  have hnonneg : (0 : ℚ) ≤ ((1000 * a : Int) : ℚ) / 10 ^ 6 := by positivity
  rw [totalSeconds, toDouble, if_neg (not_lt.mpr hnonneg), roundPos_eq (k := g + j) (by rw [hseconds]; linarith) (by rw [hseconds]; linarith),
    hseconds]

theorem toMs_scaled {M' : ℤ} {x : ℚ} (hx : 0 ≤ x) (hlow : 2 ^ 52 ≤ x * 1000 * 2 ^ g) (hhigh : x * 1000 * 2 ^ g < 2 ^ 53)
    (hM' : nearest (x * 1000 * 2 ^ g) = M') (hpos : 0 ≤ M') : Binary64.truncate (toDouble (x * 1000)) = M' / 2 ^ g := by
  have hnonneg : (0 : ℚ) ≤ x * 1000 := by positivity
  have hpos' : (0 : ℚ) ≤ M' := by exact_mod_cast hpos
  rw [toDouble, if_neg (not_lt.mpr hnonneg), roundPos_eq hlow hhigh, hM', Binary64.truncate, if_neg (not_lt.mpr (by positivity))]
  have hfloor := Rat.floor_intCast_div_natCast M' (2 ^ g)
  push_cast at hfloor
  exact hfloor

theorem toMs_of_units {n : ℕ} {M' : ℤ} (hseconds : totalSeconds (1000 * a) = n / 2 ^ (g + j)) (hlow : 2 ^ 52 * 2 ^ j ≤ 1000 * n)
    (hhigh : 1000 * n < 2 ^ 53 * 2 ^ j) (hM' : nearest ((1000 * n : ℕ) / 2 ^ j) = M') (hpos : 0 ≤ M') : toMs (1000 * a) = M' / 2 ^ g := by
  have hunits : (n : ℚ) / 2 ^ (g + j) * 1000 * 2 ^ g = (1000 * n : ℕ) / 2 ^ j := by
    push_cast
    rw [pow_add]
    field_simp
  have hlow' : (2 ^ 52 * 2 ^ j : ℚ) ≤ (1000 * n : ℕ) := by exact_mod_cast hlow
  have hhigh' : ((1000 * n : ℕ) : ℚ) < 2 ^ 53 * 2 ^ j := by exact_mod_cast hhigh
  rw [toMs, hseconds]
  refine toMs_scaled (by positivity) ?_ ?_ (by rw [hunits, hM']) hpos
  · rw [hunits, le_div_iff₀ (by positivity)]
    exact hlow'
  · rw [hunits, div_lt_iff₀ (by positivity)]
    exact hhigh'

theorem nearest_thousandths (hr : r < 1000) (hne : r ≠ 500) : nearest (((1000 * q + r : ℕ) : ℚ) / 1000) = if r < 500 then (q : ℤ) else q + 1 := by
  have hvalue : ((1000 * q + r : ℕ) : ℚ) / 1000 = q + r / 1000 := by
    push_cast
    ring
  have hr' : (r : ℚ) < 1000 := by exact_mod_cast hr
  have hr0 : (0 : ℚ) ≤ r := Nat.cast_nonneg r
  rw [hvalue]
  split
  · rename_i hlt
    have hlt' : (r : ℚ) < 500 := by exact_mod_cast hlt
    exact nearest_eq (by push_cast; linarith) (by push_cast; linarith)
  · rename_i hge
    have hge' : (500 : ℚ) < r := by exact_mod_cast (show 500 < r by omega)
    exact nearest_eq (by push_cast; linarith) (by push_cast; linarith)

theorem ediv_pow_eq {d : ℤ} (hg : 1 ≤ g) (hd : 0 ≤ d) (hd' : d ≤ 1) : ((a * 2 ^ g : ℕ) + d) / 2 ^ g = (a : ℤ) := by
  have htwo : (2 : ℤ) ^ 1 ≤ 2 ^ g := pow_le_pow_right₀ (by decide) hg
  push_cast
  rw [add_comm, Int.add_mul_ediv_right _ _ (by omega), Int.ediv_eq_zero_of_lt hd (by omega), zero_add]

theorem ediv_pow_pred (hg : 1 ≤ g) : ((a * 2 ^ g : ℕ) - 1) / 2 ^ g = (a : ℤ) - 1 := by
  have htwo : (2 : ℤ) ^ 1 ≤ 2 ^ g := pow_le_pow_right₀ (by decide) hg
  have hsplit : ((a * 2 ^ g : ℕ) - 1 : ℤ) = (2 ^ g - 1) + (a - 1) * 2 ^ g := by
    push_cast
    ring
  rw [hsplit, Int.add_mul_ediv_right _ _ (by omega), Int.ediv_eq_zero_of_lt (by omega) (by omega), zero_add]

theorem nearest_cut {M : ℕ} (hj : j = 9 ∨ j = 10) (heven : M % 2 = 0) (hr : r < 500) :
    nearest (M - r / 2 ^ j) = if j = 9 ∧ 256 < r then (M : ℤ) - 1 else M := by
  have hr' : (r : ℚ) < 500 := by exact_mod_cast hr
  have hr0 : (0 : ℚ) ≤ r := Nat.cast_nonneg r
  rcases hj with rfl | rfl
  · rcases lt_trichotomy r 256 with hlt | rfl | hgt
    · have hlt' : (r : ℚ) < 256 := by exact_mod_cast hlt
      rw [if_neg (by omega)]
      exact nearest_eq (by push_cast; linarith) (by push_cast; linarith)
    · rw [if_neg (by omega)]
      have hhalf : (M : ℚ) - (256 : ℕ) / 2 ^ 9 = ((M : ℤ) : ℚ) - 1 / 2 := by
        push_cast
        norm_num
      rw [hhalf]
      exact nearest_half (by omega)
    · have hgt' : (256 : ℚ) < r := by exact_mod_cast hgt
      rw [if_pos ⟨rfl, hgt⟩]
      exact nearest_eq (by push_cast; linarith) (by push_cast; linarith)
  · rw [if_neg (by omega)]
    exact nearest_eq (by push_cast; linarith) (by push_cast; linarith)

/-- The number of milliseconds, when `r` is what is left of them over 1000 units of the seconds. -/
theorem toMs_of_places (hj : j = 9 ∨ j = 10) (hg : 1 ≤ g) (hlow : 2 ^ 52 ≤ a * 2 ^ g) (hhigh : a * 2 ^ g < 2 ^ 53)
    (hlow' : 1000 * 2 ^ 52 ≤ a * 2 ^ (g + j)) (hhigh' : a * 2 ^ (g + j) < 1000 * 2 ^ 53) (hqr : a * 2 ^ (g + j) = 1000 * q + r) (hr : r < 1000) :
    toMs (1000 * a) = if j = 9 ∧ 256 < r ∧ r < 500 then (a : Int) - 1 else a := by
  obtain ⟨M, hM⟩ : ∃ M, M = a * 2 ^ g := ⟨_, rfl⟩
  have hscaled : M * 2 ^ j = 1000 * q + r := by rw [hM, mul_assoc, ← pow_add, hqr]
  have hscaledQ : (M * 2 ^ j : ℚ) = 1000 * q + r := by exact_mod_cast hscaled
  have heven : M % 2 = 0 := by
    obtain ⟨g, rfl⟩ := Nat.exists_eq_add_of_le' hg
    rw [hM, pow_succ, ← mul_assoc, Nat.mul_mod_left]
  have hpow : (0 : ℚ) < 2 ^ j := by positivity
  have hseconds := totalSeconds_eq hlow' hhigh'
  rw [hqr, nearest_thousandths hr (by rcases hj with rfl | rfl <;> omega)] at hseconds
  by_cases hcut : r < 500
  · -- The seconds are cut off.
    rw [if_pos hcut] at hseconds
    have hvalue : ((1000 * q : ℕ) : ℚ) / 2 ^ j = M - r / 2 ^ j := by
      push_cast
      rw [eq_sub_iff_add_eq, ← add_div, ← hscaledQ, mul_div_cancel_right₀ _ hpow.ne']
    have hnearest := nearest_cut hj heven hcut
    rw [← hvalue] at hnearest
    rw [toMs_of_units (n := q) (g := g) (hseconds.trans (by rw [Int.cast_natCast])) (by rcases hj with rfl | rfl <;> omega) (by rcases hj with rfl | rfl <;> omega) hnearest
      (by split <;> omega)]
    by_cases hlost : j = 9 ∧ 256 < r
    · rw [if_pos hlost, if_pos ⟨hlost.1, hlost.2, hcut⟩, hM]
      exact ediv_pow_pred hg
    · rw [if_neg hlost, if_neg fun h => hlost ⟨h.1, h.2.1⟩, hM]
      exact (congrArg (· / 2 ^ g) (add_zero _).symm).trans (ediv_pow_eq hg le_rfl (by decide))
  · -- The seconds are rounded up.
    rw [if_neg hcut] at hseconds
    have hfloor : ⌊((1000 * (q + 1) : ℕ) : ℚ) / 2 ^ j⌋ = M := by
      have hcast := Rat.floor_intCast_div_natCast ((1000 * (q + 1) : ℕ) : ℤ) (2 ^ j)
      push_cast at hcast ⊢
      rw [hcast]
      rcases hj with rfl | rfl <;> omega
    obtain ⟨d, hd⟩ : ∃ d, nearest (((1000 * (q + 1) : ℕ) : ℚ) / 2 ^ j) = M + d := ⟨nearest (((1000 * (q + 1) : ℕ) : ℚ) / 2 ^ j) - M, by ring⟩
    have hle := floor_le_nearest (((1000 * (q + 1) : ℕ) : ℚ) / 2 ^ j)
    have hle' := nearest_le_floor (((1000 * (q + 1) : ℕ) : ℚ) / 2 ^ j)
    rw [hfloor, hd] at hle hle'
    rw [toMs_of_units (n := q + 1) (g := g) (hseconds.trans (by push_cast; rfl)) (by rcases hj with rfl | rfl <;> omega) (by rcases hj with rfl | rfl <;> omega) hd
      (by omega), if_neg fun h => hcut h.2.2, hM]
    exact ediv_pow_eq hg (by omega) (by omega)

theorem toMs_pos (ha : 0 < a) (hsmall : a < 2 ^ 52) : toMs (1000 * a) = if Lossy a then (a : Int) - 1 else a := by
  have hlow := Nat.pow_log_le_self 2 ha.ne'
  have hhigh := Nat.lt_pow_succ_log_self (b := 2) (by decide) a
  have hlog : Nat.log 2 a < 52 := Nat.log_lt_of_lt_pow ha.ne' hsmall
  obtain ⟨e, he⟩ : ∃ e, e = Nat.log 2 a := ⟨_, rfl⟩
  obtain ⟨g, hg⟩ : ∃ g, g = 52 - e := ⟨_, rfl⟩
  rw [← he] at hlow hhigh hlog
  have hpow : 2 ^ e * 2 ^ g = 2 ^ 52 := by rw [← pow_add, show e + g = 52 by omega]
  have hlow' : 2 ^ 52 ≤ a * 2 ^ g := hpow ▸ Nat.mul_le_mul_right _ hlow
  have hhigh' : a * 2 ^ g < 2 ^ 53 := by
    have hlt := Nat.mul_lt_mul_of_pos_right hhigh (Nat.two_pow_pos g)
    rwa [pow_succ, mul_right_comm, hpow] at hlt
  have hpos := Nat.two_pow_pos g
  have hnine : a * 2 ^ (g + 9) = a * 2 ^ g * 2 ^ 9 := by rw [pow_add, mul_assoc]
  have hten : a * 2 ^ (g + 10) = a * 2 ^ g * 2 ^ 10 := by rw [pow_add, mul_assoc]
  have hplaces : a * 2 ^ (61 - e) = a * 2 ^ (g + 9) := by rw [show 61 - e = g + 9 by omega]
  have hlossy : Lossy a ↔ 1000 * 2 ^ e ≤ a * 2 ^ 9 ∧ 256 < a * 2 ^ (g + 9) % 1000 ∧ a * 2 ^ (g + 9) % 1000 < 500 := by
    rw [Lossy, Int.natAbs_natCast, ← he, hplaces]
  have hcompare : 1000 * 2 ^ e ≤ a * 2 ^ 9 ↔ 1000 * 2 ^ 52 ≤ a * 2 ^ (g + 9) := by
    rw [hnine, ← hpow, ← mul_assoc, mul_right_comm a]
    exact (Nat.mul_le_mul_right_iff hpos).symm
  by_cases hcase : 1000 * 2 ^ e ≤ a * 2 ^ 9
  · have hresult := toMs_of_places (a := a) (g := g) (j := 9) (.inl rfl) (by omega) hlow' hhigh' (hcompare.mp hcase) (by omega)
      (Nat.div_add_mod _ 1000).symm (Nat.mod_lt _ (by decide))
    rw [hresult]
    refine if_congr ?_ rfl rfl
    rw [hlossy]
    exact ⟨fun h => ⟨hcase, h.2⟩, fun h => ⟨rfl, h.2⟩⟩
  · have hfew : ¬ 1000 * 2 ^ 52 ≤ a * 2 ^ (g + 9) := fun h => hcase (hcompare.mpr h)
    have hresult := toMs_of_places (a := a) (g := g) (j := 10) (.inr rfl) (by omega) hlow' hhigh' (by omega) (by omega)
      (Nat.div_add_mod _ 1000).symm (Nat.mod_lt _ (by decide))
    rw [hresult, if_neg (by omega), if_neg fun h => hcase (hlossy.mp h).1]

end Positive

theorem lossy_neg (m : Int) : Lossy (-m) ↔ Lossy m := by rw [Lossy, Lossy, Int.natAbs_neg]

theorem toMs_neg (us : Int) : toMs (-us) = - toMs us := by
  have hseconds : totalSeconds (-us) = - totalSeconds us := by
    rw [totalSeconds, totalSeconds, Int.cast_neg, neg_div, toDouble_neg]
  rw [toMs, toMs, hseconds, neg_mul, toDouble_neg, truncate_neg]

theorem toMs_zero : toMs 0 = 0 := by
  have hneg := toMs_neg 0
  rw [neg_zero] at hneg
  omega

theorem not_lossy_zero : ¬ Lossy 0 := by decide

theorem toMs_eq {m : Int} (hm : m.natAbs < 2 ^ 52) : toMs (1000 * m) = if Lossy m then m - m.sign else m := by
  obtain ⟨a, rfl | rfl⟩ := Int.eq_nat_or_neg m
  · rcases Nat.eq_zero_or_pos a with rfl | ha
    · rw [Int.natCast_zero, if_neg not_lossy_zero, mul_zero, toMs_zero]
    · rw [Int.natAbs_natCast] at hm
      rw [toMs_pos ha hm, Int.sign_eq_one_of_pos (by omega)]
  · rcases Nat.eq_zero_or_pos a with rfl | ha
    · rw [Int.natCast_zero, neg_zero, if_neg not_lossy_zero, mul_zero, toMs_zero]
    · rw [Int.natAbs_neg, Int.natAbs_natCast] at hm
      rw [mul_neg, toMs_neg, toMs_pos ha hm, Int.sign_neg, Int.sign_eq_one_of_pos (by omega)]
      simp only [lossy_neg]
      split <;> omega

theorem toMs_near {m : Int} (hm : m.natAbs < 2 ^ 52) : (toMs (1000 * m) - m).natAbs ≤ 1 := by
  rw [toMs_eq hm]
  rcases Int.lt_trichotomy m 0 with hneg | rfl | hpos
  · rw [Int.sign_eq_neg_one_of_neg hneg]
    split <;> omega
  · rw [Int.sign_zero]
    split <;> omega
  · rw [Int.sign_eq_one_of_pos hpos]
    split <;> omega

theorem toMs_eq_iff {m : Int} (hm : m.natAbs < 2 ^ 52) : toMs (1000 * m) = m ↔ ¬ Lossy m := by
  rw [toMs_eq hm]
  split
  · rename_i hlossy
    have hne : m ≠ 0 := fun h => not_lossy_zero (h ▸ hlossy)
    have hsign : m.sign ≠ 0 := fun h => hne (Int.sign_eq_zero_iff_zero.mp h)
    exact ⟨fun h => absurd h (by omega), fun h => absurd hlossy h⟩
  · rename_i hexact
    exact ⟨fun _ => hexact, fun _ => rfl⟩

/-- One second and one millisecond. -/
example : Lossy 1001 := by decide

end Nodus.Timestamps
