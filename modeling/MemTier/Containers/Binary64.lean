import Mathlib.Tactic
import Mathlib.Data.Int.Log
import Mathlib.Data.Rat.Floor

/-!
# Division rounded to a double

The quotient of two integers, rounded to a double, and what is left of rounding it up to an integer
afterwards.  As long as the dividend fits into the significand, nothing is lost.
-/

namespace Containers.Binary64

/-- The nearest integer, and of two the even one. -/
def roundHalfEven (value : ℚ) : ℤ :=
  let below := ⌊value⌋
  let rest := value - below
  if rest < 1 / 2 then below
  else if 1 / 2 < rest then below + 1
  else if below % 2 = 0 then below else below + 1

/-- The exponent of the last place of the doubles around a positive number. -/
def lastPlace (value : ℚ) : ℤ := max (-1074) (Int.log 2 value - 52)

/-- The double nearest to a number that is not negative; none where it is too large for a double. -/
def ofRat (value : ℚ) : Option ℚ :=
  let rounded : ℚ := roundHalfEven (value / 2 ^ lastPlace value) * 2 ^ lastPlace value
  if rounded < 2 ^ 1024 then some rounded else none

/-- The quotient of two numbers as a double. -/
def trueDivide (dividend divisor : Nat) : Option ℚ := ofRat (dividend / divisor)

/-! ## Rounding to an integer -/

theorem floor_le_roundHalfEven (value : ℚ) : ⌊value⌋ ≤ roundHalfEven value := by
  rw [roundHalfEven]
  split_ifs <;> omega

/-- Rounding does not pass an integer. -/
theorem roundHalfEven_le {value : ℚ} {bound : ℤ} (le : value ≤ bound) :
    roundHalfEven value ≤ bound := by
  have below : ⌊value⌋ ≤ bound := Int.floor_le_iff.mpr (lt_of_le_of_lt le (lt_add_one _))
  rcases eq_or_lt_of_le below with same | less
  · have exact_ : value - ⌊value⌋ < 1 / 2 := by
      rw [same]
      linarith
    rw [roundHalfEven, if_pos exact_]
    exact below
  · rw [roundHalfEven]
    split_ifs <;> omega

/-- More than half of the way is rounded up. -/
theorem lt_roundHalfEven {value : ℚ} {bound : ℤ} (above : bound + 1 / 2 < value) :
    bound < roundHalfEven value := by
  have le : bound ≤ ⌊value⌋ := Int.le_floor.mpr (by linarith)
  rcases eq_or_lt_of_le le with same | less
  · have up : 1 / 2 < value - ⌊value⌋ := by
      rw [← same]
      linarith
    rw [roundHalfEven, if_neg (not_lt.mpr up.le), if_pos up, ← same]
    exact lt_add_one bound
  · exact lt_of_lt_of_le less (floor_le_roundHalfEven value)

/-! ## Rounding up what was rounded -/

/-- The quotient before it is rounded. -/
theorem exists_lastPlace {dividend divisor : Nat} (positive : 0 < dividend)
    (small : dividend < 2 ^ 53) (nonzero : 0 < divisor) (moderate : divisor < 2 ^ 1022) :
    ∃ places : Nat, lastPlace (dividend / divisor) = -places ∧
      (2 : ℚ) ^ 52 ≤ dividend / divisor * 2 ^ places := by
  have dividend_pos : (0 : ℚ) < dividend := by exact_mod_cast positive
  have divisor_pos : (0 : ℚ) < divisor := by exact_mod_cast nonzero
  have quotient_pos : (0 : ℚ) < dividend / divisor := div_pos dividend_pos divisor_pos
  have low : -1022 ≤ Int.log 2 ((dividend : ℚ) / divisor) := by
    refine (Int.zpow_le_iff_le_log (by norm_num) quotient_pos).mp ?_
    rw [zpow_neg, ← one_div, le_div_iff₀ divisor_pos, div_mul_eq_mul_div, one_mul,
      div_le_iff₀ (by positivity)]
    have one_le : (1 : ℚ) ≤ dividend := by exact_mod_cast positive
    have divisor_le : (divisor : ℚ) ≤ 2 ^ 1022 := by exact_mod_cast moderate.le
    calc (divisor : ℚ) ≤ 1 * 2 ^ 1022 := by rw [one_mul]; exact divisor_le
      _ ≤ dividend * (2 : ℚ) ^ (1022 : ℤ) := by
          rw [show ((2 : ℚ) ^ (1022 : ℤ)) = 2 ^ 1022 from zpow_ofNat 2 1022]
          exact mul_le_mul_of_nonneg_right one_le (by positivity)
  have high : Int.log 2 ((dividend : ℚ) / divisor) < 53 := by
    refine (Int.lt_zpow_iff_log_lt (by norm_num) quotient_pos).mp ?_
    have le : (dividend : ℚ) / divisor ≤ dividend :=
      div_le_self dividend_pos.le (by exact_mod_cast nonzero)
    refine lt_of_le_of_lt le ?_
    rw [show (((2 : Nat) : ℚ) ^ (53 : ℤ)) = 2 ^ 53 from zpow_ofNat 2 53]
    exact_mod_cast small
  obtain ⟨places, places_eq⟩ : ∃ places : Nat,
      Int.log 2 ((dividend : ℚ) / divisor) - 52 = -places := Int.exists_eq_neg_ofNat (by omega)
  refine ⟨places, by rw [lastPlace, places_eq]; omega, ?_⟩
  have floor := Int.zpow_log_le_self (b := 2) (by norm_num) quotient_pos
  have log_eq : Int.log 2 ((dividend : ℚ) / divisor) = 52 - places := by omega
  rw [log_eq, zpow_sub₀ (by norm_num), zpow_natCast] at floor
  rw [div_le_iff₀ (by positivity)] at floor
  exact_mod_cast floor

/-- One part of the divisor is more than half of the last place. -/
theorem half_lt_part {dividend divisor places : Nat} (small : dividend < 2 ^ 53)
    (nonzero : 0 < divisor)
    (significand : (2 : ℚ) ^ 52 ≤ dividend / divisor * 2 ^ places) :
    1 / 2 < (2 : ℚ) ^ places / divisor := by
  have divisor_pos : (0 : ℚ) < divisor := by exact_mod_cast nonzero
  have scale_pos : (0 : ℚ) < 2 ^ places := by positivity
  have bounded : (dividend : ℚ) < 2 ^ 53 := by exact_mod_cast small
  rw [div_mul_eq_mul_div, le_div_iff₀ divisor_pos] at significand
  rw [div_lt_div_iff₀ (by norm_num) divisor_pos, one_mul]
  have product := mul_lt_mul_of_pos_right bounded scale_pos
  linarith

/-- The next lower integer is further away than one part of the divisor. -/
theorem pred_add_part_le {dividend divisor count : Nat} (nonzero : 0 < divisor)
    (tight : count * divisor + 1 ≤ dividend + divisor) :
    ((count : ℚ) - 1) + 1 / divisor ≤ dividend / divisor := by
  have divisor_pos : (0 : ℚ) < divisor := by exact_mod_cast nonzero
  have tight' : (count : ℚ) * divisor + 1 ≤ dividend + divisor := by exact_mod_cast tight
  have same : ((count : ℚ) - 1) + 1 / divisor = (count * divisor + 1 - divisor) / divisor := by
    field_simp
    ring
  rw [same]
  exact div_le_div_of_nonneg_right (by linarith) divisor_pos.le

/-- Rounded up in integers, a quotient is at most its dividend. -/
theorem count_le_dividend {dividend divisor count : Nat} (nonzero : 0 < divisor)
    (tight : count * divisor + 1 ≤ dividend + divisor) : count ≤ dividend := by
  rcases Nat.eq_zero_or_pos count with rfl | positive
  · exact Nat.zero_le _
  · have split : count * divisor = (count - 1) * divisor + divisor := by
      rw [← Nat.succ_mul, Nat.succ_eq_add_one, Nat.sub_add_cancel positive]
    have le : count - 1 ≤ (count - 1) * divisor := Nat.le_mul_of_pos_right _ nonzero
    omega

/-- As long as the dividend fits into the significand, the rounded quotient is rounded up to what the
quotient is rounded up to. -/
theorem ceil_trueDivide {dividend divisor : Nat} (positive : 0 < dividend)
    (small : dividend < 2 ^ 53) (nonzero : 0 < divisor) (moderate : divisor < 2 ^ 1022) :
    ∃ quotient, trueDivide dividend divisor = some quotient ∧
      ⌈quotient⌉ = ((dividend + divisor - 1) / divisor : Nat) := by
  obtain ⟨places, place_eq, significand⟩ := exists_lastPlace positive small nonzero moderate
  clear moderate
  obtain ⟨count, count_eq⟩ : ∃ count, count = (dividend + divisor - 1) / divisor := ⟨_, rfl⟩
  rw [← count_eq]
  have divisor_pos : (0 : ℚ) < divisor := by exact_mod_cast nonzero
  have scale_pos : (0 : ℚ) < 2 ^ places := by positivity
  have enough : dividend ≤ count * divisor := by
    have := @Nat.lt_div_mul_add (dividend + divisor - 1) divisor nonzero
    rw [← count_eq] at this
    omega
  have tight : count * divisor + 1 ≤ dividend + divisor := by
    have := Nat.div_mul_le_self (dividend + divisor - 1) divisor
    rw [← count_eq] at this
    omega
  have half := half_lt_part small nonzero significand
  have unit_eq : (2 : ℚ) ^ lastPlace (dividend / divisor) = (2 ^ places)⁻¹ := by
    rw [place_eq, zpow_neg, zpow_natCast]
  -- The quotient is at most `count`, and beyond `count - 1` by more than half of the last place.
  have upper : roundHalfEven (dividend / divisor * 2 ^ places) ≤ (count * 2 ^ places : Nat) := by
    refine roundHalfEven_le ?_
    push_cast
    refine mul_le_mul_of_nonneg_right ?_ scale_pos.le
    rw [div_le_iff₀ divisor_pos]
    exact_mod_cast enough
  have lower : ((count : ℤ) - 1) * 2 ^ places <
      roundHalfEven (dividend / divisor * 2 ^ places) := by
    refine lt_roundHalfEven ?_
    have scaled := mul_le_mul_of_nonneg_right (pred_add_part_le nonzero tight) scale_pos.le
    push_cast
    calc ((count : ℚ) - 1) * 2 ^ places + 1 / 2
        < ((count : ℚ) - 1) * 2 ^ places + 2 ^ places / divisor := by linarith
      _ = ((count : ℚ) - 1 + 1 / divisor) * 2 ^ places := by ring
      _ ≤ dividend / divisor * 2 ^ places := scaled
  have rounded_le : (roundHalfEven (dividend / divisor * 2 ^ places) : ℚ) * (2 ^ places)⁻¹ ≤
      count := by
    rw [← div_eq_mul_inv, div_le_iff₀ scale_pos]
    exact_mod_cast upper
  refine ⟨roundHalfEven (dividend / divisor * 2 ^ places) * (2 ^ places)⁻¹, ?_, ?_⟩
  · have count_lt : (count : ℚ) < 2 ^ 53 := by
      exact_mod_cast lt_of_le_of_lt (count_le_dividend nonzero tight) small
    have wide : (2 : ℚ) ^ 53 ≤ 2 ^ 1024 := pow_le_pow_right₀ (by norm_num) (by norm_num)
    rw [trueDivide, ofRat]
    simp only [unit_eq, div_inv_eq_mul]
    rw [if_pos (lt_of_le_of_lt rounded_le (lt_of_lt_of_le count_lt wide))]
  · rw [Int.ceil_eq_iff]
    refine ⟨?_, by exact_mod_cast rounded_le⟩
    rw [← div_eq_mul_inv, lt_div_iff₀ scale_pos]
    exact_mod_cast lower

end Containers.Binary64
