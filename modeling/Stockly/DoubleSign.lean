import Stockly.Collection
import Mathlib.Tactic

/-!
# The minus sign in a printed double

The description of a double contains a minus sign for two reasons: the number
has a negative sign, or it is so small that its exponent is printed and
negative.
-/

namespace Stockly.Double

def magnitude (number : Double) : ℚ :=
  number.digits * (10 : ℚ) ^ number.exponent

def value (number : Double) : ℚ :=
  if number.negative then -number.magnitude else number.magnitude

/-- The position of the decimal point, counted from the first digit. -/
def point (number : Double) : ℤ :=
  (Nat.toDigits 10 number.digits).length + number.exponent

theorem magnitude_nonneg (number : Double) : 0 ≤ number.magnitude := by
  unfold magnitude
  positivity

theorem magnitude_pos_iff {number : Double} :
    0 < number.magnitude ↔ number.digits ≠ 0 := by
  unfold magnitude
  constructor
  · rintro hpos hzero
    simp [hzero] at hpos
  · intro hne
    have hdigits : (0 : ℚ) < number.digits := by
      exact_mod_cast Nat.pos_of_ne_zero hne
    positivity

theorem magnitude_bounds {number : Double} (hne : number.digits ≠ 0) :
    (10 : ℚ) ^ (number.point - 1) ≤ number.magnitude ∧
      number.magnitude < (10 : ℚ) ^ number.point := by
  have hpositive : 0 < (Nat.toDigits 10 number.digits).length :=
    Nat.length_toDigits_pos
  have hscale : (0 : ℚ) < (10 : ℚ) ^ number.exponent := by positivity
  constructor
  · have hlow : 10 ^ ((Nat.toDigits 10 number.digits).length - 1) ≤
        number.digits := by
      by_contra hlt
      rcases Nat.eq_zero_or_pos
        ((Nat.toDigits 10 number.digits).length - 1) with hone | hmore
      · simp only [hone, pow_zero] at hlt
        omega
      · have hshort := (Nat.length_toDigits_le_iff (by norm_num) hmore).mpr
          (not_le.mp hlt)
        omega
    have hsplit : number.point - 1 =
        ((Nat.toDigits 10 number.digits).length - 1 : ℕ) +
          number.exponent := by
      unfold point
      omega
    rw [hsplit, zpow_add₀ (by norm_num), zpow_natCast]
    unfold magnitude
    gcongr
    exact_mod_cast hlow
  · have hhigh : number.digits <
        10 ^ (Nat.toDigits 10 number.digits).length := by
      rw [← Nat.length_toDigits_le_iff (by norm_num) hpositive]
    rw [point, zpow_add₀ (by norm_num), zpow_natCast]
    unfold magnitude
    gcongr
    exact_mod_cast hhigh

theorem point_lt_iff {number : Double} (hne : number.digits ≠ 0) :
    number.point < -3 ↔ number.magnitude < 1 / 10000 := by
  rcases magnitude_bounds hne with ⟨hlow, hhigh⟩
  have hbound : (1 / 10000 : ℚ) = (10 : ℚ) ^ (-4 : ℤ) := by norm_num
  rw [hbound]
  constructor
  · intro hpoint
    calc number.magnitude < (10 : ℚ) ^ number.point := hhigh
      _ ≤ (10 : ℚ) ^ (-4 : ℤ) :=
        zpow_le_zpow_right₀ (by norm_num) (by omega)
  · intro hsmall
    have hpow : (10 : ℚ) ^ (number.point - 1) < (10 : ℚ) ^ (-4 : ℤ) :=
      lt_of_le_of_lt hlow hsmall
    have hpoint := (zpow_lt_zpow_iff_right₀ (by norm_num)).mp hpow
    omega

theorem point_pos_of_aboveExactIntegers {number : Double}
    (hne : number.digits ≠ 0) (habove : number.AboveExactIntegers) :
    0 < number.point := by
  have hcast : (2 : ℚ) ^ 53 * 10 ^ (-number.exponent).toNat <
      number.digits * 10 ^ number.exponent.toNat := by
    exact_mod_cast habove
  have hscale : (10 : ℚ) ^ number.exponent *
      10 ^ (-number.exponent).toNat = 10 ^ number.exponent.toNat := by
    rw [← zpow_natCast, ← zpow_natCast, ← zpow_add₀ (by norm_num)]
    congr 1
    omega
  have hlarge : (2 : ℚ) ^ 53 < number.magnitude := by
    rw [← hscale, ← mul_assoc] at hcast
    exact lt_of_mul_lt_mul_right hcast (by positivity)
  have hone : (10 : ℚ) ^ (0 : ℤ) < (10 : ℚ) ^ number.point := by
    refine lt_trans ?_ (magnitude_bounds hne).2
    refine lt_trans ?_ hlarge
    norm_num
  exact (zpow_lt_zpow_iff_right₀ (by norm_num)).mp hone

/-! ## The printed sign -/

theorem minus_not_mem_toDigits (number : ℕ) :
    '-' ∉ Nat.toDigits 10 number := by
  intro hmem
  have hdigit := Nat.isDigit_of_mem_toDigits (by norm_num) (by norm_num) hmem
  contradiction

theorem minus_mem_exponentialDescription (digits : ℕ) (point : ℤ) :
    '-' ∈ exponentialDescription (Nat.toDigits 10 digits) point ↔
      point - 1 < 0 := by
  have htake : '-' ∉ (Nat.toDigits 10 digits).take 1 :=
    fun hmem => minus_not_mem_toDigits digits (List.mem_of_mem_take hmem)
  have hdrop : '-' ∉ (Nat.toDigits 10 digits).drop 1 :=
    fun hmem => minus_not_mem_toDigits digits (List.mem_of_mem_drop hmem)
  have hpower := minus_not_mem_toDigits (point - 1).natAbs
  unfold exponentialDescription
  split <;> split <;> simp_all

theorem minus_not_mem_decimalDescription (digits : ℕ) (point : ℤ) :
    '-' ∉ decimalDescription (Nat.toDigits 10 digits) point := by
  have hdigits := minus_not_mem_toDigits digits
  unfold decimalDescription
  split
  · simp [hdigits]
  · split
    · simp [hdigits]
    · simp only [List.mem_append, List.mem_singleton, not_or]
      refine ⟨⟨fun hmem => ?_, by decide⟩, fun hmem => ?_⟩
      · exact hdigits (List.mem_of_mem_take hmem)
      · exact hdigits (List.mem_of_mem_drop hmem)

/-- Negative numbers and negative zero, and positive numbers below
`0.0001`. -/
def PrintsMinus (number : Double) : Prop :=
  number.negative = true ∨ 0 < number.value ∧ number.value < 1 / 10000

theorem minus_mem_description_iff (number : Double) :
    '-' ∈ number.description.toList ↔ number.PrintsMinus := by
  unfold description PrintsMinus value
  cases hsign : number.negative with
  | true => simp
  | false =>
      simp only [Bool.false_eq_true, if_false, List.nil_append,
        String.toList_ofList, false_or, magnitude_pos_iff]
      by_cases hzero : number.digits = 0
      · simp [hzero]
      · rw [if_neg hzero, ← point_lt_iff hzero]
        by_cases hsmall : number.point < -3
        · have hexponential := minus_mem_exponentialDescription
            number.digits number.point
          rw [if_pos (.inl hsmall), ← point, hexponential]
          simp only [ne_eq, hzero, not_false_eq_true, hsmall, and_true,
            iff_true]
          omega
        · by_cases hlarge : number.AboveExactIntegers
          · have hpoint := point_pos_of_aboveExactIntegers hzero hlarge
            have hexponential := minus_mem_exponentialDescription
              number.digits number.point
            rw [if_pos (.inr hlarge), ← point, hexponential]
            simp only [hsmall, and_false, iff_false]
            omega
          · have hneither : ¬ (number.point < -3 ∨
                number.AboveExactIntegers) := by
              rintro (hpoint | habove)
              · exact hsmall hpoint
              · exact hlarge habove
            have hdecimal := minus_not_mem_decimalDescription
              number.digits number.point
            rw [← point, if_neg hneither]
            simp [hsmall, hdecimal]

end Stockly.Double
