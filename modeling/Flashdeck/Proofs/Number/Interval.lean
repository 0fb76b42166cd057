import Flashdeck.Proofs.Number.Double
import Flashdeck.Proofs.Number.Rounding

/-!
# The interval of a double

The numbers that are rounded to a double lie between the middles to its two neighbours, and at the
middles themselves if its mantissa is even. The neighbour below is only half as far away where the
mantissa is the least of its length, so the interval is shorter there. However a number of the
interval comes to be rounded, the double is what it is rounded to.

* `IsCanonical`: the mantissas and exponents of doubles.
* `Within`: the interval.
* `roundWithAccuracy_eq_of_within`: what is rounded to the double.
-/

namespace Flashdeck.Number

open Float.Model (UnpackedFloat totalExponent)
open Float.Model.Format (binary64)
open Float.Model.UnpackedFloat (ExtendedMantissa Accuracy roundWithAccuracy)

/-- The parts of a positive double: a mantissa of 53 digits, or a shorter one at the least
exponent. -/
structure IsCanonical (mantissa : Nat) (exponent : Int) : Prop where
  pos : 0 < mantissa
  small : mantissa < 2 ^ 53
  least : -1074 ≤ exponent
  greatest : exponent ≤ 971
  normal : -1074 < exponent → 2 ^ 52 ≤ mantissa

/-- Doubles are not cut any shorter. -/
theorem IsCanonical.targetExponent_eq {mantissa : Nat} {exponent : Int}
    (canonical : IsCanonical mantissa exponent) :
    binary64.targetExponent (totalExponent mantissa exponent) = exponent := by
  obtain ⟨pos, small, least, -, normal⟩ := canonical
  have most : mantissa.log2 < 53 := (Nat.log2_lt pos.ne').2 small
  have full : -1074 < exponent → 52 ≤ mantissa.log2 :=
    fun above => (Nat.le_log2 pos.ne').2 (normal above)
  rw [targetExponent_binary64]
  omega

/-- The number lies in the interval of the double. -/
structure Within (number : ℚ) (mantissa : Nat) (exponent : Int) : Prop where
  rounded : IsRounded (number / 2 ^ exponent) mantissa
  /-- Below the least mantissa of 53 digits, the interval goes down to half as far. -/
  narrow : mantissa = 2 ^ 52 → -1074 < exponent → mantissa - 1 / 4 ≤ number / 2 ^ exponent

/-- A double lies in its own interval. -/
theorem within_self (mantissa : Nat) (exponent : Int) :
    Within (mantissa * 2 ^ exponent) mantissa exponent := by
  have unit : (0 : ℚ) < 2 ^ exponent := by positivity
  have place : (mantissa * 2 ^ exponent / 2 ^ exponent : ℚ) = mantissa :=
    mul_div_cancel_right₀ _ unit.ne'
  refine ⟨⟨?_, ?_, ?_⟩, fun _ _ => ?_⟩ <;> rw [place]
  · linarith
  · linarith
  · rintro (tie | tie) <;> linarith
  · linarith

section Within

variable {number : ℚ} {mantissa : Nat} {exponent : Int} (canonical : IsCanonical mantissa exponent)
  (within : Within number mantissa exponent)

include canonical within

theorem Within.lt_two_pow : number < 2 ^ (exponent + 53) := by
  have unit : (0 : ℚ) < 2 ^ exponent := by positivity
  have small : (mantissa : ℚ) + 1 ≤ 2 ^ (53 : ℤ) := by exact_mod_cast canonical.small
  have high := within.rounded.low
  rw [div_le_iff₀ unit] at high
  calc number ≤ (mantissa + 1 / 2) * 2 ^ exponent := high
    _ < 2 ^ (53 : ℤ) * 2 ^ exponent := by gcongr; linarith
    _ = 2 ^ (exponent + 53) := by rw [← zpow_add₀ two_ne_zero, add_comm]

/-- The interval of a double is above half of the least double. -/
theorem Within.two_pow_le : 2 ^ (-1075 : ℤ) ≤ number := by
  have unit : (0 : ℚ) < 2 ^ exponent := by positivity
  have least := canonical.least
  have some : (1 : ℚ) ≤ mantissa := by exact_mod_cast canonical.pos
  have high := within.rounded.high
  have half : (2⁻¹ : ℚ) * 2 ^ exponent ≤ number := by
    rw [← le_div_iff₀ unit]
    linarith
  refine le_trans ?_ half
  rw [← zpow_neg_one, ← zpow_add₀ two_ne_zero]
  exact zpow_le_zpow_right₀ one_le_two (by omega)

/-- Above the least exponent, the interval does not reach far below the mantissas of 53 digits. -/
theorem Within.le_number (above : -1074 < exponent) :
    (2 ^ 52 - 1 / 4) * 2 ^ exponent ≤ number ∧
      (mantissa ≠ 2 ^ 52 → 2 ^ (exponent + 52) ≤ number) := by
  have unit : (0 : ℚ) < 2 ^ exponent := by positivity
  have full := canonical.normal above
  have low := within.rounded.high
  by_cases least : mantissa = 2 ^ 52
  · refine ⟨?_, fun other => absurd least other⟩
    have narrow := within.narrow least above
    rw [le_div_iff₀ unit, least] at narrow
    exact_mod_cast narrow
  · have more : (2 ^ 52 : ℚ) + 1 ≤ mantissa := by
      have more : 2 ^ 52 + 1 ≤ mantissa := by omega
      exact_mod_cast more
    have above : (2 ^ 52 + 1 / 2 : ℚ) * 2 ^ exponent ≤ number := by
      rw [← le_div_iff₀ unit]
      linarith
    constructor
    · exact le_trans (by gcongr; norm_num) above
    · intro _
      refine le_trans ?_ above
      rw [zpow_add₀ two_ne_zero, mul_comm]
      gcongr
      norm_num

omit canonical in
/-- Just below the least mantissa of 53 digits, a number that is cut to one digit more is rounded up
to one digit too many. -/
theorem Within.isRounded_carry (full : mantissa = 2 ^ 52) (above : -1074 < exponent)
    (short : number < 2 ^ (exponent + 52)) : IsRounded (number / 2 ^ (exponent - 1)) (2 ^ 53) := by
  have unit : (0 : ℚ) < 2 ^ exponent := by positivity
  have double : number / 2 ^ (exponent - 1) = 2 * (number / 2 ^ exponent) := by
    rw [zpow_sub_one₀ two_ne_zero]
    field_simp
  have narrow := within.narrow full above
  have less : number / 2 ^ exponent < 2 ^ 52 := by
    rw [div_lt_iff₀ unit]
    refine short.trans_eq ?_
    rw [zpow_add₀ two_ne_zero, mul_comm]
    rfl
  rw [full] at narrow
  push_cast at narrow
  refine ⟨?_, ?_, fun _ => rfl⟩
  · rw [double]
    push_cast
    linarith
  · rw [double]
    push_cast
    linarith

end Within

/-! ## Rounding into the interval -/

section Rounding

variable {mantissa : Nat} {exponent : Int} {accuracy : Accuracy} {number : ℚ}
  (places : Places accuracy mantissa (number / 2 ^ exponent))

include places

/-- A number is at most one digit longer than 52 digits behind the exponent that it is cut to. -/
theorem lt_two_pow_targetExponent :
    number < 2 ^ (binary64.targetExponent (totalExponent mantissa exponent) + 53) := by
  have unit : (0 : ℚ) < 2 ^ exponent := by positivity
  have digits : (mantissa : ℚ) + 1 ≤ 2 ^ (mantissa.log2 + 1) := by
    have digits : mantissa + 1 ≤ 2 ^ (mantissa.log2 + 1) := Nat.lt_log2_self
    exact_mod_cast digits
  have high := (bounds_of_places places).2
  rw [div_lt_iff₀ unit] at high
  rw [targetExponent_binary64]
  calc number < (mantissa + 1) * 2 ^ exponent := high
    _ ≤ 2 ^ (mantissa.log2 + 1) * 2 ^ exponent := by gcongr
    _ = 2 ^ (((mantissa.log2 + 1 : Nat) : Int) + exponent) := by
      rw [zpow_add₀ two_ne_zero, zpow_natCast]
    _ ≤ _ := zpow_le_zpow_right₀ one_le_two (by omega)

theorem two_pow_targetExponent_le
    (fits : exponent ≤ binary64.targetExponent (totalExponent mantissa exponent))
    (above : -1074 < binary64.targetExponent (totalExponent mantissa exponent)) :
    2 ^ (binary64.targetExponent (totalExponent mantissa exponent) + 52) ≤ number := by
  have unit : (0 : ℚ) < 2 ^ exponent := by positivity
  have low := (bounds_of_places places).1
  rw [le_div_iff₀ unit] at low
  rw [targetExponent_binary64] at fits above ⊢
  have some : mantissa ≠ 0 := by
    rintro rfl
    have log : (0 : Nat).log2 = 0 := rfl
    rw [log] at fits above
    omega
  have digits : (2 : ℚ) ^ mantissa.log2 ≤ mantissa := by exact_mod_cast Nat.log2_self_le some
  calc (2 : ℚ) ^ (max (mantissa.log2 + exponent - 52 : Int) (-1074) + 52)
      = 2 ^ ((mantissa.log2 : Int) + exponent) := by congr 1; omega
    _ = 2 ^ mantissa.log2 * 2 ^ exponent := by rw [zpow_add₀ two_ne_zero, zpow_natCast]
    _ ≤ mantissa * 2 ^ exponent := by gcongr
    _ ≤ number := low

/-- A number in the interval of a double is cut to the exponent of the double, but for numbers just
below the least mantissa of 53 digits, which are cut to one digit more. -/
theorem targetExponent_of_within {mantissa' : Nat} {exponent' : Int}
    (fits : exponent ≤ binary64.targetExponent (totalExponent mantissa exponent))
    (canonical : IsCanonical mantissa' exponent') (within : Within number mantissa' exponent') :
    let target := binary64.targetExponent (totalExponent mantissa exponent)
    target = exponent' ∨
      target = exponent' - 1 ∧ mantissa' = 2 ^ 52 ∧ -1074 < exponent' ∧
        number < 2 ^ (exponent' + 52) := by
  intro target
  have least : -1074 ≤ target := by
    have eq : target = max (mantissa.log2 + exponent - 52) (-1074) := targetExponent_binary64 _ _
    omega
  have high : number < 2 ^ (target + 53) := lt_two_pow_targetExponent places
  have low : -1074 < target → 2 ^ (target + 52) ≤ number := two_pow_targetExponent_le places fits
  rcases lt_trichotomy target exponent' with less | same | more
  · right
    have above : -1074 < exponent' := by omega
    have short : number < 2 ^ (exponent' + 52) :=
      high.trans_le (zpow_le_zpow_right₀ one_le_two (by omega))
    obtain ⟨near, other⟩ := within.le_number canonical above
    refine ⟨?_, ?_, above, short⟩
    · have half : (2 : ℚ) ^ (exponent' + 51) < 2 ^ (target + 53) := by
        refine lt_of_le_of_lt ?_ (near.trans_lt high)
        rw [zpow_add₀ two_ne_zero, mul_comm]
        gcongr
        norm_num
      have order := (zpow_lt_zpow_iff_right₀ one_lt_two).1 half
      omega
    · by_contra different
      exact absurd (other different) (not_le.2 short)
  · exact .inl same
  · have long := low (lt_of_le_of_lt canonical.least more)
    have short := within.lt_two_pow canonical
    have order := (zpow_lt_zpow_iff_right₀ one_lt_two).1 (long.trans_lt short)
    omega

/-- What is left of the number at that exponent is rounded. -/
theorem exists_shiftToTargetExponent
    (fits : exponent ≤ binary64.targetExponent (totalExponent mantissa exponent)) :
    let target := binary64.targetExponent (totalExponent mantissa exponent)
    ∃ extended, UnpackedFloat.shiftToTargetExponent binary64 mantissa exponent accuracy =
      (extended, target) ∧ IsRounded (number / 2 ^ target) extended.roundedMantissa := by
  intro target
  have cut := (represents_ofMantissaAndAccuracy places).shiftRight (target - exponent).toNat
  have scaled : number / 2 ^ exponent / 2 ^ (target - exponent).toNat = number / 2 ^ target := by
    rw [div_div, ← zpow_natCast, ← zpow_add₀ two_ne_zero]
    congr 2
    omega
  rw [scaled] at cut
  refine ⟨_, ?_, cut.isRounded⟩
  rw [UnpackedFloat.shiftToTargetExponent, UnpackedFloat.shiftToExponent]
  exact congrArg _ (by omega)

/-- **A number in the interval of a double is rounded to the double**, whatever mantissa and
accuracy it is given by, if the mantissa is long enough. -/
theorem roundWithAccuracy_eq_of_within {mantissa' : Nat} {exponent' : Int}
    (fits : exponent ≤ binary64.targetExponent (totalExponent mantissa exponent))
    (canonical : IsCanonical mantissa' exponent') (within : Within number mantissa' exponent')
    (sign : UnpackedFloat.Sign) :
    roundWithAccuracy binary64 sign mantissa exponent accuracy =
      .finite sign mantissa' exponent' canonical.pos := by
  obtain ⟨extended, first, rounds⟩ := exists_shiftToTargetExponent places fits
  rcases targetExponent_of_within places fits canonical within with
    same | ⟨same, full, above, short⟩
  · rw [same] at first rounds
    have rounded := rounds.unique within.rounded
    have second : UnpackedFloat.shiftToTargetExponent binary64 extended.roundedMantissa exponent'
        .exact = (ExtendedMantissa.ofMantissaAndAccuracy mantissa' .exact, exponent') := by
      rw [rounded, UnpackedFloat.shiftToTargetExponent, UnpackedFloat.shiftToExponent,
        canonical.targetExponent_eq, Int.sub_self]
      exact Prod.ext rfl (Int.add_zero exponent')
    exact roundWithAccuracy_eq_finite sign first second canonical.pos
  · rw [same] at first rounds
    -- the rounded mantissa has one digit more, and loses it again
    have carried := rounds.unique (within.isRounded_carry full above short)
    have second := shiftToTargetExponent_eq (2 ^ 53) (exponent' - 1) .exact
      (by rw [Nat.log2_two_pow]; decide) (by rw [Nat.log2_two_pow]; omega)
    have kept := (represents_shiftRight (2 ^ 53) 1).mantissa_eq
    have last : exponent' - 1 + ((53 - 52 : Nat) : Int) = exponent' := by omega
    have half : 2 ^ 53 / 2 ^ 1 = mantissa' := full.symm
    rw [half] at kept
    rw [Nat.log2_two_pow, last, ← carried] at second
    rw [← carried] at kept
    have result := roundWithAccuracy_eq_finite sign first second (by rw [kept]; exact canonical.pos)
    simp only [kept] at result
    exact result

end Rounding

end Flashdeck.Number
