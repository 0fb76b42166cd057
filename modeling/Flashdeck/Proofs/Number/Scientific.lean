import Flashdeck.Proofs.Number.Parts

/-!
# Decimals in the interval of a double

A decimal becomes a double by one multiplication or one division, of doubles where the mantissa and
the power of ten are doubles, and of whole numbers where they are not. Either way the exact result
is rounded once, so a decimal in the interval of a double becomes the double.

* `mul_eq_of_within`, `div_eq_of_within`: products and quotients in the interval.
* `ofScientific_eq_ofParts`: decimals in the interval.
-/

namespace Flashdeck.Number

open Float.Model (UnpackedFloat totalExponent)
open Float.Model.Format (binary64)
open Float.Model.UnpackedFloat (Accuracy Sign)

variable {mantissa : Nat} {exponent : Int} (canonical : IsCanonical mantissa exponent)

/-! ## Products and quotients -/

/-- Where a fraction of the last place is cut off. -/
theorem places_accuracyOfFraction (whole : Nat) {divisor : Nat} (pos : 0 < divisor) :
    Places (UnpackedFloat.accuracyOfFraction (whole % divisor) divisor) (whole / divisor)
      (whole / divisor : ℚ) := by
  have divisorPos : (0 : ℚ) < divisor := by exact_mod_cast pos
  have split : (whole : ℚ) = divisor * (whole / divisor : Nat) + (whole % divisor : Nat) := by
    exact_mod_cast (Nat.div_add_mod whole divisor).symm
  have quotient : (whole / divisor : ℚ) =
      (whole / divisor : Nat) + (whole % divisor : Nat) / divisor := by
    rw [div_eq_iff divisorPos.ne', add_mul, div_mul_cancel₀ _ divisorPos.ne',
      mul_comm _ (divisor : ℚ)]
    exact split
  have less : ((whole % divisor : Nat) : ℚ) / divisor < 1 := by
    rw [div_lt_one divisorPos]
    exact_mod_cast Nat.mod_lt whole pos
  rw [quotient, UnpackedFloat.accuracyOfFraction]
  generalize whole % divisor = rest at less ⊢
  split
  · next zero =>
    rw [zero, Nat.cast_zero, zero_div]
    exact add_zero _
  · next some =>
    have restPos : (0 : ℚ) < rest / divisor := by
      have restPos : (0 : ℚ) < rest := by exact_mod_cast Nat.pos_of_ne_zero some
      positivity
    cases half : compare (2 * rest) divisor with
    | lt =>
      have short : (2 * rest : ℚ) < divisor := by exact_mod_cast Nat.compare_eq_lt.1 half
      have half : (rest / divisor : ℚ) < 1 / 2 := by
        rw [div_lt_iff₀ divisorPos]
        linarith
      exact ⟨by linarith, by linarith⟩
    | eq =>
      have middle : (2 * rest : ℚ) = divisor := by exact_mod_cast Nat.compare_eq_eq.1 half
      have half : (rest / divisor : ℚ) = 1 / 2 := by
        rw [div_eq_iff divisorPos.ne']
        linarith
      exact congrArg _ half
    | gt =>
      have long : (divisor : ℚ) < 2 * rest := by exact_mod_cast Nat.compare_eq_gt.1 half
      have half : 1 / 2 < (rest / divisor : ℚ) := by
        rw [lt_div_iff₀ divisorPos]
        linarith
      exact ⟨by linarith, by linarith⟩

section Operands

variable {left right : Nat} {leftExponent rightExponent : Int} (leftPos : 0 < left)
  (rightPos : 0 < right) (leftSign rightSign : Sign)

/-- A product with enough digits is rounded to the double in whose interval it is. -/
theorem mul_eq_of_within (long : 52 ≤ (left * right).log2)
    (within : Within ((left * 2 ^ leftExponent) * (right * 2 ^ rightExponent)) mantissa exponent) :
    UnpackedFloat.mul binary64 (.finite leftSign left leftExponent leftPos)
        (.finite rightSign right rightExponent rightPos) =
      .finite (leftSign * rightSign) mantissa exponent canonical.pos := by
  have places : Places .exact (left * right)
      ((left * 2 ^ leftExponent) * (right * 2 ^ rightExponent) /
        2 ^ (leftExponent + rightExponent) : ℚ) := by
    have unit : (2 : ℚ) ^ (leftExponent + rightExponent) ≠ 0 := by positivity
    change _ = ((left * right : Nat) : ℚ)
    rw [div_eq_iff unit, zpow_add₀ two_ne_zero]
    push_cast
    ring
  refine roundWithAccuracy_eq_of_within places ?_ canonical within _
  rw [targetExponent_binary64]
  omega

include leftPos rightPos

/-- A quotient is as long as its operands tell, or one digit shorter. -/
theorem two_pow_le_div :
    (2 : ℚ) ^ (totalExponent left leftExponent - totalExponent right rightExponent - 1) ≤
      (left * 2 ^ leftExponent) / (right * 2 ^ rightExponent) := by
  have rightUnit : (0 : ℚ) < right * 2 ^ rightExponent := by
    have rightPos : (0 : ℚ) < right := by exact_mod_cast rightPos
    positivity
  have long : (2 : ℚ) ^ (left.log2 : Int) ≤ left := by
    rw [zpow_natCast]
    exact_mod_cast Nat.log2_self_le leftPos.ne'
  have short : (right : ℚ) ≤ 2 ^ ((right.log2 + 1 : Nat) : Int) := by
    rw [zpow_natCast]
    exact_mod_cast Nat.lt_log2_self.le
  rw [le_div_iff₀ rightUnit, totalExponent, totalExponent]
  calc (2 : ℚ) ^ (left.log2 + 1 + leftExponent - (right.log2 + 1 + rightExponent) - 1) *
        (right * 2 ^ rightExponent)
      ≤ 2 ^ (left.log2 + 1 + leftExponent - (right.log2 + 1 + rightExponent) - 1) *
        (2 ^ ((right.log2 + 1 : Nat) : Int) * 2 ^ rightExponent) := by gcongr
    _ = 2 ^ (left.log2 : Int) * 2 ^ leftExponent := by
      rw [← zpow_add₀ two_ne_zero, ← zpow_add₀ two_ne_zero, ← zpow_add₀ two_ne_zero]
      congr 1
      push_cast
      ring
    _ ≤ left * 2 ^ leftExponent := by gcongr

/-- A quotient is rounded to the double in whose interval it is. -/
theorem div_eq_of_within
    (within : Within ((left * 2 ^ leftExponent) / (right * 2 ^ rightExponent)) mantissa exponent) :
    UnpackedFloat.div binary64 (.finite leftSign left leftExponent leftPos)
        (.finite rightSign right rightExponent rightPos) =
      .finite (leftSign / rightSign) mantissa exponent canonical.pos := by
  -- the exponent that the whole quotient is brought to
  obtain ⟨target, target_eq⟩ : ∃ target, target = min (leftExponent - rightExponent)
    (binary64.targetExponent
      (totalExponent left leftExponent - totalExponent right rightExponent)) := ⟨_, rfl⟩
  obtain ⟨shift, shift_eq⟩ : ∃ shift : Nat, (shift : Int) = leftExponent - rightExponent - target :=
    ⟨(leftExponent - rightExponent - target).toNat, by omega⟩
  have rightUnit : (right : ℚ) ≠ 0 := by exact_mod_cast rightPos.ne'
  have scaled : (left * 2 ^ leftExponent) / (right * 2 ^ rightExponent) / 2 ^ target =
      ((left * 2 ^ shift : Nat) / right : ℚ) := by
    have power : (2 : ℚ) ^ leftExponent = 2 ^ shift * 2 ^ rightExponent * 2 ^ target := by
      rw [← zpow_natCast, ← zpow_add₀ two_ne_zero, ← zpow_add₀ two_ne_zero]
      congr 1
      omega
    rw [power]
    push_cast
    field_simp
  have places := places_accuracyOfFraction (left * 2 ^ shift) rightPos
  rw [← scaled] at places
  have core : UnpackedFloat.divCore binary64 left leftExponent right rightExponent =
      (left * 2 ^ shift / right, target,
        UnpackedFloat.accuracyOfFraction (left * 2 ^ shift % right) right) := by
    have whole : (leftExponent - rightExponent - target).toNat = shift := by omega
    simp only [UnpackedFloat.divCore, ← target_eq, whole, Nat.shiftLeft_eq]
  have fits : target ≤
      binary64.targetExponent (totalExponent (left * 2 ^ shift / right) target) := by
    have digits : (binary64.mantissaBits : Int) = 53 := rfl
    have bottom : binary64.minExponent = -1074 := rfl
    rw [Float.Model.Format.targetExponent, digits, bottom] at target_eq
    rw [targetExponent_binary64]
    by_cases least : target ≤ -1074
    · omega
    · have long : (2 : ℚ) ^ (52 : ℤ) ≤ (left * 2 ^ shift : Nat) / right := by
        have unit : (0 : ℚ) < 2 ^ target := by positivity
        rw [← scaled, le_div_iff₀ unit, ← zpow_add₀ two_ne_zero]
        exact (zpow_le_zpow_right₀ one_le_two (by omega)).trans (two_pow_le_div leftPos rightPos)
      have whole : 2 ^ 52 ≤ left * 2 ^ shift / right := by
        rw [Nat.le_div_iff_mul_le rightPos]
        rw [le_div_iff₀ (by exact_mod_cast rightPos)] at long
        exact_mod_cast long
      have log := (Nat.le_log2 (by omega)).2 whole
      omega
  have rounded := roundWithAccuracy_eq_of_within places fits canonical within
    (leftSign / rightSign)
  rw [UnpackedFloat.div, core]
  exact rounded

end Operands

/-! ## Decimals -/

/-- The number that a mantissa and a power of ten denote. -/
def scientific (mantissa : Nat) (negative : Bool) (power : Nat) : ℚ :=
  if negative then mantissa / 10 ^ power else mantissa * 10 ^ power

/-- A short decimal is a product or a quotient of doubles. -/
theorem ofScientific_eq_ofParts_of_lt {digits power : Nat} {negative : Bool} (pos : 0 < digits)
    (small : digits < 2 ^ 53) (low : power ≤ 22)
    (within : Within (scientific digits negative power) mantissa exponent) :
    Float.ofScientific digits negative power = ofParts mantissa exponent canonical.pos := by
  obtain ⟨zeros, places, long, short⟩ := exists_zeros pos small
  have left := unpack_toFloat places long short
  have size : Float.exactlyRepresentablePowersOfTen.size = 23 := rfl
  have listed : power < Float.exactlyRepresentablePowersOfTen.size := by omega
  obtain ⟨factor, factorExponent, factorPos, right, factorEq⟩ :=
    exists_of_isPowerOfTen (isPowerOfTen_exactlyRepresentable ⟨power, listed⟩)
  replace right : (Float.exactlyRepresentablePowersOfTen[power]).toModel.unpack =
    .finite .positive factor factorExponent factorPos := right
  unfold Float.ofScientific
  rw [dif_pos ⟨small, low⟩]
  cases negative with
  | false =>
    have product : digits.toUInt64.toFloat * Float.exactlyRepresentablePowersOfTen[power] =
        .ofModel (.pack (UnpackedFloat.mul binary64 digits.toUInt64.toFloat.toModel.unpack
          (Float.exactlyRepresentablePowersOfTen[power]).toModel.unpack)) := rfl
    have digitsLong : 52 ≤ (digits * 2 ^ zeros * factor).log2 :=
      (Nat.le_log2 (by positivity)).2 (long.trans (Nat.le_mul_of_pos_right _ factorPos))
    have exact : Within ((digits * 2 ^ zeros : Nat) * 2 ^ (-(zeros : Int)) *
        (factor * 2 ^ factorExponent)) mantissa exponent := by
      rw [cast_whole, factorEq]
      exact within
    have rounded := mul_eq_of_within canonical (by omega) factorPos .positive .positive digitsLong
      exact
    refine product.trans ?_
    rw [left, right]
    exact congrArg (fun unpacked => Float.ofModel (.pack unpacked)) rounded
  | true =>
    have quotient : digits.toUInt64.toFloat / Float.exactlyRepresentablePowersOfTen[power] =
        .ofModel (.pack (UnpackedFloat.div binary64 digits.toUInt64.toFloat.toModel.unpack
          (Float.exactlyRepresentablePowersOfTen[power]).toModel.unpack)) := rfl
    have exact : Within ((digits * 2 ^ zeros : Nat) * 2 ^ (-(zeros : Int)) /
        (factor * 2 ^ factorExponent)) mantissa exponent := by
      rw [cast_whole, factorEq]
      exact within
    have rounded := div_eq_of_within canonical (by omega) factorPos .positive .positive exact
    refine quotient.trans ?_
    rw [left, right]
    exact congrArg (fun unpacked => Float.ofModel (.pack unpacked)) rounded

include canonical in
/-- The power of ten is not so great or small that the decimal is not computed. -/
theorem bounds_of_within {digits : Nat} {power : Int} (pos : 0 < digits)
    (within : Within (digits * 10 ^ power) mantissa exponent) :
    power ≤ 2048 ∧ -(2048 + digits.log2) ≤ power := by
  constructor
  · by_contra huge
    obtain ⟨n, rfl⟩ := Int.eq_ofNat_of_zero_le (by omega : 0 ≤ power)
    have greatest := canonical.greatest
    have some : (1 : ℚ) ≤ digits := by exact_mod_cast pos
    have long : (2 : ℚ) ^ (n : Int) < 2 ^ (exponent + 53) :=
      calc (2 : ℚ) ^ (n : Int) = 1 * 2 ^ n := by rw [one_mul, zpow_natCast]
        _ ≤ digits * 10 ^ n := by gcongr; norm_num
        _ = digits * 10 ^ (n : Int) := by rw [zpow_natCast]
        _ < 2 ^ (exponent + 53) := within.lt_two_pow canonical
    have order := (zpow_lt_zpow_iff_right₀ one_lt_two).1 long
    omega
  · by_contra tiny
    obtain ⟨n, rfl⟩ := Int.exists_eq_neg_ofNat (by omega : power ≤ 0)
    have short : (digits : ℚ) < 2 ^ ((digits.log2 + 1 : Nat) : Int) := by
      rw [zpow_natCast]
      exact_mod_cast Nat.lt_log2_self
    have less : (2 : ℚ) ^ (-1075 : ℤ) < 2 ^ (((digits.log2 + 1 : Nat) : Int) + -(n : Int)) :=
      calc (2 : ℚ) ^ (-1075 : ℤ) ≤ digits * 10 ^ (-(n : Int)) := within.two_pow_le canonical
        _ = digits * (10 ^ n)⁻¹ := by rw [zpow_neg, zpow_natCast]
        _ ≤ digits * (2 ^ n)⁻¹ := by gcongr; norm_num
        _ = digits * 2 ^ (-(n : Int)) := by rw [zpow_neg, zpow_natCast]
        _ < 2 ^ ((digits.log2 + 1 : Nat) : Int) * 2 ^ (-(n : Int)) := by gcongr
        _ = _ := (zpow_add₀ two_ne_zero _ _).symm
    have order := (zpow_lt_zpow_iff_right₀ one_lt_two).1 less
    omega

/-- A long decimal is a product or a quotient of whole numbers. -/
theorem unpackedOfScientific_eq_finite {digits : Nat} {power : Int} (pos : 0 < digits)
    (within : Within (digits * 10 ^ power) mantissa exponent) :
    UnpackedFloat.ofScientific binary64 digits power =
      .finite .positive mantissa exponent canonical.pos := by
  obtain ⟨notHuge, notTiny⟩ := bounds_of_within canonical pos within
  have bits : (2 : Int) ^ binary64.exponentBits = 2048 := rfl
  rw [UnpackedFloat.ofScientific, dif_neg pos.ne', if_neg (by omega), if_neg (by omega)]
  split
  · next whole =>
    obtain ⟨n, rfl⟩ := Int.eq_ofNat_of_zero_le whole
    have shifted : digits <<< binary64.mantissaBits = digits * 2 ^ 53 := Nat.shiftLeft_eq _ _
    have long : 52 ≤ (digits <<< binary64.mantissaBits * 10 ^ (n : Int).toNat).log2 := by
      have some : 0 < 10 ^ (n : Int).toNat := Nat.pow_pos (by decide)
      have digitsLong : 2 ^ 52 ≤ digits * 2 ^ 53 := by omega
      rw [shifted]
      exact (Nat.le_log2 (by positivity)).2 (digitsLong.trans (Nat.le_mul_of_pos_right _ some))
    refine mul_eq_of_within canonical _ _ .positive .positive long ?_
    have same : ((digits <<< binary64.mantissaBits : Nat) * 2 ^ (-(binary64.mantissaBits : Int)) *
        ((10 ^ (n : Int).toNat : Nat) * 2 ^ (0 : Int)) : ℚ) = digits * 10 ^ (n : Int) := by
      have zeros : (binary64.mantissaBits : Int) = (53 : Nat) := rfl
      rw [shifted, zeros, zpow_neg, zpow_natCast, zpow_natCast, Int.toNat_natCast, zpow_zero,
        mul_one, Nat.cast_mul, Nat.cast_pow, Nat.cast_pow, Nat.cast_ofNat, Nat.cast_ofNat,
        mul_inv_cancel_right₀ (by positivity)]
    rw [same]
    exact within
  · next fraction =>
    obtain ⟨n, rfl⟩ := Int.exists_eq_neg_ofNat (by omega : power ≤ 0)
    refine div_eq_of_within canonical _ _ .positive .positive ?_
    have same : ((digits : Nat) * 2 ^ (0 : Int) /
        ((10 ^ (- -(n : Int)).toNat : Nat) * 2 ^ (0 : Int)) : ℚ) = digits * 10 ^ (-(n : Int)) := by
      rw [neg_neg, Int.toNat_natCast, zpow_zero, mul_one, mul_one, zpow_neg, zpow_natCast,
        div_eq_mul_inv, Nat.cast_pow, Nat.cast_ofNat]
    rw [same]
    exact within

/-- **A decimal in the interval of a double becomes the double.** -/
theorem ofScientific_eq_ofParts {digits power : Nat} {negative : Bool} (pos : 0 < digits)
    (within : Within (scientific digits negative power) mantissa exponent) :
    Float.ofScientific digits negative power = ofParts mantissa exponent canonical.pos := by
  by_cases fast : digits < 2 ^ 53 ∧ power ≤ 22
  · exact ofScientific_eq_ofParts_of_lt canonical pos fast.1 fast.2 within
  · rw [Float.ofScientific, dif_neg fast]
    cases negative with
    | false =>
      have exact : Within (digits * 10 ^ (power : Int)) mantissa exponent := by
        rw [zpow_natCast]
        exact within
      exact congrArg (fun unpacked => Float.ofModel (.pack unpacked))
        (unpackedOfScientific_eq_finite canonical pos exact)
    | true =>
      have exact : Within (digits * 10 ^ Int.negOfNat power) mantissa exponent := by
        rw [Int.negOfNat_eq, Int.ofNat_eq_natCast, zpow_neg, zpow_natCast, ← div_eq_mul_inv]
        exact within
      exact congrArg (fun unpacked => Float.ofModel (.pack unpacked))
        (unpackedOfScientific_eq_finite canonical pos exact)

end Flashdeck.Number
