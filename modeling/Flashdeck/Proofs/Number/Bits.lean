import Flashdeck.Number.Format
import Flashdeck.Proofs.Number.Parts

/-!
# The bits of a double

The writer takes a double apart by its bits: one for the sign, eleven for the exponent and the rest
for the mantissa. What it gets are the parts that the arithmetic works with.

* `eq_signed_ofParts`, `eq_signed_zero`: the sign and the magnitude that the bits hold.
-/

namespace Flashdeck.Number

open Float.Model (UnpackedFloat)
open Float.Model.Format (binary64)
open Float.Model.UnpackedFloat (unpackExponent Sign)

theorem eq_of_toNat_toBits_eq {x y : Float} (same : x.toBits.toNat = y.toBits.toNat) : x = y := by
  obtain ⟨⟨bits, valid⟩⟩ := x
  obtain ⟨⟨bits', valid'⟩⟩ := y
  obtain rfl : bits = bits' := UInt64.toNat_inj.1 same
  rfl

/-- A finite double has not all bits of its exponent set. -/
theorem field_lt_of_isInf {x : Float} (number : x.isNaN = false) (finite : x.isInf = false) :
    x.toBits.toNat / 2 ^ 52 % 2 ^ 11 < 2047 := by
  have unpackedNumber : (UnpackedFloat.unpack binary64 x.toBits.toBitVec).isNaN = false := number
  have unpackedFinite : (UnpackedFloat.unpack binary64 x.toBits.toBitVec).isInf = false := finite
  have field : (@unpackExponent binary64 x.toBits.toBitVec).toNat =
      x.toBits.toNat / 2 ^ 52 % 2 ^ 11 := by
    simp only [unpackExponent, BitVec.toNat_cast, BitVec.extractLsb_toNat,
      Nat.shiftRight_eq_div_pow]
    rfl
  have notFull : ¬ @unpackExponent binary64 x.toBits.toBitVec = -1#_ := by
    intro full
    simp only [UnpackedFloat.unpack, if_pos full] at unpackedNumber unpackedFinite
    split at unpackedFinite
    · cases unpackedFinite
    · next none =>
      rw [if_neg none] at unpackedNumber
      cases unpackedNumber
  rw [← field]
  by_contra full
  apply notFull
  apply BitVec.eq_of_toNat_eq
  have bound := (@unpackExponent binary64 x.toBits.toBitVec).isLt
  change _ < 2 ^ 11 at bound
  refine Eq.trans ?_ toNat_neg_one.symm
  omega

/-- The bits of a subnormal double and of a normal one. -/
theorem ofBits_subnormal_or_normal (bits : UInt64) :
    bits.toNat / 2 ^ 52 % 2 ^ 11 = 0 ∧
        Magnitude.ofBits bits = ⟨bits.toNat % 2 ^ 52, -1074, false⟩ ∨
      bits.toNat / 2 ^ 52 % 2 ^ 11 ≠ 0 ∧
        Magnitude.ofBits bits = ⟨2 ^ 52 + bits.toNat % 2 ^ 52,
          (bits.toNat / 2 ^ 52 % 2 ^ 11 : Nat) - 1075,
          bits.toNat % 2 ^ 52 == 0 && bits.toNat / 2 ^ 52 % 2 ^ 11 != 1⟩ := by
  by_cases zero : bits.toNat / 2 ^ 52 % 2 ^ 11 = 0
  · exact .inl ⟨zero, if_pos zero⟩
  · exact .inr ⟨zero, if_neg zero⟩

/-- The parts of a finite double. -/
theorem isCanonical_ofBits {x : Float} (number : x.isNaN = false) (finite : x.isInf = false)
    (some : (Magnitude.ofBits x.toBits).significand ≠ 0) :
    IsCanonical (Magnitude.ofBits x.toBits).significand (Magnitude.ofBits x.toBits).exponent := by
  have room := field_lt_of_isInf number finite
  rcases ofBits_subnormal_or_normal x.toBits with ⟨zero, parts⟩ | ⟨field, parts⟩
  · rw [parts] at some ⊢
    constructor <;> dsimp only at some ⊢ <;> omega
  · rw [parts]
    constructor <;> dsimp only <;> omega

/-- The next double below is half as far away where the mantissa is the least of 53 digits. -/
theorem narrowBelow_ofBits {bits : UInt64} (full : (Magnitude.ofBits bits).significand = 2 ^ 52)
    (above : -1074 < (Magnitude.ofBits bits).exponent) :
    (Magnitude.ofBits bits).narrowBelow = true := by
  rcases ofBits_subnormal_or_normal bits with ⟨zero, parts⟩ | ⟨field, parts⟩
  · rw [parts] at above
    exact absurd above (lt_irrefl _)
  · rw [parts] at full above ⊢
    dsimp only at full above ⊢
    rw [Bool.and_eq_true, beq_iff_eq, bne_iff_ne]
    omega

/-- The bit in front tells the sign. -/
theorem toNat_toBits_eq_add (x : Float) :
    x.toBits.toNat =
      (if Format.isSigned x then Sign.negative else .positive).toBitVec.toNat * 2 ^ 63 +
        x.toBits.toNat % 2 ^ 63 := by
  have bound : x.toBits.toNat < 2 ^ 64 := x.toBits.toNat_lt
  have last : Nat.pow 2 63 = 2 ^ 63 := rfl
  rw [Format.isSigned, last]
  by_cases negative : 2 ^ 63 ≤ x.toBits.toNat
  · have one : Sign.negative.toBitVec.toNat = 1 := rfl
    rw [if_pos (decide_eq_true negative), one]
    omega
  · have none : Sign.positive.toBitVec.toNat = 0 := rfl
    rw [if_neg (by rwa [decide_eq_true_iff]), none]
    omega

/-- **A finite double is the double of the sign and the magnitude that its bits hold.** -/
theorem eq_signed_ofParts {x : Float} (number : x.isNaN = false) (finite : x.isInf = false)
    (some : (Magnitude.ofBits x.toBits).significand ≠ 0) :
    x = signed (Format.isSigned x) (ofParts (Magnitude.ofBits x.toBits).significand
      (Magnitude.ofBits x.toBits).exponent (isCanonical_ofBits number finite some).pos) := by
  have canonical := isCanonical_ofBits number finite some
  rw [signed_ofParts canonical]
  apply eq_of_toNat_toBits_eq
  refine Eq.trans ?_ (toNat_toBits_pack canonical _).symm
  refine (toNat_toBits_eq_add x).trans (congrArg _ ?_)
  clear canonical
  rcases ofBits_subnormal_or_normal x.toBits with ⟨zero, parts⟩ | ⟨field, parts⟩
  · rw [parts]
    dsimp only
    rw [if_pos (by omega)]
    omega
  · rw [parts]
    dsimp only
    rw [if_neg (by omega)]
    omega

/-- Where the bits hold no magnitude, the double is a zero of the sign. -/
theorem eq_signed_zero {x : Float} (none : (Magnitude.ofBits x.toBits).significand = 0) :
    x = signed (Format.isSigned x) (Float.ofScientific 0 true 1) := by
  have rest : x.toBits.toNat % 2 ^ 63 = 0 := by
    rcases ofBits_subnormal_or_normal x.toBits with ⟨zero, parts⟩ | ⟨field, parts⟩
    · rw [parts] at none
      dsimp only at none
      omega
    · rw [parts] at none
      dsimp only at none
      omega
  apply eq_of_toNat_toBits_eq
  rw [toNat_toBits_eq_add x, rest]
  cases Format.isSigned x with
  | false => decide +kernel
  | true => decide +kernel

end Flashdeck.Number
