import Mathlib
import Flashdeck.Number.Decimal

/-!
# Doubles that are numbers

The arithmetic of the reader never runs into something that is not a number. A double is kept as
its bits, so each operation unpacks its operands and packs its result; packing turns nothing into
what is not a number, rounding gives a zero or a finite value, and the powers of ten that the reader
multiplies and divides by are finite and not zero.

* `isNaN_pack`: packing keeps numbers apart from what is none.
* `isPowerOfTen_exactlyRepresentable`: the powers of ten that the reader scales by.
* `isNaN_ofScientific`, `Decimal.isNaN_toFloat`: a decimal denotes a number.
-/

namespace Flashdeck.Number

open Float.Model (UnpackedFloat)
open Float.Model.Format (binary64)
open Float.Model.UnpackedFloat (unpackExponent unpackMantissa unpackSign packComponents
  unpackExponent_packComponents unpackMantissa_packComponents roundWithAccuracy)

theorem cast_exponentBias : (binary64.exponentBias : Int) = 1023 := rfl

theorem toNat_neg_one : (-1#11).toNat = 2047 := rfl

/-! ## Packing -/

theorem ne_packedNaN_of_exponent {bits : BitVec binary64.numBits}
    (room : unpackExponent bits ≠ (-1#_)) : bits ≠ UnpackedFloat.packedNaN binary64 := by
  rintro rfl
  exact room unpackExponent_packComponents

theorem ne_packedNaN_of_mantissa {bits : BitVec binary64.numBits}
    (zero : unpackMantissa bits = 0#_) : bits ≠ UnpackedFloat.packedNaN binary64 := by
  rintro rfl
  rw [UnpackedFloat.packedNaN, unpackMantissa_packComponents] at zero
  exact absurd zero (by decide)

/-- Packing keeps numbers apart from what is none. -/
theorem isNaN_pack (f : UnpackedFloat) : (Float.Model.pack f).isNaN = f.isNaN := by
  have packed : (Float.Model.pack f).isNaN = true ↔
      UnpackedFloat.pack binary64 f = UnpackedFloat.packedNaN binary64 :=
    UnpackedFloat.isNaN_unpack_iff_of_valid UnpackedFloat.valid_pack
  rw [Bool.eq_iff_iff, packed]
  cases f with
  | notANumber => exact iff_of_true rfl rfl
  | infinity sign =>
    exact iff_of_false (ne_packedNaN_of_mantissa unpackMantissa_packComponents) Bool.false_ne_true
  | zero sign =>
    refine iff_of_false (ne_packedNaN_of_exponent ?_) Bool.false_ne_true
    rw [UnpackedFloat.pack, UnpackedFloat.packedZero, unpackExponent_packComponents]
    decide
  | finite sign mantissa exponent pos =>
    apply iff_of_false _ Bool.false_ne_true
    simp only [UnpackedFloat.pack]
    split
    · exact ne_packedNaN_of_mantissa unpackMantissa_packComponents
    · next room =>
      apply ne_packedNaN_of_exponent
      split
      · rw [unpackExponent_packComponents]
        intro same
        have full := congrArg BitVec.toNat same
        rw [BitVec.toNat_ofNat, toNat_neg_one] at full
        omega
      · rw [unpackExponent_packComponents]
        decide

/-- The packed fields, one behind the other. -/
theorem toNat_packComponents (sign : UnpackedFloat.Sign) (exponent : BitVec binary64.exponentBits)
    (mantissa : BitVec binary64.mantissaBitsWithoutImplicit) :
    (packComponents binary64 sign exponent mantissa).toNat =
      (sign.toBitVec.toNat * 2 ^ 11 + exponent.toNat) * 2 ^ 52 + mantissa.toNat := by
  rw [packComponents, BitVec.toNat_append, BitVec.toNat_append,
    ← Nat.shiftLeft_add_eq_or_of_lt mantissa.isLt, ← Nat.shiftLeft_add_eq_or_of_lt exponent.isLt,
    Nat.shiftLeft_eq, Nat.shiftLeft_eq]

/-! ## Normal doubles -/

/-- A bit in front of others. -/
theorem toNat_one_append {width : Nat} (bits : BitVec width) :
    (1#1 ++ bits).toNat = 2 ^ width + bits.toNat := by
  rw [BitVec.toNat_append, ← Nat.shiftLeft_add_eq_or_of_lt bits.isLt, Nat.shiftLeft_eq]
  exact congrArg (· + bits.toNat) (Nat.one_mul _)

section Normal

variable {sign : UnpackedFloat.Sign} {mantissa : Nat} {exponent : Int} (pos : 0 < mantissa)
  (low : 2 ^ 52 ≤ mantissa) (high : mantissa < 2 ^ 53) (least : -1074 ≤ exponent)
  (greatest : exponent ≤ 971)

include low high least greatest

/-- The bits of a normal double: its sign, the exponent with the bias of the format, and the
mantissa without its first bit. -/
theorem pack_normal :
    UnpackedFloat.pack binary64 (.finite sign mantissa exponent pos) =
      packComponents binary64 sign (BitVec.ofNat 11 (exponent + 1075).toNat)
        (BitVec.ofNat 52 mantissa) := by
  have digits : mantissa.log2 = 52 := (Nat.log2_eq_iff (by omega)).2 ⟨low, high⟩
  have bias : exponent + (binary64.exponentBias : Int) + (52 : Nat) = exponent + 1075 := by
    have value := cast_exponentBias
    omega
  have room : ¬ 2 ^ binary64.exponentBits ≤ (exponent + 1075).toNat + 1 := by
    change ¬ 2 ^ 11 ≤ _
    omega
  have whole : mantissa.log2 + 1 = binary64.mantissaBits := by
    rw [digits]
    rfl
  simp only [UnpackedFloat.pack]
  rw [bias, if_neg room, if_pos whole]

/-- A normal double is unpacked as it was packed. -/
theorem unpack_pack_normal :
    (Float.Model.pack (.finite sign mantissa exponent pos)).unpack =
      .finite sign mantissa exponent pos := by
  have packed : (Float.Model.pack (.finite sign mantissa exponent pos)).unpack =
    UnpackedFloat.unpack binary64
      (UnpackedFloat.pack binary64 (.finite sign mantissa exponent pos)) := rfl
  have field : (BitVec.ofNat 11 (exponent + 1075).toNat).toNat = (exponent + 1075).toNat := by
    rw [BitVec.toNat_ofNat, Nat.mod_eq_of_lt (by omega)]
  have notFull : ¬ BitVec.ofNat 11 (exponent + 1075).toNat = (-1#_) := by
    intro full
    have all := congrArg BitVec.toNat full
    rw [field, toNat_neg_one] at all
    omega
  have notZero : ¬ BitVec.ofNat 11 (exponent + 1075).toNat = 0#_ := by
    intro zero
    have none := congrArg BitVec.toNat zero
    rw [field, BitVec.toNat_zero] at none
    omega
  have kept : (1#1 ++ BitVec.ofNat 52 mantissa).toNat = mantissa := by
    rw [toNat_one_append, BitVec.toNat_ofNat]
    omega
  have bias : ((exponent + 1075).toNat : Int) - (binary64.exponentBias + (52 : Nat)) =
      exponent := by
    have value := cast_exponentBias
    omega
  rw [packed, pack_normal pos low high least greatest]
  simp only [UnpackedFloat.unpack, unpackExponent_packComponents, unpackMantissa_packComponents,
    UnpackedFloat.unpackSign_packComponents, UnpackedFloat.Sign.ofBitVec_toBitVec,
    if_neg notFull, if_neg notZero, field, kept, bias]

end Normal

/-- The mantissa of a double has 53 digits at most. -/
theorem mantissa_lt_of_unpack {x : Float} {sign : UnpackedFloat.Sign} {mantissa : Nat}
    {exponent : Int} {pos : 0 < mantissa}
    (unpacked : x.toModel.unpack = .finite sign mantissa exponent pos) : mantissa < 2 ^ 53 := by
  have bits : x.toModel.unpack = UnpackedFloat.unpack binary64 x.toModel.toBits.toBitVec := rfl
  rw [bits] at unpacked
  simp only [UnpackedFloat.unpack] at unpacked
  split at unpacked
  · split at unpacked <;> cases unpacked
  · split at unpacked
    · split at unpacked
      · cases unpacked
      · cases unpacked
        have small := (@unpackMantissa binary64 x.toModel.toBits.toBitVec).isLt
        change _ < 2 ^ 52 at small
        omega
    · cases unpacked
      rw [toNat_one_append]
      have small := (@unpackMantissa binary64 x.toModel.toBits.toBitVec).isLt
      change _ < 2 ^ 52 at small
      change 2 ^ 52 + _ < 2 ^ 53
      omega

/-! ## Arithmetic -/

theorem isNaN_roundWithAccuracy (sign : UnpackedFloat.Sign) (mantissa : Nat) (exponent : Int)
    (accuracy : UnpackedFloat.Accuracy) :
    (roundWithAccuracy binary64 sign mantissa exponent accuracy).isNaN = false := by
  unfold roundWithAccuracy
  dsimp only
  split <;> rfl

theorem isNaN_ofUInt64 (n : UInt64) : n.toFloat.isNaN = false := by
  have packed : n.toFloat.isNaN =
      (Float.Model.pack (UnpackedFloat.ofUInt64 binary64 n)).isNaN := rfl
  rw [packed, isNaN_pack, UnpackedFloat.ofUInt64, UnpackedFloat.ofNat, UnpackedFloat.ofInt,
    UnpackedFloat.normalize]
  split
  · exact isNaN_roundWithAccuracy _ _ _ _
  · rfl
  · exact isNaN_roundWithAccuracy _ _ _ _

/-- Multiplying and dividing by a finite double that is not zero keeps numbers numbers. -/
theorem isNaN_scaled {x y : Float} {sign : UnpackedFloat.Sign} {mantissa : Nat} {exponent : Int}
    {pos : 0 < mantissa} (number : x.isNaN = false)
    (unpacked : y.toModel.unpack = .finite sign mantissa exponent pos) :
    (x * y).isNaN = false ∧ (x / y).isNaN = false := by
  have product : (x * y).isNaN = (Float.Model.pack
      (UnpackedFloat.mul binary64 x.toModel.unpack y.toModel.unpack)).isNaN := rfl
  have quotient : (x / y).isNaN = (Float.Model.pack
      (UnpackedFloat.div binary64 x.toModel.unpack y.toModel.unpack)).isNaN := rfl
  have operand : x.toModel.unpack.isNaN = false := number
  rw [product, quotient, isNaN_pack, isNaN_pack, unpacked]
  cases left : x.toModel.unpack with
  | notANumber =>
    rw [left] at operand
    cases operand
  | infinity => exact ⟨rfl, rfl⟩
  | zero => exact ⟨rfl, rfl⟩
  | finite => exact ⟨isNaN_roundWithAccuracy _ _ _ _, isNaN_roundWithAccuracy _ _ _ _⟩

theorem isNaN_neg (x : Float) : (-x).isNaN = x.isNaN := by
  have packed : (-x).isNaN = (Float.Model.pack x.toModel.unpack.neg).isNaN := rfl
  have operand : x.isNaN = x.toModel.unpack.isNaN := rfl
  rw [packed, isNaN_pack, operand]
  cases x.toModel.unpack <;> rfl

/-! ## Powers of ten -/

/-- Is the double the given power of ten? -/
def isPowerOfTen (x : Float) (power : Nat) : Bool :=
  match x.toModel.unpack with
  | .finite .positive mantissa exponent _ =>
    mantissa * 2 ^ exponent.toNat = 10 ^ power * 2 ^ (-exponent).toNat
  | _ => false

theorem isPowerOfTen_exactlyRepresentable :
    ∀ i : Fin Float.exactlyRepresentablePowersOfTen.size,
      isPowerOfTen Float.exactlyRepresentablePowersOfTen[i] i = true := by
  decide +kernel

theorem exists_of_isPowerOfTen {x : Float} {power : Nat} (holds : isPowerOfTen x power = true) :
    ∃ mantissa exponent pos, x.toModel.unpack = .finite .positive mantissa exponent pos ∧
      (mantissa * 2 ^ exponent : ℚ) = 10 ^ power := by
  unfold isPowerOfTen at holds
  split at holds
  · next mantissa exponent pos unpacked =>
    have same := of_decide_eq_true holds
    refine ⟨mantissa, exponent, pos, unpacked, ?_⟩
    have scaled : (mantissa * 2 ^ exponent.toNat : ℚ) = 10 ^ power * 2 ^ (-exponent).toNat := by
      exact_mod_cast same
    have unit : (2 : ℚ) ^ (-exponent).toNat ≠ 0 := by positivity
    refine mul_right_cancel₀ unit ?_
    rw [← scaled, mul_assoc, ← zpow_natCast, ← zpow_natCast, ← zpow_add₀ two_ne_zero]
    congr 2
    omega
  · cases holds

/-! ## Reading -/

/-- A decimal number is a number. -/
theorem isNaN_ofScientific (mantissa : Nat) (negative : Bool) (exponent : Nat) :
    (Float.ofScientific mantissa negative exponent).isNaN = false := by
  unfold Float.ofScientific
  split
  · next small =>
    have size : Float.exactlyRepresentablePowersOfTen.size = 23 := rfl
    obtain ⟨_, _, _, unpacked, -⟩ :=
      exists_of_isPowerOfTen (isPowerOfTen_exactlyRepresentable ⟨exponent, by omega⟩)
    dsimp only
    split
    · exact (isNaN_scaled (isNaN_ofUInt64 _) unpacked).2
    · exact (isNaN_scaled (isNaN_ofUInt64 _) unpacked).1
  · dsimp only
    generalize (if negative = true then Int.negOfNat exponent else Int.ofNat exponent) = power
    have packed : (Float.ofModel (Float.Model.ofScientific mantissa power)).isNaN =
      (Float.Model.pack (UnpackedFloat.ofScientific binary64 mantissa power)).isNaN := rfl
    rw [packed, isNaN_pack]
    unfold UnpackedFloat.ofScientific
    split
    · rfl
    · split
      · rfl
      · split
        · rfl
        · split
          · exact isNaN_roundWithAccuracy _ _ _ _
          · exact isNaN_roundWithAccuracy _ _ _ _

/-- A decimal denotes a number. -/
theorem Decimal.isNaN_toFloat (d : Decimal) : d.toFloat.isNaN = false := by
  rw [Decimal.toFloat, signed]
  split
  · rw [isNaN_neg, isNaN_ofScientific]
  · exact isNaN_ofScientific _ _ _

theorem isNaN_ofNat (n : Nat) : (Float.ofNat n).isNaN = false :=
  isNaN_ofScientific n false 0

theorem isNaN_infinity : infinity.isNaN = false := by
  decide +kernel

theorem isNaN_notANumber : notANumber.isNaN = true := by
  decide +kernel

end Flashdeck.Number
