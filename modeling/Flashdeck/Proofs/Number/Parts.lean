import Flashdeck.Proofs.Number.Interval

/-!
# The double of its parts

From its mantissa and its exponent a double is put together, and they can be told from it again. A
whole number of 53 digits at most is such a mantissa: with zeros behind it up to the 53rd digit, it
is rounded to itself.

* `unpack_pack`, `toNat_toBits_pack`: the double of canonical parts, and its bits.
* `ofParts`: the positive one.
* `unpack_toFloat`: the parts of a whole number.
-/

namespace Flashdeck.Number

open Float.Model (UnpackedFloat)
open Float.Model.Format (binary64)
open Float.Model.UnpackedFloat (packComponents unpackExponent_packComponents
  unpackMantissa_packComponents Sign)

/-- The double of these parts. -/
def ofParts (mantissa : Nat) (exponent : Int) (pos : 0 < mantissa) : Float :=
  .ofModel (.pack (.finite .positive mantissa exponent pos))

/-! ## Subnormal doubles -/

section Subnormal

variable {sign : Sign} {mantissa : Nat} (pos : 0 < mantissa) (small : mantissa < 2 ^ 52)

include small

/-- A subnormal double has no exponent. -/
theorem pack_subnormal :
    UnpackedFloat.pack binary64 (.finite sign mantissa (-1074) pos) =
      packComponents binary64 sign 0#11 (BitVec.ofNat 52 mantissa) := by
  have digits : mantissa.log2 < 52 := (Nat.log2_lt pos.ne').2 small
  have bias : -1074 + (binary64.exponentBias : Int) + (52 : Nat) = 1 := by
    have value := cast_exponentBias
    omega
  have room : ¬ 2 ^ binary64.exponentBits ≤ (1 : Int).toNat + 1 := by decide
  have short : ¬ mantissa.log2 + 1 = binary64.mantissaBits := by
    have whole : binary64.mantissaBits = 53 := rfl
    omega
  simp only [UnpackedFloat.pack]
  rw [bias, if_neg room, if_neg short]

theorem unpack_pack_subnormal :
    (Float.Model.pack (.finite sign mantissa (-1074) pos)).unpack =
      .finite sign mantissa (-1074) pos := by
  have packed : (Float.Model.pack (.finite sign mantissa (-1074) pos)).unpack =
    UnpackedFloat.unpack binary64
      (UnpackedFloat.pack binary64 (.finite sign mantissa (-1074) pos)) := rfl
  have notFull : ¬ (0#11 = (-1#11)) := by decide
  have kept : (BitVec.ofNat 52 mantissa).toNat = mantissa := by
    rw [BitVec.toNat_ofNat, Nat.mod_eq_of_lt small]
  have some : ¬ BitVec.ofNat 52 mantissa = 0#52 := by
    intro zero
    have none := congrArg BitVec.toNat zero
    rw [kept, BitVec.toNat_zero] at none
    omega
  have bias : ((0#11).toNat : Int) - (binary64.exponentBias + (52 : Nat)) + 1 = -1074 := by
    have value := cast_exponentBias
    rw [BitVec.toNat_zero]
    omega
  rw [packed, pack_subnormal pos small]
  simp only [UnpackedFloat.unpack, unpackExponent_packComponents, unpackMantissa_packComponents,
    UnpackedFloat.unpackSign_packComponents, Sign.ofBitVec_toBitVec,
    if_neg notFull, if_pos, dif_neg some, kept, bias]

end Subnormal

/-! ## Canonical parts -/

section Canonical

variable {mantissa : Nat} {exponent : Int} (canonical : IsCanonical mantissa exponent)

include canonical

/-- A double is subnormal or normal. -/
theorem IsCanonical.subnormal_or_normal :
    exponent = -1074 ∧ mantissa < 2 ^ 52 ∨ 2 ^ 52 ≤ mantissa := by
  rcases lt_or_ge mantissa (2 ^ 52) with short | long
  · left
    refine ⟨?_, short⟩
    by_contra other
    have least := canonical.least
    have normal := canonical.normal (by omega)
    omega
  · exact .inr long

theorem unpack_pack (sign : Sign) :
    (Float.Model.pack (.finite sign mantissa exponent canonical.pos)).unpack =
      .finite sign mantissa exponent canonical.pos := by
  rcases canonical.subnormal_or_normal with ⟨rfl, short⟩ | long
  · exact unpack_pack_subnormal canonical.pos short
  · exact unpack_pack_normal canonical.pos long canonical.small canonical.least canonical.greatest

/-- The sign, the exponent with the bias of the format and the mantissa without its first bit; if
there is no such bit, no exponent. -/
theorem toNat_toBits_pack (sign : Sign) :
    (Float.Model.pack (.finite sign mantissa exponent canonical.pos)).toBits.toNat =
      sign.toBitVec.toNat * 2 ^ 63 +
        if mantissa < 2 ^ 52 then mantissa
        else (exponent + 1075).toNat * 2 ^ 52 + (mantissa - 2 ^ 52) := by
  have packed : (Float.Model.pack (.finite sign mantissa exponent canonical.pos)).toBits.toNat =
    (UnpackedFloat.pack binary64 (.finite sign mantissa exponent canonical.pos)).toNat := rfl
  obtain ⟨pos, small, least, greatest, -⟩ := id canonical
  rw [packed]
  rcases canonical.subnormal_or_normal with ⟨rfl, short⟩ | long
  · have kept : (BitVec.ofNat 52 mantissa).toNat = mantissa := by
      rw [BitVec.toNat_ofNat, Nat.mod_eq_of_lt short]
    have none : (0#11).toNat = 0 := rfl
    rw [pack_subnormal canonical.pos short, toNat_packComponents, kept, none, if_pos short]
    omega
  · have kept : (BitVec.ofNat 52 mantissa).toNat = mantissa - 2 ^ 52 := by
      rw [BitVec.toNat_ofNat]
      omega
    have field : (BitVec.ofNat 11 (exponent + 1075).toNat).toNat = (exponent + 1075).toNat := by
      rw [BitVec.toNat_ofNat, Nat.mod_eq_of_lt (by omega)]
    rw [pack_normal canonical.pos long small least greatest, toNat_packComponents, kept, field,
      if_neg (Nat.not_lt.2 long)]
    omega

theorem signed_ofParts (negative : Bool) :
    signed negative (ofParts mantissa exponent canonical.pos) =
      .ofModel (.pack (.finite (if negative then .negative else .positive) mantissa exponent
        canonical.pos)) := by
  cases negative with
  | false => rfl
  | true =>
    have negated : -(ofParts mantissa exponent canonical.pos) = .ofModel (.pack
      (Float.Model.pack (.finite .positive mantissa exponent canonical.pos)).unpack.neg) := rfl
    rw [signed, if_pos rfl, negated, unpack_pack canonical]
    rfl

end Canonical

/-! ## Whole numbers -/

/-- A whole number of 53 digits at most gets zeros up to the 53rd digit. -/
theorem exists_zeros {n : Nat} (pos : 0 < n) (small : n < 2 ^ 53) :
    ∃ zeros, n.log2 + zeros = 52 ∧ 2 ^ 52 ≤ n * 2 ^ zeros ∧ n * 2 ^ zeros < 2 ^ 53 := by
  have digits : n.log2 < 53 := (Nat.log2_lt pos.ne').2 small
  refine ⟨52 - n.log2, by omega, ?_, ?_⟩
  · calc 2 ^ 52 = 2 ^ n.log2 * 2 ^ (52 - n.log2) := by rw [← Nat.pow_add]; congr 1; omega
      _ ≤ n * 2 ^ (52 - n.log2) := Nat.mul_le_mul_right _ (Nat.log2_self_le pos.ne')
  · calc n * 2 ^ (52 - n.log2) < 2 ^ (n.log2 + 1) * 2 ^ (52 - n.log2) :=
          Nat.mul_lt_mul_of_pos_right Nat.lt_log2_self (Nat.two_pow_pos _)
      _ = 2 ^ 53 := by rw [← Nat.pow_add]; congr 1; omega

theorem isCanonical_whole {n zeros : Nat} (digits : n.log2 + zeros = 52)
    (low : 2 ^ 52 ≤ n * 2 ^ zeros) (high : n * 2 ^ zeros < 2 ^ 53) :
    IsCanonical (n * 2 ^ zeros) (-(zeros : Int)) :=
  ⟨by omega, high, by omega, by omega, fun _ => low⟩

theorem cast_whole (n zeros : Nat) : ((n * 2 ^ zeros : Nat) * 2 ^ (-(zeros : Int)) : ℚ) = n := by
  rw [zpow_neg, zpow_natCast]
  push_cast
  field_simp

/-- Rounding leaves it alone. -/
theorem round_whole {n zeros : Nat} (digits : n.log2 + zeros = 52) (low : 2 ^ 52 ≤ n * 2 ^ zeros)
    (high : n * 2 ^ zeros < 2 ^ 53) (sign : UnpackedFloat.Sign) :
    UnpackedFloat.round binary64 sign n 0 = .finite sign (n * 2 ^ zeros) (-(zeros : Nat))
      (Nat.lt_of_lt_of_le (by decide) low) := by
  have target : binary64.targetExponent (Float.Model.totalExponent n 0) = -(zeros : Nat) := by
    rw [targetExponent_binary64]
    omega
  have shift : (0 - -(zeros : Int)).toNat = zeros := by omega
  have canonical := isCanonical_whole digits low high
  have places : Places .exact (n * 2 ^ zeros)
      ((n * 2 ^ zeros : Nat) * 2 ^ (-(zeros : Int)) / 2 ^ (-(zeros : Int)) : ℚ) :=
    mul_div_cancel_right₀ _ (by positivity)
  have rounded := roundWithAccuracy_eq_of_within places canonical.targetExponent_eq.ge canonical
    (within_self _ _) sign
  simp only [UnpackedFloat.round, UnpackedFloat.decreaseExponent, target, shift, Nat.shiftLeft_eq]
  rwa [Int.zero_sub]

theorem toFloat_eq_ofParts {n : UInt64} {zeros : Nat} (digits : n.toNat.log2 + zeros = 52)
    (low : 2 ^ 52 ≤ n.toNat * 2 ^ zeros) (high : n.toNat * 2 ^ zeros < 2 ^ 53) :
    n.toFloat = ofParts (n.toNat * 2 ^ zeros) (-(zeros : Nat))
      (Nat.lt_of_lt_of_le (by decide) low) := by
  have some : compare (n.toNat : Int) 0 = .gt := by
    rw [Int.compare_eq_gt]
    by_contra none
    have zero : n.toNat = 0 := by omega
    rw [zero, Nat.zero_mul] at low
    omega
  have unpacked : UnpackedFloat.ofUInt64 binary64 n =
      UnpackedFloat.round binary64 .positive n.toNat 0 := by
    rw [UnpackedFloat.ofUInt64, UnpackedFloat.ofNat, UnpackedFloat.ofInt, UnpackedFloat.normalize,
      some]
    rfl
  have packed : n.toFloat = .ofModel (.pack (UnpackedFloat.ofUInt64 binary64 n)) := rfl
  rw [packed, unpacked, round_whole digits low high]
  rfl

/-- A whole number of 53 digits at most is a double. -/
theorem unpack_toFloat {n zeros : Nat} (digits : n.log2 + zeros = 52) (low : 2 ^ 52 ≤ n * 2 ^ zeros)
    (high : n * 2 ^ zeros < 2 ^ 53) :
    n.toUInt64.toFloat.toModel.unpack = .finite .positive (n * 2 ^ zeros) (-(zeros : Nat))
      (Nat.lt_of_lt_of_le (by decide) low) := by
  have small : n < 2 ^ 53 := (Nat.le_mul_of_pos_right n (Nat.two_pow_pos zeros)).trans_lt high
  have word : n.toUInt64.toNat = n := UInt64.toNat_ofNat_of_lt' (small.trans (by decide))
  have parts := @toFloat_eq_ofParts n.toUInt64 zeros (by rwa [word]) (by rwa [word])
    (by rwa [word])
  rw [parts]
  simp only [word]
  exact unpack_pack_normal _ low high (by omega) (by omega)

end Flashdeck.Number
