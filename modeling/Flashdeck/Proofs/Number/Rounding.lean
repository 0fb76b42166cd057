import Mathlib
import Flashdeck.Number.Decimal

/-!
# Rounding

A number with more binary digits than a double holds is cut short, with two bits for what is cut
off: whether it is at least one half of the last place, and whether it is something else than
nothing or one half. From these the number is rounded to the nearest multiple of the last place,
and to the even one of two that are equally near.

* `Represents.isRounded`: the two bits tell where to round.
* `IsRounded.unique`, `IsRounded.roundsTo`: there is one such place, the nearest.
-/

namespace Flashdeck.Number

open Float.Model (UnpackedFloat totalExponent)
open Float.Model.Format (binary64)
open Float.Model.UnpackedFloat (ExtendedMantissa Accuracy roundWithAccuracy)

/-! ## Two bits for what is cut off -/

/-- Where a number is, behind a mantissa of its accuracy. -/
def Places : Accuracy → (mantissa : Nat) → (number : ℚ) → Prop
  | .exact, mantissa, number => number = mantissa
  | .inexact .lt, mantissa, number => mantissa < number ∧ number < mantissa + 1 / 2
  | .inexact .eq, mantissa, number => number = mantissa + 1 / 2
  | .inexact .gt, mantissa, number => mantissa + 1 / 2 < number ∧ number < mantissa + 1

/-- The mantissa is the whole part of the number, and the two bits say where behind it the number
is. -/
def Represents (extended : ExtendedMantissa) (number : ℚ) : Prop :=
  Places extended.accuracy extended.mantissa number

/-- The number is rounded to the nearest whole one, and to the even one of two. -/
structure IsRounded (number : ℚ) (rounded : Nat) : Prop where
  low : number ≤ rounded + 1 / 2
  high : rounded ≤ number + 1 / 2
  even : number = rounded + 1 / 2 ∨ rounded = number + 1 / 2 → rounded % 2 = 0

theorem bounds_of_places {accuracy : Accuracy} {mantissa : Nat} {number : ℚ}
    (places : Places accuracy mantissa number) : mantissa ≤ number ∧ number < mantissa + 1 := by
  cases accuracy with
  | exact =>
    have same : number = mantissa := places
    exact ⟨same.ge, by linarith⟩
  | inexact relative =>
    cases relative with
    | lt => exact ⟨places.1.le, by linarith [places.2]⟩
    | eq =>
      have same : number = mantissa + 1 / 2 := places
      constructor <;> linarith
    | gt => exact ⟨by linarith [places.1], places.2⟩

theorem represents_ofMantissaAndAccuracy {mantissa : Nat} {accuracy : Accuracy} {number : ℚ}
    (places : Places accuracy mantissa number) :
    Represents (.ofMantissaAndAccuracy mantissa accuracy) number := by
  cases accuracy with
  | exact => exact places
  | inexact relative => cases relative <;> exact places

section Represents

variable {extended : ExtendedMantissa} {number : ℚ} (represents : Represents extended number)

include represents

theorem Represents.bounds : extended.mantissa ≤ number ∧ number < extended.mantissa + 1 :=
  bounds_of_places represents

/-- One more digit is cut off. -/
theorem Represents.shiftRightOne : Represents extended.shiftRightOne (number / 2) := by
  obtain ⟨mantissa, roundBit, stickyBit⟩ := extended
  have split : (mantissa : ℚ) = 2 * (mantissa / 2 : Nat) + (mantissa % 2 : Nat) := by
    exact_mod_cast (Nat.div_add_mod mantissa 2).symm
  have one : ((1 : Nat) != 0) = true := rfl
  rcases Nat.mod_two_eq_zero_or_one mantissa with digit | digit <;> rw [digit] at split <;>
    push_cast at split <;> cases roundBit <;> cases stickyBit <;>
    simp only [Represents, ExtendedMantissa.shiftRightOne, digit, one, bne_self_eq_false,
      Bool.or_self, Bool.or_true, Bool.or_false, ExtendedMantissa.accuracy,
      Places] at represents ⊢ <;>
    first | linarith | constructor <;> linarith

theorem Represents.shiftRight (shift : Nat) :
    Represents (extended >>> shift) (number / 2 ^ shift) := by
  change Represents (Nat.repeat ExtendedMantissa.shiftRightOne shift extended) _
  induction shift with
  | zero => rwa [pow_zero, div_one]
  | succ shift ih =>
    rw [pow_succ, ← div_div]
    exact ih.shiftRightOne

/-- The two bits tell where to round. -/
theorem Represents.isRounded : IsRounded number extended.roundedMantissa := by
  obtain ⟨mantissa, roundBit, stickyBit⟩ := extended
  cases roundBit with
  | false =>
    have bounds : mantissa ≤ number ∧ number < mantissa + 1 / 2 := by
      cases stickyBit with
      | false => exact ⟨represents.ge, by rw [show number = mantissa from represents]; linarith⟩
      | true => exact ⟨represents.1.le, represents.2⟩
    have rounded : ExtendedMantissa.roundedMantissa ⟨mantissa, false, stickyBit⟩ = mantissa := by
      cases stickyBit <;> rfl
    rw [rounded]
    exact ⟨bounds.2.le, by linarith, by rintro (tie | tie) <;> linarith⟩
  | true =>
    cases stickyBit with
    | true =>
      have bounds : mantissa + 1 / 2 < number ∧ number < mantissa + 1 := represents
      have rounded : ExtendedMantissa.roundedMantissa ⟨mantissa, true, true⟩ = mantissa + 1 := rfl
      rw [rounded]
      refine ⟨?_, ?_, ?_⟩
      · push_cast
        linarith
      · push_cast
        linarith
      · push_cast
        rintro (tie | tie) <;> linarith
    | false =>
      -- exactly between two whole numbers
      have tie : number = mantissa + 1 / 2 := represents
      have rounded : ExtendedMantissa.roundedMantissa ⟨mantissa, true, false⟩ =
        mantissa + mantissa % 2 := rfl
      rw [rounded, tie]
      rcases Nat.mod_two_eq_zero_or_one mantissa with even | odd
      · rw [even, Nat.add_zero]
        exact ⟨by linarith, by linarith, fun _ => even⟩
      · rw [odd]
        refine ⟨?_, ?_, fun _ => by omega⟩
        · push_cast
          linarith
        · push_cast
          linarith

end Represents

/-- A whole number without its last digits. -/
theorem represents_shiftRight (whole shift : Nat) :
    Represents (ExtendedMantissa.ofMantissaAndAccuracy whole .exact >>> shift)
      (whole / 2 ^ shift) :=
  (represents_ofMantissaAndAccuracy (show Places .exact whole whole from rfl)).shiftRight shift

theorem Represents.mantissa_eq {extended : ExtendedMantissa} {whole shift : Nat}
    (represents : Represents extended (whole / 2 ^ shift)) :
    extended.mantissa = whole / 2 ^ shift := by
  have pos : (0 : ℚ) < 2 ^ shift := by positivity
  obtain ⟨low, high⟩ := represents.bounds
  rw [le_div_iff₀ pos] at low
  rw [div_lt_iff₀ pos] at high
  exact (Nat.div_eq_of_lt_le (by exact_mod_cast low) (by exact_mod_cast high)).symm

/-- A number is rounded to one whole number only. -/
theorem IsRounded.unique {number : ℚ} {rounded rounded' : Nat} (left : IsRounded number rounded)
    (right : IsRounded number rounded') : rounded = rounded' := by
  -- two whole numbers at most one apart, of which both are even if they are one apart
  have next {low high : Nat} (below : IsRounded number low) (above : IsRounded number high) :
      high ≤ low := by
    have near : (high : ℚ) ≤ low + 1 := by linarith [below.low, above.high]
    by_contra less
    have one : high = low + 1 := by
      have near : high ≤ low + 1 := by exact_mod_cast near
      omega
    have gap : (high : ℚ) = low + 1 := by exact_mod_cast one
    have tie : number = low + 1 / 2 := le_antisymm below.low (by linarith [above.high])
    have even := below.even (.inl tie)
    have even' := above.even (.inr (by linarith))
    omega
  exact Nat.le_antisymm (next right left) (next left right)

/-- No multiple of `2 ^ shift` is nearer to `whole` than `2 ^ shift * rounded`, and of two that are
equally near it is the even one. -/
structure RoundsTo (whole shift rounded : Nat) : Prop where
  low : 2 * whole ≤ 2 * (rounded * 2 ^ shift) + 2 ^ shift
  high : 2 * (rounded * 2 ^ shift) ≤ 2 * whole + 2 ^ shift
  even : 2 * whole = 2 * (rounded * 2 ^ shift) + 2 ^ shift ∨
    2 * (rounded * 2 ^ shift) = 2 * whole + 2 ^ shift → rounded % 2 = 0

/-- Rounding a number cut short is rounding to multiples. -/
theorem IsRounded.roundsTo {whole shift rounded : Nat}
    (isRounded : IsRounded (whole / 2 ^ shift) rounded) : RoundsTo whole shift rounded := by
  have pos : (0 : ℚ) < 2 ^ shift := by positivity
  obtain ⟨low, high, even⟩ := isRounded
  have low' := (div_le_iff₀ pos).1 low
  have high' : (rounded - 1 / 2 : ℚ) * 2 ^ shift ≤ whole := (le_div_iff₀ pos).1 (by linarith)
  refine ⟨?_, ?_, fun tie => even ?_⟩
  · have scaled : (2 * whole : ℚ) ≤ 2 * (rounded * 2 ^ shift) + 2 ^ shift := by linarith
    exact_mod_cast scaled
  · have scaled : (2 * (rounded * 2 ^ shift) : ℚ) ≤ 2 * whole + 2 ^ shift := by linarith
    exact_mod_cast scaled
  · refine tie.imp (fun tie => ?_) fun tie => ?_
    · have scaled : (2 * whole : ℚ) = 2 * (rounded * 2 ^ shift) + 2 ^ shift := by exact_mod_cast tie
      rw [div_eq_iff pos.ne']
      linarith
    · have scaled : (2 * (rounded * 2 ^ shift) : ℚ) = 2 * whole + 2 ^ shift := by exact_mod_cast tie
      have quotient : (whole / 2 ^ shift : ℚ) = rounded - 1 / 2 := by
        rw [div_eq_iff pos.ne']
        linarith
      linarith

/-- Rounding 53 digits gives 53 digits or the least number of 54. -/
theorem RoundsTo.bounds {whole shift rounded : Nat} (rounds : RoundsTo whole shift rounded)
    (least : 2 ^ (52 + shift) ≤ whole) (most : whole < 2 ^ (53 + shift)) :
    2 ^ 52 ≤ rounded ∧ rounded ≤ 2 ^ 53 := by
  rw [Nat.pow_add] at least most
  have low := rounds.low
  have high := rounds.high
  constructor
  · by_contra less
    have short : rounded * 2 ^ shift ≤ (2 ^ 52 - 1) * 2 ^ shift :=
      Nat.mul_le_mul_right _ (by omega)
    omega
  · by_contra more
    have long : (2 ^ 53 + 1) * 2 ^ shift ≤ rounded * 2 ^ shift :=
      Nat.mul_le_mul_right _ (by omega)
    omega

/-! ## Rounding to a double -/

/-- The exponent of a double whose mantissa has 53 digits, or the least exponent of all. -/
theorem targetExponent_binary64 (mantissa : Nat) (exponent : Int) :
    binary64.targetExponent (totalExponent mantissa exponent) =
      max (mantissa.log2 + exponent - 52) (-1074) := by
  have digits : (binary64.mantissaBits : Int) = 53 := rfl
  have bottom : binary64.minExponent = -1074 := rfl
  rw [Float.Model.Format.targetExponent, totalExponent, digits, bottom]
  omega

/-- Enough digits are cut off to leave 53. -/
theorem shiftToTargetExponent_eq (mantissa : Nat) (exponent : Int) (accuracy : Accuracy)
    (large : 52 ≤ mantissa.log2) (least : -1074 ≤ exponent + (mantissa.log2 - 52 : Nat)) :
    UnpackedFloat.shiftToTargetExponent binary64 mantissa exponent accuracy =
      (ExtendedMantissa.ofMantissaAndAccuracy mantissa accuracy >>> (mantissa.log2 - 52),
        exponent + (mantissa.log2 - 52 : Nat)) := by
  have target : (binary64.targetExponent (totalExponent mantissa exponent) -
      exponent).toNat = mantissa.log2 - 52 := by
    rw [targetExponent_binary64]
    omega
  rw [UnpackedFloat.shiftToTargetExponent, UnpackedFloat.shiftToExponent]
  simp only [target]

theorem roundWithAccuracy_eq_finite {mantissa : Nat} {exponent middle last : Int}
    {accuracy : Accuracy} {extended final : ExtendedMantissa} (sign : UnpackedFloat.Sign)
    (first : UnpackedFloat.shiftToTargetExponent binary64 mantissa exponent accuracy =
      (extended, middle))
    (second : UnpackedFloat.shiftToTargetExponent binary64 extended.roundedMantissa middle
      .exact = (final, last)) (pos : 0 < final.mantissa) :
    roundWithAccuracy binary64 sign mantissa exponent accuracy =
      .finite sign final.mantissa last pos := by
  simp only [roundWithAccuracy, first, second]
  exact dif_neg pos.ne'

end Flashdeck.Number
