import Flashdeck.Proofs.Number.Scientific

/-!
# The double nearest to a whole number

Doubles below a power of two are whole multiples of what its last place stands for, or they lie
below it; so what rounding finds among the multiples is the nearest of all doubles.

* `value`: the rational that a finite double stands for.
* `IsNearest`: the nearest double, ties to even.
* `isNearest_ofNat`: a natural number of 64 bits becomes the double nearest to it.
-/

namespace Flashdeck.Number

open Float.Model (UnpackedFloat)

/-- The number that an unpacked finite double stands for. -/
def valueOf : UnpackedFloat → ℚ
  | .finite .positive mantissa exponent _ => mantissa * 2 ^ exponent
  | .finite .negative mantissa exponent _ => -(mantissa * 2 ^ exponent)
  | _ => 0

/-- The number that a finite double stands for. -/
def value (x : Float) : ℚ :=
  valueOf x.toModel.unpack

/-- No finite double is nearer to the number, and of two that are equally near it is the one with an
even last bit. -/
structure IsNearest (x : Float) (number : ℚ) : Prop where
  finite : x.isFinite = true
  nearest : ∀ y : Float, y.isFinite = true → |value x - number| ≤ |value y - number|
  even : ∀ y : Float, y.isFinite = true → value y ≠ value x →
    |value y - number| = |value x - number| → x.toBits.toNat % 2 = 0

section Canonical

variable {mantissa : Nat} {exponent : Int} (canonical : IsCanonical mantissa exponent)

theorem isFinite_ofParts : (ofParts mantissa exponent canonical.pos).isFinite = true := by
  have unpacked : (ofParts mantissa exponent canonical.pos).isFinite =
    (Float.Model.pack (.finite .positive mantissa exponent canonical.pos)).unpack.isFinite := rfl
  rw [unpacked, unpack_pack canonical]
  rfl

theorem value_ofParts :
    value (ofParts mantissa exponent canonical.pos) = mantissa * 2 ^ exponent := by
  have unpacked : value (ofParts mantissa exponent canonical.pos) =
    valueOf (Float.Model.pack (.finite .positive mantissa exponent canonical.pos)).unpack := rfl
  rw [unpacked, unpack_pack canonical]
  rfl

/-- The last bit is that of the mantissa. -/
theorem toBits_ofParts_mod_two :
    (ofParts mantissa exponent canonical.pos).toBits.toNat % 2 = mantissa % 2 := by
  refine (congrArg (· % 2) (toNat_toBits_pack canonical .positive)).trans ?_
  split <;> omega

end Canonical

/-! ## Whole numbers as doubles -/

theorem ofNat_eq_ofParts {n mantissa : Nat} {exponent : Int} (pos : 0 < n)
    (canonical : IsCanonical mantissa exponent) (within : Within n mantissa exponent) :
    Float.ofNat n = ofParts mantissa exponent canonical.pos := by
  have whole : scientific n false 0 = n := by
    rw [scientific, if_neg Bool.false_ne_true, pow_zero, mul_one]
  rw [← whole] at within
  exact ofScientific_eq_ofParts canonical pos within

section Cut

variable {n shift mantissa : Nat}

/-- A number that is as long as the least of 53 digits or longer is in the interval of what it is
rounded to. -/
theorem within_of_isRounded (rounded : IsRounded (n / 2 ^ shift) mantissa)
    (least : 2 ^ (52 + shift) ≤ n) : Within n mantissa (shift + (0 : Nat)) := by
  have unit : (0 : ℚ) < 2 ^ shift := by positivity
  have place : (n / 2 ^ ((shift : Int) + (0 : Nat)) : ℚ) = n / 2 ^ shift := by
    rw [Nat.cast_zero, add_zero, zpow_natCast]
  constructor
  · rwa [place]
  · intro full _
    have above : (2 ^ 52 * 2 ^ shift : ℚ) ≤ n := by
      rw [← pow_add]
      exact_mod_cast least
    rw [place, full, le_div_iff₀ unit]
    push_cast
    linarith

/-- Where the last digit carries over, the mantissa has one digit too many, and it is halved. -/
theorem within_of_carry (rounded : IsRounded (n / 2 ^ shift) (2 ^ 53))
    (most : n < 2 ^ (53 + shift)) : Within n (2 ^ 52) (shift + (1 : Nat)) := by
  have unit : (0 : ℚ) < 2 ^ shift := by positivity
  have place : (n / 2 ^ ((shift : Int) + (1 : Nat)) : ℚ) = n / 2 ^ shift / 2 := by
    rw [Nat.cast_one, zpow_add_one₀ two_ne_zero, zpow_natCast, div_div]
  have below : (n / 2 ^ shift : ℚ) < 2 ^ 53 := by
    rw [div_lt_iff₀ unit, ← pow_add]
    exact_mod_cast most
  have above := rounded.high
  push_cast at above
  refine ⟨⟨?_, ?_, fun _ => rfl⟩, fun _ _ => ?_⟩
  · rw [place]
    push_cast
    linarith
  · rw [place]
    push_cast
    linarith
  · rw [place]
    push_cast
    linarith

end Cut

/-- A longer whole number is in the interval of its first 53 digits, rounded. The last digit may
carry over, and then the mantissa has all zeros behind its first digit. -/
theorem exists_within {n : Nat} (large : 2 ^ 53 ≤ n) (bound : n < 2 ^ 64) :
    ∃ shift mantissa carry : Nat, 2 ^ (52 + shift) ≤ n ∧ RoundsTo n shift (mantissa * 2 ^ carry) ∧
      (mantissa * 2 ^ carry % 2 = 0 → mantissa % 2 = 0) ∧
        IsCanonical mantissa (shift + carry) ∧ Within n mantissa (shift + carry) := by
  have some : n ≠ 0 := by omega
  have digits : 53 ≤ n.log2 := (Nat.le_log2 some).2 large
  have short : n.log2 < 64 := (Nat.log2_lt some).2 bound
  obtain ⟨shift, whole⟩ : ∃ shift, 52 + shift = n.log2 := ⟨n.log2 - 52, by omega⟩
  have least : 2 ^ (52 + shift) ≤ n := whole ▸ Nat.log2_self_le some
  have most : n < 2 ^ (53 + shift) := by
    have above : 53 + shift = n.log2 + 1 := by omega
    exact above ▸ Nat.lt_log2_self
  have rounded := (represents_shiftRight n shift).isRounded
  generalize UnpackedFloat.ExtendedMantissa.roundedMantissa _ = mantissa at rounded
  have rounds := rounded.roundsTo
  obtain ⟨low, high⟩ := rounds.bounds least most
  by_cases carried : mantissa < 2 ^ 53
  · refine ⟨shift, mantissa, 0, least, ?_, ?_, ?_, within_of_isRounded rounded least⟩
    · rwa [pow_zero, mul_one]
    · rw [pow_zero, mul_one]
      exact id
    · exact ⟨by omega, carried, by omega, by omega, fun _ => low⟩
  · have full : mantissa = 2 ^ 53 := by omega
    subst full
    refine ⟨shift, 2 ^ 52, 1, least, rounds, fun _ => rfl, ?_, within_of_carry rounded most⟩
    exact ⟨by omega, by omega, by omega, by omega, fun _ => le_rfl⟩

/-! ## The nearest double -/

/-- A double of at least one unit in its last place is a multiple of the unit, and the others have
no 53 digits in front of it. -/
theorem exists_multiple_or_lt (x : Float) (shift : Nat) :
    (∃ k : ℤ, value x = k * 2 ^ shift) ∨ value x < 2 ^ (52 + shift) := by
  have zero : (0 : ℚ) < 2 ^ (52 + shift) := by positivity
  unfold value
  cases unpacked : x.toModel.unpack with
  | notANumber => exact .inr zero
  | infinity => exact .inr zero
  | zero => exact .inr zero
  | finite sign mantissa exponent pos =>
    cases sign with
    | negative =>
      refine .inr (lt_of_le_of_lt ?_ zero)
      change -((mantissa : ℚ) * 2 ^ exponent) ≤ 0
      rw [neg_nonpos]
      positivity
    | positive =>
      change (∃ k : ℤ, (mantissa : ℚ) * 2 ^ exponent = _) ∨ (mantissa : ℚ) * 2 ^ exponent < _
      by_cases multiple : (shift : ℤ) ≤ exponent
      · obtain ⟨more, rfl⟩ := Int.le.dest multiple
        refine .inl ⟨mantissa * 2 ^ more, ?_⟩
        rw [zpow_add₀ two_ne_zero, zpow_natCast, zpow_natCast]
        push_cast
        ring
      · right
        have digits : (mantissa : ℚ) < 2 ^ (53 : ℤ) := by
          exact_mod_cast mantissa_lt_of_unpack unpacked
        calc (mantissa : ℚ) * 2 ^ exponent < 2 ^ (53 : ℤ) * 2 ^ exponent := by gcongr
          _ = 2 ^ (53 + exponent) := (zpow_add₀ two_ne_zero _ _).symm
          _ ≤ 2 ^ ((52 + shift : ℕ) : ℤ) := zpow_le_zpow_right₀ one_le_two (by omega)
          _ = 2 ^ (52 + shift) := zpow_natCast _ _

/-- Two multiples are one unit apart or more. -/
theorem two_pow_le_abs_add_abs {k l : ℤ} (other : k ≠ l) (shift : Nat) (number : ℚ) :
    2 ^ shift ≤ |k * 2 ^ shift - number| + |l * 2 ^ shift - number| := by
  have apart : (1 : ℚ) ≤ |(k : ℚ) - l| := by
    exact_mod_cast Int.one_le_abs (sub_ne_zero.2 other)
  have unit : (0 : ℚ) ≤ 2 ^ shift := by positivity
  calc (2 ^ shift : ℚ) ≤ |(k : ℚ) - l| * 2 ^ shift := le_mul_of_one_le_left unit apart
    _ = |(k * 2 ^ shift - number) - (l * 2 ^ shift - number)| := by
      rw [sub_sub_sub_cancel_right, ← sub_mul, abs_mul, abs_of_nonneg unit]
    _ ≤ |k * 2 ^ shift - number| + |l * 2 ^ shift - number| := abs_sub _ _

section Rounds

variable {whole shift rounded : Nat} (rounds : RoundsTo whole shift rounded)

include rounds

theorem RoundsTo.abs_le : 2 * |(rounded * 2 ^ shift : ℚ) - whole| ≤ 2 ^ shift := by
  have low : (2 * whole : ℚ) ≤ 2 * (rounded * 2 ^ shift) + 2 ^ shift := by
    exact_mod_cast rounds.low
  have high : (2 * (rounded * 2 ^ shift) : ℚ) ≤ 2 * whole + 2 ^ shift := by
    exact_mod_cast rounds.high
  rcases abs_cases ((rounded * 2 ^ shift : ℚ) - whole) with ⟨same, -⟩ | ⟨same, -⟩
  · rw [same]
    linarith
  · rw [same]
    linarith

/-- Among the multiples, none is nearer than the rounded one. -/
theorem RoundsTo.nearest (k : ℤ) :
    |(rounded * 2 ^ shift : ℚ) - whole| ≤ |(k * 2 ^ shift : ℚ) - whole| := by
  by_cases same : k = rounded
  · rw [same, Int.cast_natCast]
  · have near := rounds.abs_le
    have far := two_pow_le_abs_add_abs same shift (whole : ℚ)
    rw [Int.cast_natCast] at far
    linarith

theorem RoundsTo.even_of_eq {k : ℤ} (other : k ≠ rounded)
    (tie : |(k * 2 ^ shift : ℚ) - whole| = |(rounded * 2 ^ shift : ℚ) - whole|) :
    rounded % 2 = 0 := by
  have near := rounds.abs_le
  have far := two_pow_le_abs_add_abs other shift (whole : ℚ)
  rw [Int.cast_natCast] at far
  have half : 2 * |(rounded * 2 ^ shift : ℚ) - whole| = 2 ^ shift := by linarith
  apply rounds.even
  rcases abs_cases ((rounded * 2 ^ shift : ℚ) - whole) with ⟨same, -⟩ | ⟨same, -⟩
  · right
    rw [same] at half
    have tied : (2 * (rounded * 2 ^ shift) : ℚ) = 2 * whole + 2 ^ shift := by linarith
    exact_mod_cast tied
  · left
    rw [same] at half
    have tied : (2 * whole : ℚ) = 2 * (rounded * 2 ^ shift) + 2 ^ shift := by linarith
    exact_mod_cast tied

end Rounds

theorem isNearest_of_value_eq {x : Float} {number : ℚ} (finite : x.isFinite = true)
    (same : value x = number) : IsNearest x number where
  finite := finite
  nearest := by
    intro y _
    rw [same, sub_self, abs_zero]
    exact abs_nonneg _
  even := by
    intro y _ other tie
    rw [same, sub_self, abs_zero, abs_eq_zero, sub_eq_zero] at tie
    exact absurd (tie.trans same.symm) other

theorem isNearest_ofNat_of_lt {n : Nat} (small : n < 2 ^ 53) : IsNearest (Float.ofNat n) n := by
  rcases Nat.eq_zero_or_pos n with rfl | pos
  · exact isNearest_of_value_eq rfl Nat.cast_zero.symm
  · obtain ⟨zeros, digits, low, high⟩ := exists_zeros pos small
    have canonical := isCanonical_whole digits low high
    have within := within_self (n * 2 ^ zeros) (-(zeros : Int))
    rw [cast_whole] at within
    rw [ofNat_eq_ofParts pos canonical within]
    refine isNearest_of_value_eq (isFinite_ofParts canonical) ?_
    rw [value_ofParts canonical, cast_whole]

/-- A longer whole number is as long as the least of the multiples that it is rounded among, and
that one is nearer than all that is below. -/
theorem isNearest_ofNat_of_le {n : Nat} (large : 2 ^ 53 ≤ n) (bound : n < 2 ^ 64) :
    IsNearest (Float.ofNat n) n := by
  obtain ⟨shift, mantissa, carry, least, rounds, even, canonical, within⟩ :=
    exists_within large bound
  have same := ofNat_eq_ofParts (by omega) canonical within
  have valueEq : value (Float.ofNat n) = (mantissa * 2 ^ carry : Nat) * 2 ^ shift := by
    rw [same, value_ofParts canonical, zpow_add₀ two_ne_zero,
      zpow_natCast, zpow_natCast]
    push_cast
    ring
  have below : ∀ y : Float, value y < 2 ^ (52 + shift) →
      |value (Float.ofNat n) - n| < |value y - n| := by
    intro y less
    have leastQ : (2 : ℚ) ^ (52 + shift) ≤ n := by exact_mod_cast least
    have near := rounds.nearest (2 ^ 52)
    rw [← valueEq] at near
    rw [Int.cast_pow, Int.cast_ofNat, ← pow_add] at near
    calc |value (Float.ofNat n) - n| ≤ |(2 : ℚ) ^ (52 + shift) - n| := near
      _ = n - 2 ^ (52 + shift) := by rw [abs_of_nonpos (by linarith)]; ring
      _ < n - value y := by linarith
      _ ≤ |value y - n| := by rw [abs_sub_comm]; exact le_abs_self _
  refine ⟨?_, fun y _ => ?_, fun y _ other tie => ?_⟩
  · rw [same]
    exact isFinite_ofParts canonical
  · rcases exists_multiple_or_lt y shift with ⟨k, multiple⟩ | less
    · rw [valueEq, multiple]
      exact rounds.nearest k
    · exact (below y less).le
  · rcases exists_multiple_or_lt y shift with ⟨k, multiple⟩ | less
    · rw [valueEq, multiple] at tie other
      have ne : k ≠ (mantissa * 2 ^ carry : Nat) := by
        rintro rfl
        exact other (by rw [Int.cast_natCast])
      rw [same, toBits_ofParts_mod_two canonical]
      exact even (rounds.even_of_eq ne tie)
    · exact absurd tie (below y less).ne'

/-- **A natural number of 64 bits becomes the double nearest to it.** -/
theorem isNearest_ofNat {n : Nat} (bound : n < 2 ^ 64) : IsNearest (Float.ofNat n) n := by
  by_cases small : n < 2 ^ 53
  · exact isNearest_ofNat_of_lt small
  · exact isNearest_ofNat_of_le (not_lt.1 small) bound

end Flashdeck.Number
