import Flashdeck.Proofs.Number.Bits
import Flashdeck.Proofs.Number.Notation
import Flashdeck.Proofs.Number.Scientific

/-!
# Numbers that read back

The writer looks for few digits among those that lie in the interval of a double, and whatever it
finds there the reader rounds to the double again. How the digits are laid out does not matter for
that: with zeros in front or behind, a point among them or an exponent, they denote the same number.

* `within_of_admits`: digits that the writer accepts lie in the interval.
* `within_shortest`: so do those that it chooses.
* `Format.ofText?_write`: a finite number is read back as it was written.
-/

namespace Flashdeck.Number

/-! ## Comparing exactly -/

/-- The number that digits stand for. -/
def Digits.value (d : Digits) : ℚ :=
  d.digits * 10 ^ d.scale

theorem pow_toNat (base : ℚ) (ne : base ≠ 0) (power : Int) :
    base ^ power.toNat = base ^ power * base ^ (-power).toNat := by
  rw [← zpow_natCast, ← zpow_natCast, ← zpow_add₀ ne]
  congr 1
  omega

section Compare

variable (a : Nat) (i : Int) (b : Nat) (j : Int)

/-- Both sides are brought to one unit before they are compared. -/
theorem exists_unit_compareScaled : ∃ unit : ℚ, 0 < unit ∧
    ((a * Nat.pow 10 i.toNat * Nat.pow 2 (-j).toNat : Nat) : ℚ) = a * 10 ^ i * unit ∧
      ((b * Nat.pow 2 j.toNat * Nat.pow 10 (-i).toNat : Nat) : ℚ) = b * 2 ^ j * unit := by
  refine ⟨10 ^ (-i).toNat * 2 ^ (-j).toNat, by positivity, ?_, ?_⟩
  · have power := pow_toNat 10 (by norm_num) i
    change ((a * 10 ^ i.toNat * 2 ^ (-j).toNat : Nat) : ℚ) = _
    push_cast
    rw [power]
    ring
  · have power := pow_toNat 2 (by norm_num) j
    change ((b * 2 ^ j.toNat * 10 ^ (-i).toNat : Nat) : ℚ) = _
    push_cast
    rw [power]
    ring

/-- The comparison is that of the numbers. -/
theorem compareScaled_eq :
    compareScaled a i b j = compare (a * 10 ^ i : ℚ) (b * 2 ^ j) := by
  obtain ⟨unit, pos, left, right⟩ := exists_unit_compareScaled a i b j
  cases order : compareScaled a i b j with
  | lt =>
    rw [eq_comm, compare_lt_iff_lt, ← mul_lt_mul_iff_left₀ pos, ← left, ← right]
    exact_mod_cast Nat.compare_eq_lt.1 order
  | eq =>
    rw [eq_comm, compare_eq_iff_eq, ← mul_left_inj' pos.ne', ← left, ← right]
    exact_mod_cast Nat.compare_eq_eq.1 order
  | gt =>
    rw [eq_comm, compare_gt_iff_gt, ← mul_lt_mul_iff_left₀ pos, ← left, ← right]
    exact_mod_cast Nat.compare_eq_gt.1 order

end Compare

/-! ## The interval of the writer -/

section Magnitude

variable {x : Magnitude} (some : x.significand ≠ 0)
  (narrow : x.significand = 2 ^ 52 → -1074 < x.exponent → x.narrowBelow = true)

/-- Where accepted digits lie, in units of the last place: the ends are accepted if the significand
is even. -/
theorem between_of_admits {d : Nat} {scale : Int} (admitted : x.admits d scale = true) :
    let low : Nat := if x.narrowBelow then 4 * x.significand - 1 else 4 * x.significand - 2
    let place : ℚ := d * 10 ^ scale / 2 ^ x.exponent
    (low / 4 < place ∨ x.significand % 2 = 0 ∧ low / 4 = place) ∧
      (place < x.significand + 1 / 2 ∨ x.significand % 2 = 0 ∧ place = x.significand + 1 / 2) := by
  intro low place
  have unit : (0 : ℚ) < 2 ^ x.exponent := by positivity
  have number : (d * 10 ^ scale : ℚ) = place * 2 ^ x.exponent := (div_mul_cancel₀ _ unit.ne').symm
  have quarter : ∀ n : Nat, (n * 2 ^ (x.exponent - 2) : ℚ) = n / 4 * 2 ^ x.exponent := by
    intro n
    rw [zpow_sub₀ two_ne_zero]
    ring
  simp only [Magnitude.admits, compareScaled_eq, Bool.and_eq_true, Bool.or_eq_true, beq_iff_eq,
    compare_gt_iff_gt, compare_lt_iff_lt, compare_eq_iff_eq, number, quarter,
    mul_lt_mul_iff_left₀ unit, mul_left_inj' unit.ne'] at admitted
  obtain ⟨below, above⟩ := admitted
  have high : ((4 * x.significand + 2 : Nat) : ℚ) / 4 = x.significand + 1 / 2 := by
    push_cast
    ring
  rw [high] at above
  exact ⟨below.imp id (And.imp_right Eq.symm), above⟩

include some narrow

/-- Digits that the writer accepts lie in the interval of the double. -/
theorem within_of_admits {d : Nat} {scale : Int} (admitted : x.admits d scale = true) :
    Within (d * 10 ^ scale) x.significand x.exponent := by
  obtain ⟨lower, upper⟩ := between_of_admits admitted
  have high : (d * 10 ^ scale / 2 ^ x.exponent : ℚ) ≤ x.significand + 1 / 2 :=
    upper.elim le_of_lt fun tie => tie.2.le
  have highEven : (d * 10 ^ scale / 2 ^ x.exponent : ℚ) = x.significand + 1 / 2 →
      x.significand % 2 = 0 := fun tie => upper.elim (fun less => absurd tie less.ne) And.left
  cases narrowBelow : x.narrowBelow with
  | true =>
    have quarter : ((4 * x.significand - 1 : Nat) : ℚ) / 4 = x.significand - 1 / 4 := by
      rw [Nat.cast_sub (by omega)]
      push_cast
      ring
    rw [narrowBelow, if_pos rfl, quarter] at lower
    have low : (x.significand - 1 / 4 : ℚ) ≤ d * 10 ^ scale / 2 ^ x.exponent :=
      lower.elim le_of_lt fun tie => tie.2.le
    refine ⟨⟨high, by linarith, ?_⟩, fun _ _ => low⟩
    rintro (tie | tie)
    · exact highEven tie
    · linarith
  | false =>
    have half : ((4 * x.significand - 2 : Nat) : ℚ) / 4 = x.significand - 1 / 2 := by
      rw [Nat.cast_sub (by omega)]
      push_cast
      ring
    rw [narrowBelow, if_neg Bool.false_ne_true, half] at lower
    have low : (x.significand - 1 / 2 : ℚ) ≤ d * 10 ^ scale / 2 ^ x.exponent :=
      lower.elim le_of_lt fun tie => tie.2.le
    refine ⟨⟨high, by linarith, ?_⟩, fun full above => ?_⟩
    · rintro (tie | tie)
      · exact highEven tie
      · exact lower.elim (fun less => by linarith) And.left
    · rw [narrow full above] at narrowBelow
      cases narrowBelow

end Magnitude

/-! ## The fewest digits -/

theorem Digits.value_strip (d : Digits) : d.strip.value = d.value := by
  induction d using Digits.strip.induct with
  | case1 d more ih =>
    rw [Digits.strip, dif_pos more, ih, value, value, zpow_add_one₀ (by norm_num)]
    have whole : (d.digits : ℚ) = (d.digits / 10 : Nat) * 10 := by
      exact_mod_cast (Nat.div_mul_cancel (Nat.dvd_of_mod_eq_zero more.2)).symm
    rw [whole]
    ring
  | case2 d last => rw [Digits.strip, dif_neg last]

theorem Magnitude.value_exact (x : Magnitude) :
    x.exact.value = x.significand * 2 ^ x.exponent := by
  unfold Magnitude.exact
  split
  · next below =>
    obtain ⟨n, same⟩ := Int.exists_eq_neg_ofNat below.le
    change ((x.significand * 5 ^ (-x.exponent).toNat : Nat) : ℚ) * 10 ^ x.exponent = _
    have ten : (10 : ℚ) = 5 * 2 := by norm_num
    rw [same, neg_neg, Int.toNat_natCast, zpow_neg, zpow_neg, zpow_natCast, zpow_natCast, ten,
      mul_pow]
    push_cast
    field_simp
  · next whole =>
    obtain ⟨n, same⟩ := Int.eq_ofNat_of_zero_le (not_lt.1 whole)
    change ((x.significand * 2 ^ x.exponent.toNat : Nat) : ℚ) * 10 ^ (0 : Int) = _
    rw [same, Int.toNat_natCast, zpow_natCast, zpow_zero, mul_one]
    push_cast
    rfl

theorem Magnitude.admits_onGrid {x : Magnitude} {tie : Tie} {scale : Int} {d : Digits}
    (found : x.onGrid? tie scale = some d) : x.admits d.digits d.scale = true := by
  simp only [onGrid?] at found
  split at found
  · next low high =>
    cases found
    dsimp only
    unfold nearer
    split
    · exact low
    · exact high
    · cases tie with
      | toEven =>
        dsimp only
        split
        · exact low
        · exact high
      | upward => exact high
  · next low _ =>
    cases found
    exact low
  · next _ high =>
    cases found
    exact high
  · cases found

/-- The shortest digits lie in the interval of the double. -/
theorem within_shortest {x : Magnitude} (positive : x.significand ≠ 0)
    (narrow : x.significand = 2 ^ 52 → -1074 < x.exponent → x.narrowBelow = true) (tie : Tie) :
    Within (x.shortest tie).value x.significand x.exponent := by
  unfold Magnitude.shortest
  dsimp only
  rw [Digits.value_strip]
  generalize search : List.findSome? _ _ = found
  cases found with
  | none =>
    rw [Option.getD_none, Magnitude.value_exact]
    exact within_self _ _
  | some d =>
    obtain ⟨n, -, here⟩ := List.exists_of_findSome?_eq_some search
    exact within_of_admits positive narrow (Magnitude.admits_onGrid here)

/-! ## The text of a decimal -/

/-- The number that a decimal denotes, its sign apart. -/
def Decimal.magnitude (d : Decimal) : ℚ :=
  d.mantissa * 10 ^ d.exponent

theorem ofDigits_toDigits (n : Nat) : ofDigits (Nat.toDigits 10 n) = n :=
  Nat.ofDigitChars_ten_toDigits

/-- Zeros in front do not count. -/
theorem ofDigits_replicate_append (n : Nat) (digits : List Char) :
    ofDigits (List.replicate n '0' ++ digits) = ofDigits digits := by
  have zeros : Nat.ofDigitChars 10 (List.replicate n '0') 0 = 0 :=
    Nat.ofDigitChars_replicate_zero.trans (Nat.mul_zero _)
  change Nat.ofDigitChars 10 _ 0 = Nat.ofDigitChars 10 _ 0
  rw [Nat.ofDigitChars_append, zeros]

/-- A zero behind multiplies by ten. -/
theorem ofDigits_append_replicate (digits : List Char) (n : Nat) :
    ofDigits (digits ++ List.replicate n '0') = 10 ^ n * ofDigits digits := by
  change Nat.ofDigitChars 10 _ 0 = _ * Nat.ofDigitChars 10 _ 0
  rw [Nat.ofDigitChars_append, Nat.ofDigitChars_replicate_zero]

/-- Digits with a point are a decimal without an exponent. -/
theorem isUnsigned_of_fraction {whole fraction : List Char} (ne : whole ≠ [])
    (front : IsDigits whole) (behind : IsDigits fraction) (negative : Bool) :
    IsUnsigned negative (whole ++ '.' :: fraction)
      ⟨negative, ofDigits (whole ++ fraction), 0 - fraction.length⟩ := by
  have spelled : IsUnsigned negative _ _ := .spelled (IsMantissa.dotted ne front behind) .none
  rwa [List.append_nil] at spelled

/-- The sign and the digits of a power denote it. -/
theorem isExponent_natAbs (power : Int) :
    IsExponent ('e' :: (if power < 0 then '-' else '+') :: Nat.toDigits 10 power.natAbs) power := by
  have exponent : ∀ {sign : Char} {negative : Bool}, IsSign [sign] negative →
      IsExponent ('e' :: sign :: Nat.toDigits 10 power.natAbs)
        (if negative then -(power.natAbs : Int) else power.natAbs) := by
    intro sign negative signed
    have marked := IsExponent.marked (.inl rfl) signed Nat.toDigits_ne_nil
      (isDigits_toDigits power.natAbs)
    rwa [ofDigits_toDigits] at marked
  by_cases below : power < 0
  · have same : -(power.natAbs : Int) = power := by omega
    have minus := exponent .minus
    rw [if_pos rfl, same] at minus
    rwa [if_pos below]
  · have same : (power.natAbs : Int) = power := by omega
    have plus := exponent .plus
    rw [if_neg Bool.false_ne_true, same] at plus
    rwa [if_neg below]

namespace Format

variable {digits : List Char} (leads : Leads digits) (point : Int) (negative : Bool)

include leads

/-- Zeros and a point do not change what digits denote. -/
theorem exists_isUnsigned_layoutPositional :
    ∃ d, IsUnsigned negative (json.layoutPositional digits point) d ∧
      d.magnitude = ofDigits digits * 10 ^ (point - digits.length) := by
  have ten : (10 : ℚ) ≠ 0 := by norm_num
  unfold layoutPositional
  split
  · next before =>
    refine ⟨_, isUnsigned_of_fraction (List.cons_ne_nil '0' []) (isDigits_replicate 1)
      ((isDigits_replicate (-point).toNat).append leads.all) negative, ?_⟩
    have zeros : ['0'] ++ (List.replicate (-point).toNat '0' ++ digits) =
        List.replicate ((-point).toNat + 1) '0' ++ digits := rfl
    have place : 0 - ((List.replicate (-point).toNat '0' ++ digits).length : Int) =
        point - digits.length := by
      rw [List.length_append, List.length_replicate]
      omega
    rw [Decimal.magnitude, zeros, place, ofDigits_replicate_append]
  · next inside =>
    split
    · next long =>
      have whole := leads.append (isDigits_replicate (point.toNat - digits.length))
      refine ⟨_, isUnsigned_of_fraction whole.ne whole.all (isDigits_replicate 1) negative, ?_⟩
      have zeros : digits ++ List.replicate (point.toNat - digits.length) '0' ++
          List.replicate 1 '0' =
            digits ++ List.replicate (point.toNat - digits.length + 1) '0' := by
        rw [List.append_assoc, List.replicate_append_replicate]
      have place : point - digits.length =
          (point.toNat - digits.length + 1 : Nat) + (0 - (List.replicate 1 '0').length) := by
        rw [List.length_replicate]
        omega
      rw [Decimal.magnitude, zeros, ofDigits_append_replicate, place, zpow_add₀ ten, zpow_natCast]
      push_cast
      ring
    · next short =>
      have front : Leads (digits.take point.toNat) := leads.take (by omega)
      have behind : IsDigits (digits.drop point.toNat) :=
        fun c mem => leads.all c (List.mem_of_mem_drop mem)
      refine ⟨_, isUnsigned_of_fraction front.ne front.all behind negative, ?_⟩
      have place : 0 - ((digits.drop point.toNat).length : Int) = point - digits.length := by
        rw [List.length_drop]
        omega
      rw [Decimal.magnitude, List.take_append_drop, place]

theorem exists_isUnsigned_layoutScientific :
    ∃ d, IsUnsigned negative (layoutScientific digits point) d ∧
      d.magnitude = ofDigits digits * 10 ^ (point - digits.length) := by
  have front := leads.take Nat.one_ne_zero
  have behind : IsDigits (digits.drop 1) := fun c mem => leads.all c (List.mem_of_mem_drop mem)
  have mantissa : IsMantissa
      (digits.take 1 ++ if digits.length ≤ 1 then [] else '.' :: digits.drop 1)
      (digits.take 1) (digits.drop 1) := by
    split
    · next single =>
      rw [List.drop_eq_nil_of_le single, List.append_nil]
      exact .plain front.ne front.all
    · exact .dotted front.ne front.all behind
  have some : 1 ≤ digits.length := List.length_pos_iff.2 leads.ne
  have spelled : IsUnsigned negative _ _ := .spelled mantissa (isExponent_natAbs (point - 1))
  refine ⟨_, spelled, ?_⟩
  have place : point - 1 - ((digits.drop 1).length : Int) = point - digits.length := by
    rw [List.length_drop]
    omega
  rw [Decimal.magnitude, List.take_append_drop, place]

omit leads in
theorem exists_isUnsigned_writeMagnitude {x : Magnitude} (positive : x.significand ≠ 0)
    (negative : Bool) :
    ∃ d, IsUnsigned negative (json.writeMagnitude x) d ∧
      d.magnitude = (x.shortest json.tie).value := by
  have leads := leads_toDigits (x.digits_shortest_ne_zero positive json.tie)
  have same : ∀ digits : Digits,
      (ofDigits (Nat.toDigits 10 digits.digits) * 10 ^ ((Nat.toDigits 10 digits.digits).length +
        digits.scale - (Nat.toDigits 10 digits.digits).length) : ℚ) = digits.value := by
    intro digits
    rw [add_sub_cancel_left, ofDigits_toDigits, Digits.value]
  rw [writeMagnitude, if_neg positive, ← same]
  unfold layout
  dsimp only [json]
  split
  · exact exists_isUnsigned_layoutPositional leads _ negative
  · exact exists_isUnsigned_layoutScientific leads _ negative

end Format

/-! ## Reading back -/

theorem IsUnsigned.negative_eq {negative : Bool} {cs : List Char} {d : Decimal}
    (unsigned : IsUnsigned negative cs d) : d.negative = negative := by
  cases unsigned
  rfl

/-- The parts that the reader hands on denote the magnitude of the decimal. -/
theorem scientific_eq_magnitude (d : Decimal) :
    scientific d.mantissa (d.exponent < 0) d.exponent.natAbs = d.magnitude := by
  rw [scientific, Decimal.magnitude]
  by_cases below : d.exponent < 0
  · obtain ⟨n, same⟩ := Int.exists_eq_neg_ofNat below.le
    rw [if_pos (decide_eq_true below), same, Int.natAbs_neg, Int.natAbs_natCast, zpow_neg,
      zpow_natCast, div_eq_mul_inv]
  · obtain ⟨n, same⟩ := Int.eq_ofNat_of_zero_le (not_lt.1 below)
    rw [if_neg (by rwa [decide_eq_true_iff]), same, Int.natAbs_natCast, zpow_natCast]

/-- A decimal in the interval of a double denotes the double, with its own sign. -/
theorem Decimal.toFloat_eq_of_within {d : Decimal} {mantissa : Nat} {exponent : Int}
    (canonical : IsCanonical mantissa exponent) (within : Within d.magnitude mantissa exponent) :
    d.toFloat = signed d.negative (ofParts mantissa exponent canonical.pos) := by
  have pos : 0 < d.mantissa := by
    by_contra none
    have zero : d.mantissa = 0 := by omega
    have low := within.two_pow_le canonical
    rw [Decimal.magnitude, zero, Nat.cast_zero, zero_mul] at low
    exact absurd low (not_le.2 (by positivity))
  rw [← scientific_eq_magnitude] at within
  rw [Decimal.toFloat, ofScientific_eq_ofParts canonical pos within]

namespace Format

variable {x : Float}

/-- The digits and the point of a finite number, behind a sign, are read as the number. -/
theorem exists_isUnsigned_magnitude (number : x.isNaN = false) (finite : x.isInf = false) :
    ∃ d, IsUnsigned (isSigned x) (json.writeMagnitude (Magnitude.ofBits x.toBits)) d ∧
      d.toFloat = x := by
  by_cases some : (Magnitude.ofBits x.toBits).significand = 0
  · refine ⟨⟨isSigned x, 0, -1⟩, ?_, ?_⟩
    · rw [writeMagnitude, if_pos some]
      exact isUnsigned_of_fraction (List.cons_ne_nil '0' []) (isDigits_replicate 1)
        (isDigits_replicate 1) (isSigned x)
    · have tenth : decide ((-1 : Int) < 0) = true := rfl
      rw [Decimal.toFloat, tenth]
      exact (eq_signed_zero some).symm
  · obtain ⟨d, unsigned, same⟩ := exists_isUnsigned_writeMagnitude some (isSigned x)
    have canonical := isCanonical_ofBits number finite some
    have within := within_shortest some (narrowBelow_ofBits) json.tie
    rw [← same] at within
    refine ⟨d, unsigned, ?_⟩
    rw [Decimal.toFloat_eq_of_within canonical within, unsigned.negative_eq]
    exact (eq_signed_ofParts number finite some).symm

/-- **A finite number is read back as it was written.** -/
theorem ofText?_write (number : x.isNaN = false) (finite : x.isInf = false) :
    ofText? (json.write x).toList = some x := by
  obtain ⟨d, unsigned, same⟩ := exists_isUnsigned_magnitude number finite
  have text : IsDecimal (json.write x).toList d := by
    rw [write, number, finite, if_neg Bool.false_ne_true, if_neg Bool.false_ne_true,
      String.toList_ofList]
    cases signed : isSigned x with
    | false =>
      rw [signed] at unsigned
      exact .spelled .none unsigned
    | true =>
      rw [signed] at unsigned
      exact .spelled .minus unsigned
  rw [ofText?_eq_of_isDecimal text, same]

end Format

end Flashdeck.Number
