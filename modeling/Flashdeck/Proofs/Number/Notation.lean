import Flashdeck.Proofs.Number.Decimal
import Flashdeck.Proofs.Number.Format

/-!
# Numbers as JSON writes them

JSON has one notation for numbers: a whole part without needless zeros, digits behind a point if
there is one, and an exponent. Every finite double is written in it. The digits are the fewest that
read back, and these never begin with a zero, since a grid that a positive number lies on at zero is
too coarse to tell it from zero; where the point stands before the first of them, a zero is written
in front.

* `IsUnsigned`, `IsNumeral`: the notation.
* `Magnitude.digits_shortest_ne_zero`: the shortest digits of a positive number do not denote zero.
* `isNumeral_write`: the text of a finite number; `write_eq_null`: the text of any other.
-/

namespace Flashdeck

open Number

namespace Json

/-- Digits, with no zero in front of others. -/
inductive IsWhole : List Char → Prop
  | zero : IsWhole ['0']
  | nonzero {c : Char} {cs : List Char} (digit : c.isDigit = true) (ne : c ≠ '0')
      (behind : IsDigits cs) : IsWhole (c :: cs)

/-- A point with digits behind it, or nothing. -/
inductive IsFraction : List Char → Prop
  | none : IsFraction []
  | digits {cs : List Char} (ne : cs ≠ []) (all : IsDigits cs) : IsFraction ('.' :: cs)

/-- A number without its sign. -/
inductive IsUnsigned : List Char → Prop
  | spelled {whole fraction exponent : List Char} {power : Int} (front : IsWhole whole)
      (behind : IsFraction fraction) (scaled : IsExponent exponent power) :
      IsUnsigned (whole ++ (fraction ++ exponent))

/-- A number in JSON. There is no plus sign in front of one. -/
inductive IsNumeral : List Char → Prop
  | plain {cs : List Char} (unsigned : IsUnsigned cs) : IsNumeral cs
  | negative {cs : List Char} (unsigned : IsUnsigned cs) : IsNumeral ('-' :: cs)

end Json

namespace Number

/-! ## Digits -/

theorem isDigits_toDigits (n : Nat) : IsDigits (Nat.toDigits 10 n) :=
  fun _ mem => Nat.isDigit_of_mem_toDigits (by decide) (Nat.le_refl 10) mem

theorem isDigits_replicate (n : Nat) : IsDigits (List.replicate n '0') := by
  intro c mem
  rw [List.eq_of_mem_replicate mem]
  rfl

theorem IsDigits.append {front behind : List Char} (first : IsDigits front)
    (second : IsDigits behind) : IsDigits (front ++ behind) :=
  List.forall_mem_append.2 ⟨first, second⟩

/-- The digits of a number begin with a zero only if it is zero. -/
theorem head?_toDigits_ne_zero {n : Nat} (ne : n ≠ 0) : (Nat.toDigits 10 n).head? ≠ some '0' := by
  induction n using Nat.strongRecOn with
  | ind n ih =>
    by_cases small : n < 10
    · have table : ∀ d : Fin 10, d.val ≠ 0 → Nat.digitChar d.val ≠ '0' := by decide
      rw [Nat.toDigits_of_lt_base small]
      exact fun zero => table ⟨n, small⟩ ne (Option.some.inj zero)
    · have shorter := ih (n / 10) (by omega) (by omega)
      rw [Nat.toDigits_of_base_le (by decide) (by omega), List.head?_append,
        Option.or_of_isSome (List.isSome_head?.2 Nat.toDigits_ne_nil)]
      exact shorter

/-- Digits that a positive number is written with. -/
structure Leads (digits : List Char) : Prop where
  all : IsDigits digits
  ne : digits ≠ []
  nonzero : digits.head? ≠ some '0'

theorem leads_toDigits {n : Nat} (ne : n ≠ 0) : Leads (Nat.toDigits 10 n) :=
  ⟨isDigits_toDigits n, Nat.toDigits_ne_nil, head?_toDigits_ne_zero ne⟩

theorem Leads.isWhole {digits : List Char} (leads : Leads digits) : Json.IsWhole digits := by
  obtain ⟨all, ne, nonzero⟩ := leads
  cases digits with
  | nil => exact (ne rfl).elim
  | cons c cs =>
    obtain ⟨digit, behind⟩ := List.forall_mem_cons.1 all
    exact .nonzero digit (fun zero => nonzero (congrArg some zero)) behind

theorem Leads.append {digits behind : List Char} (leads : Leads digits) (all : IsDigits behind) :
    Leads (digits ++ behind) := by
  refine ⟨leads.all.append all, List.append_ne_nil_of_left_ne_nil leads.ne _, ?_⟩
  rw [List.head?_append, Option.or_of_isSome (List.isSome_head?.2 leads.ne)]
  exact leads.nonzero

theorem Leads.take {digits : List Char} (leads : Leads digits) {n : Nat} (some : n ≠ 0) :
    Leads (digits.take n) := by
  refine ⟨fun c mem => leads.all c (List.mem_of_mem_take mem), ?_, ?_⟩
  · rw [Ne, List.take_eq_nil_iff, not_or]
    exact ⟨some, leads.ne⟩
  · rw [List.head?_take, if_neg some]
    exact leads.nonzero

/-! ## The fewest digits -/

theorem Digits.digits_strip_ne_zero {d : Digits} (ne : d.digits ≠ 0) : d.strip.digits ≠ 0 := by
  induction d using Digits.strip.induct with
  | case1 d more ih =>
    rw [Digits.strip, dif_pos more]
    apply ih
    simp only
    omega
  | case2 d last =>
    rw [Digits.strip, dif_neg last]
    exact ne

theorem nearer_ne_zero {tie : Tie} {num den low : Nat} (ne : low ≠ 0) :
    nearer tie num den low ≠ 0 := by
  unfold nearer
  split
  · exact ne
  · exact Nat.succ_ne_zero low
  · cases tie with
    | toEven =>
      dsimp only
      split
      · exact ne
      · exact Nat.succ_ne_zero low
    | upward => exact Nat.succ_ne_zero low

section Magnitude

variable {x : Magnitude} (positive : x.significand ≠ 0)

include positive

theorem Magnitude.digits_exact_ne_zero : x.exact.digits ≠ 0 := by
  unfold Magnitude.exact
  split
  · exact Nat.mul_ne_zero positive (Nat.ne_of_gt (Nat.pow_pos (by decide)))
  · exact Nat.mul_ne_zero positive (Nat.ne_of_gt (Nat.pow_pos (by decide)))

/-- Zero is no approximation of a positive number. -/
theorem Magnitude.admits_zero (scale : Int) : x.admits 0 scale = false := by
  have below : ∀ low : Nat, low ≠ 0 →
      compareScaled 0 scale low (x.exponent - 2) = .lt := by
    intro low ne
    rw [compareScaled, Nat.zero_mul, Nat.zero_mul, Nat.compare_eq_lt]
    exact Nat.mul_pos (Nat.mul_pos (Nat.pos_of_ne_zero ne) (Nat.pow_pos (by decide)))
      (Nat.pow_pos (by decide))
  have low : (if x.narrowBelow then 4 * x.significand - 1 else 4 * x.significand - 2) ≠ 0 := by
    split <;> omega
  simp only [admits, below _ low]
  simp

theorem Magnitude.digits_onGrid_ne_zero {tie : Tie} {scale : Int} {d : Digits}
    (found : x.onGrid? tie scale = some d) : d.digits ≠ 0 := by
  have ne : ∀ {low : Nat}, x.admits low scale = true → low ≠ 0 := by
    rintro low admitted rfl
    rw [admits_zero positive scale] at admitted
    cases admitted
  simp only [onGrid?] at found
  split at found
  · next low _ =>
    cases found
    exact nearer_ne_zero (ne low)
  · next low _ =>
    cases found
    exact ne low
  · cases found
    exact Nat.succ_ne_zero _
  · cases found

/-- The shortest digits of a positive number do not denote zero. -/
theorem Magnitude.digits_shortest_ne_zero (tie : Tie) : (x.shortest tie).digits ≠ 0 := by
  apply Digits.digits_strip_ne_zero
  generalize search : List.findSome? _ _ = found
  cases found with
  | none => exact digits_exact_ne_zero positive
  | some d =>
    obtain ⟨n, -, here⟩ := List.exists_of_findSome?_eq_some search
    exact digits_onGrid_ne_zero positive here

end Magnitude

/-! ## The notation -/

namespace Format

/-- Digits with a point are a number without an exponent. -/
theorem isUnsigned_of_point {whole fraction : List Char} (front : Json.IsWhole whole)
    (ne : fraction ≠ []) (all : IsDigits fraction) :
    Json.IsUnsigned (whole ++ '.' :: fraction) := by
  have spelled := Json.IsUnsigned.spelled front (.digits ne all) .none
  rwa [List.append_nil] at spelled

theorem isUnsigned_layoutPositional {digits : List Char} (leads : Leads digits) (point : Int) :
    Json.IsUnsigned (json.layoutPositional digits point) := by
  unfold layoutPositional
  split
  · exact isUnsigned_of_point .zero (List.append_ne_nil_of_right_ne_nil _ leads.ne)
      ((isDigits_replicate _).append leads.all)
  · next inside =>
    split
    · exact isUnsigned_of_point (leads.append (isDigits_replicate _)).isWhole
        (List.cons_ne_nil '0' []) (isDigits_replicate 1)
    · next short =>
      refine isUnsigned_of_point (leads.take (by omega)).isWhole ?_ ?_
      · rw [Ne, List.drop_eq_nil_iff]
        exact short
      · exact fun c mem => leads.all c (List.mem_of_mem_drop mem)

theorem isUnsigned_layoutScientific {digits : List Char} (leads : Leads digits) (point : Int) :
    Json.IsUnsigned (layoutScientific digits point) := by
  have fraction : Json.IsFraction (if digits.length ≤ 1 then [] else '.' :: digits.drop 1) := by
    split
    · exact .none
    · next long =>
      refine .digits ?_ fun c mem => leads.all c (List.mem_of_mem_drop mem)
      rw [Ne, List.drop_eq_nil_iff]
      exact long
  have signed : ∃ negative, IsSign [if point - 1 < 0 then '-' else '+'] negative := by
    split
    · exact ⟨true, .minus⟩
    · exact ⟨false, .plus⟩
  obtain ⟨negative, signed⟩ := signed
  have exponent := IsExponent.marked (.inl rfl) signed Nat.toDigits_ne_nil
    (isDigits_toDigits (point - 1).natAbs)
  have spelled := Json.IsUnsigned.spelled (leads.take Nat.one_ne_zero).isWhole fraction exponent
  rw [← List.append_assoc] at spelled
  exact spelled

theorem isUnsigned_writeMagnitude (x : Magnitude) : Json.IsUnsigned (json.writeMagnitude x) := by
  unfold writeMagnitude
  split
  · exact isUnsigned_of_point .zero (List.cons_ne_nil '0' []) (isDigits_replicate 1)
  · next positive =>
    have leads := leads_toDigits (x.digits_shortest_ne_zero positive json.tie)
    unfold layout
    dsimp only [json]
    split
    · exact isUnsigned_layoutPositional leads _
    · exact isUnsigned_layoutScientific leads _

/-- **A finite number is written in the notation of JSON.** -/
theorem isNumeral_write {x : Float} (number : x.isNaN = false) (finite : x.isInf = false) :
    Json.IsNumeral (json.write x).toList := by
  rw [write, number, finite, if_neg Bool.false_ne_true, if_neg Bool.false_ne_true,
    String.toList_ofList]
  split
  · exact .negative (isUnsigned_writeMagnitude _)
  · exact .plain (isUnsigned_writeMagnitude _)

theorem write_eq_null {x : Float} (other : x.isNaN = true ∨ x.isInf = true) :
    json.write x = "null" := by
  unfold write
  split
  · rfl
  · next number =>
    rw [if_pos (other.resolve_left number)]
    split <;> rfl

end Format

end Number

end Flashdeck
