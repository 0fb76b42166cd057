import Flashdeck.Card.Value
import Flashdeck.Proofs.Number.Coercion
import Flashdeck.Proofs.Number.Nearest

/-!
# Numbers behind the mark of a base

Behind the mark of a base stands a whole number in that base. It is read as a word of 64 bits, and
words are read as they are elsewhere: a plus sign in front does not count, and a number that needs
more bits is none, however plain its digits are. What is read becomes the double nearest to it.

* `IsNumber`: the digits of a number in a base.
* `word?_eq_some_iff`: the words that are read.
* `Value.toNumber_marked`: what a text with the mark of a base stands for.
* `not_forall_isNaN_eq_false_iff`: digits alone do not decide it.
-/

namespace Flashdeck

open Text

namespace Number

/-- The digits of a number in a base, the last one apart from those before it. -/
inductive IsNumber (base : Nat) : List Char → Nat → Prop
  | digit {c : Char} {d : Nat} (value : digitValue? c = some d) (small : d < base) :
      IsNumber base [c] d
  | concat {cs : List Char} {n : Nat} {c : Char} {d : Nat} (front : IsNumber base cs n)
      (value : digitValue? c = some d) (small : d < base) : IsNumber base (cs ++ [c]) (base * n + d)

/-! ## Digits -/

theorem IsNumber.ne_nil {base n : Nat} {cs : List Char} (number : IsNumber base cs n) :
    cs ≠ [] := by
  cases number with
  | digit => exact List.cons_ne_nil _ _
  | concat => exact List.append_ne_nil_of_right_ne_nil _ (List.cons_ne_nil _ _)

/-- A number has digits of the base and nothing else. -/
theorem IsNumber.exists_digit {base n : Nat} {cs : List Char} (number : IsNumber base cs n) :
    ∀ c ∈ cs, ∃ d, digitValue? c = some d ∧ d < base := by
  induction number with
  | digit value small => exact List.forall_mem_singleton.2 ⟨_, value, small⟩
  | concat front value small ih =>
    exact List.forall_mem_append.2 ⟨ih, List.forall_mem_singleton.2 ⟨_, value, small⟩⟩

theorem readDigits_append {base value : Nat} (cs ds : List Char) :
    readDigits base value (cs ++ ds) =
      (readDigits base value cs).bind fun read => readDigits base read ds := by
  induction cs generalizing value with
  | nil => rfl
  | cons c cs ih =>
    rw [List.cons_append, readDigits, readDigits]
    split
    · split
      · exact ih
      · rfl
    · rfl

theorem readDigits_singleton_eq_some_iff {base value n : Nat} {c : Char} :
    readDigits base value [c] = some n ↔
      ∃ d, digitValue? c = some d ∧ d < base ∧ n = base * value + d := by
  rw [readDigits]
  cases digit : digitValue? c with
  | none => simp
  | some d =>
    by_cases small : d < base
    · simp [readDigits, small, eq_comm]
    · simp [small]

/-- The reader goes from the first digit to the last, and each digit moves those before it up. -/
theorem readDigits_eq_some_iff {base n : Nat} {cs : List Char} (ne : cs ≠ []) :
    readDigits base 0 cs = some n ↔ IsNumber base cs n := by
  apply Iff.intro
  · intro read
    induction cs using List.reverseRecOn generalizing n with
    | nil => exact (ne rfl).elim
    | append_singleton cs c ih =>
      rw [readDigits_append, Option.bind_eq_some_iff] at read
      obtain ⟨front, first, last⟩ := read
      obtain ⟨d, value, small, rfl⟩ := readDigits_singleton_eq_some_iff.1 last
      by_cases alone : cs = []
      · subst alone
        cases first
        rw [Nat.mul_zero, Nat.zero_add]
        exact .digit value small
      · exact .concat (ih alone first) value small
  · intro number
    clear ne
    induction number with
    | digit value small =>
      exact readDigits_singleton_eq_some_iff.2 ⟨_, value, small, by rw [Nat.mul_zero, Nat.zero_add]⟩
    | concat front value small ih =>
      rw [readDigits_append, ih, Option.bind_some]
      exact readDigits_singleton_eq_some_iff.2 ⟨_, value, small, rfl⟩

/-- The words that are read: numbers of 64 bits, with a plus sign in front or without. -/
theorem word?_eq_some_iff {base n : Nat} {cs : List Char} :
    word? base cs = some n ↔ IsNumber base (dropPlus cs) n ∧ n < 2 ^ 64 := by
  rw [word?]
  by_cases empty : dropPlus cs = []
  · rw [empty]
    exact iff_of_false (fun read => nomatch read) fun both => both.1.ne_nil rfl
  · simp only [List.isEmpty_eq_false_iff.2 empty, Bool.false_eq_true, if_false,
      Option.filter_eq_some_iff, decide_eq_true_eq]
    rw [readDigits_eq_some_iff empty]
    rfl

/-! ## Texts -/

theorem coerce_of_marked {cs digits : List Char} {base : Nat}
    (marked : Marked base (trim isBlank cs) digits) :
    coerce cs = ((word? base digits).map Float.ofNat).getD notANumber := by
  have some : (trim isBlank cs).isEmpty = false := by
    obtain ⟨mark, -, shape⟩ := marked
    rw [shape]
    rfl
  rw [coerce, ofTrimmed, some, if_neg Bool.false_ne_true,
    ofInfinityName?_eq_none marked.not_isInfinity, splitBase?_eq_some_iff.2 marked]

end Number

open Number

/-- **What a text with the mark of a base stands for.** It is a number exactly if behind the mark,
and a plus sign if there is one, stand digits of the base and nothing else, at least one of them,
and they denote a number of 64 bits. Then it is the double nearest to that number. -/
theorem Value.toNumber_marked {content : String} {base : Nat} {digits : List Char}
    (marked : Marked base (trim isBlank content.toList) digits) :
    ((Value.text content).toNumber.isNaN = false ↔
      ∃ n, IsNumber base (dropPlus digits) n ∧ n < 2 ^ 64) ∧
    ∀ n, IsNumber base (dropPlus digits) n → n < 2 ^ 64 →
      (Value.text content).toNumber = Float.ofNat n ∧
        IsNearest (Value.text content).toNumber n := by
  rw [Value.toNumber, coerce_of_marked marked]
  refine ⟨?_, fun n number bound => ?_⟩
  · cases read : word? base digits with
    | none =>
      refine iff_of_false ?_ ?_
      · rw [Option.map_none, Option.getD_none, isNaN_notANumber]
        exact Bool.false_ne_true ∘ Eq.symm
      · rintro ⟨n, both⟩
        rw [word?_eq_some_iff.2 both] at read
        cases read
    | some n => exact iff_of_true (isNaN_ofNat n) ⟨n, word?_eq_some_iff.1 read⟩
  · rw [word?_eq_some_iff.2 ⟨number, bound⟩]
    exact ⟨rfl, isNearest_ofNat bound⟩

theorem toNumber_hexadecimal : IsNearest (Value.text " 0x1f").toNumber 31 := by
  have marked : Marked 16 (trim isBlank " 0x1f".toList) ['1', 'f'] :=
    ⟨'x', .hex (.inl rfl), by decide +kernel⟩
  have number : IsNumber 16 (dropPlus ['1', 'f']) (16 * 1 + 15) :=
    .concat (.digit (by decide) (by decide)) (by decide) (by decide)
  exact ((Value.toNumber_marked marked).2 _ number (by decide)).2

/-- Digits behind the mark do not decide it alone: `0x+10` has a plus sign among them and is a
number all the same, and `0x10000000000000000` has nothing else and is none. -/
theorem not_forall_isNaN_eq_false_iff :
    (¬ ∀ (content : String) (base : Nat) (digits : List Char),
      Marked base (trim isBlank content.toList) digits →
        ((Value.text content).toNumber.isNaN = false ↔ ∃ n, IsNumber base digits n)) ∧
    (Value.text "0x+10").toNumber = 16 ∧
    IsNumber 16 ('1' :: List.replicate 16 '0') (2 ^ 64) ∧
    (Value.text "0x10000000000000000").toNumber.isNaN = true := by
  have plus : Marked 16 (trim isBlank "0x+10".toList) ['+', '1', '0'] :=
    ⟨'x', .hex (.inl rfl), by decide +kernel⟩
  have long : Marked 16 (trim isBlank "0x10000000000000000".toList)
      ('1' :: List.replicate 16 '0') :=
    ⟨'x', .hex (.inl rfl), by decide +kernel⟩
  have sixteen : (Value.text "0x+10").toNumber = 16 := by
    rw [Value.toNumber, coerce_of_marked plus]
    rfl
  have digits : IsNumber 16 ('1' :: List.replicate 16 '0') (2 ^ 64) :=
    (readDigits_eq_some_iff (List.cons_ne_nil _ _)).1 (by decide +kernel)
  refine ⟨fun claim => ?_, sixteen, digits, ?_⟩
  · have number : (Value.text "0x+10").toNumber.isNaN = false := by
      rw [sixteen]
      exact isNaN_ofNat 16
    obtain ⟨n, digits⟩ := (claim _ _ _ plus).1 number
    obtain ⟨d, value, -⟩ := digits.exists_digit '+' List.mem_cons_self
    cases value
  · have tooLong : word? 16 ('1' :: List.replicate 16 '0') = none := by decide +kernel
    rw [Value.toNumber, coerce_of_marked long, tooLong]
    exact isNaN_notANumber

end Flashdeck
