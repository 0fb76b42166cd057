import Flashdeck.Proofs.Number.Decimal
import Flashdeck.Proofs.Number.Double

/-!
# What texts denote

A text in place of a number is nothing, the name of an infinity, digits behind the mark of a base,
or a decimal; what is none of these is not a number. The reader tells decimals from the words that
denote numbers elsewhere by their letters, before it reads anything.

* `Denotes`: what a text without the mark of a base denotes, said by the grammar of decimals.
* `ofTrimmed_eq_iff_denotes`: the reader gives what the text denotes.
* `Denotes.isNaN_iff`: the texts that are not a number.
* `ofNumeral_eq_coerce`: a run of digits and dots is the same as a numeral and as a text.
-/

namespace Flashdeck.Number

open Text

/-- The letters that mark a base, in either case. -/
inductive IsMark : Char → Nat → Prop
  | hex {mark : Char} (letter : mark = 'x' ∨ mark = 'X') : IsMark mark 16
  | octal {mark : Char} (letter : mark = 'o' ∨ mark = 'O') : IsMark mark 8
  | binary {mark : Char} (letter : mark = 'b' ∨ mark = 'B') : IsMark mark 2

/-- The text is the mark of a base with `digits` behind it. -/
def Marked (base : Nat) (cs digits : List Char) : Prop :=
  ∃ mark, IsMark mark base ∧ cs = '0' :: mark :: digits

/-- The names of the infinities. -/
inductive IsInfinity : List Char → Float → Prop
  | bare : IsInfinity "Infinity".toList infinity
  | plus : IsInfinity "+Infinity".toList infinity
  | minus : IsInfinity "-Infinity".toList (-infinity)

/-- What a text without the mark of a base denotes. -/
inductive Denotes : List Char → Float → Prop
  | nothing : Denotes [] 0
  | infinity {cs : List Char} {x : Float} (name : IsInfinity cs x) : Denotes cs x
  | decimal {cs : List Char} {d : Decimal} (spelled : IsDecimal cs d) : Denotes cs d.toFloat
  | other {cs : List Char} (some : cs ≠ []) (noName : ∀ x, ¬ IsInfinity cs x)
      (noDecimal : ∀ d, ¬ IsDecimal cs d) : Denotes cs notANumber

/-! ## Marks and names -/

theorem splitBase?_eq_some_iff {cs digits : List Char} {base : Nat} :
    splitBase? cs = some (base, digits) ↔ Marked base cs digits := by
  apply Iff.intro
  · intro split
    unfold splitBase? at split
    split at split
    · next mark rest =>
      split at split
      · next letter => cases split; exact ⟨mark, .hex letter, rfl⟩
      · split at split
        · next letter => cases split; exact ⟨mark, .octal letter, rfl⟩
        · split at split
          · next letter => cases split; exact ⟨mark, .binary letter, rfl⟩
          · cases split
    · cases split
  · rintro ⟨mark, letter, rfl⟩
    cases letter with
    | hex letter => rcases letter with rfl | rfl <;> rfl
    | octal letter => rcases letter with rfl | rfl <;> rfl
    | binary letter => rcases letter with rfl | rfl <;> rfl

theorem splitBase?_eq_none {cs : List Char} (unmarked : ∀ base digits, ¬ Marked base cs digits) :
    splitBase? cs = none := by
  rw [Option.eq_none_iff_forall_ne_some]
  rintro ⟨base, digits⟩ split
  exact unmarked base digits (splitBase?_eq_some_iff.1 split)

theorem ofInfinityName?_eq_some_iff {cs : List Char} {x : Float} :
    ofInfinityName? cs = some x ↔ IsInfinity cs x := by
  apply Iff.intro
  · intro named
    unfold ofInfinityName? at named
    dsimp only at named
    split at named
    · next name =>
      cases named
      rcases name with bare | plus
      · rw [← String.toList_ofList (l := cs), bare]
        exact .bare
      · rw [← String.toList_ofList (l := cs), plus]
        exact .plus
    · split at named
      · next name =>
        cases named
        rw [← String.toList_ofList (l := cs), name]
        exact .minus
      · cases named
  · intro name
    cases name <;> rfl

theorem ofInfinityName?_eq_none {cs : List Char} (noName : ∀ x, ¬ IsInfinity cs x) :
    ofInfinityName? cs = none := by
  rw [Option.eq_none_iff_forall_ne_some]
  exact fun x named => noName x (ofInfinityName?_eq_some_iff.1 named)

theorem Marked.not_isInfinity {base : Nat} {cs digits : List Char} (marked : Marked base cs digits)
    (x : Float) : ¬ IsInfinity cs x := by
  obtain ⟨mark, -, shape⟩ := marked
  intro name
  cases name <;> cases shape

theorem IsInfinity.mem_letter {cs : List Char} {x : Float} (name : IsInfinity cs x) : 'I' ∈ cs := by
  cases name <;> decide

/-- An infinity has a letter that is in no decimal. -/
theorem IsInfinity.not_isDecimal {cs : List Char} {x : Float} (name : IsInfinity cs x)
    (d : Decimal) : ¬ IsDecimal cs d := by
  intro spelled
  exact absurd (spelled.not_isForeignLetter 'I' name.mem_letter) (by decide)

theorem IsInfinity.ne_nil {cs : List Char} {x : Float} (name : IsInfinity cs x) : cs ≠ [] :=
  List.ne_nil_of_mem name.mem_letter

theorem IsDecimal.ne_nil {cs : List Char} {d : Decimal} (spelled : IsDecimal cs d) : cs ≠ [] := by
  rintro rfl
  have read := Decimal.ofText?_eq_some_iff.2 spelled
  cases read

/-! ## Trimmed texts -/

theorem ofTrimmed_eq_of_isInfinity {cs : List Char} {x : Float} (name : IsInfinity cs x) :
    ofTrimmed cs = x := by
  rw [ofTrimmed, List.isEmpty_eq_false_iff.2 name.ne_nil, if_neg Bool.false_ne_true,
    ofInfinityName?_eq_some_iff.2 name]

/-- A text that is no name and has no mark is told by its letters. -/
theorem ofTrimmed_eq_ite {cs : List Char} (unmarked : ∀ base digits, ¬ Marked base cs digits)
    (some : cs ≠ []) (noName : ∀ x, ¬ IsInfinity cs x) :
    ofTrimmed cs = if cs.any isForeignLetter then notANumber else ofNumeral cs := by
  rw [ofTrimmed, List.isEmpty_eq_false_iff.2 some, if_neg Bool.false_ne_true,
    ofInfinityName?_eq_none noName, splitBase?_eq_none unmarked]

theorem ofTrimmed_eq_of_isDecimal {cs : List Char} {d : Decimal}
    (unmarked : ∀ base digits, ¬ Marked base cs digits) (spelled : IsDecimal cs d) :
    ofTrimmed cs = d.toFloat := by
  have noLetter : cs.any isForeignLetter = false := by
    rw [List.any_eq_false]
    exact fun c mem => Bool.eq_false_iff.1 (spelled.not_isForeignLetter c mem)
  rw [ofTrimmed_eq_ite unmarked spelled.ne_nil fun x name => name.not_isDecimal d spelled,
    noLetter, if_neg Bool.false_ne_true, ofNumeral, ofText?_eq_of_isDecimal spelled,
    Option.getD_some]

/-- No other text is a number, the words for numbers included: they have letters. -/
theorem ofTrimmed_eq_notANumber {cs : List Char} (unmarked : ∀ base digits, ¬ Marked base cs digits)
    (some : cs ≠ []) (noName : ∀ x, ¬ IsInfinity cs x) (noDecimal : ∀ d, ¬ IsDecimal cs d) :
    ofTrimmed cs = notANumber := by
  rw [ofTrimmed_eq_ite unmarked some noName]
  split
  · rfl
  · next letters =>
    have plain : ∀ c ∈ cs, isForeignLetter c = false := by
      rwa [Bool.not_eq_true, List.any_eq_false, ← forall₂_congr fun _ _ => Bool.eq_false_iff]
        at letters
    have none : Decimal.ofText? cs = Option.none := by
      rw [Option.eq_none_iff_forall_ne_some]
      exact fun d read => noDecimal d (Decimal.ofText?_eq_some_iff.1 read)
    rw [ofNumeral, ofText?_eq_map plain, none]
    rfl

/-- **What a text without the mark of a base denotes**, by the grammar of decimals. -/
theorem ofTrimmed_eq_iff_denotes {cs : List Char} {x : Float}
    (unmarked : ∀ base digits, ¬ Marked base cs digits) : ofTrimmed cs = x ↔ Denotes cs x := by
  apply Iff.intro
  · rintro rfl
    by_cases empty : cs = []
    · subst empty
      exact .nothing
    · by_cases named : ∃ x, IsInfinity cs x
      · obtain ⟨x, name⟩ := named
        rw [ofTrimmed_eq_of_isInfinity name]
        exact .infinity name
      · by_cases decimal : ∃ d, IsDecimal cs d
        · obtain ⟨d, spelled⟩ := decimal
          rw [ofTrimmed_eq_of_isDecimal unmarked spelled]
          exact .decimal spelled
        · rw [not_exists] at named decimal
          rw [ofTrimmed_eq_notANumber unmarked empty named decimal]
          exact .other empty named decimal
  · intro denotes
    cases denotes with
    | nothing => rfl
    | infinity name => exact ofTrimmed_eq_of_isInfinity name
    | decimal spelled => exact ofTrimmed_eq_of_isDecimal unmarked spelled
    | other some noName noDecimal => exact ofTrimmed_eq_notANumber unmarked some noName noDecimal

theorem IsInfinity.isNaN_eq_false {cs : List Char} {x : Float} (name : IsInfinity cs x) :
    x.isNaN = false := by
  cases name with
  | bare => exact isNaN_infinity
  | plus => exact isNaN_infinity
  | minus => rw [isNaN_neg, isNaN_infinity]

/-- The texts that are not a number: none of the others denotes what is none. -/
theorem Denotes.isNaN_iff {cs : List Char} {x : Float} (denotes : Denotes cs x) :
    x.isNaN = true ↔ cs ≠ [] ∧ (∀ x, ¬ IsInfinity cs x) ∧ ∀ d, ¬ IsDecimal cs d := by
  cases denotes with
  | nothing =>
    refine iff_of_false ?_ fun other => other.1 rfl
    exact Bool.eq_false_iff.1 (isNaN_ofNat 0)
  | infinity name =>
    refine iff_of_false ?_ fun other => other.2.1 x name
    exact Bool.eq_false_iff.1 name.isNaN_eq_false
  | decimal spelled =>
    refine iff_of_false ?_ fun other => other.2.2 _ spelled
    exact Bool.eq_false_iff.1 (Decimal.isNaN_toFloat _)
  | other some noName noDecimal => exact iff_of_true isNaN_notANumber ⟨some, noName, noDecimal⟩

/-- Behind a sign or not, a word for a number denotes none, unless it is the name of an infinity. -/
theorem isNaN_ofTrimmed_of_ofWord? {cs : List Char}
    (unmarked : ∀ base digits, ¬ Marked base cs digits)
    (word : (ofWord? (readSign cs).2).isSome = true) (noName : ∀ x, ¬ IsInfinity cs x) :
    (ofTrimmed cs).isNaN = true := by
  obtain ⟨c, mem, foreign⟩ := exists_isForeignLetter_of_ofWord? word
  obtain ⟨sign, -, split⟩ := exists_isSign_readSign cs
  have inside : c ∈ cs := split ▸ List.mem_append_right sign mem
  have denotes := (ofTrimmed_eq_iff_denotes unmarked).1 rfl
  refine denotes.isNaN_iff.2 ⟨List.ne_nil_of_mem inside, noName, fun d spelled => ?_⟩
  rw [spelled.not_isForeignLetter c inside] at foreign
  cases foreign

/-! ## Runs of digits and dots -/

section Run

variable {run : List Char} (ne : run ≠ []) (all : ∀ c ∈ run, c.isDigit = true ∨ c = '.')

include all

theorem IsMark.not_mem {mark : Char} {base : Nat} (letter : IsMark mark base) : mark ∉ run := by
  intro mem
  have other := all mark mem
  cases letter with
  | hex letter => rcases letter with rfl | rfl <;> exact absurd other (by decide)
  | octal letter => rcases letter with rfl | rfl <;> exact absurd other (by decide)
  | binary letter => rcases letter with rfl | rfl <;> exact absurd other (by decide)

theorem not_marked_of_run (base : Nat) (digits : List Char) : ¬ Marked base run digits := by
  rintro ⟨mark, letter, rfl⟩
  exact letter.not_mem all (by simp)

theorem not_isInfinity_of_run (x : Float) : ¬ IsInfinity run x := by
  intro name
  exact absurd (all 'I' name.mem_letter) (by decide)

theorem trim_run : trim isBlank run = run := by
  have solid : ∀ c ∈ run, isBlank c = false := by
    intro c mem
    apply isBlank_eq_false_of_isNumeralChar
    rw [isNumeralChar, Bool.or_eq_true, beq_iff_eq]
    exact all c mem
  exact trim_eq_self_iff.2
    ⟨fun c mem => solid c (List.mem_of_mem_head? mem), NoBlankEnd.of_forall solid⟩

include ne

/-- The same number, as a numeral and as a text. -/
theorem ofNumeral_eq_coerce : ofNumeral run = coerce run := by
  have noLetter : run.any isForeignLetter = false := by
    rw [List.any_eq_false]
    intro c mem
    apply Bool.eq_false_iff.1
    rcases all c mem with digit | rfl
    · exact isForeignLetter_of_isDigit digit
    · rfl
  rw [coerce, trim_run all, ofTrimmed_eq_ite (not_marked_of_run all) ne (not_isInfinity_of_run all),
    noLetter, if_neg Bool.false_ne_true]

theorem isNaN_ofNumeral_iff :
    (ofNumeral run).isNaN = true ↔ 2 ≤ run.count '.' ∨ ∀ c ∈ run, c.isDigit = false := by
  have denotes := (ofTrimmed_eq_iff_denotes (not_marked_of_run all)).1 rfl
  have noDecimal : (∀ d, ¬ IsDecimal run d) ↔
      2 ≤ run.count '.' ∨ ∀ c ∈ run, c.isDigit = false := by
    rw [← not_exists, exists_isDecimal_iff all, not_and_or, Nat.not_le, not_exists]
    simp only [not_and, Bool.not_eq_true]
    rfl
  rw [ofNumeral_eq_coerce ne all, coerce, trim_run all, denotes.isNaN_iff, noDecimal]
  exact ⟨fun other => other.2.2, fun other => ⟨ne, not_isInfinity_of_run all, other⟩⟩

end Run

end Flashdeck.Number
