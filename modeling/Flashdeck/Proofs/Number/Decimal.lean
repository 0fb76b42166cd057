import Mathlib.Data.List.TakeDrop
import Flashdeck.Number.Coercion
import Flashdeck.Proofs.Text.Blank

/-!
# The grammar of decimals

A decimal is an optional sign, digits with an optional dot among them, and an optional exponent. The
reader goes from left to right, takes all digits that it finds and never goes back. It loses nothing
by that: neither a dot nor the letter of an exponent is a digit, so there is one way to split a text
into the parts of a decimal. A number is a decimal or a word, and no decimal begins as a word does.

* `IsDecimal`: the grammar, with the number that the parts denote.
* `Decimal.ofText?_eq_some_iff`: the reader reads this grammar.
* `ofText?_eq_map`: words apart, a number is a decimal.
* `IsDouble`, `ofText?_eq_some_iff`: with the words, all numbers that are read.
* `exists_isDecimal_iff`: the runs of digits and dots that are decimals.
-/

namespace Flashdeck.Number

/-- Digits throughout. -/
def IsDigits (cs : List Char) : Prop :=
  ∀ c ∈ cs, c.isDigit = true

/-- An optional sign, and whether it is a minus. -/
inductive IsSign : List Char → Bool → Prop
  | none : IsSign [] false
  | plus : IsSign ['+'] false
  | minus : IsSign ['-'] true

/-- Digits, an optional dot and optional digits, or a dot and digits: the digits before the dot and
those behind it. -/
inductive IsMantissa : List Char → List Char → List Char → Prop
  | plain {whole : List Char} (ne : whole ≠ []) (digits : IsDigits whole) :
      IsMantissa whole whole []
  | dotted {whole fraction : List Char} (ne : whole ≠ []) (digits : IsDigits whole)
      (behind : IsDigits fraction) : IsMantissa (whole ++ '.' :: fraction) whole fraction
  | bare {fraction : List Char} (ne : fraction ≠ []) (behind : IsDigits fraction) :
      IsMantissa ('.' :: fraction) [] fraction

/-- An optional exponent: the letter, an optional sign and digits. -/
inductive IsExponent : List Char → Int → Prop
  | none : IsExponent [] 0
  | marked {mark : Char} {sign digits : List Char} {negative : Bool}
      (letter : mark = 'e' ∨ mark = 'E') (signed : IsSign sign negative) (ne : digits ≠ [])
      (all : IsDigits digits) : IsExponent (mark :: (sign ++ digits))
        (if negative then -(ofDigits digits : Int) else ofDigits digits)

/-- A decimal without its sign. -/
inductive IsUnsigned (negative : Bool) : List Char → Decimal → Prop
  | spelled {mantissa whole fraction exponent : List Char} {power : Int}
      (digits : IsMantissa mantissa whole fraction) (scaled : IsExponent exponent power) :
      IsUnsigned negative (mantissa ++ exponent)
        ⟨negative, ofDigits (whole ++ fraction), power - fraction.length⟩

/-- A decimal, and the number that it denotes. -/
inductive IsDecimal : List Char → Decimal → Prop
  | spelled {sign body : List Char} {negative : Bool} {d : Decimal} (signed : IsSign sign negative)
      (unsigned : IsUnsigned negative body d) : IsDecimal (sign ++ body) d

/-- A word for a number in any letter case, and its magnitude. -/
inductive IsWord : List Char → Float → Prop
  | inf {cs : List Char} (name : cs.map Char.toLower = ['i', 'n', 'f']) : IsWord cs infinity
  | infinity {cs : List Char}
      (name : cs.map Char.toLower = ['i', 'n', 'f', 'i', 'n', 'i', 't', 'y']) : IsWord cs infinity
  | nan {cs : List Char} (name : cs.map Char.toLower = ['n', 'a', 'n']) : IsWord cs notANumber

/-- A decimal, or a word behind an optional sign, and the double that it denotes. -/
inductive IsDouble : List Char → Float → Prop
  | decimal {cs : List Char} {d : Decimal} (spelled : IsDecimal cs d) : IsDouble cs d.toFloat
  | word {sign body : List Char} {negative : Bool} {magnitude : Float} (front : IsSign sign negative)
      (named : IsWord body magnitude) : IsDouble (sign ++ body) (signed negative magnitude)

/-! ## Signs -/

theorem readSign_append {sign body : List Char} {negative : Bool} (signed : IsSign sign negative)
    (stop : ∀ c ∈ body.head?, c ≠ '+' ∧ c ≠ '-') : readSign (sign ++ body) = (negative, body) := by
  cases signed with
  | none =>
    rw [List.nil_append]
    unfold readSign
    split
    · exact ((stop '+' (by simp)).1 rfl).elim
    · exact ((stop '-' (by simp)).2 rfl).elim
    · rfl
  | plus => rfl
  | minus => rfl

theorem exists_isSign_readSign (cs : List Char) :
    ∃ sign, IsSign sign (readSign cs).1 ∧ cs = sign ++ (readSign cs).2 := by
  unfold readSign
  split
  · exact ⟨['+'], .plus, rfl⟩
  · exact ⟨['-'], .minus, rfl⟩
  · exact ⟨[], .none, rfl⟩

theorem ne_sign_of_isDigit {c : Char} (digit : c.isDigit = true) : c ≠ '+' ∧ c ≠ '-' := by
  constructor
  · rintro rfl
    exact absurd digit (by decide)
  · rintro rfl
    exact absurd digit (by decide)

theorem IsDigits.nil : IsDigits [] :=
  List.forall_mem_nil _

theorem IsDigits.ne_sign {digits : List Char} (all : IsDigits digits) :
    ∀ c ∈ digits.head?, c ≠ '+' ∧ c ≠ '-' :=
  fun c mem => ne_sign_of_isDigit (all c (List.mem_of_mem_head? mem))

/-! ## Exponents -/

theorem readExponent_eq_some_iff {cs : List Char} {power : Int} :
    readExponent cs = some power ↔ IsExponent cs power := by
  apply Iff.intro
  · intro read
    unfold readExponent at read
    split at read
    · cases read
      exact .none
    · next mark behind =>
      obtain ⟨sign, signed, split⟩ := exists_isSign_readSign behind
      split at read
      · next letter =>
        dsimp only at read
        split at read
        · cases read
        · next digits =>
          simp only [Bool.or_eq_true, List.isEmpty_iff, Bool.not_eq_true', not_or,
            Bool.not_eq_false, List.all_eq_true] at digits
          have whole := IsExponent.marked letter signed digits.1 digits.2
          rw [← split] at whole
          cases negative : (readSign behind).1 with
          | true =>
            rw [negative, if_pos rfl] at read whole
            exact Option.some.inj read ▸ whole
          | false =>
            rw [negative, if_neg Bool.false_ne_true] at read whole
            exact Option.some.inj read ▸ whole
      · cases read
  · intro spelled
    cases spelled with
    | none => rfl
    | @marked mark sign digits negative letter signed ne all =>
      have read := readSign_append signed all.ne_sign
      have bad : (digits.isEmpty || !digits.all Char.isDigit) = false := by
        rw [List.isEmpty_eq_false_iff.2 ne, List.all_eq_true.2 all]
        rfl
      rw [readExponent, if_pos letter, read]
      simp only [bad, Bool.false_eq_true, if_false]
      cases negative <;> rfl

/-- No exponent begins with a digit or a dot. -/
theorem IsExponent.stops {exponent : List Char} {power : Int}
    (scaled : IsExponent exponent power) :
    ∀ c ∈ exponent.head?, c.isDigit = false ∧ c ≠ '.' := by
  intro c mem
  cases scaled with
  | none => cases mem
  | marked letter =>
    cases mem
    rcases letter with rfl | rfl
    · decide
    · decide

/-! ## Decimals -/

/-- Digits are read to their end. -/
theorem span_append {digits rest : List Char} (all : IsDigits digits)
    (stop : ∀ c ∈ rest.head?, c.isDigit = false) :
    (digits ++ rest).span Char.isDigit = (digits, rest) := by
  obtain ⟨take, drop⟩ := Script.Lexeme.takeWhile_append_of_stop all stop
  rw [List.span_eq_takeWhile_dropWhile, take, drop]

theorem exists_of_span {cs digits rest : List Char}
    (read : cs.span Char.isDigit = (digits, rest)) :
    IsDigits digits ∧ cs = digits ++ rest ∧ ∀ c ∈ rest.head?, c.isDigit = false := by
  rw [List.span_eq_takeWhile_dropWhile, Prod.mk.injEq] at read
  obtain ⟨rfl, rfl⟩ := read
  exact ⟨List.all_eq_true.1 List.all_takeWhile, List.takeWhile_append_dropWhile.symm,
    Script.Lexeme.head?_dropWhile_eq_false⟩

theorem exists_of_readFraction {cs fraction rest : List Char}
    (read : readFraction cs = (fraction, rest)) :
    cs = '.' :: (fraction ++ rest) ∧ IsDigits fraction ∨ fraction = [] ∧ cs = rest := by
  unfold readFraction at read
  split at read
  · obtain ⟨all, rfl, -⟩ := exists_of_span read
    exact .inl ⟨rfl, all⟩
  · cases read
    exact .inr ⟨rfl, rfl⟩

theorem readFraction_dot {fraction rest : List Char} (all : IsDigits fraction)
    (stop : ∀ c ∈ rest.head?, c.isDigit = false) :
    readFraction ('.' :: (fraction ++ rest)) = (fraction, rest) :=
  span_append all stop

theorem readFraction_of_ne {rest : List Char} (stop : ∀ c ∈ rest.head?, c ≠ '.') :
    readFraction rest = ([], rest) := by
  unfold readFraction
  split
  · exact (stop '.' rfl rfl).elim
  · rfl

/-- What the reader takes of a mantissa with an exponent behind it. -/
theorem IsMantissa.read {mantissa whole fraction exponent : List Char} {power : Int}
    (digits : IsMantissa mantissa whole fraction) (scaled : IsExponent exponent power) :
    ∃ rest, (mantissa ++ exponent).span Char.isDigit = (whole, rest) ∧
      readFraction rest = (fraction, exponent) ∧ ¬ (whole = [] ∧ fraction = []) := by
  have stop := scaled.stops
  have dot : ∀ c ∈ ('.' :: (fraction ++ exponent)).head?, c.isDigit = false := by
    intro c mem
    cases mem
    decide
  cases digits with
  | plain ne digits =>
    refine ⟨exponent, span_append digits fun c mem => (stop c mem).1, ?_, fun nil => ne nil.1⟩
    exact readFraction_of_ne fun c mem => (stop c mem).2
  | dotted ne digits behind =>
    refine ⟨'.' :: (fraction ++ exponent), ?_, ?_, fun nil => ne nil.1⟩
    · rw [List.append_assoc]
      exact span_append digits dot
    · exact readFraction_dot behind fun c mem => (stop c mem).1
  | bare ne behind =>
    refine ⟨'.' :: (fraction ++ exponent), ?_, ?_, fun nil => ne nil.2⟩
    · exact span_append IsDigits.nil dot
    · exact readFraction_dot behind fun c mem => (stop c mem).1

theorem readUnsigned_eq_some_iff {negative : Bool} {cs : List Char} {d : Decimal} :
    readUnsigned negative cs = some d ↔ IsUnsigned negative cs d := by
  apply Iff.intro
  · intro read
    unfold readUnsigned at read
    rcases spanEq : cs.span Char.isDigit with ⟨whole, rest⟩
    rcases fractionEq : readFraction rest with ⟨fraction, exponent⟩
    simp only [spanEq, fractionEq] at read
    split at read
    · cases read
    · next some =>
      obtain ⟨power, scaled, rfl⟩ := Option.map_eq_some_iff.1 read
      rw [readExponent_eq_some_iff] at scaled
      obtain ⟨digits, rfl, -⟩ := exists_of_span spanEq
      rw [Bool.and_eq_true, List.isEmpty_iff, List.isEmpty_iff] at some
      rcases exists_of_readFraction fractionEq with ⟨rfl, behind⟩ | ⟨rfl, rfl⟩
      · by_cases nil : whole = []
        · subst nil
          have split : [] ++ '.' :: (fraction ++ exponent) = ('.' :: fraction) ++ exponent := rfl
          rw [split]
          exact .spelled (.bare (fun none => some ⟨rfl, none⟩) behind) scaled
        · have split : whole ++ '.' :: (fraction ++ exponent) =
              (whole ++ '.' :: fraction) ++ exponent := by simp
          rw [split]
          exact .spelled (.dotted nil digits behind) scaled
      · exact .spelled (.plain (fun none => some ⟨none, rfl⟩) digits) scaled
  · intro spelled
    cases spelled with
    | @spelled _ whole fraction _ _ digits scaled =>
      obtain ⟨rest, spanEq, fractionEq, some⟩ := digits.read scaled
      have given : ¬ (whole.isEmpty && fraction.isEmpty) = true := by
        rw [Bool.and_eq_true, List.isEmpty_iff, List.isEmpty_iff]
        exact some
      simp only [readUnsigned, spanEq, fractionEq, if_neg given,
        readExponent_eq_some_iff.2 scaled, Option.map_some]

/-- A decimal begins with no sign behind its sign. -/
theorem IsUnsigned.ne_sign {negative : Bool} {body : List Char} {d : Decimal}
    (unsigned : IsUnsigned negative body d) : ∀ c ∈ body.head?, c ≠ '+' ∧ c ≠ '-' := by
  cases unsigned with
  | spelled digits scaled =>
    have front : ∀ {whole : List Char}, whole ≠ [] → IsDigits whole → ∀ rest : List Char,
        ∀ c ∈ (whole ++ rest).head?, c ≠ '+' ∧ c ≠ '-' := by
      intro whole ne all rest c mem
      rw [List.head?_append, Option.or_of_isSome (List.isSome_head?.2 ne)] at mem
      exact all.ne_sign c mem
    cases digits with
    | plain ne all => exact front ne all _
    | dotted ne all =>
      rw [List.append_assoc]
      exact front ne all _
    | bare =>
      intro c mem
      cases mem
      decide

/-- **The reader of decimals reads their grammar.** -/
theorem Decimal.ofText?_eq_some_iff {cs : List Char} {d : Decimal} :
    Decimal.ofText? cs = some d ↔ IsDecimal cs d := by
  apply Iff.intro
  · intro read
    obtain ⟨sign, signed, split⟩ := exists_isSign_readSign cs
    rw [split]
    exact .spelled signed (readUnsigned_eq_some_iff.1 read)
  · intro spelled
    cases spelled with
    | spelled signed unsigned =>
      rw [Decimal.ofText?, readSign_append signed unsigned.ne_sign]
      exact readUnsigned_eq_some_iff.2 unsigned

/-! ## Letters -/

theorem isForeignLetter_of_isDigit {c : Char} (digit : c.isDigit = true) :
    isForeignLetter c = false := by
  cases letter : c.isAlpha with
  | false => rw [isForeignLetter, letter, Bool.false_and, Bool.false_and]
  | true =>
    rw [Text.isDigit_eq_false_of_isAlpha letter] at digit
    cases digit

theorem IsSign.not_isForeignLetter {sign : List Char} {negative : Bool}
    (signed : IsSign sign negative) : ∀ c ∈ sign, isForeignLetter c = false := by
  cases signed with
  | none => exact List.forall_mem_nil _
  | plus => exact List.forall_mem_singleton.2 rfl
  | minus => exact List.forall_mem_singleton.2 rfl

/-- The only letters of a decimal are those of its exponent. -/
theorem IsDecimal.not_isForeignLetter {cs : List Char} {d : Decimal} (spelled : IsDecimal cs d) :
    ∀ c ∈ cs, isForeignLetter c = false := by
  have digit : ∀ {digits : List Char}, IsDigits digits →
      ∀ c ∈ digits, isForeignLetter c = false :=
    fun all c mem => isForeignLetter_of_isDigit (all c mem)
  have dot : isForeignLetter '.' = false := by decide
  obtain ⟨signed, ⟨digits, scaled⟩⟩ := spelled
  simp only [List.forall_mem_append]
  refine ⟨signed.not_isForeignLetter, ?_, ?_⟩
  · cases digits with
    | plain _ whole => exact digit whole
    | dotted _ whole behind =>
      exact List.forall_mem_append.2 ⟨digit whole, List.forall_mem_cons.2 ⟨dot, digit behind⟩⟩
    | bare _ behind => exact List.forall_mem_cons.2 ⟨dot, digit behind⟩
  · cases scaled with
    | none => exact List.forall_mem_nil _
    | marked letter sign _ all =>
      refine List.forall_mem_cons.2 ⟨?_, List.forall_mem_append.2
        ⟨sign.not_isForeignLetter, digit all⟩⟩
      rcases letter with rfl | rfl
      · decide
      · decide

/-- The letters that begin a word for a number are in no decimal, in either case. -/
theorem isForeignLetter_of_toLower {c : Char} (first : c.toLower = 'i' ∨ c.toLower = 'n') :
    isForeignLetter c = true := by
  have table : ∀ n : Fin 128, (Char.ofNat n).toLower = 'i' ∨ (Char.ofNat n).toLower = 'n' →
      isForeignLetter (Char.ofNat n) = true := by decide
  by_cases ascii : c.toNat < 128
  · have entry := table ⟨c.toNat, ascii⟩
    rw [Char.ofNat_toNat] at entry
    exact entry first
  · have same : c.toLower = c := by
      unfold Char.toLower
      rw [dif_neg]
      intro upper
      have bound : c.toNat ≤ 90 := UInt32.le_iff_toNat_le.1 upper.2
      omega
    rw [same] at first
    rcases first with rfl | rfl
    · decide
    · decide

theorem ofWord?_eq_some_iff {cs : List Char} {x : Float} :
    ofWord? cs = some x ↔ IsWord cs x := by
  -- the words are compared as strings
  have spelled : ∀ name : List Char,
      String.ofList (cs.map Char.toLower) = String.ofList name ↔ cs.map Char.toLower = name :=
    fun _ => ⟨fun same => String.ofList_injective same, congrArg String.ofList⟩
  have inf := spelled ['i', 'n', 'f']
  have infinity := spelled ['i', 'n', 'f', 'i', 'n', 'i', 't', 'y']
  have nan := spelled ['n', 'a', 'n']
  apply Iff.intro
  · intro read
    unfold ofWord? at read
    dsimp only at read
    split at read
    · next name =>
      cases read
      rcases name with short | long
      · exact .inf (inf.1 short)
      · exact .infinity (infinity.1 long)
    · split at read
      · next name =>
        cases read
        exact .nan (nan.1 name)
      · cases read
  · intro word
    unfold ofWord?
    dsimp only
    cases word with
    | inf name => rw [if_pos (.inl (inf.2 name))]
    | infinity name => rw [if_pos (.inr (infinity.2 name))]
    | nan name =>
      rw [if_neg, if_pos (nan.2 name)]
      rw [name]
      decide

/-- The first letter of a word for a number. -/
theorem IsWord.exists_first {cs : List Char} {x : Float} (word : IsWord cs x) :
    ∃ c behind, cs = c :: behind ∧ (c.toLower = 'i' ∨ c.toLower = 'n') := by
  have found : ∀ {name : List Char} {letter : Char}, cs.map Char.toLower = letter :: name →
      letter = 'i' ∨ letter = 'n' →
        ∃ c behind, cs = c :: behind ∧ (c.toLower = 'i' ∨ c.toLower = 'n') := by
    intro name letter spelled first
    obtain ⟨c, behind, rfl, rfl, -⟩ := List.map_eq_cons_iff.1 spelled
    exact ⟨c, behind, rfl, first⟩
  cases word with
  | inf name => exact found name (.inl rfl)
  | infinity name => exact found name (.inl rfl)
  | nan name => exact found name (.inr rfl)

/-- A word for a number begins with a letter that is in no decimal. -/
theorem exists_isForeignLetter_of_ofWord? {cs : List Char} (word : (ofWord? cs).isSome = true) :
    ∃ c ∈ cs, isForeignLetter c = true := by
  obtain ⟨x, read⟩ := Option.isSome_iff_exists.1 word
  obtain ⟨c, behind, rfl, first⟩ := (ofWord?_eq_some_iff.1 read).exists_first
  exact ⟨c, List.mem_cons_self, isForeignLetter_of_toLower first⟩

/-- Without such letters, a number is a decimal. -/
theorem ofText?_eq_map {cs : List Char} (none : ∀ c ∈ cs, isForeignLetter c = false) :
    ofText? cs = (Decimal.ofText? cs).map Decimal.toFloat := by
  have noWord : ofWord? (readSign cs).2 = Option.none := by
    by_contra word
    obtain ⟨c, mem, letter⟩ := exists_isForeignLetter_of_ofWord? (Option.isSome_iff_ne_none.2 word)
    obtain ⟨sign, -, split⟩ := exists_isSign_readSign cs
    rw [none c (split ▸ List.mem_append_right sign mem)] at letter
    cases letter
  simp only [ofText?, noWord, Decimal.ofText?]

theorem ofText?_eq_of_isDecimal {cs : List Char} {d : Decimal} (spelled : IsDecimal cs d) :
    ofText? cs = some d.toFloat := by
  rw [ofText?_eq_map spelled.not_isForeignLetter, Decimal.ofText?_eq_some_iff.2 spelled,
    Option.map_some]

/-- No word begins with a sign. -/
theorem IsWord.ne_sign {cs : List Char} {x : Float} (word : IsWord cs x) :
    ∀ c ∈ cs.head?, c ≠ '+' ∧ c ≠ '-' := by
  obtain ⟨first, behind, rfl, letter⟩ := word.exists_first
  rw [List.head?_cons]
  rintro c ⟨⟩
  constructor
  · rintro rfl
    exact absurd letter (by decide)
  · rintro rfl
    exact absurd letter (by decide)

/-- **The reader of numbers reads decimals and words.** -/
theorem ofText?_eq_some_iff {cs : List Char} {x : Float} :
    ofText? cs = some x ↔ IsDouble cs x := by
  apply Iff.intro
  · intro read
    obtain ⟨sign, front, split⟩ := exists_isSign_readSign cs
    rw [split]
    simp only [ofText?] at read
    cases word : ofWord? (readSign cs).2 with
    | some magnitude =>
      rw [word] at read
      cases read
      exact .word front (ofWord?_eq_some_iff.1 word)
    | none =>
      rw [word] at read
      obtain ⟨d, unsigned, rfl⟩ := Option.map_eq_some_iff.1 read
      exact .decimal (.spelled front (readUnsigned_eq_some_iff.1 unsigned))
  · intro double
    cases double with
    | decimal spelled => exact ofText?_eq_of_isDecimal spelled
    | word front named =>
      simp only [ofText?, readSign_append front named.ne_sign, ofWord?_eq_some_iff.2 named]

/-! ## Runs of digits and dots -/

theorem IsDigits.count_dot {digits : List Char} (all : IsDigits digits) :
    digits.count '.' = 0 :=
  List.count_eq_zero.2 fun mem => absurd (all '.' mem) (by decide)

theorem IsDigits.exists_digit {digits : List Char} (all : IsDigits digits) (ne : digits ≠ []) :
    ∃ c ∈ digits, c.isDigit = true := by
  obtain ⟨c, mem⟩ := List.exists_mem_of_ne_nil digits ne
  exact ⟨c, mem, all c mem⟩

/-- A mantissa has a digit and no second dot. -/
theorem IsMantissa.count_dot {mantissa whole fraction : List Char}
    (digits : IsMantissa mantissa whole fraction) :
    mantissa.count '.' ≤ 1 ∧ ∃ c ∈ mantissa, c.isDigit = true := by
  cases digits with
  | plain ne all => exact ⟨all.count_dot ▸ Nat.zero_le 1, all.exists_digit ne⟩
  | dotted ne all behind =>
    obtain ⟨c, mem, digit⟩ := all.exists_digit ne
    refine ⟨?_, c, List.mem_append_left _ mem, digit⟩
    simp [List.count_append, all.count_dot, behind.count_dot]
  | bare ne behind =>
    obtain ⟨c, mem, digit⟩ := behind.exists_digit ne
    refine ⟨?_, c, List.mem_cons_of_mem _ mem, digit⟩
    simp [behind.count_dot]

section Run

variable {cs : List Char}

/-- Conversely, digits and dots are a mantissa if there is a digit and no second dot. -/
theorem exists_isMantissa (run : ∀ c ∈ cs, c.isDigit = true ∨ c = '.')
    (dots : cs.count '.' ≤ 1) (digit : ∃ c ∈ cs, c.isDigit = true) :
    ∃ whole fraction, IsMantissa cs whole fraction := by
  rcases spanEq : cs.span Char.isDigit with ⟨whole, rest⟩
  obtain ⟨digits, rfl, stop⟩ := exists_of_span spanEq
  cases rest with
  | nil =>
    rw [List.append_nil] at digit ⊢
    obtain ⟨c, mem, -⟩ := digit
    exact ⟨whole, [], .plain (List.ne_nil_of_mem mem) digits⟩
  | cons c fraction =>
    have dot : c = '.' :=
      (run c (by simp)).resolve_left (by rw [stop c rfl]; exact Bool.false_ne_true)
    subst dot
    have behind : IsDigits fraction := by
      intro c mem
      refine (run c (by simp [mem])).resolve_right ?_
      rintro rfl
      have two : 0 < fraction.count '.' := List.count_pos_iff.2 mem
      rw [List.count_append, List.count_cons_self] at dots
      omega
    by_cases ne : whole = []
    · subst ne
      obtain ⟨c, mem, digit⟩ := digit
      refine ⟨[], fraction, .bare ?_ behind⟩
      rintro rfl
      rw [List.mem_singleton.1 mem] at digit
      exact absurd digit (by decide)
    · exact ⟨whole, fraction, .dotted ne digits behind⟩

/-- Digits and dots have no sign in front. -/
theorem IsSign.eq_nil {sign body : List Char} {negative : Bool} (signed : IsSign sign negative)
    (run : ∀ c ∈ sign ++ body, c.isDigit = true ∨ c = '.') : sign = [] := by
  cases signed with
  | none => rfl
  | plus => exact absurd (run '+' (by simp)) (by decide)
  | minus => exact absurd (run '-' (by simp)) (by decide)

/-- Nor is there an exponent behind them. -/
theorem IsExponent.eq_nil {exponent : List Char} {power : Int}
    (scaled : IsExponent exponent power)
    (run : ∀ c ∈ exponent, c.isDigit = true ∨ c = '.') : exponent = [] := by
  cases scaled with
  | none => rfl
  | marked letter =>
    have first := run _ List.mem_cons_self
    rcases letter with rfl | rfl
    · exact absurd first (by decide)
    · exact absurd first (by decide)

/-- A run of digits and dots is a decimal if it has a digit and no second dot. -/
theorem exists_isDecimal_iff (run : ∀ c ∈ cs, c.isDigit = true ∨ c = '.') :
    (∃ d, IsDecimal cs d) ↔ cs.count '.' ≤ 1 ∧ ∃ c ∈ cs, c.isDigit = true := by
  apply Iff.intro
  · rintro ⟨d, @⟨sign, body, negative, _, signed, @⟨mantissa, _, _, exponent, _, digits, scaled⟩⟩⟩
    have noSign : sign = [] := signed.eq_nil run
    have noExponent : exponent = [] :=
      scaled.eq_nil fun c mem => run c (List.mem_append_right _ (List.mem_append_right _ mem))
    rw [noSign, noExponent, List.nil_append, List.append_nil]
    exact digits.count_dot
  · rintro ⟨dots, digit⟩
    obtain ⟨whole, fraction, mantissa⟩ := exists_isMantissa run dots digit
    have unsigned : IsUnsigned false (cs ++ []) _ := .spelled mantissa .none
    rw [List.append_nil] at unsigned
    exact ⟨_, .spelled .none unsigned⟩

end Run

end Flashdeck.Number
