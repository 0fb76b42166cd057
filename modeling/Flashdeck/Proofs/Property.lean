import Flashdeck.Script.Property
import Flashdeck.Proofs.Search
import Flashdeck.Proofs.Text.Blank

/-!
# The grammar of properties

A property is `\w+\s*:\s*` and a value, and a value is one of three literals, tried in a fixed
order. The reader takes the longest word and all blanks at each point and gives up where the rest
does not fit. No other split of the text would fit either: a word cannot end before a word
character, and neither a colon nor a literal begins with a blank.

* `Property.read_eq_some_iff`: what the reader reads, at any split of the blanks.
* `Literal.exists_read_iff`: the values of the literals, in the order in which they are tried.
* `fieldsOfBody_eq_iff_leftmost_properties`: the fields of a body are those that the leftmost
  properties in it give, inserted one after the other.
-/

namespace Flashdeck.Script

open Flashdeck.Text

/-! ## Characters that begin no blank -/

/-- Neither a blank nor the colon behind it goes on with a word. -/
theorem isWordChar_eq_false_of_mem_head? {blanks : List Char} (all : Blanks blanks)
    (rest : List Char) : ∀ c ∈ (blanks ++ ':' :: rest).head?, isWordChar c = false := by
  intro c mem
  cases blanks with
  | nil =>
    cases mem
    decide
  | cons d blanks =>
    cases mem
    exact all.not_isWordChar c List.mem_cons_self

/-! ## Values -/

/-- A literal between backticks, closed by the first backtick behind its front. -/
def BacktickAt (text content rest : List Char) : Prop :=
  text = '`' :: (content ++ '`' :: rest) ∧ '`' ∉ content

/-- A literal between double quotes. -/
def QuotedAt (text content rest : List Char) : Prop :=
  text = '"' :: (content ++ '"' :: rest) ∧ Lexeme.IsQuotedContent content

/-- A run of digits and dots that goes on as long as it can. -/
def NumeralAt (text digits rest : List Char) : Prop :=
  text = digits ++ rest ∧ digits ≠ [] ∧ (∀ c ∈ digits, isNumeralChar c = true) ∧
    ∀ c ∈ rest.head?, isNumeralChar c = false

/-- The value written at the front of a text: the first of the three forms that is there. -/
inductive ValueAt (policy : EscapePolicy) : List Char → Value → List Char → Prop
  | backtick {text content rest : List Char} (here : BacktickAt text content rest) :
      ValueAt policy text (.text (String.ofList (tidy content))) rest
  | quoted {text content rest : List Char}
      (noBacktick : ∀ content rest, ¬ BacktickAt text content rest)
      (here : QuotedAt text content rest) :
      ValueAt policy text (.text (String.ofList (match policy with
        | .decode => Escape.decode (tidy content)
        | .raw => tidy content))) rest
  | numeral {text digits rest : List Char}
      (noBacktick : ∀ content rest, ¬ BacktickAt text content rest)
      (noQuoted : ∀ content rest, ¬ QuotedAt text content rest)
      (here : NumeralAt text digits rest) :
      ValueAt policy text (.number (Number.ofNumeral digits)) rest

namespace Literal

theorem backtick_eq_none_iff {text : List Char} :
    Lexeme.backtick text = none ↔ ∀ content rest, ¬ BacktickAt text content rest := by
  rw [Option.eq_none_iff_forall_ne_some, Prod.forall]
  exact forall₂_congr fun content rest => not_congr Lexeme.backtick_eq_some_iff

theorem quoted_eq_none_iff {text : List Char} :
    Lexeme.quoted text = none ↔ ∀ content rest, ¬ QuotedAt text content rest := by
  rw [Option.eq_none_iff_forall_ne_some, Prod.forall]
  exact forall₂_congr fun content rest => not_congr Lexeme.quoted_eq_some_iff

/-- The values that the reader of literals finds are those of the grammar. -/
theorem exists_read_iff {policy : EscapePolicy} {text rest : List Char} {value : Value} :
    (∃ literal, Literal.read text = some (literal, rest) ∧ literal.value policy = value) ↔
      ValueAt policy text value rest := by
  apply Iff.intro
  · intro found
    obtain ⟨literal, read, rfl⟩ := found
    unfold Literal.read at read
    split at read
    · next content left backtick =>
      cases read
      exact .backtick (Lexeme.backtick_eq_some_iff.1 backtick)
    · next backtick =>
      have noBacktick := backtick_eq_none_iff.1 backtick
      split at read
      · next content left quoted =>
        cases read
        have here := Lexeme.quoted_eq_some_iff.1 quoted
        cases policy with
        | decode => exact .quoted noBacktick here
        | raw => exact .quoted noBacktick here
      · next quoted =>
        have noQuoted := quoted_eq_none_iff.1 quoted
        obtain ⟨⟨digits, left⟩, numeral, eq⟩ := Option.map_eq_some_iff.1 read
        cases eq
        exact .numeral noBacktick noQuoted (Lexeme.numeral_eq_some_iff.1 numeral)
  · intro found
    cases found with
    | @backtick content _ here =>
      refine ⟨.backtick content, ?_, rfl⟩
      rw [Literal.read, Lexeme.backtick_eq_some_iff.2 here]
    | @quoted content _ noBacktick here =>
      refine ⟨.quoted content, ?_, by cases policy <;> rfl⟩
      rw [Literal.read, backtick_eq_none_iff.2 noBacktick, Lexeme.quoted_eq_some_iff.2 here]
    | @numeral digits _ noBacktick noQuoted here =>
      refine ⟨.numeral digits, ?_, rfl⟩
      rw [Literal.read, backtick_eq_none_iff.2 noBacktick, quoted_eq_none_iff.2 noQuoted,
        Lexeme.numeral_eq_some_iff.2 here]
      rfl

theorem read_backtick {content : List Char} (inside : '`' ∉ content) (rest : List Char) :
    Literal.read ('`' :: (content ++ '`' :: rest)) = some (.backtick content, rest) := by
  rw [Literal.read, Lexeme.backtick_eq_some_iff.2 ⟨rfl, inside⟩]

theorem read_quoted {content : List Char} (closed : Lexeme.IsQuotedContent content)
    (rest : List Char) :
    Literal.read ('"' :: (content ++ '"' :: rest)) = some (.quoted content, rest) := by
  have noBacktick : Lexeme.backtick ('"' :: (content ++ '"' :: rest)) = none := rfl
  rw [Literal.read, noBacktick, Lexeme.quoted_eq_some_iff.2 ⟨rfl, closed⟩]

theorem read_numeral {digits rest : List Char} (ne : digits ≠ [])
    (all : ∀ c ∈ digits, isNumeralChar c = true)
    (stop : ∀ c ∈ rest.head?, isNumeralChar c = false) :
    Literal.read (digits ++ rest) = some (.numeral digits, rest) := by
  have other : ∀ {c : Char} {tail : List Char}, digits ++ rest = c :: tail →
      isNumeralChar c = true := by
    intro c tail split
    cases digits with
    | nil => exact (ne rfl).elim
    | cons d digits =>
      cases split
      exact all c List.mem_cons_self
  have noBacktick : Lexeme.backtick (digits ++ rest) = none :=
    backtick_eq_none_iff.2 fun _ _ here => absurd (other here.1) (by decide)
  have noQuoted : Lexeme.quoted (digits ++ rest) = none :=
    quoted_eq_none_iff.2 fun _ _ here => absurd (other here.1) (by decide)
  rw [Literal.read, noBacktick, noQuoted, Lexeme.numeral_eq_some_iff.2 ⟨rfl, ne, all, stop⟩]
  rfl

theorem noBlankFront_of_read {cs rest : List Char} {literal : Literal}
    (read : Literal.read cs = some (literal, rest)) : NoBlankFront cs := by
  unfold Literal.read at read
  split at read
  · next backtick =>
    rw [(Lexeme.backtick_eq_some_iff.1 backtick).1]
    exact .cons (by decide) _
  · split at read
    · next quoted =>
      rw [(Lexeme.quoted_eq_some_iff.1 quoted).1]
      exact .cons (by decide) _
    · obtain ⟨⟨digits, left⟩, numeral, -⟩ := Option.map_eq_some_iff.1 read
      obtain ⟨rfl, ne, all, -⟩ := Lexeme.numeral_eq_some_iff.1 numeral
      cases digits with
      | nil => exact (ne rfl).elim
      | cons c digits =>
        exact .cons (isBlank_eq_false_of_isNumeralChar (all c List.mem_cons_self)) _

end Literal

namespace Property

/-- A property is read at any split of its blanks; the split is unique all the same. -/
theorem read_eq_some_iff {text rest : List Char} {property : Property} :
    Property.read text = some (property, rest) ↔ ∃ beforeColon behindColon start,
      property.key ≠ [] ∧ (∀ c ∈ property.key, isWordChar c = true) ∧ Blanks beforeColon ∧
        Blanks behindColon ∧ text = property.key ++ (beforeColon ++ ':' :: (behindColon ++ start)) ∧
          Literal.read start = some (property.literal, rest) := by
  apply Iff.intro
  · intro found
    obtain ⟨⟨key, behindKey⟩, word, found⟩ := Option.bind_eq_some_iff.1 found
    obtain ⟨behind, colon, found⟩ := Option.bind_eq_some_iff.1 found
    obtain ⟨⟨literal, left⟩, read, eq⟩ := Option.bind_eq_some_iff.1 found
    cases eq
    obtain ⟨rfl, ne, all, -⟩ := Lexeme.word_eq_some_iff.1 word
    obtain ⟨beforeColon, beforeAll, rfl⟩ := (symbol_skipBlanks_eq_some_iff (by decide)).1 colon
    obtain ⟨behindColon, behindAll, split⟩ := exists_blanks_append_skipBlanks behind
    refine ⟨beforeColon, behindColon, Lexeme.skipBlanks behind, ne, all, beforeAll, behindAll, ?_,
      read⟩
    rw [← split]
  · intro spelled
    obtain ⟨beforeColon, behindColon, start, ne, all, beforeAll, behindAll, rfl, read⟩ := spelled
    have word := Lexeme.word_eq_some_iff.2 ⟨rfl, ne, all,
      isWordChar_eq_false_of_mem_head? beforeAll (behindColon ++ start)⟩
    have colon := symbol_skipBlanks_append (by decide : isBlank ':' = false) beforeAll
      (behindColon ++ start)
    have literal : Literal.read (Lexeme.skipBlanks (behindColon ++ start)) =
        some (property.literal, rest) := by
      rw [skipBlanks_append behindAll,
        skipBlanks_of_noBlankFront (Literal.noBlankFront_of_read read), read]
    simp only [Property.read, word, colon, literal, Option.bind_eq_bind, Option.bind_some]

/-- Where no word begins, there is no property. -/
theorem values_of_not_isWordChar {c : Char} (other : isWordChar c = false) (cs : List Char) :
    pattern.values (c :: cs) = pattern.values cs := by
  apply Pattern.values_cons_of_read_eq_none
  have noWord : Lexeme.word (c :: cs) = none := by
    simp [Lexeme.word, Lexeme.run, other]
  change Property.read (c :: cs) = none
  rw [Property.read, noWord]
  rfl

theorem values_append_of_not_isWordChar {front : List Char}
    (others : ∀ c ∈ front, isWordChar c = false) (cs : List Char) :
    pattern.values (front ++ cs) = pattern.values cs := by
  induction front with
  | nil => rfl
  | cons c front ih =>
    rw [List.cons_append, values_of_not_isWordChar (others c List.mem_cons_self)]
    exact ih fun d mem => others d (List.mem_cons_of_mem c mem)

end Property

/-- `text` begins with a property that gives `entry`, and `rest` follows it. -/
def PropertyAt (policy : EscapePolicy) (text : List Char) (entry : String × Value)
    (rest : List Char) : Prop :=
  ∃ key beforeColon behindColon start, entry.1 = String.ofList key ∧ key ≠ [] ∧
    (∀ c ∈ key, isWordChar c = true) ∧ Blanks beforeColon ∧ Blanks behindColon ∧
      text = key ++ (beforeColon ++ ':' :: (behindColon ++ start)) ∧
        ValueAt policy start entry.2 rest

/-- **The fields of a body are those of the leftmost properties in it.** They are inserted from left
to right, so a key that is given again keeps its place and takes the later value; whatever stands
between the properties gives nothing. -/
theorem fieldsOfBody_eq_iff_leftmost_properties (policy : EscapePolicy) (body : List Char)
    (fields : Fields) :
    fieldsOfBody policy body = fields ↔
      ∃ entries, Leftmost (PropertyAt policy) body entries ∧
        entries.foldl (fun fields entry => fields.insert entry.1 entry.2) Fields.empty =
          fields := by
  have reads : ∀ {start rest : List Char} {entry : String × Value},
      (Property.pattern.map (Property.entry policy)).read start = some (entry, rest) ↔
        PropertyAt policy start entry rest := by
    intro text rest entry
    rw [Pattern.read_map_eq_some_iff]
    apply Iff.intro
    · intro found
      obtain ⟨property, read, rfl⟩ := found
      obtain ⟨beforeColon, behindColon, start, ne, all, beforeAll, behindAll, split, literal⟩ :=
        Property.read_eq_some_iff.1 read
      exact ⟨property.key, beforeColon, behindColon, start, rfl, ne, all, beforeAll, behindAll,
        split, Literal.exists_read_iff.1 ⟨property.literal, literal, rfl⟩⟩
    · intro spelled
      obtain ⟨key, beforeColon, behindColon, start, name, ne, all, beforeAll, behindAll, split,
        written⟩ := spelled
      obtain ⟨literal, read, eq⟩ := Literal.exists_read_iff.2 written
      refine ⟨⟨key, literal⟩, Property.read_eq_some_iff.2
        ⟨beforeColon, behindColon, start, ne, all, beforeAll, behindAll, split, read⟩, ?_⟩
      rw [Property.entry, eq, ← name]
  have found : ∀ entries, (Property.pattern.map (Property.entry policy)).values body = entries ↔
      Leftmost (PropertyAt policy) body entries :=
    fun _ => Pattern.values_eq_iff_leftmost reads
  rw [fieldsOfBody, ← Pattern.values_map]
  apply Iff.intro
  · intro eq
    exact ⟨_, (found _).1 rfl, eq⟩
  · intro leftmost
    obtain ⟨entries, leftmost, eq⟩ := leftmost
    rw [(found entries).2 leftmost]
    exact eq

end Flashdeck.Script
