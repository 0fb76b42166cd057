import Flashdeck.Proofs.Property
import Flashdeck.Proofs.Token.Chain

/-!
# Properties among tokens

The properties of a body are read from its text, and tried at every character. They can be read from
its tokens too, if these list them: a key, a colon and a literal in a row, and around the three only
tokens that are neither words nor literals. Such tokens hold no word character, so no property begins
inside one; and a property that begins with a key takes its colon and its literal, whatever the
blanks between them.

* `values_of_lists`: the properties that the text gives are those that its tokens list.
* `fieldsOfBody_eq_of_lists`: so are the fields.
-/

namespace Flashdeck.Script

open Flashdeck.Text

/-- The token is a word, the keyword among them. -/
def Kind.isKey : Kind → Bool
  | .word | .call => true
  | _ => false

/-- The token is a value as it is written. -/
def Kind.isLiteral : Kind → Bool
  | .quoted | .backtick | .numeral => true
  | _ => false

/-- The value that the token is written for, without its delimiters. -/
def Token.literal (token : Token) : Literal :=
  match token.kind with
  | .backtick => .backtick token.text.tail.dropLast
  | .quoted => .quoted token.text.tail.dropLast
  | _ => .numeral token.text

/-- The tokens list properties, each by its key and its literal: the two with a colon in between, and
around them any other tokens that are neither words nor literals. -/
inductive Lists : List Token → List (Token × Token) → Prop
  | nil : Lists [] []
  | separator {token : Token} {tokens : List Token} {entries : List (Token × Token)}
      (noKey : token.kind.isKey = false) (noLiteral : token.kind.isLiteral = false)
      (others : Lists tokens entries) : Lists (token :: tokens) entries
  | entry {key colon literal : Token} {tokens : List Token} {entries : List (Token × Token)}
      (isKey : key.kind.isKey = true) (isColon : colon.kind = .colon)
      (isLiteral : literal.kind.isLiteral = true) (others : Lists tokens entries) :
      Lists (key :: colon :: literal :: tokens) ((key, literal) :: entries)

/-! ## What the tokens of a listing are written as -/

section Fits

variable {kind : Kind} {text rest : List Char} (fits : Fits kind text rest)

include fits

theorem Fits.isWordChar_of_isKey (isKey : kind.isKey = true) :
    ∀ c ∈ text, isWordChar c = true := by
  cases fits with
  | form form =>
    cases form with
    | call ended => exact isWordChar_of_mem_keyword
    | word first others ne ended => exact isWordChar_of_mem_word first others
    | symbol mem =>
      have others : ∀ item ∈ symbols, item.2.isKey = false := by decide
      rw [others _ mem] at isKey
      cases isKey
    | _ => cases isKey
  | other => cases isKey

theorem Fits.not_isWordChar (noKey : kind.isKey = false) (noLiteral : kind.isLiteral = false) :
    ∀ c ∈ text, isWordChar c = false := by
  cases fits with
  | form form =>
    cases form with
    | @symbol c _ _ mem =>
      intro d single
      rw [List.mem_singleton.1 single]
      exact isWordChar_eq_false_of_mem_symbols mem
    | call | word => cases noKey
    | numeral | backtick | quoted => cases noLiteral
  | @other c _ solid none =>
    intro d single
    rw [List.mem_singleton.1 single, ← Bool.not_eq_true]
    exact fun word => none (beginsForm_of_isWordChar word rest)

theorem Fits.eq_colon (colon : kind = .colon) : text = [':'] := by
  subst colon
  cases fits with
  | form form =>
    cases form with
    | @symbol c _ _ mem =>
      have only : ∀ item ∈ symbols, item.2 = .colon → item.1 = ':' := by decide
      have colon : c = ':' := only _ mem rfl
      rw [colon]

end Fits

/-- A literal is read where its token stands. -/
theorem Fits.read_literal {token : Token} {rest : List Char}
    (fits : Fits token.kind token.text rest) (isLiteral : token.kind.isLiteral = true) :
    Literal.read (token.text ++ rest) = some (token.literal, rest) := by
  obtain ⟨gap, kind, text⟩ := token
  cases fits with
  | form form =>
    cases form with
    | @backtick content _ inside =>
      have read := Literal.read_backtick inside rest
      simpa [Token.literal] using read
    | @quoted content _ inside =>
      have read := Literal.read_quoted inside rest
      simpa [Token.literal] using read
    | @numeral c cs _ first others ended =>
      refine Literal.read_numeral (List.cons_ne_nil c cs) (fun d mem => ?_) ended
      rcases List.mem_cons.1 mem with rfl | mem
      · simp [isNumeralChar, first]
      · exact others d mem
    | symbol mem =>
      have others : ∀ item ∈ symbols, item.2.isLiteral = false := by decide
      have other := others _ mem
      simp only at isLiteral other
      rw [other] at isLiteral
      cases isLiteral
    | _ => cases isLiteral
  | other => cases isLiteral

/-! ## The properties of a listing -/

/-- The properties of a text are those that its tokens list. -/
theorem values_of_lists {tail : List Char} (blanks : Blanks tail) {tokens : List Token}
    {entries : List (Token × Token)} (lists : Lists tokens entries) (chain : Chain tail tokens) :
    Property.pattern.values (tokens.flatMap Token.spelling ++ tail) =
      entries.map fun (key, literal) => ⟨key.text, literal.literal⟩ := by
  induction lists with
  | nil =>
    have none := Property.values_append_of_not_isWordChar blanks.not_isWordChar []
    rwa [List.append_nil, Pattern.values_nil] at none
  | separator noKey noLiteral others ih =>
    cases chain with
    | cons gap fits chain =>
      rw [List.flatMap_cons, Token.spelling, List.append_assoc, List.append_assoc,
        Property.values_append_of_not_isWordChar gap.not_isWordChar,
        Property.values_append_of_not_isWordChar (fits.not_isWordChar noKey noLiteral), ih chain]
  | @entry key colon literal tokens entries isKey isColon isLiteral others ih =>
    cases chain with
    | cons keyGap keyFits chain =>
      cases chain with
      | cons colonGap colonFits chain =>
        cases chain with
        | cons literalGap literalFits chain =>
          have split : (key :: colon :: literal :: tokens).flatMap Token.spelling ++ tail =
              key.gap ++ (key.text ++ (colon.gap ++ ':' :: (literal.gap ++
                (literal.text ++ (tokens.flatMap Token.spelling ++ tail))))) := by
            simp [Token.spelling, colonFits.eq_colon isColon]
          have read := literalFits.read_literal isLiteral
          have property : Property.read _ = some (⟨key.text, literal.literal⟩, _) :=
            Property.read_eq_some_iff.2 ⟨colon.gap, literal.gap, _, keyFits.text_ne_nil,
              keyFits.isWordChar_of_isKey isKey, colonGap, literalGap, rfl, read⟩
          rw [split, Property.values_append_of_not_isWordChar keyGap.not_isWordChar,
            Pattern.values_of_read_eq_some property, ih chain, List.map_cons]

/-- **The fields of a body are those that its tokens list.** Each property is inserted in its turn,
under the text of its key and with the value of its literal, and nothing else is. -/
theorem fieldsOfBody_eq_of_lists (policy : EscapePolicy) {body : List Char}
    {entries : List (Token × Token)} (lists : Lists (tokenize body) entries) :
    fieldsOfBody policy body = entries.foldl (fun fields (key, literal) =>
      fields.insert (String.ofList key.text) (literal.literal.value policy)) Fields.empty := by
  obtain ⟨tail, blanks, spelled, chain⟩ := exists_chain_tokenize body
  have values := values_of_lists blanks lists chain
  rw [← spelled] at values
  rw [fieldsOfBody, values, List.map_map, Fields.ofList, List.foldl_map]
  rfl

/-- A body with marks around its properties, a quote that nothing closes among them, a brace in a
literal, and a key that is given twice: `. a : "}" :flash:'y'a:1. "`, with backticks around the `y`. -/
def denseBody : List Char :=
  ". a : \"\x7d\" :flash:`y`a:1. \"".toList

/-- The properties of the body, by their tokens. -/
def denseEntries : List (Token × Token) :=
  [(⟨[' '], .word, ['a']⟩, ⟨[' '], .quoted, ['"', '}', '"']⟩),
    (⟨[], .call, Lexeme.keyword⟩, ⟨[], .backtick, ['`', 'y', '`']⟩),
    (⟨[], .word, ['a']⟩, ⟨[], .numeral, ['1', '.']⟩)]

theorem lists_denseBody : Lists (tokenize denseBody) denseEntries := by
  have tokens : tokenize denseBody = [⟨[], .other, ['.']⟩,
      ⟨[' '], .word, ['a']⟩, ⟨[' '], .colon, [':']⟩, ⟨[' '], .quoted, ['"', '}', '"']⟩,
      ⟨[' '], .colon, [':']⟩,
      ⟨[], .call, Lexeme.keyword⟩, ⟨[], .colon, [':']⟩, ⟨[], .backtick, ['`', 'y', '`']⟩,
      ⟨[], .word, ['a']⟩, ⟨[], .colon, [':']⟩, ⟨[], .numeral, ['1', '.']⟩,
      ⟨[' '], .other, ['"']⟩] := by decide +kernel
  rw [tokens]
  exact .separator rfl rfl (.entry rfl rfl rfl (.separator rfl rfl
    (.entry rfl rfl rfl (.entry rfl rfl rfl (.separator rfl rfl .nil)))))

theorem fieldsOfBody_denseBody : Lists (tokenize denseBody) denseEntries ∧
    fieldsOfBody .decode denseBody = denseEntries.foldl (fun fields (key, literal) =>
      fields.insert (String.ofList key.text) (literal.literal.value .decode)) Fields.empty ∧
    (fieldsOfBody .decode denseBody).keys = ["a", "flash"] :=
  ⟨lists_denseBody, fieldsOfBody_eq_of_lists .decode lists_denseBody, by decide +kernel⟩

end Flashdeck.Script
