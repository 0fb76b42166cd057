import Flashdeck.Search
import Flashdeck.Card.Fields
import Flashdeck.Text.Lines
import Flashdeck.Text.Escape
import Flashdeck.Script.Lexeme

/-!
# Properties

The body of a block gives the fields of a card as properties `key: value`, in any order and with
anything between them: what reads as no property is passed over, character by character. A value
is a literal between backticks, a literal between double quotes, or a numeral.
-/

namespace Flashdeck.Script

open Flashdeck.Text

/-- What becomes of the escapes between double quotes. -/
inductive EscapePolicy where
  /-- They are decoded. -/
  | decode
  /-- They stay as they are written. -/
  | raw
deriving DecidableEq, Repr

namespace EscapePolicy

/-- The name of the policy in settings and options. -/
def name : EscapePolicy → String
  | .decode => "decode"
  | .raw => "raw"

/-- The policy of a name. -/
def ofName? (name : String) : Option EscapePolicy :=
  if name = "decode" then some .decode
  else if name = "raw" then some .raw
  else none

theorem ofName?_eq_some_iff {name : String} {policy : EscapePolicy} :
    ofName? name = some policy ↔ name = policy.name := by
  unfold ofName? EscapePolicy.name
  cases policy <;> grind

/-- What the policy makes of a quoted text. -/
def apply : EscapePolicy → List Char → List Char
  | .decode, cs => Escape.decode cs
  | .raw, cs => cs

end EscapePolicy

/-- The value of a property as it is written, without its delimiters. -/
inductive Literal where
  | backtick (content : List Char)
  | quoted (content : List Char)
  | numeral (digits : List Char)
deriving DecidableEq, Repr

namespace Literal

/-- Reads a literal. -/
def read (cs : List Char) : Option (Literal × List Char) :=
  match Lexeme.backtick cs with
  | some (content, rest) => some (.backtick content, rest)
  | none =>
    match Lexeme.quoted cs with
    | some (content, rest) => some (.quoted content, rest)
    | none => (Lexeme.numeral cs).map fun (digits, rest) => (.numeral digits, rest)

/-- The value that a literal stands for. Lines are tidied before escapes are decoded, so that an
escaped line feed stays. -/
def value (policy : EscapePolicy) : Literal → Value
  | .backtick content => .text (String.ofList (tidy content))
  | .quoted content => .text (String.ofList (policy.apply (tidy content)))
  | .numeral digits => .number (Number.ofNumeral digits)

theorem length_lt_of_read {cs rest : List Char} {literal : Literal}
    (read : Literal.read cs = some (literal, rest)) : rest.length < cs.length := by
  unfold Literal.read at read
  split at read
  · next literal =>
    cases read
    exact Lexeme.length_lt_of_backtick literal
  · split at read
    · next literal =>
      cases read
      exact Lexeme.length_lt_of_quoted literal
    · obtain ⟨⟨digits, left⟩, numeral, eq⟩ := Option.map_eq_some_iff.1 read
      cases eq
      exact Lexeme.length_lt_of_numeral numeral

end Literal

/-- A key with the literal behind it. -/
structure Property where
  key : List Char
  literal : Literal
deriving DecidableEq, Repr

namespace Property

/-- Reads a property: a word, a colon and a literal, blanks around the colon. -/
def read (cs : List Char) : Option (Property × List Char) := do
  let (key, cs) ← Lexeme.word cs
  let cs ← Lexeme.symbol ':' (Lexeme.skipBlanks cs)
  let (literal, cs) ← Literal.read (Lexeme.skipBlanks cs)
  some (⟨key, literal⟩, cs)

/-- Properties, as they are found in a body. -/
def pattern : Pattern Char Property where
  read := read
  shorter := by
    intro cs rest property found
    obtain ⟨⟨key, behindKey⟩, word, found⟩ := Option.bind_eq_some_iff.1 found
    obtain ⟨behindColon, colon, found⟩ := Option.bind_eq_some_iff.1 found
    obtain ⟨⟨literal, left⟩, read, found⟩ := Option.bind_eq_some_iff.1 found
    cases found
    have first := Lexeme.length_lt_of_word word
    have second := Lexeme.length_lt_of_symbol colon
    have third := Literal.length_lt_of_read read
    have blanks := Lexeme.length_skipBlanks_le
    have := blanks behindKey
    have := blanks behindColon
    omega

/-- The field that a property gives. -/
def entry (policy : EscapePolicy) (property : Property) : String × Value :=
  (String.ofList property.key, property.literal.value policy)

end Property

/-- The fields that the properties of a body give. -/
def fieldsOfBody (policy : EscapePolicy) (body : List Char) : Fields :=
  Fields.ofList ((Property.pattern.values body).map (Property.entry policy))

end Flashdeck.Script
