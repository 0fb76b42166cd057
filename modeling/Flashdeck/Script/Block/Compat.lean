import Flashdeck.Search
import Flashdeck.Text.Trim
import Flashdeck.Script.Lexeme

/-!
# Blocks by text

A block is a call `flash({ ... })`, and its body is what stands between the braces. Here blocks are
found by their text alone: the keyword may stand anywhere, inside a longer word too, and the body
runs to the first closing brace that a closing parenthesis follows, whatever is quoted or nested
in between.
-/

namespace Flashdeck.Script.Block.Compat

open Flashdeck.Text

/-- Reads the keyword and the opening parenthesis and brace, with the blanks between and behind
them. -/
def readHead (cs : List Char) : Option (List Char) := do
  let cs ← Lexeme.keyword.isPrefixOf? cs
  let cs ← Lexeme.symbol '(' (Lexeme.skipBlanks cs)
  let cs ← Lexeme.symbol '{' (Lexeme.skipBlanks cs)
  some (Lexeme.skipBlanks cs)

/-- Reads the closing parenthesis that follows a closing brace. -/
def readTail (cs : List Char) : Option (List Char) :=
  Lexeme.symbol ')' (Lexeme.skipBlanks cs)

/-- Reads up to the first closing brace that a closing parenthesis follows: what stands before the
brace, and what stands behind the parenthesis. -/
def readBody : List Char → Option (List Char × List Char)
  | [] => none
  | c :: cs =>
    match if c = '}' then readTail cs else none with
    | some rest => some ([], rest)
    | none => (readBody cs).map fun (body, rest) => (c :: body, rest)

/-- Reads a block: its body, without the blanks around it. -/
def read (cs : List Char) : Option (List Char × List Char) := do
  let (body, rest) ← readBody (← readHead cs)
  some (trimEnd isBlank body, rest)

theorem length_lt_of_readTail {cs rest : List Char} (tail : readTail cs = some rest) :
    rest.length < cs.length :=
  Nat.lt_of_lt_of_le (Lexeme.length_lt_of_symbol tail) (Lexeme.length_skipBlanks_le cs)

theorem length_lt_of_readBody {cs body rest : List Char}
    (read : readBody cs = some (body, rest)) : rest.length < cs.length := by
  induction cs generalizing body with
  | nil => cases read
  | cons c cs ih =>
    rw [readBody] at read
    split at read
    · next left closed =>
      cases read
      split at closed
      · have shorter := length_lt_of_readTail closed
        rw [List.length_cons]
        omega
      · cases closed
    · obtain ⟨⟨inner, left⟩, found, eq⟩ := Option.map_eq_some_iff.1 read
      cases eq
      have shorter := ih found
      rw [List.length_cons]
      omega

theorem length_le_of_isPrefixOf? {front cs rest : List Char}
    (cut : front.isPrefixOf? cs = some rest) : rest.length ≤ cs.length := by
  induction front generalizing cs with
  | nil =>
    cases cut
    exact Nat.le_refl _
  | cons c front ih =>
    cases cs with
    | nil => cases cut
    | cons d cs =>
      change (if c == d then front.isPrefixOf? cs else none) = some rest at cut
      split at cut
      · have shorter := ih cut
        rw [List.length_cons]
        omega
      · cases cut

theorem length_le_of_readHead {cs rest : List Char} (head : readHead cs = some rest) :
    rest.length ≤ cs.length := by
  obtain ⟨behindWord, word, head⟩ := Option.bind_eq_some_iff.1 head
  obtain ⟨behindParen, paren, head⟩ := Option.bind_eq_some_iff.1 head
  obtain ⟨behindBrace, brace, head⟩ := Option.bind_eq_some_iff.1 head
  cases head
  have first := length_le_of_isPrefixOf? word
  have second := Lexeme.length_lt_of_symbol paren
  have third := Lexeme.length_lt_of_symbol brace
  have blanks := Lexeme.length_skipBlanks_le
  have := blanks behindWord
  have := blanks behindParen
  have := blanks behindBrace
  omega

/-- Blocks, as they are found by their text. -/
def pattern : Pattern Char (List Char) where
  read := read
  shorter := by
    intro xs rest value found
    obtain ⟨inside, head, found⟩ := Option.bind_eq_some_iff.1 found
    obtain ⟨⟨body, left⟩, read, found⟩ := Option.bind_eq_some_iff.1 found
    cases found
    exact Nat.lt_of_lt_of_le (length_lt_of_readBody read) (length_le_of_readHead head)

/-- The bodies of the blocks of a script, in order. -/
def bodies (script : List Char) : List (List Char) :=
  pattern.values script

end Flashdeck.Script.Block.Compat
