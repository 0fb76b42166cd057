import Flashdeck.Deck

/-!
# The log

What a compiler tells of its work while it goes on: the blocks that it found, those of them that it
dropped, the cards that it made and laid out, and the text that it passed over. None of it changes
what is made of a script.

* `Pattern.misses`: the places where a pattern was tried and read nothing.
* `Settings.cardsEvents`, `Settings.boardEvents`: what happens on the way from a script to its cards,
  and on to the board.
-/

namespace Flashdeck

/-- How much an event matters. -/
inductive Log.Level where
  | error
  | warning
  | info
  | debug
  | trace
deriving DecidableEq, Repr

/-- What an event tells beside its message. -/
inductive Log.Detail where
  | number (value : Nat)
  | name (value : String)
  /-- A text of the script or a key, which is shown between quotes. -/
  | text (value : String)
deriving DecidableEq, Repr

/-- Something that happened. -/
structure Log.Event where
  level : Log.Level
  /-- The part of the program in which it happened. -/
  source : String
  message : String
  details : List (String × Log.Detail)
deriving DecidableEq, Repr

/-- The places where the pattern was tried and read nothing, each as what stands there. No place
inside a match is among them. -/
def Pattern.misses {α β : Type} (pattern : Pattern α β) : List α → List (List α)
  | [] => []
  | x :: xs =>
    match _read : pattern.read (x :: xs) with
    | some (_, rest) => pattern.misses rest
    | none => (x :: xs) :: pattern.misses xs
termination_by xs => xs.length
decreasing_by
  · exact pattern.shorter _read
  · exact Nat.lt_succ_self _

namespace Script

open Log

/-! ## Blocks -/

namespace Block.Balanced

/-- The brace that closes a call, with the tokens behind it, where no parenthesis follows. -/
def looseClose? (tokens : List Token) : Option (Token × List Token) := do
  let tokens ← readKind .call tokens
  let tokens ← readKind .parenOpen tokens
  let tokens ← readKind .braceOpen tokens
  let (block, tokens) ← readInside 0 tokens
  if (readKind .parenClose tokens).isSome then none else some (block.close, tokens)

/-- Calls that are no blocks because no parenthesis follows their closing brace, each with the
offset of that brace in bytes. -/
def events (script : List Char) : List Event :=
  let tokens := tokenize script
  let size (tokens : List Token) := Text.Utf8.size (tokens.flatMap Token.spelling)
  (pattern.misses tokens).filterMap fun missed =>
    (looseClose? missed).map fun (close, behind) =>
      { level := .trace
        source := "kardscript::extract"
        message := "flash block closed without `)`"
        details := [("offset", .number (size tokens - (Text.Utf8.size close.text + size behind)))] }

end Block.Balanced

/-- The rule as it is called in the log. -/
def BlockMode.label : BlockMode → String
  | .compat => "Compat"
  | .balanced => "Balanced"

/-- What happens while the blocks of a script are found. -/
def blockEvents (mode : BlockMode) (script : List Char) : List Event :=
  let passed :=
    match mode with
    | .compat => []
    | .balanced => Block.Balanced.events script
  passed ++ [{
    level := .debug
    source := "kardscript::extract"
    message := "extracted flash blocks"
    details := [
      ("mode", .name mode.label),
      ("blocks", .number (blockBodies mode script).length)] }]

/-! ## Properties -/

/-- The key of what would be a property, were there a literal behind its colon. -/
def Property.bareKey? (cs : List Char) : Option (List Char) := do
  let (key, cs) ← Lexeme.word cs
  let cs ← Lexeme.symbol ':' (Lexeme.skipBlanks cs)
  if (Literal.read (Lexeme.skipBlanks cs)).isSome then none else some key

/-- Keys without a value, which are passed over while the properties of a body are found. -/
def bodyEvents (body : List Char) : List Event :=
  (Property.pattern.misses body).filterMap fun missed =>
    (Property.bareKey? missed).map fun key =>
      { level := .trace
        source := "kardscript::parse"
        message := "skipping property without a recognised value"
        details := [("key", .text (String.ofList key))] }

end Script

namespace Settings

open Log

/-! ## Cards -/

/-- What happens while a card is made of a body, the one at the given index among the bodies. -/
def cardEvents (settings : Settings) (body : List Char) (index : Nat) : List Event :=
  Script.bodyEvents body ++
    match Card.ofFields (Script.fieldsOfBody settings.escapes body) with
    | .ok _ => []
    | .error face => [{
        level := .debug
        source := "kardscript::assemble"
        message := "dropping flash block without mandatory field"
        details := [("block", .number index), ("field", .text face.key)] }]

/-- What happens on the way from a script to its cards. -/
def cardsEvents (settings : Settings) (script : List Char) : List Event :=
  let bodies := settings.bodies script
  Script.blockEvents settings.blockMode script ++
    (bodies.zipIdx.flatMap fun (body, index) => settings.cardEvents body index) ++ [{
      level := .debug
      source := "kardscript::assemble"
      message := "assembled cards"
      details := [
        ("blocks", .number bodies.length),
        ("cards", .number (settings.cardsOfBodies bodies).length)] }]

/-- What happens on the way from a script to the board. -/
def boardEvents (settings : Settings) (script : List Char) : List Event :=
  let cards := settings.cards script
  settings.cardsEvents script ++ [{
    level := .debug
    source := "kardscript::layout"
    message := "laying out cards"
    details := [
      ("manual", .number (cards.countP fun card => card.ownPlace?.isSome)),
      ("auto", .number (cards.countP fun card => card.ownPlace?.isNone))] }]

end Settings

end Flashdeck
