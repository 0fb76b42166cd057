import Flashdeck.Script.Lexeme
import Flashdeck.Text.Utf8

/-!
# Cursors

A place in a text, given in bytes, and the operations that read the text from there on. An
operation either reads what it asks for and moves behind it, or it fails and the cursor stays where
it was. A cursor can be put inside a character: nothing can be read there, and only another `seek`
leads away.

`Cursor.apply` performs one operation and `Cursor.run` a list of them.
-/

namespace Flashdeck.Script

open Flashdeck.Text

/-- A place in a text. -/
structure Cursor where
  source : List Char
  /-- The number of bytes before the cursor. -/
  position : Nat
deriving DecidableEq, Repr

/-- A part of a text. -/
structure Span where
  /-- The number of bytes before it. -/
  start : Nat
  content : List Char
deriving DecidableEq, Repr

/-- The number of bytes before the end of the part. -/
def Span.stop (span : Span) : Nat :=
  span.start + Utf8.size span.content

namespace Cursor

/-- The cursor moved to a position, or to the end of the text if that comes first. -/
def seek (cursor : Cursor) (position : Nat) : Cursor :=
  { cursor with position := min position (Utf8.size cursor.source) }

/-- A cursor at a position, or at the end of the text if that comes first. -/
def ofPosition (source : List Char) (position : Nat) : Cursor :=
  seek ⟨source, 0⟩ position

/-- Whether no text is left. -/
def atEnd (cursor : Cursor) : Bool :=
  Utf8.size cursor.source ≤ cursor.position

/-- The text behind the cursor. Inside a character there is none. -/
def rest (cursor : Cursor) : List Char :=
  (Utf8.dropBytes cursor.position cursor.source).getD []

/-- The cursor moved forward to where `rest` is left, an end of the text behind it. -/
def advanceTo (cursor : Cursor) (rest : List Char) : Cursor :=
  { cursor with position := cursor.position + (Utf8.size cursor.rest - Utf8.size rest) }

/-- What can be asked of a cursor. -/
inductive Operation where
  /-- The next character, without moving. -/
  | peek
  /-- The next character, moving behind it. -/
  | bump
  /-- Moves behind the given character if it is the next one. -/
  | eat (expected : Char)
  /-- Moves behind the blanks. -/
  | skipBlanks
  /-- Moves to a position. -/
  | seek (position : Nat)
  | word
  | numeral
  | backtick
  | quoted
  /-- The text behind the cursor. -/
  | rest
  /-- The whole text. -/
  | source
deriving DecidableEq, Repr

/-- What a cursor answers. -/
inductive Reply where
  | moved
  | char (found : Option Char)
  | eaten (found : Bool)
  | span (found : Option Span)
  | text (found : List Char)
deriving DecidableEq, Repr

/-- Reads a lexeme whose content begins `opening` bytes behind its front. -/
def scan (cursor : Cursor) (reader : List Char → Option (List Char × List Char))
    (opening : Nat) : Reply × Cursor :=
  match reader cursor.rest with
  | some (content, rest) =>
    (.span (some ⟨cursor.position + opening, content⟩), cursor.advanceTo rest)
  | none => (.span none, cursor)

/-- Performs one operation. -/
def apply (cursor : Cursor) : Operation → Reply × Cursor
  | .peek => (.char cursor.rest.head?, cursor)
  | .bump =>
    match cursor.rest with
    | c :: rest => (.char (some c), cursor.advanceTo rest)
    | [] => (.char none, cursor)
  | .eat expected =>
    match Lexeme.symbol expected cursor.rest with
    | some rest => (.eaten true, cursor.advanceTo rest)
    | none => (.eaten false, cursor)
  | .skipBlanks => (.moved, cursor.advanceTo (Lexeme.skipBlanks cursor.rest))
  | .seek position => (.moved, cursor.seek position)
  | .word => cursor.scan Lexeme.word 0
  | .numeral => cursor.scan Lexeme.numeral 0
  | .backtick => cursor.scan Lexeme.backtick 1
  | .quoted => cursor.scan Lexeme.quoted 1
  | .rest => (.text cursor.rest, cursor)
  | .source => (.text cursor.source, cursor)

/-- Performs operations one after the other: each one's reply, with the cursor after it. -/
def run (cursor : Cursor) : List Operation → List (Reply × Cursor)
  | [] => []
  | operation :: operations =>
    let step := cursor.apply operation
    step :: run step.2 operations

end Cursor

end Flashdeck.Script
