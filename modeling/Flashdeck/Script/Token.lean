import Flashdeck.Script.Lexeme
import Flashdeck.Text.Utf8

/-!
# Tokens

A script taken apart into tokens. A token keeps the blanks in front of it, so that the tokens in a
row spell the script again, less the blanks at its end: `exists_spelling_append`. Every character
that is no blank belongs to a token, if only to one of its own.
-/

namespace Flashdeck.Script

open Flashdeck.Text

/-- The kinds of tokens. -/
inductive Kind where
  /-- The keyword that calls for a card. -/
  | call
  /-- Any other word that begins with no digit. -/
  | word
  | parenOpen
  | parenClose
  | braceOpen
  | braceClose
  | colon
  | comma
  /-- A literal between double quotes. -/
  | quoted
  /-- A literal between backticks. -/
  | backtick
  /-- A run of digits and dots that begins with a digit. -/
  | numeral
  /-- Any other character. -/
  | other
deriving DecidableEq, Repr

/-- A token with the blanks in front of it. -/
structure Token where
  gap : List Char
  kind : Kind
  /-- The characters of the token; a literal's delimiters are among them. -/
  text : List Char
deriving DecidableEq, Repr

namespace Token

/-- What the token was written as, the blanks in front of it included. -/
def spelling (token : Token) : List Char :=
  token.gap ++ token.text

/-- The kind of a character that makes a token of its own. -/
def kindOfChar : Char → Kind
  | '(' => .parenOpen
  | ')' => .parenClose
  | '{' => .braceOpen
  | '}' => .braceClose
  | ':' => .colon
  | ',' => .comma
  | _ => .other

/-- The kind of a word. -/
def kindOfWord (text : List Char) : Kind :=
  if text = Lexeme.keyword then .call else .word

/-- Reads the token that begins with `c`: its kind, its text, and what follows it. -/
def readText (c : Char) (cs : List Char) : Kind × List Char × List Char :=
  match Lexeme.backtick (c :: cs) with
  | some (content, rest) => (.backtick, '`' :: (content ++ ['`']), rest)
  | none =>
    match Lexeme.quoted (c :: cs) with
    | some (content, rest) => (.quoted, '"' :: (content ++ ['"']), rest)
    | none =>
      if c.isDigit then
        (.numeral, c :: cs.takeWhile isNumeralChar, cs.dropWhile isNumeralChar)
      else if isWordChar c then
        (kindOfWord (c :: cs.takeWhile isWordChar), c :: cs.takeWhile isWordChar,
          cs.dropWhile isWordChar)
      else (kindOfChar c, [c], cs)

/-- A token and what follows it are the text that it was read from. -/
theorem readText_append (c : Char) (cs : List Char) :
    (readText c cs).2.1 ++ (readText c cs).2.2 = c :: cs := by
  unfold readText
  split
  · next content rest read =>
    rw [(Lexeme.backtick_eq_some_iff.1 read).1]
    simp
  · split
    · next content rest read =>
      rw [(Lexeme.quoted_eq_some_iff.1 read).1]
      simp
    · split
      · simp
      · split
        · simp
        · simp

/-- A token is not empty. -/
theorem readText_ne_nil (c : Char) (cs : List Char) : (readText c cs).2.1 ≠ [] := by
  unfold readText
  split
  · simp
  · split
    · simp
    · split
      · simp
      · split <;> simp

theorem length_readText_le (c : Char) (cs : List Char) :
    (readText c cs).2.2.length ≤ cs.length := by
  have spelled := congrArg List.length (readText_append c cs)
  have pos := List.length_pos_iff.2 (readText_ne_nil c cs)
  rw [List.length_append, List.length_cons] at spelled
  omega

end Token

/-- The tokens of a text. -/
def tokenize (cs : List Char) : List Token :=
  match _skip : Lexeme.skipBlanks cs with
  | [] => []
  | c :: rest =>
    let read := Token.readText c rest
    { gap := cs.takeWhile isBlank, kind := read.1, text := read.2.1 } :: tokenize read.2.2
termination_by cs.length
decreasing_by
  have shorter := Lexeme.length_skipBlanks_le cs
  have left := Token.length_readText_le c rest
  rw [_skip, List.length_cons] at shorter
  omega

/-- Blanks alone hold no token. -/
theorem tokenize_of_skipBlanks_eq_nil {cs : List Char} (skip : Lexeme.skipBlanks cs = []) :
    tokenize cs = [] := by
  rw [tokenize]
  split
  · rfl
  · next found => rw [skip] at found; cases found

/-- The first token begins at the first character that is no blank. -/
theorem tokenize_of_skipBlanks_eq_cons {cs rest : List Char} {c : Char}
    (skip : Lexeme.skipBlanks cs = c :: rest) :
    tokenize cs =
      { gap := cs.takeWhile isBlank
        kind := (Token.readText c rest).1
        text := (Token.readText c rest).2.1 } :: tokenize (Token.readText c rest).2.2 := by
  rw [tokenize]
  split
  · next found => rw [skip] at found; cases found
  · next found =>
    rw [skip] at found
    cases found
    rfl

/-- What holds of blanks, which have no token, and of a token in front of a text that it holds of,
holds of every text with its tokens. -/
theorem tokenize_induction {motive : List Char → List Token → Prop}
    (blanks : ∀ tail, (∀ c ∈ tail, isBlank c = true) → motive tail [])
    (token : ∀ gap c behind, (∀ d ∈ gap, isBlank d = true) → isBlank c = false →
      motive (Token.readText c behind).2.2 (tokenize (Token.readText c behind).2.2) →
      motive (gap ++ c :: behind)
        ({ gap, kind := (Token.readText c behind).1, text := (Token.readText c behind).2.1 } ::
          tokenize (Token.readText c behind).2.2))
    (cs : List Char) : motive cs (tokenize cs) := by
  induction length : cs.length using Nat.strongRecOn generalizing cs with
  | ind n ih =>
    have split : cs.takeWhile isBlank ++ Lexeme.skipBlanks cs = cs :=
      List.takeWhile_append_dropWhile
    have gap : ∀ c ∈ cs.takeWhile isBlank, isBlank c = true :=
      List.all_eq_true.1 List.all_takeWhile
    cases skip : Lexeme.skipBlanks cs with
    | nil =>
      rw [skip, List.append_nil] at split
      rw [tokenize_of_skipBlanks_eq_nil skip]
      exact blanks cs (split ▸ gap)
    | cons c behind =>
      have solid : isBlank c = false :=
        Lexeme.head?_dropWhile_eq_false c (congrArg List.head? skip)
      have shorter := Lexeme.length_skipBlanks_le cs
      have left := Token.length_readText_le c behind
      rw [skip, List.length_cons] at shorter
      have found := token (cs.takeWhile isBlank) c behind gap solid (ih _ (by omega) _ rfl)
      rw [skip] at split
      rwa [split, ← tokenize_of_skipBlanks_eq_cons skip] at found

/-- The tokens spell the text that they were read from, all but the blanks at its end. -/
theorem exists_spelling_append (cs : List Char) :
    ∃ tail : List Char, (∀ c ∈ tail, isBlank c = true) ∧
      cs = (tokenize cs).flatMap Token.spelling ++ tail := by
  induction cs using tokenize_induction with
  | blanks tail all => exact ⟨tail, all, rfl⟩
  | token gap c behind _ _ ih =>
    obtain ⟨tail, blank, spelled⟩ := ih
    refine ⟨tail, blank, ?_⟩
    rw [List.flatMap_cons, List.append_assoc, ← spelled, Token.spelling, List.append_assoc,
      Token.readText_append]

/-- The tokens with their places: the number of bytes before each one's text. `position` bytes come
before the first one's gap. -/
def locate (position : Nat) : List Token → List (Nat × Token)
  | [] => []
  | token :: tokens =>
    let start := position + Utf8.size token.gap
    (start, token) :: locate (start + Utf8.size token.text) tokens

end Flashdeck.Script
