import Flashdeck.Search
import Flashdeck.Text.Trim
import Flashdeck.Script.Token

/-!
# Blocks by tokens

A block is a call `flash({ ... })`, and its body is what stands between the braces. Here blocks are
found among the tokens of a script: the keyword is a whole word, braces inside literals do not
count, and the body ends at the brace that closes the first one. A call whose brace is not closed,
or not followed by the closing parenthesis, is no block; blocks inside it are still found.
-/

namespace Flashdeck.Script.Block

open Flashdeck.Text

/-- The tokens between the two outer braces of a block, and the closing one. -/
structure Balanced where
  inside : List Token
  close : Token
deriving DecidableEq, Repr

namespace Balanced

/-- The body of the block: the text between its braces, without the blanks around it. -/
def body (block : Balanced) : List Char :=
  trim isBlank (block.inside.flatMap Token.spelling ++ block.close.gap)

/-- The number of inner braces open behind a token, with `depth` of them open before it; none
behind the brace that closes the block. -/
def nesting (depth : Nat) : Kind → Option Nat
  | .braceOpen => some (depth + 1)
  | .braceClose => if depth = 0 then none else some (depth - 1)
  | _ => some depth

/-- Reads up to the brace that closes the block, with `depth` more braces open inside it: the
tokens before that brace, the brace, and the tokens behind it. -/
def readInside (depth : Nat) : List Token → Option (Balanced × List Token)
  | [] => none
  | token :: tokens =>
    match nesting depth token.kind with
    | none => some (⟨[], token⟩, tokens)
    | some depth =>
      (readInside depth tokens).map fun (block, rest) =>
        ({ block with inside := token :: block.inside }, rest)

/-- Reads one token of the given kind. -/
def readKind (kind : Kind) : List Token → Option (List Token)
  | [] => none
  | token :: tokens => if token.kind = kind then some tokens else none

/-- Reads a block. -/
def read (tokens : List Token) : Option (Balanced × List Token) := do
  let tokens ← readKind .call tokens
  let tokens ← readKind .parenOpen tokens
  let tokens ← readKind .braceOpen tokens
  let (block, tokens) ← readInside 0 tokens
  let tokens ← readKind .parenClose tokens
  some (block, tokens)

theorem readKind_eq_some_iff {kind : Kind} {tokens rest : List Token} :
    readKind kind tokens = some rest ↔ ∃ token, token.kind = kind ∧ tokens = token :: rest := by
  cases tokens with
  | nil => simp [readKind]
  | cons token tokens =>
    rw [readKind]
    split
    · next eq =>
      apply Iff.intro
      · intro found
        cases found
        exact ⟨token, eq, rfl⟩
      · intro found
        rcases found with ⟨_, -, same⟩
        cases same
        rfl
    · next ne =>
      apply Iff.intro
      · intro none
        cases none
      · intro found
        rcases found with ⟨_, eq, same⟩
        cases same
        exact absurd eq ne

/-- Reading up to the closing brace loses no token. -/
theorem eq_append_of_readInside {depth : Nat} {tokens rest : List Token} {block : Balanced}
    (read : readInside depth tokens = some (block, rest)) :
    tokens = block.inside ++ block.close :: rest := by
  induction tokens generalizing depth block with
  | nil => cases read
  | cons token tokens ih =>
    rw [readInside] at read
    split at read
    · cases read
      rfl
    · obtain ⟨⟨inner, left⟩, found, eq⟩ := Option.map_eq_some_iff.1 read
      cases eq
      rw [ih found]
      rfl

/-- Blocks, as they are found among tokens. -/
def pattern : Pattern Token Balanced where
  read := read
  shorter := by
    intro tokens rest block found
    obtain ⟨_, call, found⟩ := Option.bind_eq_some_iff.1 found
    obtain ⟨_, paren, found⟩ := Option.bind_eq_some_iff.1 found
    obtain ⟨_, brace, found⟩ := Option.bind_eq_some_iff.1 found
    obtain ⟨⟨inner, left⟩, inside, found⟩ := Option.bind_eq_some_iff.1 found
    obtain ⟨_, close, found⟩ := Option.bind_eq_some_iff.1 found
    cases found
    obtain ⟨_, -, rfl⟩ := readKind_eq_some_iff.1 call
    obtain ⟨_, -, rfl⟩ := readKind_eq_some_iff.1 paren
    obtain ⟨_, -, rfl⟩ := readKind_eq_some_iff.1 brace
    obtain ⟨_, -, rfl⟩ := readKind_eq_some_iff.1 close
    rw [eq_append_of_readInside inside]
    simp only [List.length_cons, List.length_append]
    omega

end Balanced

end Flashdeck.Script.Block
