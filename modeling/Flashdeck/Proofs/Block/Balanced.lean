import Flashdeck.Script.Block
import Flashdeck.Proofs.Search
import Flashdeck.Proofs.Token.Location

/-!
# Blocks by tokens are the words of a grammar

The reader of blocks walks over the tokens with a count of the braces that are open. Here a block is
said without the count: the head, tokens whose braces are nested, the closing brace and the closing
parenthesis. The brace that matches is the only one that nested braces lead up to, so the two agree.

* `readInside_eq_some_iff`: the count comes to its end behind nested braces, and nowhere else.
* `Closing.unique`: no two braces match the same head.
* `blockBodies_balanced_eq_iff_leftmost_blocks`: the bodies of a script are cut out of it between
  the braces of the leftmost blocks among its tokens.
-/

namespace Flashdeck.Script.Block.Balanced

open Flashdeck.Text

/-- Words in which every brace has its partner, other tokens standing anywhere. -/
inductive Nested : List Kind → Prop
  | nil : Nested []
  | plain {kind : Kind} {kinds : List Kind} (opens : kind ≠ .braceOpen)
      (closes : kind ≠ .braceClose) (rest : Nested kinds) : Nested (kind :: kinds)
  | pair {inner outer : List Kind} (inside : Nested inner) (behind : Nested outer) :
      Nested (.braceOpen :: (inner ++ .braceClose :: outer))

/-- Words that close `depth` braces more than they open. -/
inductive Closes : Nat → List Kind → Prop
  | nested {kinds : List Kind} (inside : Nested kinds) : Closes 0 kinds
  | close {depth : Nat} {inner outer : List Kind} (inside : Nested inner)
      (behind : Closes depth outer) : Closes (depth + 1) (inner ++ .braceClose :: outer)

/-- Tokens behind a brace, split at the brace that matches it. -/
structure Closing (tokens inside : List Token) (close : Token) (rest : List Token) : Prop where
  split : tokens = inside ++ close :: rest
  nested : Nested (inside.map Token.kind)
  closes : close.kind = .braceClose

/-- A block with its place in the script: the head, nested braces, and the end. Its body is what
stands in the script between the two outer braces, less the blanks around it. -/
def BlockAt (script : List Char) (items : List (Nat × Token)) (body : List Char)
    (rest : List (Nat × Token)) : Prop :=
  ∃ call paren opening inside close ending,
    items = call :: paren :: opening :: (inside ++ close :: ending :: rest) ∧
    (call.2.kind = .call ∧ paren.2.kind = .parenOpen ∧ opening.2.kind = .braceOpen) ∧
    Nested (inside.map fun item => item.2.kind) ∧
    (close.2.kind = .braceClose ∧ ending.2.kind = .parenClose) ∧
    ∃ between, StandsAt script (endOf opening) close.1 between ∧ body = trim isBlank between

/-! ## The count of open braces -/

section Count

variable {depth : Nat} {token : Token} {tokens : List Token}

theorem readInside_open (opens : token.kind = .braceOpen) :
    readInside depth (token :: tokens) = (readInside (depth + 1) tokens).map fun (block, rest) =>
      ({ block with inside := token :: block.inside }, rest) := by
  rw [readInside, opens]
  rfl

theorem readInside_close_zero (closes : token.kind = .braceClose) :
    readInside 0 (token :: tokens) = some (⟨[], token⟩, tokens) := by
  rw [readInside, closes]
  rfl

theorem readInside_close_succ (closes : token.kind = .braceClose) :
    readInside (depth + 1) (token :: tokens) =
      (readInside depth tokens).map fun (block, rest) =>
        ({ block with inside := token :: block.inside }, rest) := by
  rw [readInside, closes]
  rfl

theorem readInside_plain (opens : token.kind ≠ .braceOpen) (closes : token.kind ≠ .braceClose) :
    readInside depth (token :: tokens) = (readInside depth tokens).map fun (block, rest) =>
      ({ block with inside := token :: block.inside }, rest) := by
  have same : nesting depth token.kind = some depth := by
    cases kind : token.kind with
    | braceOpen => exact (opens kind).elim
    | braceClose => exact (closes kind).elim
    | _ => rfl
  rw [readInside, same]

end Count

/-! ## What the count says about the braces -/

theorem Nested.of_forall {kinds : List Kind}
    (plain : ∀ kind ∈ kinds, kind ≠ .braceOpen ∧ kind ≠ .braceClose) : Nested kinds := by
  induction kinds with
  | nil => exact .nil
  | cons kind kinds ih =>
    have here := plain kind List.mem_cons_self
    exact .plain here.1 here.2 (ih fun behind mem => plain behind (List.mem_cons_of_mem kind mem))

theorem Closes.of_open {depth : Nat} {kinds : List Kind} (closed : Closes (depth + 1) kinds) :
    Closes depth (.braceOpen :: kinds) := by
  cases closed with
  | close inside behind =>
    cases behind with
    | nested outer => exact .nested (.pair inside outer)
    | @close depth inner outer between behind =>
      have joined := Closes.close (.pair inside between) behind
      rwa [List.cons_append, List.append_assoc, List.cons_append] at joined

theorem Closes.of_plain {depth : Nat} {kind : Kind} {kinds : List Kind} (opens : kind ≠ .braceOpen)
    (closes : kind ≠ .braceClose) (closed : Closes depth kinds) : Closes depth (kind :: kinds) := by
  cases closed with
  | nested inside => exact .nested (.plain opens closes inside)
  | close inside behind => exact .close (.plain opens closes inside) behind

theorem Closes.of_close {depth : Nat} {kinds : List Kind} (closed : Closes depth kinds) :
    Closes (depth + 1) (.braceClose :: kinds) :=
  .close .nil closed

/-- What the reader takes closes the braces that were open, and one more closes the block. -/
theorem closes_of_readInside {depth : Nat} {tokens rest : List Token} {block : Balanced}
    (read : readInside depth tokens = some (block, rest)) :
    Closes depth (block.inside.map Token.kind) ∧ block.close.kind = .braceClose := by
  induction tokens generalizing depth block with
  | nil => cases read
  | cons token tokens ih =>
    by_cases opens : token.kind = .braceOpen
    · rw [readInside_open opens] at read
      obtain ⟨⟨inner, left⟩, found, eq⟩ := Option.map_eq_some_iff.1 read
      cases eq
      obtain ⟨closed, ends⟩ := ih found
      refine ⟨?_, ends⟩
      rw [List.map_cons, opens]
      exact closed.of_open
    · by_cases closes : token.kind = .braceClose
      · cases depth with
        | zero =>
          rw [readInside_close_zero closes] at read
          cases read
          exact ⟨.nested .nil, closes⟩
        | succ depth =>
          rw [readInside_close_succ closes] at read
          obtain ⟨⟨inner, left⟩, found, eq⟩ := Option.map_eq_some_iff.1 read
          cases eq
          obtain ⟨closed, ends⟩ := ih found
          refine ⟨?_, ends⟩
          rw [List.map_cons, closes]
          exact closed.of_close
      · rw [readInside_plain opens closes] at read
        obtain ⟨⟨inner, left⟩, found, eq⟩ := Option.map_eq_some_iff.1 read
        cases eq
        obtain ⟨closed, ends⟩ := ih found
        exact ⟨closed.of_plain opens closes, ends⟩

/-- Nested braces leave the count as it was. -/
theorem readInside_append_of_nested {kinds : List Kind} (nested : Nested kinds) (depth : Nat)
    {inside : List Token} (word : inside.map Token.kind = kinds) (more : List Token) :
    readInside depth (inside ++ more) = (readInside depth more).map fun (block, rest) =>
      ({ block with inside := inside ++ block.inside }, rest) := by
  induction nested generalizing depth inside more with
  | nil =>
    cases List.map_eq_nil_iff.1 word
    simp
  | plain opens closes nested ih =>
    obtain ⟨token, tokens, rfl, rfl, tail⟩ := List.map_eq_cons_iff.1 word
    rw [List.cons_append, readInside_plain opens closes, ih depth tail, Option.map_map]
    rfl
  | pair inside behind ihInside ihBehind =>
    obtain ⟨opening, tokens, rfl, opens, tail⟩ := List.map_eq_cons_iff.1 word
    obtain ⟨inner, behindInner, rfl, innerWord, last⟩ := List.map_eq_append_iff.1 tail
    obtain ⟨close, outer, rfl, closes, outerWord⟩ := List.map_eq_cons_iff.1 last
    rw [List.cons_append, readInside_open opens, List.append_assoc, ihInside (depth + 1) innerWord,
      List.cons_append, readInside_close_succ closes, ihBehind depth outerWord]
    simp only [Option.map_map]
    congr 1
    funext pair
    simp

/-- The count ends at the brace that matches, whatever stands before it. -/
theorem readInside_eq_some_iff {tokens inside rest : List Token} {close : Token} :
    readInside 0 tokens = some (⟨inside, close⟩, rest) ↔ Closing tokens inside close rest := by
  apply Iff.intro
  · intro read
    obtain ⟨closed, ends⟩ := closes_of_readInside read
    cases closed with
    | nested inside => exact ⟨eq_append_of_readInside read, inside, ends⟩
  · intro closing
    rw [closing.split, readInside_append_of_nested closing.nested 0 rfl,
      readInside_close_zero closing.closes]
    simp

/-- No two braces match the same one. -/
theorem Closing.unique {tokens inside inside' rest rest' : List Token} {close close' : Token}
    (left : Closing tokens inside close rest) (right : Closing tokens inside' close' rest') :
    inside = inside' ∧ close = close' ∧ rest = rest' := by
  have read := readInside_eq_some_iff.2 left
  rw [readInside_eq_some_iff.2 right] at read
  cases read
  exact ⟨rfl, rfl, rfl⟩

/-- The reader reads the words of the grammar. -/
theorem read_eq_some_iff {tokens rest : List Token} {block : Balanced} :
    read tokens = some (block, rest) ↔ ∃ call paren opening ending,
      tokens = call :: paren :: opening :: (block.inside ++ block.close :: ending :: rest) ∧
        (call.kind = .call ∧ paren.kind = .parenOpen ∧ opening.kind = .braceOpen) ∧
        Nested (block.inside.map Token.kind) ∧
        (block.close.kind = .braceClose ∧ ending.kind = .parenClose) := by
  apply Iff.intro
  · intro found
    obtain ⟨_, readCall, found⟩ := Option.bind_eq_some_iff.1 found
    obtain ⟨_, readParen, found⟩ := Option.bind_eq_some_iff.1 found
    obtain ⟨_, readOpening, found⟩ := Option.bind_eq_some_iff.1 found
    obtain ⟨⟨inner, left⟩, inside, found⟩ := Option.bind_eq_some_iff.1 found
    obtain ⟨_, readEnding, found⟩ := Option.bind_eq_some_iff.1 found
    cases found
    obtain ⟨call, callKind, rfl⟩ := readKind_eq_some_iff.1 readCall
    obtain ⟨paren, parenKind, rfl⟩ := readKind_eq_some_iff.1 readParen
    obtain ⟨opening, openingKind, rfl⟩ := readKind_eq_some_iff.1 readOpening
    obtain ⟨ending, endingKind, rfl⟩ := readKind_eq_some_iff.1 readEnding
    obtain ⟨split, nested, closes⟩ := readInside_eq_some_iff.1 inside
    exact ⟨call, paren, opening, ending, by rw [split], ⟨callKind, parenKind, openingKind⟩, nested,
      closes, endingKind⟩
  · intro spelled
    obtain ⟨call, paren, opening, ending, rfl, ⟨callKind, parenKind, openingKind⟩, nested,
      closes, endingKind⟩ := spelled
    have inside := readInside_eq_some_iff.2
      (⟨rfl, nested, closes⟩ : Closing _ block.inside block.close (ending :: rest))
    simp [read, readKind, callKind, parenKind, openingKind, inside, endingKind]

/-! ## Blocks and their places -/

variable {script : List Char} {position : Nat} {tokens : List Token}

/-- What the reader reads is a block of the script once the tokens are located in it. -/
theorem blockAt_of_read (located : Locates script position tokens) {block : Balanced}
    {rest : List Token} (found : read tokens = some (block, rest)) :
    ∃ behind, Locates script behind rest ∧
      BlockAt script (locate position tokens) block.body (locate behind rest) := by
  obtain ⟨call, paren, opening, ending, rfl, heads, nested, ends⟩ := read_eq_some_iff.1 found
  have within := located.of_cons.of_cons.of_cons
  have behind := within.of_append.of_cons.of_cons
  refine ⟨_, behind, ?_⟩
  simp only [BlockAt, locate, locate_append]
  refine ⟨_, _, _, _, _, _, rfl, heads, ?_, ends, _, within.standsAt, rfl⟩
  rwa [← Function.comp_def Token.kind Prod.snd, ← List.map_map, map_snd_locate]

/-- A block of the script is read from its tokens. -/
theorem exists_read_of_blockAt {body : List Char} {rest : List (Nat × Token)}
    (block : BlockAt script (locate position tokens) body rest) :
    ∃ found, read tokens = some (found, rest.map Prod.snd) := by
  obtain ⟨call, paren, opening, inside, close, ending, split, heads, nested, ends, -⟩ := block
  refine ⟨⟨inside.map Prod.snd, close.2⟩, read_eq_some_iff.2 ⟨call.2, paren.2, opening.2, ending.2,
    ?_, heads, ?_, ends⟩⟩
  · rw [← map_snd_locate position tokens, split]
    simp
  · rw [List.map_map]
    exact nested

/-- Where the tokens stand in a script, the leftmost blocks among them are its leftmost blocks. -/
theorem leftmost_locate {blocks : List Balanced} (left : Leftmost pattern.Reads tokens blocks)
    (located : Locates script position tokens) :
    Leftmost (BlockAt script) (locate position tokens) (blocks.map body) := by
  induction left generalizing position with
  | done nowhere =>
    refine .done fun front back split body rest block => ?_
    obtain ⟨before, after, rfl, rfl⟩ := exists_of_locate_eq_append split
    obtain ⟨found, read⟩ := exists_read_of_blockAt block
    exact nowhere before after rfl found _ read
  | @next skipped start rest value values first found others ih =>
    obtain ⟨behind, locatedRest, block⟩ := blockAt_of_read located.of_append found
    rw [locate_append, List.map_cons]
    refine .next (fun front back split ne body rest earlier => ?_) block (ih locatedRest)
    obtain ⟨before, after, rfl, rfl⟩ := exists_of_locate_eq_append split
    rw [List.flatMap_append, Utf8.size_append, ← Nat.add_assoc, ← locate_append] at earlier
    obtain ⟨found, read⟩ := exists_read_of_blockAt earlier
    exact first before after rfl (fun nil => ne (by rw [nil]; rfl)) found _ read

/-- At a place begins no more than one block. -/
theorem BlockAt.unique {items rest rest' : List (Nat × Token)} {body body' : List Char}
    (left : BlockAt script items body rest) (right : BlockAt script items body' rest') :
    body = body' ∧ rest = rest' := by
  obtain ⟨call, paren, opening, inside, close, ending, split, -, nested, ends, between, stands,
    rfl⟩ := left
  obtain ⟨call', paren', opening', inside', close', ending', split', -, nested', ends', between',
    stands', rfl⟩ := right
  rw [split] at split'
  simp only [List.cons.injEq] at split'
  obtain ⟨rfl, rfl, rfl, behind⟩ := split'
  have tokens := congrArg (List.map Prod.snd) behind
  simp only [List.map_append, List.map_cons] at tokens
  rw [← Function.comp_def Token.kind Prod.snd, ← List.map_map] at nested nested'
  have one : Closing _ (inside.map Prod.snd) close.2 (ending.2 :: rest.map Prod.snd) :=
    ⟨rfl, nested, ends.1⟩
  have same := (one.unique ⟨tokens, nested', ends'.1⟩).1
  have length := congrArg List.length same
  simp only [List.length_map] at length
  obtain ⟨rfl, last⟩ := List.append_inj behind length
  simp only [List.cons.injEq] at last
  obtain ⟨rfl, rfl, rfl⟩ := last
  rw [stands.unique stands']
  exact ⟨rfl, rfl⟩

/-! ## The blocks of a script -/

/-- **Blocks by tokens are the leftmost blocks of the grammar.** Each body is cut out of the script
between the two outer braces. No two braces match the same one; and where the matching brace is
missing, or no parenthesis follows it, the search goes on with the very next token. -/
theorem blockBodies_balanced_eq_iff_leftmost_blocks (script : List Char)
    (bodies : List (List Char)) :
    (blockBodies .balanced script = bodies ↔
      Leftmost (BlockAt script) (locate 0 (tokenize script)) bodies) ∧
    (∀ (tokens inside inside' : List Token) (close close' : Token) (rest rest' : List Token),
      Closing tokens inside close rest → Closing tokens inside' close' rest' →
        inside = inside' ∧ close = close' ∧ rest = rest') ∧
    ∀ (call paren opening : Nat × Token) (items : List (Nat × Token)),
      (∀ inside close rest, Closing (items.map Prod.snd) inside close rest →
        ∀ ending ∈ rest.head?, ending.kind ≠ .parenClose) →
      (Leftmost (BlockAt script) (call :: paren :: opening :: items) bodies ↔
        Leftmost (BlockAt script) (paren :: opening :: items) bodies) := by
  refine ⟨?_, fun _ _ _ _ _ _ _ => Closing.unique, fun call paren opening items unended => ?_⟩
  · have found := leftmost_locate (pattern.leftmost_values (tokenize script))
      (locates_tokenize script)
    apply Iff.intro
    · intro eq
      rw [← eq]
      exact found
    · intro leftmost
      refine Leftmost.unique ?_ found leftmost
      exact BlockAt.unique
  · apply Leftmost.cons_iff
    intro body rest block
    obtain ⟨_, _, _, inside, close, ending, split, -, nested, ends, -⟩ := block
    simp only [List.cons.injEq] at split
    obtain ⟨-, -, -, rfl⟩ := split
    refine unended (inside.map Prod.snd) close.2 (ending.2 :: rest.map Prod.snd)
      ⟨by simp, ?_, ends.1⟩ ending.2 rfl ends.2
    rw [List.map_map]
    exact nested

end Flashdeck.Script.Block.Balanced
