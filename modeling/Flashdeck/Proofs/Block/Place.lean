import Flashdeck.Proofs.Block.Writing
import Flashdeck.Proofs.Search.Parallel
import Flashdeck.Proofs.Token.Chain

/-!
# Blocks by tokens, at their places

The blocks of a script are read from its tokens. `placedBlocks` are the same blocks with their tokens
where the script has them, so that what stands before, between and behind these can be spoken of.

The keyword of a block is a token, and so a whole identifier: no word goes on with it, and it goes on
with no word. A numeral may end where it begins, though, because digits and dots are all that a
numeral is made of.

* `map_body_placedBlocks`: the placed blocks are those of the script.
* `exists_standsIn_of_mem_placedBlocks`: where a placed block stands in the script.
* `not_forall_word_ends_before_keyword`: a digit may stand right before a keyword.
* `placedBlocks_keyword_whole`: what stands before and behind the keyword of a block.
-/

namespace Flashdeck.Script.Block.Balanced

open Flashdeck.Text

/-- The tokens of a block, with their places. -/
structure Placed where
  call : Nat × Token
  paren : Nat × Token
  opening : Nat × Token
  inside : List (Nat × Token)
  close : Nat × Token
  ending : Nat × Token
deriving DecidableEq

namespace Placed

/-- The tokens in order. -/
def items (placed : Placed) : List (Nat × Token) :=
  placed.call :: placed.paren :: placed.opening ::
    (placed.inside ++ [placed.close, placed.ending])

/-- The block without the places. -/
def block (placed : Placed) : Balanced where
  inside := placed.inside.map Prod.snd
  close := placed.close.2

end Placed

/-- Puts a block at the places of the tokens that it was read from. -/
def place (block : Balanced) : List (Nat × Token) → Option (Placed × List (Nat × Token))
  | call :: paren :: opening :: behind =>
    match behind.drop block.inside.length with
    | close :: ending :: rest =>
      some (⟨call, paren, opening, behind.take block.inside.length, close, ending⟩, rest)
    | _ => none
  | _ => none

/-- Reads a block from tokens with places. -/
def readPlaced (items : List (Nat × Token)) : Option (Placed × List (Nat × Token)) :=
  (read (items.map Prod.snd)).bind fun found => place found.1 items

/-! ## The same blocks -/

theorem place_items_append (placed : Placed) (rest : List (Nat × Token)) :
    place placed.block (placed.items ++ rest) = some (placed, rest) := by
  simp [Placed.items, Placed.block, place]

/-- The tokens of a block that was read are there with their places. -/
theorem exists_items_of_read {items : List (Nat × Token)} {block : Balanced} {left : List Token}
    (found : read (items.map Prod.snd) = some (block, left)) :
    ∃ placed rest, items = Placed.items placed ++ rest ∧ placed.block = block ∧
      rest.map Prod.snd = left := by
  obtain ⟨_, _, _, _, split, -⟩ := read_eq_some_iff.1 found
  obtain ⟨call, behindCall, rfl, -, tokens⟩ := List.map_eq_cons_iff.1 split
  obtain ⟨paren, behindParen, rfl, -, tokens⟩ := List.map_eq_cons_iff.1 tokens
  obtain ⟨opening, behindOpening, rfl, -, tokens⟩ := List.map_eq_cons_iff.1 tokens
  obtain ⟨inside, behindInside, rfl, inside_eq, tokens⟩ := List.map_eq_append_iff.1 tokens
  obtain ⟨close, behindClose, rfl, close_eq, tokens⟩ := List.map_eq_cons_iff.1 tokens
  obtain ⟨ending, rest, rfl, -, rest_eq⟩ := List.map_eq_cons_iff.1 tokens
  refine ⟨⟨call, paren, opening, inside, close, ending⟩, rest, by simp [Placed.items], ?_, rest_eq⟩
  rw [Placed.block, inside_eq, close_eq]

theorem readPlaced_eq_some_iff {items rest : List (Nat × Token)} {placed : Placed} :
    readPlaced items = some (placed, rest) ↔
      items = placed.items ++ rest ∧
        read (items.map Prod.snd) = some (placed.block, rest.map Prod.snd) := by
  apply Iff.intro
  · intro found
    obtain ⟨⟨block, left⟩, read, put⟩ := Option.bind_eq_some_iff.1 found
    obtain ⟨placed', rest', rfl, rfl, rfl⟩ := exists_items_of_read read
    rw [place_items_append] at put
    cases put
    exact ⟨rfl, read⟩
  · intro both
    obtain ⟨rfl, read⟩ := both
    rw [readPlaced, read, Option.bind_some, place_items_append]

/-- Blocks with their places, as they are found among tokens with places. -/
def placedPattern : Pattern (Nat × Token) Placed where
  read := readPlaced
  shorter := by
    intro items rest placed found
    have shorter := pattern.shorter (readPlaced_eq_some_iff.1 found).2
    rwa [List.length_map, List.length_map] at shorter

/-- Places change nothing about what is read. -/
theorem read_map_snd (items : List (Nat × Token)) :
    read (items.map Prod.snd) =
      (readPlaced items).map (Prod.map Placed.block (List.map Prod.snd)) := by
  cases found : read (items.map Prod.snd) with
  | none =>
    rw [readPlaced, found]
    rfl
  | some pair =>
    obtain ⟨block, left⟩ := pair
    obtain ⟨placed, rest, split, rfl, rfl⟩ := exists_items_of_read found
    rw [readPlaced_eq_some_iff.2 ⟨split, found⟩]
    rfl

/-- The blocks of a script, with their places. -/
def placedBlocks (script : List Char) : List Placed :=
  placedPattern.values (locate 0 (tokenize script))

/-- The placed blocks of a script are its blocks. -/
theorem map_body_placedBlocks (script : List Char) :
    (placedBlocks script).map (fun placed => placed.block.body) = blockBodies .balanced script := by
  have values : pattern.values ((locate 0 (tokenize script)).map Prod.snd) =
      (placedBlocks script).map Placed.block :=
    Pattern.values_map_items read_map_snd (locate 0 (tokenize script))
  rw [map_snd_locate] at values
  rw [blockBodies, values, List.map_map]
  rfl

/-! ## The places -/

/-- The block stands in the script between the tokens of `front` and those of `back`: its tokens in a
row and at their places, head and end around nested braces. -/
structure Placed.StandsIn (placed : Placed) (script : List Char) (front back : List Token) :
    Prop where
  tokens : tokenize script = front ++ (placed.items.map Prod.snd ++ back)
  located : placed.items = locate (Utf8.size (front.flatMap Token.spelling))
    (placed.items.map Prod.snd)
  call_kind : placed.call.2.kind = .call
  opening_kind : placed.opening.2.kind = .braceOpen
  close_kind : placed.close.2.kind = .braceClose
  nested : Nested ((placed.inside.map Prod.snd).map Token.kind)

theorem exists_standsIn_of_mem_placedBlocks {script : List Char} {placed : Placed}
    (mem : placed ∈ placedBlocks script) : ∃ front back, placed.StandsIn script front back := by
  have rear : ∀ {items rest : List (Nat × Token)} {placed : Placed},
      placedPattern.read items = some (placed, rest) → rest <:+ items := by
    intro items rest placed found
    exact ⟨placed.items, (readPlaced_eq_some_iff.1 found).1.symm⟩
  obtain ⟨before, start, rest, split, found⟩ := Pattern.exists_read_of_mem_values rear mem
  obtain ⟨rfl, read⟩ := readPlaced_eq_some_iff.1 found
  obtain ⟨tokens, -, located⟩ := eq_locate_of_locate_eq_append split
  obtain ⟨-, located, -⟩ := eq_locate_of_locate_eq_append located.symm
  obtain ⟨call, paren, opening, ending, same, ⟨call_kind, -, opening_kind⟩, nested, close_kind, -⟩ :=
    read_eq_some_iff.1 read
  rw [List.map_append] at tokens
  rw [Nat.zero_add] at located
  rw [Placed.items] at same
  simp only [List.cons_append, List.map_cons, List.cons.injEq] at same
  obtain ⟨rfl, -, rfl, -⟩ := same
  exact ⟨before.map Prod.snd, rest.map Prod.snd, tokens, located, call_kind, opening_kind,
    close_kind, nested⟩

namespace Placed.StandsIn

variable {placed : Placed} {script : List Char} {front back : List Token}
  (stands : placed.StandsIn script front back)

include stands

theorem locate_eq : locate 0 (tokenize script) = locate 0 front ++ (placed.items ++
    locate (Utf8.size ((front ++ placed.items.map Prod.snd).flatMap Token.spelling)) back) := by
  rw [stands.tokens, locate_append, locate_append, Nat.zero_add, ← stands.located,
    List.flatMap_append, Utf8.size_append]

theorem call_place : placed.call.1 =
    Utf8.size (front.flatMap Token.spelling) + Utf8.size placed.call.2.gap := by
  have located := stands.located
  rw [items, List.map_cons, locate] at located
  exact congrArg Prod.fst (List.cons.inj located).1

/-- The tokens of the head, and those before them, end where the opening brace does. -/
theorem endOf_opening : endOf placed.opening = Utf8.size
    ((front ++ [placed.call.2, placed.paren.2, placed.opening.2]).flatMap Token.spelling) := by
  have located := stands.located
  rw [items, List.map_cons, List.map_cons, List.map_cons] at located
  simp only [locate, List.cons.injEq] at located
  obtain ⟨-, -, opening, -⟩ := located
  rw [opening]
  simp [endOf, Token.spelling, Nat.add_assoc]

/-- The tokens inside follow the opening brace, and the closing brace follows them. -/
theorem inside_eq : placed.inside = locate (endOf placed.opening) (placed.inside.map Prod.snd) ∧
    placed.close.1 = endOf placed.opening +
      Utf8.size ((placed.inside.map Prod.snd).flatMap Token.spelling) +
        Utf8.size placed.close.2.gap := by
  have split : locate (Utf8.size (front.flatMap Token.spelling)) (placed.items.map Prod.snd) =
      [placed.call, placed.paren, placed.opening] ++
        (placed.inside ++ [placed.close, placed.ending]) := stands.located.symm
  obtain ⟨-, -, behind⟩ := eq_locate_of_locate_eq_append split
  rw [← Utf8.size_append, ← List.flatMap_append, List.map_cons, List.map_cons, List.map_singleton,
    ← stands.endOf_opening] at behind
  obtain ⟨-, inside, ends⟩ := eq_locate_of_locate_eq_append behind.symm
  simp only [List.map_cons, locate, List.cons.injEq] at ends
  exact ⟨inside, congrArg Prod.fst ends.1⟩

end Placed.StandsIn

/-! ## The ends of the keyword -/

/-- Before a keyword stands a blank, a delimiter or some other character of its own; if it is a word
character, it is the last digit of a numeral. -/
theorem isDigit_of_chain_call {tail : List Char} {front back : List Token} {call : Token}
    (chain : Chain tail (front ++ call :: back)) (kind : call.kind = .call) {c : Char}
    (last : c ∈ (front.flatMap Token.spelling ++ call.gap).getLast?)
    (word : isWordChar c = true) :
    c.isDigit = true ∧ call.gap = [] ∧
      ∃ earlier numeral, front = earlier ++ [numeral] ∧ numeral.kind = .numeral := by
  obtain ⟨before, calls⟩ := chain_append_iff.1 chain
  cases calls with
  | cons blanks fits others =>
    have gap : call.gap = [] := by
      by_contra ne
      rw [List.getLast?_append_of_ne_nil _ ne] at last
      rw [blanks.not_isWordChar c (List.mem_of_getLast? last)] at word
      cases word
    rw [kind] at fits
    have text := fits.eq_keyword.1
    rw [gap, List.append_nil] at last
    rcases List.eq_nil_or_concat front with rfl | ⟨earlier, numeral, rfl⟩
    · cases last
    · rw [List.concat_eq_append] at before last
      cases (chain_append_iff.1 before).2 with
      | cons numeralBlanks numeralFits =>
        have next : 'f' ∈ (([] : List Token).flatMap Token.spelling ++
            ((call :: back).flatMap Token.spelling ++ tail)).head? := by
          simp [Token.spelling, gap, text, Lexeme.keyword]
        rw [List.flatMap_append, List.flatMap_singleton, Token.spelling, ← List.append_assoc,
          List.getLast?_append_of_ne_nil _ numeralFits.text_ne_nil] at last
        obtain ⟨is_numeral, digit⟩ := numeralFits.isDigit_of_isWordChar last word next (by decide)
        exact ⟨digit, gap, earlier, numeral, List.concat_eq_append, is_numeral⟩

/-- A script with a digit right before the keyword of its block. -/
def digitCall : List Char :=
  "1flash(\x7ba\x7d)".toList

/-- Not every keyword begins where no word could: `1flash({a})` is a block behind a numeral. -/
theorem not_forall_word_ends_before_keyword :
    ¬ ∀ script, ∀ placed ∈ placedBlocks script, ∀ before after,
      script = before ++ (Lexeme.keyword ++ after) → Utf8.size before = placed.call.1 →
        (∀ c ∈ before.getLast?, isWordChar c = false) ∧
          ∀ c ∈ after.head?, isWordChar c = false := by
  intro whole
  have block : ∃ placed ∈ placedBlocks digitCall, placed.call.1 = 1 := by decide +kernel
  obtain ⟨placed, mem, place⟩ := block
  have split : digitCall = ['1'] ++ (Lexeme.keyword ++ ['(', '{', 'a', '}', ')']) := by
    decide +kernel
  have before := (whole digitCall placed mem ['1'] _ split place.symm).1 '1' rfl
  exact absurd before (by decide)

/-- **The keyword of a block is a whole identifier.** The placed blocks are the blocks of the script;
no word goes on with the keyword of one, and what stands right before it is no word character,
unless it is the last digit of a numeral that ends there. -/
theorem placedBlocks_keyword_whole (script : List Char) :
    (placedBlocks script).map (fun placed => placed.block.body) = blockBodies .balanced script ∧
    ∀ placed ∈ placedBlocks script, ∃ before after,
      (script = before ++ (Lexeme.keyword ++ after) ∧ Utf8.size before = placed.call.1) ∧
      (∀ c ∈ after.head?, isWordChar c = false) ∧
      ∀ c ∈ before.getLast?, isWordChar c = true →
        c.isDigit = true ∧ ∃ numeral ∈ locate 0 (tokenize script),
          numeral.2.kind = .numeral ∧ endOf numeral = placed.call.1 := by
  refine ⟨map_body_placedBlocks script, fun placed mem => ?_⟩
  obtain ⟨front, back, stands⟩ := exists_standsIn_of_mem_placedBlocks mem
  obtain ⟨tail, blanks, spelled, chain⟩ := exists_chain_tokenize script
  have tokens := stands.tokens
  rw [Placed.items, List.map_cons, List.cons_append] at tokens
  rw [tokens] at spelled chain
  have place := stands.call_place
  cases (chain_append_iff.1 chain).2 with
  | cons callBlanks fits others =>
    rw [stands.call_kind] at fits
    obtain ⟨text, ended⟩ := fits.eq_keyword
    refine ⟨front.flatMap Token.spelling ++ placed.call.2.gap, _, ⟨?_, ?_⟩, ended,
      fun c last word => ?_⟩
    · rw [spelled, List.flatMap_append, List.flatMap_cons, Token.spelling, text]
      simp only [List.append_assoc]
    · rw [Utf8.size_append, place]
    · obtain ⟨digit, gap, earlier, numeral, rfl, kind⟩ :=
        isDigit_of_chain_call chain stands.call_kind last word
      refine ⟨digit, (Utf8.size (earlier.flatMap Token.spelling) + Utf8.size numeral.gap, numeral),
        ?_, kind, ?_⟩
      · rw [stands.locate_eq, locate_append, locate, Nat.zero_add]
        simp
      · rw [place, gap, endOf, List.flatMap_append, List.flatMap_singleton, Token.spelling]
        simp only [Utf8.size_append, Utf8.size_nil]
        omega

end Flashdeck.Script.Block.Balanced
