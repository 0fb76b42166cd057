import Flashdeck.Proofs.Block.Place

/-!
# The bodies of blocks, on their own

What a quote or a backtick is depends on what follows it, however far behind. The tokens inside a
block stay what they are all the same when the body is cut out of the script: a literal that is closed
inside the block is closed in the body, and a lone quote that nothing closes in the whole script is
closed by nothing in the body. The end of a block, written behind the body again, closes no literal
either.

* `tokenize_body`: the tokens of a body are those between the braces.
* `blockBodies_wrap_body`: a body in a block of its own is the body of that block.
* `placedBlocks_body_contained`: both for every block of a script, with the places of the tokens.
-/

namespace Flashdeck.Script.Block.Balanced

open Flashdeck.Text

/-- A body as a block of its own. -/
def wrap (body : List Char) : List Char :=
  Lexeme.keyword ++ '(' :: '{' :: (body ++ ['}', ')'])

theorem closesNothing_end : ClosesNothing ['}', ')'] where
  backtick := by decide
  quote := by decide
  word := by simp [RunEnds]; decide
  numeral := by simp [RunEnds]; decide

/-- What is inside a block is a chain on its own. -/
theorem chain_nil_unindent {rest : List Char} {tokens : List Token} (chain : Chain rest tokens) :
    Chain [] (unindent tokens) :=
  (Chain.of_append chain : Chain [] tokens).unindent

section Chain

variable {block : Balanced} {rest : List Char} (chain : Chain rest block.inside)
  (blanks : Blanks block.close.gap)

include chain blanks

/-- The body begins with the first token of the block and ends with the last. -/
theorem body_eq : block.body = (unindent block.inside).flatMap Token.spelling :=
  trim_flatMap_spelling_append chain blanks

/-- The tokens of the body are those between the braces. -/
theorem tokenize_body : tokenize block.body = unindent block.inside := by
  have cut := chain_nil_unindent chain
  refine tokenize_eq_iff_chain.2 ⟨[], .nil, ?_, cut⟩
  rw [List.append_nil, body_eq chain blanks]

/-- The body in a block of its own is the body of that block. -/
theorem blockBodies_wrap_body (nested : Nested (block.inside.map Token.kind)) :
    blockBodies .balanced (wrap block.body) = [block.body] := by
  have cut := chain_nil_unindent chain
  have inside : tokenize (block.body ++ ['}', ')']) = unindent block.inside ++
      [⟨[], .braceClose, ['}']⟩, ⟨[], .parenClose, [')']⟩] := by
    have ends : tokenize ['}', ')'] = [⟨[], .braceClose, ['}']⟩, ⟨[], .parenClose, [')']⟩] := by
      decide +kernel
    have split := tokenize_flatMap_spelling_append (cut.append_tail closesNothing_end)
    rwa [List.nil_append, ← body_eq chain blanks, ends] at split
  have found : read (tokenize (wrap block.body)) =
      some (⟨unindent block.inside, ⟨[], .braceClose, ['}']⟩⟩, []) := by
    rw [wrap, ← List.nil_append (Lexeme.keyword ++ _), tokenize_head .nil, inside]
    refine read_eq_some_iff.2 ⟨_, _, _, _, rfl, ⟨rfl, rfl, rfl⟩, ?_, rfl, rfl⟩
    rwa [map_kind_unindent]
  have again := trim_flatMap_spelling_append cut .nil
  rw [blockBodies, Pattern.values_of_read_eq_some found, Pattern.values_nil, List.map_singleton,
    body, again, unindent_unindent, body_eq chain blanks]

end Chain

/-! ## The blocks of a script -/

namespace Placed.StandsIn

variable {placed : Placed} {script : List Char} {front back : List Token}
  (stands : placed.StandsIn script front back)

include stands

theorem tokens_eq : tokenize script =
    (front ++ [placed.call.2, placed.paren.2, placed.opening.2]) ++
      (placed.block.inside ++ placed.block.close :: placed.ending.2 :: back) := by
  rw [stands.tokens]
  simp [Placed.items, Placed.block]

theorem exists_chain_inside :
    ∃ rest, Chain rest placed.block.inside ∧ Blanks placed.block.close.gap := by
  obtain ⟨tail, -, -, chain⟩ := exists_chain_tokenize script
  rw [stands.tokens_eq] at chain
  obtain ⟨inside, ends⟩ := chain_append_iff.1 (chain_append_iff.1 chain).2
  cases ends with
  | cons blanks fits others => exact ⟨_, inside, blanks⟩

/-- The text between the braces stands between their places. -/
theorem standsAt_between : StandsAt script (endOf placed.opening) placed.close.1
    (placed.block.inside.flatMap Token.spelling ++ placed.block.close.gap) := by
  have located := locates_tokenize script
  rw [stands.tokens_eq] at located
  have within := located.of_append
  rw [Nat.zero_add, ← stands.endOf_opening] at within
  rw [stands.inside_eq.2]
  exact within.standsAt

end Placed.StandsIn

/-- **The bodies of blocks are contained in themselves.** The placed blocks are the blocks of the
script. The body of one is cut out of the script between the braces of its block, and its tokens are
those of the script there, as far behind its beginning as in the script. So its braces are nested, and
in a block of its own it is the only body again. -/
theorem placedBlocks_body_contained (script : List Char) :
    (placedBlocks script).map (fun placed => placed.block.body) = blockBodies .balanced script ∧
    ∀ placed ∈ placedBlocks script,
      ((∃ front back, locate 0 (tokenize script) = front ++ (placed.items ++ back)) ∧
        placed.opening.2.kind = .braceOpen ∧ placed.close.2.kind = .braceClose) ∧
      (∃ offset, StandsAt script offset (offset + Utf8.size placed.block.body) placed.block.body ∧
        (endOf placed.opening ≤ offset ∧
          offset + Utf8.size placed.block.body ≤ placed.close.1) ∧
        (locate 0 (tokenize placed.block.body)).map (moved offset) =
          placed.inside.map (moved 0)) ∧
      Nested ((tokenize placed.block.body).map Token.kind) ∧
      blockBodies .balanced (wrap placed.block.body) = [placed.block.body] := by
  refine ⟨map_body_placedBlocks script, fun placed mem => ?_⟩
  obtain ⟨front, back, stands⟩ := exists_standsIn_of_mem_placedBlocks mem
  obtain ⟨rest, chain, blanks⟩ := stands.exists_chain_inside
  have tokens := tokenize_body chain blanks
  refine ⟨⟨⟨_, _, stands.locate_eq⟩, stands.opening_kind, stands.close_kind⟩, ?_, ?_,
    blockBodies_wrap_body chain blanks stands.nested⟩
  · obtain ⟨before, behind, split, starts, stops⟩ := stands.standsAt_between
    have spelled := indent_append_unindent placed.block.inside
    rw [← body_eq chain blanks] at spelled
    rw [← spelled] at split stops
    simp only [Utf8.size_append] at stops
    refine ⟨endOf placed.opening + Utf8.size (indent placed.block.inside),
      ⟨before ++ indent placed.block.inside, placed.block.close.gap ++ behind, ?_, ?_, ?_⟩,
      ⟨Nat.le_add_right _ _, ?_⟩, ?_⟩
    · rw [split]
      simp only [List.append_assoc]
    · rw [Utf8.size_append, starts]
    · rw [Utf8.size_append, starts]
    · omega
    · rw [tokens, map_moved_locate_unindent, stands.inside_eq.1]
      rfl
  · rw [tokens, map_kind_unindent]
    exact stands.nested

end Flashdeck.Script.Block.Balanced
