import Flashdeck.Deck
import Flashdeck.Proofs.Block.Contained
import Flashdeck.Proofs.Search.Parallel

/-!
# Blocks by text, written again

A body found by text can be written into a block of its own and be found again. What ends a block
early is a closing brace with blanks and a closing parenthesis behind it. A body has none: it was
cut off at the first. The brace written behind it adds none either, because the blanks at the end
of the body are gone, so that a brace there is followed by a brace. What a body holds besides, a
keyword or a quote that nothing closes, the search never sees: it goes on behind the block.

* `isBody_iff_exists_mem_blockBodies`: the texts that are bodies of some script.
* `blockBodies_wrapAll`: bodies that are written into blocks are found as they are.
* `blockBodies_wrapAll_blockBodies`: both for the bodies of any script, and for its cards.
-/

namespace Flashdeck.Script.Block.Compat

open Flashdeck.Text

/-- A text that a block by text can hold between its braces: no blank at its ends, and no closing
brace inside that closes a call. -/
structure IsBody (body : List Char) : Prop where
  front : NoBlankFront body
  ending : NoBlankEnd body
  opened : ∀ before after : List Char, body = before ++ '}' :: after → ¬ Closes after

/-- Bodies as a script, one block to a line. -/
def wrapAll (bodies : List (List Char)) : List Char :=
  ['\n'].intercalate (bodies.map Balanced.wrap)

/-! ## What closes a call -/

/-- A closing brace closes nothing where the next mark is a brace again. -/
theorem not_closes_brace {blanks : List Char} (all : Blanks blanks) (cs : List Char) :
    ¬ Closes (blanks ++ '}' :: cs) := by
  have front : NoBlankFront ('}' :: cs) := .cons (by decide) cs
  rw [← readTail_eq_none_iff, readTail, skipBlanks_append all, skipBlanks_of_noBlankFront front]
  rfl

/-- Only what stands in front decides, unless it is blank throughout. -/
theorem closes_append_iff {tail : List Char} (opened : ¬ Closes tail) (cs : List Char) :
    Closes (cs ++ tail) ↔ Closes cs := by
  apply Iff.intro
  · intro closes
    obtain ⟨blanks, rest, all, split⟩ := closes
    rcases List.append_eq_append_iff.1 split with ⟨more, rfl, eq⟩ | ⟨more, rfl, eq⟩
    · -- the parenthesis stands in the tail, with blanks before it
      have behind : Blanks more := fun c mem => all c (List.mem_append_right cs mem)
      exact (opened ⟨more, rest, behind, eq⟩).elim
    · cases more with
      | nil => exact (opened ⟨[], rest, .nil, eq.symm⟩).elim
      | cons c more =>
        obtain ⟨rfl, -⟩ := List.cons.inj eq
        exact ⟨blanks, more, all, rfl⟩
  · intro closes
    obtain ⟨blanks, rest, all, rfl⟩ := closes
    exact ⟨blanks, rest ++ tail, all, by simp⟩

/-! ## Bodies -/

/-- What a block gives as its body is one. -/
theorem isBody_of_read {text body rest : List Char} (found : read text = some (body, rest)) :
    IsBody body := by
  obtain ⟨front, ending, _, _, _, back, behind, ⟨_, _, _, backAll, _, _⟩, minimal⟩ :=
    read_eq_some_iff_spells.1 found
  refine ⟨front, ending, fun before after split closes => ?_⟩
  have opened : ¬ Closes (back ++ '}' :: (behind ++ ')' :: rest)) := not_closes_brace backAll _
  exact minimal before after split ((closes_append_iff opened after).2 closes)

/-- A body in a block of its own is read as it is, whatever follows the block. -/
theorem IsBody.read_wrap_append {body : List Char} (isBody : IsBody body) (rest : List Char) :
    read (Balanced.wrap body ++ rest) = some (body, rest) := by
  refine read_eq_some_iff_spells.2 ⟨isBody.front, isBody.ending, [], [], [], [], [],
    ⟨.nil, .nil, .nil, .nil, .nil, ?_⟩, ?_⟩
  · simp [Balanced.wrap]
  · intro before after split
    have opened : ¬ Closes ('}' :: ')' :: rest) := not_closes_brace .nil _
    exact (closes_append_iff opened after).not.2 (isBody.opened before after split)

/-- **Bodies that are written into blocks are found as they are**, all of them and no other. -/
theorem blockBodies_wrapAll {bodies : List (List Char)} (all : ∀ body ∈ bodies, IsBody body) :
    blockBodies .compat (wrapAll bodies) = bodies := by
  have feed : Blanks ['\n'] := .singleton (by decide)
  have found : pattern.values (wrapAll bodies) = bodies.map id :=
    Pattern.values_intercalate (values_append_of_blanks feed)
      fun body mem => (all body mem).read_wrap_append
  rwa [List.map_id] at found

/-- A body may hold a keyword, a quote that nothing closes, and a brace at its end. -/
example : blockBodies .compat (wrapAll ["flash(\x7b front: \"\x7d".toList, []]) =
    ["flash(\x7b front: \"\x7d".toList, []] := by
  decide +kernel

/-- The bodies of scripts are the texts that meet the conditions. -/
theorem isBody_iff_exists_mem_blockBodies {body : List Char} :
    IsBody body ↔ ∃ script, body ∈ blockBodies .compat script := by
  apply Iff.intro
  · intro isBody
    refine ⟨wrapAll [body], ?_⟩
    rw [blockBodies_wrapAll (List.forall_mem_singleton.2 isBody)]
    exact List.mem_singleton_self body
  · intro mem
    obtain ⟨script, mem⟩ := mem
    obtain ⟨found, inside, rfl⟩ := List.mem_map.1 (mem : body ∈ (pattern.findAll script).map _)
    obtain ⟨start, -, read⟩ := Pattern.exists_read_of_mem_findAll inside
    exact isBody_of_read read

/-! ## The blocks of a script -/

/-- **Blocks by text can be written again.** The bodies of a script, each in a block of its own and
one block to a line, are the bodies of the new script, and so it has the same cards under either
policy. -/
theorem blockBodies_wrapAll_blockBodies (script : List Char) :
    let rewritten := wrapAll (blockBodies .compat script)
    blockBodies .compat rewritten = blockBodies .compat script ∧
      ∀ (policy : EscapePolicy) (grid : Grid),
        Settings.cards ⟨.compat, policy, grid⟩ rewritten =
          Settings.cards ⟨.compat, policy, grid⟩ script := by
  have bodies : blockBodies .compat (wrapAll (blockBodies .compat script)) =
      blockBodies .compat script :=
    blockBodies_wrapAll fun body mem => isBody_iff_exists_mem_blockBodies.2 ⟨script, mem⟩
  refine ⟨bodies, fun policy grid => ?_⟩
  rw [Settings.cards, Settings.cards, Settings.bodies, Settings.bodies, bodies]

end Flashdeck.Script.Block.Compat
