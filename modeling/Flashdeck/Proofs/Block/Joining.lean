import Flashdeck.Deck
import Flashdeck.Proofs.Block.Order
import Flashdeck.Proofs.Block.Wrapping

/-!
# Scripts one after the other

Where a call by text ends is not bounded: a head that nothing closes in one script may be closed by
the script that is written behind it. A head with a block behind it is safe from this, because the
closing brace of that block closes the head as well, at the latest. So the blocks of the first
script stay what they are, and only behind the last of them can a head be left open. If there is no
keyword there, and a line feed keeps the two scripts from spelling one across their seam, the
blocks of the second script are found as if it stood alone.

* `read_append`: a block is read as it is, whatever follows it.
* `settledBefore_pattern`: a block settles what is read at every place before it.
* `values_append_feed`: text without a keyword, and a line feed behind it, is passed over.
* `Settings.cards_append_feed`: the cards of two scripts, one after the other.
-/

namespace Flashdeck.Script.Block.Compat

open Flashdeck.Text

/-! ## A block and what follows it -/

/-- A block is read as it is, whatever follows it: the brace that ends its body is the first one
that closes the call, and what is written behind the parenthesis closes none before it. -/
theorem read_append {text body rest : List Char} (found : read text = some (body, rest))
    (tail : List Char) : read (text ++ tail) = some (body, rest ++ tail) := by
  obtain ⟨front, ending, beforeParen, beforeBrace, blanks, back, behind,
    ⟨parenAll, braceAll, frontAll, backAll, behindAll, rfl⟩, minimal⟩ :=
      read_eq_some_iff_spells.1 found
  refine read_eq_some_iff_spells.2 ⟨front, ending, beforeParen, beforeBrace, blanks, back, behind,
    ⟨parenAll, braceAll, frontAll, backAll, behindAll, by simp⟩, ?_⟩
  intro before after split
  have opened : ∀ cs : List Char, ¬ Closes (back ++ '}' :: cs) := not_closes_brace backAll
  have inside := minimal before after split
  rw [closes_append_iff (opened _)] at inside ⊢
  exact inside

/-- A head that does not take all of a text is the same one in the text and in a longer one. -/
theorem readHead_append_iff {text inside tail : List Char} (ne : inside ≠ []) :
    readHead (text ++ tail) = some (inside ++ tail) ↔ readHead text = some inside := by
  rw [readHead_eq_some_iff, readHead_eq_some_iff]
  have solid : NoBlankFront (inside ++ tail) ↔ NoBlankFront inside :=
    ⟨.of_append, fun front => front.append ne⟩
  have split : ∀ beforeParen beforeBrace behindBrace : List Char,
      Lexeme.keyword ++ (beforeParen ++ '(' :: (beforeBrace ++ '{' ::
        (behindBrace ++ (inside ++ tail)))) =
      Lexeme.keyword ++ (beforeParen ++ '(' :: (beforeBrace ++ '{' ::
        (behindBrace ++ inside))) ++ tail := by
    simp
  simp only [solid, split, List.append_left_inj]

/-- Before a block, a head is a block: what closes the later one closes it too. -/
theorem isSome_read_of_readHead {before start inside : List Char}
    (block : (read start).isSome = true) (head : readHead (before ++ start) = some inside) :
    (read (before ++ start)).isSome = true := by
  obtain ⟨⟨body, rest⟩, found⟩ := Option.isSome_iff_exists.1 block
  obtain ⟨inside', between, head', body_read, -⟩ := read_eq_some_iff.1 found
  obtain ⟨tail, rfl, closed, -⟩ := readBody_eq_some_iff.1 body_read
  obtain ⟨more, rfl⟩ := suffix_of_readHead head head'
  obtain ⟨longer, left, longer_read, -⟩ := exists_readBody_append closed (more ++ between)
  rw [List.append_assoc] at longer_read
  have whole := read_eq_some_iff.2 ⟨_, longer, head, longer_read, rfl⟩
  exact Option.isSome_iff_exists.2 ⟨_, whole⟩

/-- A block settles what is read at its place and before it. Where nothing is read there is no head
either, and a text that goes on behind the block adds none. -/
theorem settledBefore_pattern (tail : List Char) : pattern.SettledBefore tail := by
  intro before start block
  change read (before ++ start ++ tail) =
    (read (before ++ start)).map (Prod.map id (· ++ tail))
  cases here : read (before ++ start) with
  | some found => exact read_append here tail
  | none =>
    rw [Option.map_none, Option.eq_none_iff_forall_ne_some]
    intro longer read_longer
    obtain ⟨⟨_, rest⟩, found⟩ := Option.isSome_iff_exists.1 block
    obtain ⟨inside, between, head, body_read, -⟩ := read_eq_some_iff.1 found
    obtain ⟨behind, -, longer_head, -, -⟩ := read_eq_some_iff.1 read_longer
    have ne : inside ≠ [] := by
      intro nil
      rw [nil] at body_read
      cases body_read
    -- the head takes in what the head of the block has inside, and with it the text behind it
    rw [List.append_assoc] at longer_head
    obtain ⟨more, rfl⟩ := suffix_of_readHead longer_head ((readHead_append_iff ne).2 head)
    rw [← List.append_assoc, ← List.append_assoc] at longer_head
    have more_ne : more ++ inside ≠ [] := fun nil => ne (List.append_eq_nil_iff.1 nil).2
    have some := isSome_read_of_readHead block ((readHead_append_iff more_ne).1 longer_head)
    rw [here] at some
    cases some

/-! ## Text without a keyword -/

/-- Where the keyword does not stand, nothing is read. -/
theorem read_eq_none_of_not_prefix {cs : List Char} (other : ¬ Lexeme.keyword <+: cs) :
    read cs = none := by
  have noWord : Lexeme.keyword.isPrefixOf? cs = none := by
    rw [Option.eq_none_iff_forall_ne_some]
    intro rest word
    exact other ⟨rest, (Part.isPrefixOf?_eq_some_iff.1 word).symm⟩
  rw [read, readHead, noWord]
  rfl

/-- A line feed ends a keyword that has begun, so that none begins in a text without a keyword. -/
theorem values_append_feed {silent : List Char} (none : ¬ Lexeme.keyword <:+: silent)
    (script : List Char) :
    pattern.values (silent ++ '\n' :: script) = pattern.values script := by
  rw [List.append_cons]
  apply Pattern.values_append_of_forall_none
  intro before after split ne
  apply read_eq_none_of_not_prefix
  intro keyword
  obtain ⟨rest, whole⟩ := keyword
  obtain ⟨inner, rfl, suffix⟩ :=
    (List.suffix_concat_iff.1 ⟨before, split.symm⟩).resolve_left ne
  rw [List.append_assoc] at whole
  -- the line feed is no letter of the keyword, so the keyword stands before it
  obtain ⟨more, rfl⟩ := suffix_of_append_eq_append whole.symm (by decide)
  have front : inner = Lexeme.keyword ++ more := by
    rw [← List.append_assoc] at whole
    exact (List.append_cancel_right whole).symm
  exact none (List.IsInfix.trans ⟨[], more, front.symm⟩ suffix.isInfix)

/-! ## Two scripts -/

/-- The blocks of two scripts, one after the other, are those of the first and then those of the
second. -/
theorem blockBodies_append_feed {first second : List Char}
    (silent : ¬ Lexeme.keyword <:+: pattern.remainder first) :
    blockBodies .compat (first ++ '\n' :: second) =
      blockBodies .compat first ++ blockBodies .compat second := by
  change pattern.values _ = pattern.values _ ++ pattern.values _
  rw [Pattern.values_append (settledBefore_pattern _), values_append_feed silent]

/-- A head that is left open is closed by what follows. -/
example : blockBodies .compat "flash(\x7b".toList = [] ∧ blockBodies .compat "\x7d)".toList = [] ∧
    blockBodies .compat ("flash(\x7b".toList ++ '\n' :: "\x7d)".toList) = [[]] := by
  decide +kernel

end Flashdeck.Script.Block.Compat

namespace Flashdeck.Settings

open Script Script.Block

theorem cardsOfBodies_append (settings : Settings) (first second : List (List Char)) :
    settings.cardsOfBodies (first ++ second) =
      settings.cardsOfBodies first ++ settings.cardsOfBodies second :=
  List.filterMap_append

/-- **Decks can be written one after the other.** Where the first script holds no keyword behind its
last block, the cards of the two scripts with a line feed between them are the cards of the first
and then those of the second. -/
theorem cards_append_feed (policy : EscapePolicy) (grid : Grid) {first second : List Char}
    (silent : ¬ Lexeme.keyword <:+: Compat.pattern.remainder first) :
    cards ⟨.compat, policy, grid⟩ (first ++ '\n' :: second) =
      cards ⟨.compat, policy, grid⟩ first ++ cards ⟨.compat, policy, grid⟩ second := by
  have joined : bodies ⟨.compat, policy, grid⟩ (first ++ '\n' :: second) =
      bodies ⟨.compat, policy, grid⟩ first ++ bodies ⟨.compat, policy, grid⟩ second :=
    Compat.blockBodies_append_feed silent
  rw [cards, joined, cardsOfBodies_append]
  rfl

/-- A script with a keyword that calls nothing, a block, and the beginnings of a keyword and of the
end of a call behind it: `flash flash({ front: "1", back: "2" }) flas }`. -/
def openScript : List Char :=
  "flash flash(\x7b front: \"1\", back: \"2\" \x7d) flas \x7d".toList

/-- A script that would go on with what the other one leaves open: `) h flash({ front: .. })`. -/
def closingScript : List Char :=
  ") h flash(\x7b front: `3`, back: \"4\" \x7d)".toList

theorem cards_openScript_append : ¬ Lexeme.keyword <:+: Compat.pattern.remainder openScript ∧
    cards default (openScript ++ '\n' :: closingScript) =
      cards default openScript ++ cards default closingScript ∧
    (cards default openScript).length = 1 ∧ (cards default closingScript).length = 1 :=
  ⟨by decide +kernel, cards_append_feed .decode Grid.default (by decide +kernel), by decide +kernel,
    by decide +kernel⟩

end Flashdeck.Settings
