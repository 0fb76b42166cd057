import Flashdeck.Proofs.Block.Balanced
import Flashdeck.Proofs.Block.Compat
import Flashdeck.Proofs.Token.Split

/-!
# Blocks by tokens, seen in the text

A block by tokens stands in the text as a head, the text between its braces, a closing brace and a
closing parenthesis. `Balanced.Writing` says where, and which tokens the text has there. A block by
text begins with the same head, so one may begin wherever a block by tokens does; where it ends is
decided by the braces behind the head.

* `Balanced.nonempty_writing_of_read`: every block that was read from tokens is written in their
  text.
* `Balanced.Writing.script_eq`: the head of a block in a script, and what comes before it.
* `Compat.read_head`: a block by text begins at a head, and runs to the brace where its body ends.
-/

namespace Flashdeck.Script.Block

open Flashdeck.Text

/-- A head, and what follows its brace. -/
def head (beforeParen beforeBrace inside : List Char) : List Char :=
  Lexeme.keyword ++ (beforeParen ++ '(' :: (beforeBrace ++ '{' :: inside))

namespace Balanced

/-- The text between the two outer braces of a block. -/
def between (block : Balanced) : List Char :=
  block.inside.flatMap Token.spelling ++ block.close.gap

/-- How a block that was read at the front of the tokens of `cs` is written there: its tokens, what
follows the brace of the head, and what is left behind the block. -/
structure Writing (cs : List Char) (block : Balanced) (rest : List Token) where
  call : Token
  paren : Token
  opening : Token
  ending : Token
  inside : List Char
  left : List Char
  cut_inside : Cut cs [call, paren, opening] inside
  cut_left : Cut inside (block.inside ++ [block.close, ending]) left
  left_tokens : tokenize left = rest
  call_text : call.text = Lexeme.keyword
  paren_text : paren.text = ['(']
  opening_text : opening.text = ['{']
  close_kind : block.close.kind = .braceClose
  close_text : block.close.text = ['}']
  ending_text : ending.text = [')']
  paren_blanks : Blanks paren.gap
  opening_blanks : Blanks opening.gap
  ending_blanks : Blanks ending.gap

section Writing

variable {cs : List Char} {block : Balanced} {rest : List Token}

/-- A block that was read is written in the text. -/
theorem nonempty_writing_of_read (found : read (tokenize cs) = some (block, rest)) :
    Nonempty (Writing cs block rest) := by
  obtain ⟨call, paren, opening, ending, split, ⟨callKind, parenKind, openingKind⟩, -,
    closeKind, endingKind⟩ := read_eq_some_iff.1 found
  have spelled : ∀ token ∈ [call, paren, opening, block.close, ending], token.WellSpelled := by
    intro token mem
    have mem_tokens : token ∈ tokenize cs := by
      rw [split]
      simp at mem ⊢
      tauto
    exact wellSpelled_of_mem_tokenize mem_tokens
  have heads : tokenize cs =
      [call, paren, opening] ++ (block.inside ++ block.close :: ending :: rest) := split
  obtain ⟨inside, cut_inside, inside_tokens⟩ := exists_of_tokenize_eq_append heads
  have ends : tokenize inside = (block.inside ++ [block.close, ending]) ++ rest := by
    rw [inside_tokens, List.append_assoc]
    rfl
  obtain ⟨left, cut_left, left_tokens⟩ := exists_of_tokenize_eq_append ends
  simp only [List.forall_mem_cons] at spelled
  obtain ⟨callSpelled, parenSpelled, openingSpelled, closeSpelled, endingSpelled, -⟩ := spelled
  exact ⟨{
    call := call
    paren := paren
    opening := opening
    ending := ending
    inside := inside
    left := left
    cut_inside := cut_inside
    cut_left := cut_left
    left_tokens := left_tokens
    call_text := callSpelled.text_eq _ (by rw [callKind]; rfl)
    paren_text := parenSpelled.text_eq _ (by rw [parenKind]; rfl)
    opening_text := openingSpelled.text_eq _ (by rw [openingKind]; rfl)
    close_kind := closeKind
    close_text := closeSpelled.text_eq _ (by rw [closeKind]; rfl)
    ending_text := endingSpelled.text_eq _ (by rw [endingKind]; rfl)
    paren_blanks := parenSpelled.blanks
    opening_blanks := openingSpelled.blanks
    ending_blanks := endingSpelled.blanks }⟩

/-- The first block of a script is written behind the tokens that the search passes over. -/
theorem exists_writing_of_findNext {script : List Char} {found : Pattern.Match Token Balanced}
    (next : pattern.findNext (tokenize script) = some found) :
    ∃ cs, Cut script found.skipped cs ∧ Nonempty (Writing cs found.value found.rest) := by
  obtain ⟨_, split, read, -⟩ := Pattern.findNext_eq_some_iff.1 next
  obtain ⟨cs, cut, rfl⟩ := exists_of_tokenize_eq_append split
  exact ⟨cs, cut, nonempty_writing_of_read read⟩

variable (writing : Writing cs block rest)

theorem Writing.cs_eq :
    cs = writing.call.gap ++ head writing.paren.gap writing.opening.gap writing.inside := by
  have split := writing.cut_inside.split
  simpa [Token.spelling, writing.call_text, writing.paren_text, writing.opening_text,
    head] using split

/-- The head of a block, and what comes before it in a script. -/
theorem Writing.script_eq {script : List Char} {front : List Token} (cut : Cut script front cs) :
    script = (front.flatMap Token.spelling ++ writing.call.gap) ++
      head writing.paren.gap writing.opening.gap writing.inside := by
  rw [List.append_assoc, ← writing.cs_eq, ← cut.split]

theorem Writing.inside_eq :
    writing.inside = block.between ++ '}' :: (writing.ending.gap ++ ')' :: writing.left) := by
  have split := writing.cut_left.split
  simpa [Token.spelling, writing.close_text, writing.ending_text, between] using split

theorem Writing.inside_tokens :
    tokenize writing.inside = block.inside ++ block.close :: writing.ending :: rest := by
  rw [writing.cut_left.tokens, writing.left_tokens, List.append_assoc]
  rfl

/-- The closing parenthesis follows the closing brace. -/
theorem Writing.readTail_eq : Compat.readTail (writing.ending.gap ++ ')' :: writing.left) =
    some writing.left :=
  Compat.readTail_eq_some_iff.2 ⟨writing.ending.gap, writing.ending_blanks, rfl⟩

theorem Writing.length_left_lt {script : List Char} {front : List Token}
    (cut : Cut script front cs) : writing.left.length < script.length := by
  have whole := congrArg List.length (writing.script_eq cut)
  rw [writing.inside_eq] at whole
  simp only [head, List.length_append, List.length_cons] at whole
  omega

end Writing

end Balanced

namespace Compat

theorem readHead_head {beforeParen beforeBrace : List Char} (parenAll : Blanks beforeParen)
    (braceAll : Blanks beforeBrace) (inside : List Char) :
    readHead (head beforeParen beforeBrace inside) = some (Lexeme.skipBlanks inside) := by
  obtain ⟨behindBrace, all, split⟩ := exists_blanks_append_skipBlanks inside
  refine readHead_eq_some_iff.2 ⟨noBlankFront_skipBlanks inside, beforeParen, beforeBrace,
    behindBrace, parenAll, braceAll, all, ?_⟩
  rw [← split, head]

theorem skipBlanks_append_brace (between tail : List Char) :
    Lexeme.skipBlanks (between ++ '}' :: tail) = Lexeme.skipBlanks between ++ '}' :: tail :=
  (PlainTokens.takeWhile_append_of_head? between
    (NoBlankFront.cons (by decide) tail : NoBlankFront ('}' :: tail))).2

/-- A block begins at a head, and ends where its body does. -/
theorem read_head {beforeParen beforeBrace between tail inside rest : List Char}
    (parenAll : Blanks beforeParen) (braceAll : Blanks beforeBrace)
    (found : readBody (Lexeme.skipBlanks between ++ '}' :: tail) = some (inside, rest)) :
    read (head beforeParen beforeBrace (between ++ '}' :: tail)) =
      some (trimEnd isBlank inside, rest) := by
  have behind := readHead_head parenAll braceAll (between ++ '}' :: tail)
  rw [skipBlanks_append_brace] at behind
  exact read_eq_some_iff.2 ⟨_, inside, behind, found, rfl⟩

end Compat

end Flashdeck.Script.Block
