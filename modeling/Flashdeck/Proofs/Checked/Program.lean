import Flashdeck.Script.Block
import Flashdeck.Proofs.Checked.Balanced
import Flashdeck.Proofs.Checked.Compat
import Flashdeck.Proofs.Checked.Property

/-!
# Reading scripts without a lapse

What a program on offsets does with a script: it takes it apart into tokens, finds its blocks by either
rule, reads the fields of a body and decodes the escapes in it. Each of these is checked at every cut,
at every iteration and at every number that is taken away or made a character. `checked_eq_ok` says
that no check ever fails, and that what is read is what the readers of texts read.
-/

namespace Flashdeck.Checked

open Flashdeck.Text Flashdeck.Script

/-- The bodies of the blocks of a script, found by offsets. -/
def blockBodies (script : List Char) : BlockMode → Attempt (List (List Char))
  | .compat => Compat.bodies script
  | .balanced => Balanced.bodies script

/-- **No lapse.** Whatever the script, the body, the text and the settings are, none of the checks
fails. No text is cut outside of it or inside a character, so nothing is ever replaced by an empty text.
Every iteration of a loop ends further than it began. There is a word where a token begins as one, a
brace is closed only while one is open, and a surrogate pair is a character. And what the offsets lead
to are the tokens, blocks, fields and characters that the text has, at their places. A span that was
scanned can be cut out of its text, wherever the cursor stood. -/
theorem checked_eq_ok (script body text : List Char) (mode : BlockMode) (policy : EscapePolicy) :
    tokens script = .ok ((locate 0 (tokenize script)).map Mark.of) ∧
    blockBodies script mode = .ok (Script.blockBodies mode script) ∧
    fields policy body = .ok (fieldsOfBody policy body) ∧
    decode text = .ok (Escape.decode text) ∧
    ∀ (cursor next : Cursor) (operation : Cursor.Operation) (span : Span),
      cursor.apply operation = (.span (some span), next) →
        sliceOf cursor.source span = .ok span.content := by
  refine ⟨tokens_eq script, ?_, fields_eq policy body, decode_eq text, ?_⟩
  · cases mode with
    | compat => exact Compat.bodies_eq script
    | balanced => exact Balanced.bodies_eq script
  · exact fun cursor next operation span scanned => sliceOf_of_apply_eq_span scanned

end Flashdeck.Checked
