import Flashdeck.Deck
import Flashdeck.Proofs.Block.Balanced
import Flashdeck.Proofs.Block.Compat
import Flashdeck.Proofs.Draft
import Flashdeck.Proofs.Token.Split

/-!
# The cards of a written deck

A deck that was written compiles to the cards that it was written from, whichever rule finds the
blocks. By text, a block ends where it was meant to because its body holds no closing brace. By
tokens, its texts are single tokens, so that the only braces are those around the body.

* `blockBodies_write_append`: the first block of a script that begins with a written draft.
* `cards_writeDeck`: the cards of a written deck.
-/

namespace Flashdeck.Draft

open Text Script Script.Block

/-! ## Blocks by text -/

theorem Entry.brace_not_mem_write (entry : Entry) : '}' ∉ entry.write .compat := by
  intro mem
  rcases List.mem_append.1 mem with key | mem
  · exact absurd (entry.word _ key) (by decide)
  · simp only [List.mem_cons] at mem
    rcases mem with colon | blank | content
    · exact absurd colon (by decide)
    · exact absurd blank (by decide)
    · exact absurd (Content.hides_eq_false_of_mem_write content) (by decide)

theorem brace_not_mem_writeBody (draft : Draft) : '}' ∉ draft.writeBody .compat := by
  obtain ⟨first, others, entries⟩ := draft.exists_entries_eq_cons
  rw [writeBody_of_eq_cons .compat entries, List.mem_append, not_or]
  refine ⟨first.brace_not_mem_write, fun mem => ?_⟩
  obtain ⟨entry, -, mem⟩ := List.mem_flatMap.1 mem
  simp only [List.mem_cons] at mem
  rcases mem with comma | blank | mem
  · exact absurd comma (by decide)
  · exact absurd blank (by decide)
  · exact entry.brace_not_mem_write mem

theorem compat_read_write_append (draft : Draft) (rest : List Char) :
    Compat.read (draft.write .compat ++ rest) = some (draft.writeBody .compat, rest) := by
  refine Compat.read_eq_some_iff_spells.2 ⟨draft.noBlankFront_writeBody .compat,
    draft.noBlankEnd_writeBody .compat, [], [], [' '], [' '], [],
    ⟨.nil, .nil, .space, .space, .nil, ?_⟩, ?_⟩
  · simp [write]
  · intro before after split
    have absent := draft.brace_not_mem_writeBody
    rw [split] at absent
    exact (absent (by simp)).elim

/-! ## Blocks by tokens -/

theorem Content.plainTokens (mode : BlockMode) (content : Content) {gap rest : List Char}
    (all : Blanks gap) (stop : Stops rest) : PlainTokens (gap ++ content.write mode) rest := by
  cases content with
  | text content =>
    exact .quoted all (Escape.isQuotedContent_write (hides mode) content.toList) rest
  | numeral digits ne numeral =>
    exact .run all ne (fun c mem => isWordChar_or_eq_of_isNumeralChar (numeral c mem)) stop

theorem Entry.plainTokens (mode : BlockMode) (entry : Entry) {gap rest : List Char}
    (all : Blanks gap) (stop : Stops rest) : PlainTokens (gap ++ entry.write mode) rest := by
  have content := entry.content.plainTokens mode .space stop
  have behindKey := (PlainTokens.separator (.inr rfl : ':' = ',' ∨ ':' = ':') _).append content
  have colon : Stops ([':'] ++ ([' '] ++ entry.content.write mode) ++ rest) := by
    intro c mem
    cases mem
    decide
  have key := PlainTokens.run all entry.ne (fun c mem => .inl (entry.word c mem)) colon
  have whole := key.append behindKey
  rwa [List.append_assoc] at whole

theorem plainTokens_writeTail (mode : BlockMode) (entries : List Entry) {rest : List Char}
    (stop : Stops rest) : PlainTokens (writeTail mode entries) rest := by
  induction entries with
  | nil => exact .nil rest
  | cons entry entries ih =>
    have here := entry.plainTokens mode .space (stops_writeTail_append mode entries stop)
    have behind := (PlainTokens.separator (.inl rfl : ',' = ',' ∨ ',' = ':') _).append
      (here.append ih)
    simpa [writeTail] using behind

theorem plainTokens_writeBody (mode : BlockMode) (draft : Draft) {gap rest : List Char}
    (all : Blanks gap) (stop : Stops rest) : PlainTokens (gap ++ draft.writeBody mode) rest := by
  obtain ⟨first, others, entries⟩ := draft.exists_entries_eq_cons
  have whole := (first.plainTokens mode all (stops_writeTail_append mode others stop)).append
    (plainTokens_writeTail mode others stop)
  rwa [List.append_assoc, ← writeBody_of_eq_cons mode entries] at whole

theorem tokenize_end (rest : List Char) :
    tokenize (' ' :: '}' :: ')' :: rest) =
      ⟨[' '], .braceClose, ['}']⟩ :: ⟨[], .parenClose, [')']⟩ :: tokenize rest := by
  have close := tokenize_append_cons .space (by decide : isBlank '}' = false) (')' :: rest)
  have ending := tokenize_append_cons .nil (by decide : isBlank ')' = false) rest
  exact close.trans (congrArg (_ :: ·) ending)

/-- The tokens of a written draft are read as one block, whose body is that of the draft. -/
theorem exists_balanced_read_eq_some (draft : Draft) {gap : List Char} (all : Blanks gap)
    (rest : List Char) :
    ∃ block, Balanced.read (tokenize (gap ++ (draft.write .balanced ++ rest))) =
      some (block, tokenize rest) ∧ block.body = draft.writeBody .balanced := by
  have stop : Stops (' ' :: '}' :: ')' :: rest) := by
    intro c mem
    cases mem
    decide
  obtain ⟨inside, split, spelled, plain⟩ := draft.plainTokens_writeBody .balanced .space stop
  have written : draft.write .balanced ++ rest = Lexeme.keyword ++ '(' :: '{' ::
      ([' '] ++ draft.writeBody .balanced ++ ' ' :: '}' :: ')' :: rest) := by
    simp [write]
  have nested : Balanced.Nested (inside.map Token.kind) := by
    apply Balanced.Nested.of_forall
    intro kind mem
    obtain ⟨token, inner, rfl⟩ := List.mem_map.1 mem
    exact plain token inner
  refine ⟨⟨inside, ⟨[' '], .braceClose, ['}']⟩⟩, Balanced.read_eq_some_iff.2
    ⟨⟨gap, .call, Lexeme.keyword⟩, ⟨[], .parenOpen, ['(']⟩, ⟨[], .braceOpen, ['{']⟩,
      ⟨[], .parenClose, [')']⟩, ?_, ⟨rfl, rfl, rfl⟩, nested, rfl, rfl⟩, ?_⟩
  · rw [written, tokenize_head all, split, tokenize_end]
  · rw [Balanced.body, spelled, List.append_assoc]
    exact trim_append .space .space (draft.noBlankFront_writeBody .balanced)
      (draft.noBlankEnd_writeBody .balanced) (draft.writeBody_ne_nil .balanced)

/-! ## The blocks of a deck -/

/-- A written draft is the first block of a script that begins with it. -/
theorem blockBodies_write_append (mode : BlockMode) (draft : Draft) {gap : List Char}
    (all : Blanks gap) (rest : List Char) :
    blockBodies mode (gap ++ (draft.write mode ++ rest)) =
      draft.writeBody mode :: blockBodies mode rest := by
  cases mode with
  | compat =>
    have passed := Compat.values_append_of_blanks all (draft.write .compat ++ rest)
    have found : Compat.pattern.values (draft.write .compat ++ rest) =
        draft.writeBody .compat :: Compat.pattern.values rest :=
      Pattern.values_of_read_eq_some (draft.compat_read_write_append rest)
    exact passed.trans found
  | balanced =>
    obtain ⟨block, read, body⟩ := draft.exists_balanced_read_eq_some all rest
    rw [blockBodies, Pattern.values_of_read_eq_some read, List.map_cons, body]
    rfl

theorem blockBodies_nil (mode : BlockMode) : blockBodies mode [] = [] := by
  cases mode with
  | compat => exact Pattern.values_nil _
  | balanced => simp [blockBodies, tokenize_of_skipBlanks_eq_nil (rfl : Lexeme.skipBlanks [] = [])]

theorem blockBodies_flatMap_write (mode : BlockMode) (deck : List Draft) :
    blockBodies mode (deck.flatMap fun draft => ['\n'] ++ draft.write mode) =
      deck.map (writeBody mode) := by
  induction deck with
  | nil => exact blockBodies_nil mode
  | cons draft deck ih =>
    have feed : Blanks ['\n'] := .singleton (by decide)
    rw [List.flatMap_cons, List.append_assoc, blockBodies_write_append mode draft feed, ih,
      List.map_cons]

/-- The blocks of a written deck are those of its drafts. -/
theorem blockBodies_writeDeck (mode : BlockMode) (deck : List Draft) :
    blockBodies mode (writeDeck mode deck) = deck.map (writeBody mode) := by
  cases deck with
  | nil => exact blockBodies_nil mode
  | cons draft deck =>
    have first := blockBodies_write_append mode draft .nil
      (deck.flatMap fun draft => ['\n'] ++ draft.write mode)
    rw [List.nil_append, blockBodies_flatMap_write] at first
    rw [writeDeck, intercalate_map_cons, first, List.map_cons]

/-! ## The cards of a deck -/

theorem exists_card_of_writeBody (mode : BlockMode) (draft : Draft) :
    ∃ card, Card.ofFields? (fieldsOfBody .decode (draft.writeBody mode)) = some card ∧
      card.fields.entries = draft.fields := by
  have entries := draft.entries_fieldsOfBody_writeBody mode
  have faces := draft.faces
  rw [← fields, ← entries] at faces
  obtain ⟨card, made, fields⟩ := Card.exists_ofFields?_eq_some faces
  exact ⟨card, made, by rw [fields, entries]⟩

theorem cardsOfBodies_map_writeBody (mode : BlockMode) (grid : Grid) (deck : List Draft) :
    (Settings.cardsOfBodies ⟨mode, .decode, grid⟩ (deck.map (writeBody mode))).map (fun card =>
      card.fields.entries) = deck.map fields := by
  induction deck with
  | nil => rfl
  | cons draft deck ih =>
    obtain ⟨card, made, fields⟩ := draft.exists_card_of_writeBody mode
    have step : Settings.cardsOfBodies ⟨mode, .decode, grid⟩
        ((draft :: deck).map (writeBody mode)) =
          card :: Settings.cardsOfBodies ⟨mode, .decode, grid⟩ (deck.map (writeBody mode)) :=
      List.filterMap_cons_some made
    rw [step, List.map_cons, fields, ih, List.map_cons]

/-- **A written deck compiles to its cards**, by either rule for blocks: as many cards as there are
drafts, each with the keys and values of its draft in their order. -/
theorem cards_writeDeck (mode : BlockMode) (grid : Grid) (deck : List Draft) :
    (Settings.cards ⟨mode, .decode, grid⟩ (writeDeck mode deck)).map (fun card =>
      card.fields.entries) = deck.map fields := by
  rw [Settings.cards, Settings.bodies, blockBodies_writeDeck, cardsOfBodies_map_writeBody]

/-- A draft whose front looks like a block itself, over two lines and with quotes in it. -/
def quotedBlock : Draft where
  entries := [
    ⟨"front", .text "flash(\x7b \"a\"\n\x7d)", by decide, List.all_eq_true.1 rfl⟩,
    ⟨"x", .numeral ['1', '.', '5'] nofun (List.all_eq_true.1 rfl), by decide, List.all_eq_true.1 rfl⟩,
    ⟨"back", .text "\\", by decide, List.all_eq_true.1 rfl⟩]
  nodup_keys := by decide
  faces
    | .front => ⟨.text "flash(\x7b \"a\"\n\x7d)", .head _, by decide⟩
    | .back => ⟨.text "\\", .tail _ (.tail _ (.head _)), by decide⟩

/-- In the script of the draft, nothing in its front is left that could end the block or a line. -/
theorem cards_writeDeck_quotedBlock :
    writeDeck .compat [quotedBlock] =
      ("flash(\x7b front: \"flash(\x7b\\u0020\\\"a\\\"\\u000a\\u007d)\", x: 1.5, " ++
        "back: \"\\\\\" \x7d)").toList ∧
    (Settings.cards ⟨.compat, .decode, Grid.default⟩ (writeDeck .compat [quotedBlock])).map
        (fun card => card.fields.entries) =
      [[("front", .text "flash(\x7b \"a\"\n\x7d)"),
        ("x", .number (Number.ofNumeral ['1', '.', '5'])),
        ("back", .text "\\")]] :=
  ⟨by decide, cards_writeDeck .compat Grid.default [quotedBlock]⟩

end Flashdeck.Draft
