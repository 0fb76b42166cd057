import Flashdeck.Proofs.Text.Lines
import Flashdeck.Proofs.Text.Pairs
import Flashdeck.Script.Property

/-!
# Escape pairs between the quotes and the decoder

The reader of a quoted literal goes by pairs, and so does the decoder, but the lines of the literal
are tidied in between. A pair whose character is a blank, with nothing but blanks behind it on its
line, loses that character, and its backslash is left at the end of the line. That is all that
tidying does to pairs: every other pair is still there and is taken by the decoder as a pair.

* `exists_tidy_eq_append`: what tidying makes of a text with a pair in it.
* `exists_frays_of_not_paired_trim`: why a tidied line has no whole pairs.
* `paired_tidy_iff`, `reaches_tidy_slash_iff`: which texts lose a character, and which end in the
  backslash of one that was lost.
* `Script.Literal.pairs_of_quoted`: the pairs of a quoted literal.
-/

namespace Flashdeck.Text

open Escape

/-- A pair of the text, with what stands behind it. -/
def PairAt (cs : List Char) (c : Char) (behind : List Char) : Prop :=
  ∃ front, Whole front ∧ cs = front ++ '\\' :: c :: behind

/-- The character of a pair is trimmed off its line: it is a blank, and the line has only blanks
behind it. -/
def Frays (c : Char) (behind : List Char) : Prop :=
  isBlank c = true ∧ Blanks (behind.takeWhile (· ≠ '\n'))

/-! ## Pairs and lines -/

theorem not_isLineEnd_feed : ¬ isLineEnd '\n' = false := by
  decide

theorem paired_of_isQuotedContent {cs : List Char} (content : Script.Lexeme.IsQuotedContent cs) :
    Paired cs := by
  induction content with
  | nil => exact .nil
  | plain _ slash _ ih => exact .plain slash ih
  | pair line _ ih => exact .pair line ih

/-- No pair reaches over the end of a line. -/
theorem paired_of_mem_splitLines {cs : List Char} (paired : Paired cs) :
    ∀ line ∈ splitLines cs, Paired line := by
  induction paired with
  | nil => exact List.forall_mem_singleton.2 .nil
  | @plain c cs slash _ ih =>
    by_cases feed : c = '\n'
    · rw [splitLines, if_pos feed]
      exact List.forall_mem_cons.2 ⟨.nil, ih⟩
    · obtain ⟨first, rest, lines⟩ := List.exists_cons_of_ne_nil (splitLines_ne_nil cs)
      rw [lines, List.forall_mem_cons] at ih
      rw [splitLines_cons_of_ne feed lines, List.forall_mem_cons]
      exact ⟨.plain slash ih.1, ih.2⟩
  | @pair c cs line _ ih =>
    have feed : c ≠ '\n' := by
      rintro rfl
      exact not_isLineEnd_feed line
    obtain ⟨first, rest, lines⟩ := List.exists_cons_of_ne_nil (splitLines_ne_nil cs)
    rw [lines, List.forall_mem_cons] at ih
    rw [splitLines_cons_of_ne (by decide) (splitLines_cons_of_ne feed lines), List.forall_mem_cons]
    exact ⟨.pair line ih.1, ih.2⟩

theorem Blanks.pairs {p : Char → Prop} {blanks : List Char} (all : Blanks blanks) :
    Pairs p blanks :=
  .of_forall_ne all.ne_slash

/-- Blanks are no part of a pair at the front of a line. -/
theorem paired_skipBlanks {line : List Char} (paired : Paired line) :
    Paired (line.dropWhile isBlank) := by
  obtain ⟨blanks, all, split⟩ := exists_blanks_append_skipBlanks line
  rw [split] at paired
  exact ((Pairs.append_iff (all.pairs : Whole blanks)).1 paired).2

/-- A tidied line may end in a backslash, and takes the line feed with it then. -/
theorem whole_trim_feed {line : List Char} (paired : Paired line) :
    Whole (trim isBlank line ++ ['\n']) := by
  obtain ⟨run, -, split⟩ := exists_append_trimEnd isBlank (line.dropWhile isBlank)
  have both := paired_skipBlanks paired
  rw [split] at both
  rcases both.cut with kept | ⟨core, c, rest, pairs, cut, -⟩
  · exact kept.whole.append (.plain (by decide) .nil)
  · rw [trim, cut, List.append_assoc]
    exact pairs.whole.append (.pair trivial .nil)

theorem whole_flatMap {lines : List (List Char)} (each : ∀ line ∈ lines, Whole (line ++ ['\n'])) :
    Whole (lines.flatMap (· ++ ['\n'])) := by
  induction lines with
  | nil => exact .nil
  | cons line lines ih =>
    rw [List.forall_mem_cons] at each
    exact each.1.append (ih each.2)

theorem whole_flatMap_tidyLines {lines : List (List Char)} (paired : ∀ line ∈ lines, Paired line) :
    Whole ((tidyLines lines).flatMap (· ++ ['\n'])) := by
  apply whole_flatMap
  intro line mem
  obtain ⟨-, written, inside, rfl⟩ := mem_tidyLines_iff.1 mem
  exact whole_trim_feed (paired written inside)

theorem whole_tidyFront {front : List Char} (paired : Paired front) : Whole (tidyFront front) := by
  have each := paired_of_mem_splitLines paired
  apply Pairs.append
  · exact whole_flatMap_tidyLines fun line mem => each line (List.dropLast_subset _ mem)
  · exact (paired_skipBlanks (each _ (List.getLast_mem _))).whole

theorem paired_joinLines {lines : List (List Char)} (each : ∀ line ∈ lines, Paired line) :
    Paired (joinLines lines) := by
  have behind : ∀ {lines : List (List Char)}, (∀ line ∈ lines, Paired line) →
      Paired (lines.flatMap ('\n' :: ·)) := by
    intro lines each
    induction lines with
    | nil => exact .nil
    | cons line lines ih =>
      rw [List.forall_mem_cons] at each
      exact .plain (by decide) (each.1.append (ih each.2))
  cases lines with
  | nil => exact .nil
  | cons line lines =>
    rw [List.forall_mem_cons] at each
    rw [joinLines_cons]
    exact each.1.append (behind each.2)

/-! ## Pairs that stay, and pairs that fray -/

/-- Tidying a text with a pair in it leaves whole pairs, the backslash, the character of the pair if
it does not fray, and what tidying makes of the rest. -/
theorem exists_tidy_eq_append {cs behind : List Char} {c : Char} (paired : Paired cs)
    (pairAt : PairAt cs c behind) :
    ∃ front, Whole front ∧
      (¬ Frays c behind → tidy cs = front ++ '\\' :: c :: tidyBehind behind) ∧
      (Frays c behind → tidy cs = front ++ '\\' :: tidyBehind behind) := by
  obtain ⟨front, whole, rfl⟩ := pairAt
  obtain ⟨pairedFront, pairedPair⟩ := (Pairs.append_iff whole).1 paired
  have feed : c ≠ '\n' := by
    rintro rfl
    exact not_isLineEnd_feed ((Pairs.pair_iff _ _).1 pairedPair).1
  have tidied : tidy (front ++ '\\' :: c :: behind) =
      tidyFront front ++ '\\' :: tidyBehind (c :: behind) :=
    tidy_append_cons (by decide) front (c :: behind)
  refine ⟨_, whole_tidyFront pairedFront, fun stays => ?_, fun gone => ?_⟩
  · rw [tidied, tidyBehind_cons_of_not_blank feed stays]
  · rw [tidied, tidyBehind_cons_of_blank feed gone.1 gone.2]

/-- Only a pair that frays keeps a tidied line from having whole pairs. -/
theorem exists_frays_of_not_paired_trim {cs line : List Char} {before after : List (List Char)}
    (paired : Paired cs) (lines : splitLines cs = before ++ line :: after)
    (cut : ¬ Paired (trim isBlank line)) :
    ∃ c back, PairAt cs c (back ++ after.flatMap ('\n' :: ·)) ∧ isBlank c = true ∧ Blanks back ∧
      Frays c (back ++ after.flatMap ('\n' :: ·)) := by
  have pairedLines := paired_of_mem_splitLines paired
  rw [lines] at pairedLines
  obtain ⟨lead, leadBlank, splitLead⟩ := exists_blanks_append_skipBlanks line
  obtain ⟨run, runBlank, splitRun⟩ := exists_append_trimEnd isBlank (line.dropWhile isBlank)
  have both := paired_skipBlanks (pairedLines line (by simp))
  rw [splitRun] at both
  rcases both.cut with kept | ⟨core, c, back, pairs, front, rfl⟩
  · exact (cut kept).elim
  obtain ⟨blank, backBlank⟩ : isBlank c = true ∧ Blanks back := List.forall_mem_cons.1 runBlank
  have written : line = lead ++ (core ++ '\\' :: c :: back) := by
    rw [splitLead, Script.Lexeme.skipBlanks, splitRun, front, List.append_assoc]
    rfl
  have whole : Whole (before.flatMap (· ++ ['\n']) ++ (lead ++ core)) := by
    apply Pairs.append
    · apply whole_flatMap
      intro other mem
      have pairs := (pairedLines other (List.mem_append_left _ mem)).whole
      exact pairs.append (.plain (by decide) .nil)
    · exact leadBlank.pairs.append pairs.whole
  have single : '\n' ∉ back := by
    intro mem
    have inside : line ∈ splitLines cs := by simp [lines]
    exact feed_not_mem_of_mem_splitLines inside (by simp [written, mem])
  refine ⟨c, back, ⟨_, whole, ?_⟩, blank, backBlank, blank, ?_⟩
  · rw [← joinLines_splitLines cs, lines, joinLines_append_cons, written]
    simp only [List.append_assoc, List.cons_append]
  · rw [takeWhile_append_flatMap single]
    exact backBlank

/-- **Tidying keeps all pairs whole exactly if no pair frays.** -/
theorem paired_tidy_iff {cs : List Char} (paired : Paired cs) :
    Paired (tidy cs) ↔ ∀ c behind, PairAt cs c behind → ¬ Frays c behind := by
  apply Iff.intro
  · intro kept c behind pairAt frays
    obtain ⟨front, whole, -, gone⟩ := exists_tidy_eq_append paired pairAt
    have feed := head?_tidyBehind frays.2
    rw [gone frays] at kept
    have slash := ((Pairs.append_iff whole).1 kept).2
    cases rest : tidyBehind behind with
    | nil =>
      rw [rest] at slash
      exact Pairs.not_slash slash
    | cons next rest' =>
      rw [rest] at slash feed
      have taken := ((Pairs.pair_iff _ _).1 slash).1
      rw [feed next rfl] at taken
      exact not_isLineEnd_feed taken
  · intro none
    apply paired_joinLines
    intro line mem
    obtain ⟨-, written, inside, rfl⟩ := mem_tidyLines_iff.1 mem
    obtain ⟨before, after, lines⟩ := List.append_of_mem inside
    by_cases kept : Paired (trim isBlank written)
    · exact kept
    · obtain ⟨c, back, pairAt, -, -, frays⟩ := exists_frays_of_not_paired_trim paired lines kept
      exact (none _ _ pairAt frays).elim

/-- **The decoder is left with a lone backslash exactly if there is a pair whose character is a
blank and behind which there are only blanks.** -/
theorem reaches_tidy_slash_iff {cs : List Char} (paired : Paired cs) :
    Reaches (tidy cs) ['\\'] ↔
      ∃ c behind, PairAt cs c behind ∧ isBlank c = true ∧ Blanks behind := by
  apply Iff.intro
  · intro reaches
    obtain ⟨front, whole, tidied⟩ := reaches.exists_append (by simp)
    have solid : tidyLines (splitLines cs) ≠ [] := by
      intro none
      rw [tidy, none] at tidied
      simp [joinLines] at tidied
    obtain ⟨before, last, after, lines, ne, blank⟩ := exists_last_of_tidyLines_ne_nil solid
    have cut : ¬ Paired (trim isBlank last) := by
      intro kept
      have pairs : Whole (tidy cs) := by
        rw [tidy, lines, tidyLines_append_cons before ne, joinLines_append_cons,
          tidyLines_eq_nil_iff.2 blank, List.flatMap_nil, List.append_nil]
        refine (whole_flatMap_tidyLines fun line mem => ?_).append kept.whole
        exact paired_of_mem_splitLines paired line (lines ▸ List.mem_append_left _ mem)
      rw [tidied] at pairs
      exact Pairs.not_slash ((Pairs.append_iff whole).1 pairs).2
    obtain ⟨c, back, pairAt, blankChar, blankBack, -⟩ :=
      exists_frays_of_not_paired_trim paired lines cut
    refine ⟨c, _, pairAt, blankChar, blankBack.append ?_⟩
    intro d mem
    obtain ⟨line, inside, mem⟩ := List.mem_flatMap.1 mem
    rcases List.mem_cons.1 mem with rfl | mem
    · decide
    · exact blank line inside d mem
  · intro found
    obtain ⟨c, behind, pairAt, blank, blankBehind⟩ := found
    obtain ⟨front, whole, -, gone⟩ := exists_tidy_eq_append paired pairAt
    have frays : Frays c behind :=
      ⟨blank, fun d mem => blankBehind d ((List.takeWhile_prefix _).subset mem)⟩
    rw [gone frays, tidyBehind_of_blanks blankBehind]
    cases Takes.of_whole whole [] with
    | own on => exact on
    | lower _ _ _ low => cases low

end Flashdeck.Text

namespace Flashdeck.Script.Literal

open Text Text.Escape

/-- **The pairs of a quoted literal.** The text of a quoted literal is decoded from its tidied
content. In there all pairs are whole unless one frays. A pair that does not fray is taken by the
decoder as the pair that it is; of one that does, only the backslash is left, at the end of its
line. The decoder comes to no place inside a pair, and what it makes of the rest there is the end
of what it makes of the whole. And it is left with a lone backslash exactly if the last pair frays
with nothing but blanks behind it in the whole literal. -/
theorem pairs_of_quoted {text content rest : List Char}
    (read : Lexeme.quoted text = some (content, rest)) :
    (quoted content).value .decode = .text (String.ofList (decode (tidy content))) ∧
    (Paired (tidy content) ↔ ∀ c behind, PairAt content c behind → ¬ Frays c behind) ∧
    (∀ c behind, PairAt content c behind → ¬ Frays c behind →
      Takes (tidy content) ('\\' :: c :: tidyBehind behind)) ∧
    (∀ c behind, PairAt content c behind → Frays c behind →
      (∃ front, Whole front ∧ tidy content = front ++ '\\' :: tidyBehind behind) ∧
      ∀ next ∈ (tidyBehind behind).head?, next = '\n') ∧
    (∀ left, Reaches (tidy content) left → left ≠ [] →
      (∃ front, Whole front ∧ tidy content = front ++ left) ∧
      ∃ front, decode (tidy content) = front ++ decode left) ∧
    (Reaches (tidy content) ['\\'] ↔
      ∃ c behind, PairAt content c behind ∧ isBlank c = true ∧ Blanks behind) := by
  have paired : Paired content := paired_of_isQuotedContent (Lexeme.quoted_eq_some_iff.1 read).2
  refine ⟨rfl, paired_tidy_iff paired, ?_, ?_, ?_, reaches_tidy_slash_iff paired⟩
  · intro c behind pairAt stays
    obtain ⟨front, whole, kept, -⟩ := exists_tidy_eq_append paired pairAt
    rw [kept stays]
    exact .of_whole whole _
  · intro c behind pairAt frays
    obtain ⟨front, whole, -, gone⟩ := exists_tidy_eq_append paired pairAt
    exact ⟨⟨front, whole, gone frays⟩, head?_tidyBehind frays.2⟩
  · intro left reaches ne
    exact ⟨reaches.exists_append ne, reaches.exists_decode_eq⟩

/-- A backslash and a blank at the end of a literal. -/
theorem reaches_slash_of_escaped_blank :
    Lexeme.quoted ['"', 'a', '\\', ' ', '"'] = some (['a', '\\', ' '], []) ∧
      Reaches (tidy ['a', '\\', ' ']) ['\\'] := by
  have read : Lexeme.quoted ['"', 'a', '\\', ' ', '"'] = some (['a', '\\', ' '], []) := by decide
  have pairAt : PairAt ['a', '\\', ' '] ' ' [] := ⟨['a'], .plain (by decide) .nil, rfl⟩
  exact ⟨read, (pairs_of_quoted read).2.2.2.2.2.2 ⟨' ', [], pairAt, by decide, .nil⟩⟩

/-- Tidying does not keep the pairs of every literal: an escaped blank at the end of a line is no
pair behind it. -/
theorem not_forall_paired_tidy :
    ¬ ∀ text content rest, Lexeme.quoted text = some (content, rest) →
      Paired (tidy content) ∧
      (∀ c behind, PairAt content c behind →
        Takes (tidy content) ('\\' :: c :: tidyBehind behind)) ∧
      ¬ Reaches (tidy content) ['\\'] := by
  intro all
  have read : Lexeme.quoted ['"', 'a', '\\', ' ', '"'] = some (['a', '\\', ' '], []) := by decide
  have tidied : tidy ['a', '\\', ' '] = ['a', '\\'] := by decide
  have paired := (all _ _ _ read).1
  rw [tidied] at paired
  exact Pairs.not_slash ((Pairs.cons_iff (by decide) ['\\']).1 paired)

end Flashdeck.Script.Literal
