import Mathlib.Data.List.Forall2
import Flashdeck.Proofs.Text.Lines
import Flashdeck.Proofs.Card
import Flashdeck.Proofs.Property

/-!
# The normal form of texts

Tidying brings a text into a normal form: lines with something on them and no blank at their ends,
in a row with a line feed between each two. It takes nothing but blanks and leaves what stands
between the first and the last solid character of a line. A text in normal form stays as it is, so
the texts that backticks can hold are those in normal form, backticks apart.

* `IsNeat`: the normal form; `tidy_eq_self_iff`: the texts that tidying leaves alone.
* `solid_tidy`, `forall₂_tidyLines`: what tidying keeps, in the whole text and on a line.
* `Script.tidy_normal_form`: the normal form and the literals between backticks.
-/

namespace Flashdeck.Text

/-- A line with something on it and no blank at its ends. -/
structure NeatLine (line : List Char) : Prop where
  ne : line ≠ []
  single : '\n' ∉ line
  front : NoBlankFront line
  back : NoBlankEnd line

/-- A text of neat lines, a line feed between each two; no text at all is one of no lines. -/
def IsNeat (cs : List Char) : Prop :=
  ∃ lines, (∀ line ∈ lines, NeatLine line) ∧ cs = joinLines lines

/-- The characters of a text that are no blanks, in order. -/
def solid (cs : List Char) : List Char :=
  cs.filter fun c => !isBlank c

/-- Whether a line has a character on it that is no blank. -/
def shows (line : List Char) : Bool :=
  line.any fun c => !isBlank c

/-- The lines of a text that have something on them. -/
def solidLines (cs : List Char) : List (List Char) :=
  (splitLines cs).filter shows

/-- A line is `core` with blanks around it. -/
def Surrounds (line core : List Char) : Prop :=
  ∃ before after, Blanks before ∧ Blanks after ∧ line = before ++ (core ++ after)

/-! ## Lines that are split again -/

theorem splitLines_joinLines {lines : List (List Char)} (ne : lines ≠ [])
    (single : ∀ line ∈ lines, '\n' ∉ line) : splitLines (joinLines lines) = lines := by
  induction lines with
  | nil => exact (ne rfl).elim
  | cons line lines ih =>
    rw [List.forall_mem_cons] at single
    have one : splitLines line = [] ++ [line] := by
      apply splitLines_of_forall
      rintro c mem rfl
      exact single.1 mem
    cases lines with
    | nil => exact one
    | cons next lines =>
      have others := ih (List.cons_ne_nil next lines) single.2
      have feed : splitLines ('\n' :: joinLines (next :: lines)) = [] :: next :: lines := by
        rw [splitLines, if_pos rfl, others]
      have whole := splitLines_append one feed
      rwa [List.append_nil, List.nil_append] at whole

/-! ## What trimming keeps -/

theorem surrounds_trim (line : List Char) : Surrounds line (trim isBlank line) := by
  obtain ⟨before, beforeAll, split⟩ := exists_blanks_append_skipBlanks line
  obtain ⟨after, afterAll, cut⟩ := exists_append_trimEnd isBlank (line.dropWhile isBlank)
  exact ⟨before, after, beforeAll, afterAll, split.trans (congrArg (before ++ ·) cut)⟩

theorem noBlankFront_trim (line : List Char) : NoBlankFront (trim isBlank line) := by
  obtain ⟨after, -, cut⟩ := exists_append_trimEnd isBlank (line.dropWhile isBlank)
  have front : NoBlankFront (line.dropWhile isBlank) := noBlankFront_skipBlanks line
  rw [cut] at front
  exact front.of_append

theorem neatLine_trim {line : List Char} (ne : trim isBlank line ≠ []) (single : '\n' ∉ line) :
    NeatLine (trim isBlank line) where
  ne := ne
  single := by
    obtain ⟨before, after, -, -, split⟩ := surrounds_trim line
    intro mem
    apply single
    rw [split]
    exact List.mem_append_right _ (List.mem_append_left _ mem)
  front := noBlankFront_trim line
  back := noBlankEnd_trimEnd _

theorem NeatLine.trim_eq {line : List Char} (neat : NeatLine line) : trim isBlank line = line :=
  trim_eq_self_iff.2 ⟨neat.front, neat.back⟩

theorem solid_append (left right : List Char) : solid (left ++ right) = solid left ++ solid right :=
  List.filter_append left right

theorem Blanks.solid_eq_nil {blanks : List Char} (all : Blanks blanks) : solid blanks = [] := by
  rw [solid, List.filter_eq_nil_iff]
  intro c mem
  simp [all c mem]

theorem Surrounds.solid_eq {line core : List Char} (around : Surrounds line core) :
    solid line = solid core := by
  obtain ⟨before, after, beforeAll, afterAll, rfl⟩ := around
  rw [solid_append, solid_append, beforeAll.solid_eq_nil, afterAll.solid_eq_nil, List.nil_append,
    List.append_nil]

theorem trim_eq_nil_iff_shows {line : List Char} :
    trim isBlank line = [] ↔ shows line = false := by
  rw [trim_eq_nil_iff, shows, List.any_eq_false]
  apply forall₂_congr
  simp

/-! ## What tidying makes -/

theorem neatLine_of_mem_tidyLines {cs line : List Char} (mem : line ∈ tidyLines (splitLines cs)) :
    NeatLine line := by
  obtain ⟨ne, written, inside, rfl⟩ := mem_tidyLines_iff.1 mem
  exact neatLine_trim ne (feed_not_mem_of_mem_splitLines inside)

theorem isNeat_tidy (cs : List Char) : IsNeat (tidy cs) :=
  ⟨tidyLines (splitLines cs), fun _ mem => neatLine_of_mem_tidyLines mem, rfl⟩

theorem tidyLines_of_neat {lines : List (List Char)} (neat : ∀ line ∈ lines, NeatLine line) :
    tidyLines lines = lines := by
  induction lines with
  | nil => rfl
  | cons line lines ih =>
    rw [List.forall_mem_cons] at neat
    have kept := neat.1.trim_eq
    rw [tidyLines_cons_of_ne (kept.symm ▸ neat.1.ne), kept, ih neat.2]

/-- A text in normal form is left alone. -/
theorem IsNeat.tidy_eq {cs : List Char} (neat : IsNeat cs) : tidy cs = cs := by
  obtain ⟨lines, each, rfl⟩ := neat
  by_cases nil : lines = []
  · rw [nil]
    rfl
  · rw [tidy, splitLines_joinLines nil fun line mem => (each line mem).single,
      tidyLines_of_neat each]

theorem tidy_eq_self_iff {cs : List Char} : tidy cs = cs ↔ IsNeat cs := by
  apply Iff.intro
  · intro same
    rw [← same]
    exact isNeat_tidy cs
  · exact IsNeat.tidy_eq

/-! ## What tidying keeps -/

theorem solid_joinLines (lines : List (List Char)) :
    solid (joinLines lines) = lines.flatMap solid := by
  have behind : ∀ lines : List (List Char),
      solid (lines.flatMap ('\n' :: ·)) = lines.flatMap solid := by
    intro lines
    induction lines with
    | nil => rfl
    | cons line lines ih =>
      have feed : solid ('\n' :: line) = solid line := List.filter_cons_of_neg (by decide)
      rw [List.flatMap_cons, List.flatMap_cons, solid_append, feed, ih]
  cases lines with
  | nil => rfl
  | cons line lines => rw [joinLines_cons, solid_append, behind, List.flatMap_cons]

/-- The lines that stay are those with something on them, without the blanks around it. -/
theorem forall₂_tidyLines (lines : List (List Char)) :
    List.Forall₂ Surrounds (lines.filter shows) (tidyLines lines) := by
  induction lines with
  | nil => exact .nil
  | cons line lines ih =>
    by_cases gone : trim isBlank line = []
    · have dropped : tidyLines (line :: lines) = tidyLines lines := by
        rw [tidyLines, List.map_cons, List.filter_cons_of_neg (by simp [gone]), tidyLines]
      rw [dropped, List.filter_cons_of_neg (by simp [trim_eq_nil_iff_shows.1 gone])]
      exact ih
    · have shown : shows line = true := by
        by_contra hidden
        exact gone (trim_eq_nil_iff_shows.2 (Bool.eq_false_iff.2 hidden))
      rw [tidyLines_cons_of_ne gone, List.filter_cons_of_pos shown]
      exact .cons (surrounds_trim line) ih

theorem flatMap_solid_tidyLines (lines : List (List Char)) :
    (tidyLines lines).flatMap solid = lines.flatMap solid := by
  induction lines with
  | nil => rfl
  | cons line lines ih =>
    have kept := (surrounds_trim line).solid_eq
    rw [List.flatMap_cons, kept, ← ih]
    by_cases gone : trim isBlank line = []
    · rw [tidyLines, List.map_cons, List.filter_cons_of_neg (by simp [gone]), gone]
      rfl
    · rw [tidyLines_cons_of_ne gone, List.flatMap_cons]

/-- Tidying takes blanks and nothing else, and keeps the order. -/
theorem solid_tidy (cs : List Char) : solid (tidy cs) = solid cs := by
  rw [tidy, solid_joinLines, flatMap_solid_tidyLines, ← solid_joinLines, joinLines_splitLines]

theorem mem_of_mem_tidy {c : Char} (solid_c : isBlank c = false) {cs : List Char}
    (mem : c ∈ tidy cs) : c ∈ cs := by
  have inside : c ∈ solid (tidy cs) := List.mem_filter.2 ⟨mem, by simp [solid_c]⟩
  rw [solid_tidy] at inside
  exact (List.mem_filter.1 inside).1

end Flashdeck.Text

namespace Flashdeck.Script

open Text

/-- A text that some body gives to a field by a literal between backticks. -/
def BacktickGives (policy : EscapePolicy) (text : List Char) : Prop :=
  ∃ body, ∃ property ∈ Property.pattern.values body, ∃ content,
    property.literal = .backtick content ∧
      property.literal.value policy = .text (String.ofList text)

/-- A text written raw between backticks, behind a key: ``key: `text` ``. -/
def writeBacktick (key text : List Char) : List Char :=
  key ++ ':' :: ' ' :: '`' :: (text ++ ['`'])

namespace Property

/-- Every property was read somewhere in the body, and so was its literal. -/
theorem exists_read_of_mem_values {body : List Char} {property : Property}
    (mem : property ∈ pattern.values body) :
    ∃ start rest, Literal.read start = some (property.literal, rest) := by
  obtain ⟨found, inside, rfl⟩ := List.mem_map.1 mem
  obtain ⟨place, -, read⟩ := Pattern.exists_read_of_mem_findAll inside
  obtain ⟨-, -, start, -, -, -, -, -, literal⟩ := read_eq_some_iff.1 read
  exact ⟨start, found.rest, literal⟩

/-- What is written raw between backticks is read as it is. -/
theorem values_writeBacktick {key text : List Char} (ne : key ≠ [])
    (word : ∀ c ∈ key, isWordChar c = true) (inside : '`' ∉ text) :
    pattern.values (writeBacktick key text) = [⟨key, .backtick text⟩] := by
  have read : Property.read (writeBacktick key text) = some (⟨key, .backtick text⟩, []) :=
    read_eq_some_iff.2 ⟨[], [' '], '`' :: (text ++ '`' :: []), ne, word, .nil, .space, rfl,
      Literal.read_backtick inside []⟩
  rw [Pattern.values_of_read_eq_some read, Pattern.values_nil]

end Property

theorem Literal.exists_of_read_backtick {start rest content : List Char}
    (read : Literal.read start = some (.backtick content, rest)) : '`' ∉ content := by
  unfold Literal.read at read
  split at read
  · next backtick =>
    cases read
    exact (Lexeme.backtick_eq_some_iff.1 backtick).2
  · split at read
    · cases read
    · obtain ⟨numeral, -, eq⟩ := Option.map_eq_some_iff.1 read
      cases eq

theorem entries_fieldsOfBody_writeBacktick (policy : EscapePolicy) {key text : List Char}
    (ne : key ≠ []) (word : ∀ c ∈ key, isWordChar c = true) (neat : IsNeat text)
    (inside : '`' ∉ text) :
    (fieldsOfBody policy (writeBacktick key text)).entries =
      [(String.ofList key, .text (String.ofList text))] := by
  rw [fieldsOfBody, Property.values_writeBacktick ne word inside, Fields.entries_ofList]
  · rw [List.map_singleton, Property.entry, Literal.value, neat.tidy_eq]
  · simp

/-- The texts between backticks are those in normal form that hold no backtick. -/
theorem backtickGives_iff {policy : EscapePolicy} {text : List Char} :
    BacktickGives policy text ↔ IsNeat text ∧ '`' ∉ text := by
  apply Iff.intro
  · intro given
    obtain ⟨body, property, mem, content, literal, value⟩ := given
    obtain ⟨start, rest, read⟩ := Property.exists_read_of_mem_values mem
    rw [literal] at read value
    rw [Literal.value, Value.text.injEq, String.ofList_inj] at value
    have none := Literal.exists_of_read_backtick read
    rw [← value]
    exact ⟨isNeat_tidy content, fun inside => none (mem_of_mem_tidy (by decide) inside)⟩
  · intro both
    obtain ⟨neat, inside⟩ := both
    refine ⟨writeBacktick ['k'] text, ⟨['k'], .backtick text⟩, ?_, text, rfl, ?_⟩
    · rw [Property.values_writeBacktick (by decide) (List.forall_mem_singleton.2 rfl) inside]
      exact List.mem_singleton_self _
    · rw [Literal.value, neat.tidy_eq]

/-- **The normal form of a text, and the literals that hold it.** A tidied text is a row of neat
lines, one for each line that had something on it, and that line without the blanks around it; the
solid characters are those of the text, in order. Tidying a second time changes nothing, and a text
that is left alone is in normal form. The texts that a literal between backticks gives are those in
normal form without a backtick, and each is given by writing it as it is. -/
theorem tidy_normal_form :
    (∀ cs, (∃ lines, (∀ line ∈ lines, NeatLine line) ∧ tidy cs = joinLines lines ∧
        List.Forall₂ Surrounds (solidLines cs) lines) ∧
      solid (tidy cs) = solid cs ∧ tidy (tidy cs) = tidy cs ∧ (tidy cs = cs ↔ IsNeat cs)) ∧
    (∀ policy text, BacktickGives policy text ↔ IsNeat text ∧ '`' ∉ text) ∧
    ∀ policy key text, key ≠ [] → (∀ c ∈ key, isWordChar c = true) → IsNeat text → '`' ∉ text →
      (fieldsOfBody policy (writeBacktick key text)).entries =
        [(String.ofList key, .text (String.ofList text))] := by
  refine ⟨fun cs => ⟨?_, solid_tidy cs, (isNeat_tidy cs).tidy_eq, tidy_eq_self_iff⟩,
    fun policy text => backtickGives_iff, ?_⟩
  · exact ⟨tidyLines (splitLines cs), fun _ mem => neatLine_of_mem_tidyLines mem, rfl,
      forall₂_tidyLines _⟩
  · intro policy key text ne word neat inside
    exact entries_fieldsOfBody_writeBacktick policy ne word neat inside

/-- Two lines with a blank and a quote on them. -/
def quotedLines : List Char :=
  "a \"b\"\nc".toList

theorem entries_fieldsOfBody_quotedLines : IsNeat quotedLines ∧ '`' ∉ quotedLines ∧
    (fieldsOfBody .decode (writeBacktick ['k'] quotedLines)).entries =
      [("k", .text "a \"b\"\nc")] := by
  have neat : IsNeat quotedLines := tidy_eq_self_iff.1 (by decide +kernel)
  have inside : '`' ∉ quotedLines := by decide +kernel
  exact ⟨neat, inside,
    tidy_normal_form.2.2 .decode ['k'] quotedLines (by decide) (List.forall_mem_singleton.2 rfl)
      neat inside⟩

end Flashdeck.Script
