import Flashdeck.Text.Trim
import Flashdeck.Text.Lines
import Flashdeck.Script.Lexeme

/-!
# Blanks

Runs of blanks, and what the readers and the trimming functions do with them. A reader that skips
blanks takes all there are, so what stands behind a run of blanks and is none itself is found
whichever way the blanks are split off: `symbol_skipBlanks_eq_some_iff`.
-/

namespace Flashdeck.Text

/-- Blanks throughout. -/
def Blanks (cs : List Char) : Prop :=
  ∀ c ∈ cs, isBlank c = true

/-- A text that begins with no blank. -/
def NoBlankFront (cs : List Char) : Prop :=
  ∀ c ∈ cs.head?, isBlank c = false

/-- A text that ends with no blank. -/
def NoBlankEnd (cs : List Char) : Prop :=
  ∀ c ∈ cs.getLast?, isBlank c = false

theorem Blanks.nil : Blanks [] := by
  simp [Blanks]

theorem Blanks.singleton {c : Char} (blank : isBlank c = true) : Blanks [c] := by
  simpa [Blanks] using blank

theorem Blanks.space : Blanks [' '] :=
  .singleton (by decide)

theorem Blanks.append {left right : List Char} (first : Blanks left) (second : Blanks right) :
    Blanks (left ++ right) := by
  intro c mem
  exact (List.mem_append.1 mem).elim (first c) (second c)

theorem Blanks.not_mem {blanks : List Char} (all : Blanks blanks) {c : Char}
    (solid : isBlank c = false) : c ∉ blanks := by
  intro mem
  rw [all c mem] at solid
  cases solid

theorem Blanks.not_isWordChar {blanks : List Char} (all : Blanks blanks) :
    ∀ c ∈ blanks, isWordChar c = false := by
  intro c mem
  cases word : isWordChar c with
  | false => rfl
  | true => exact absurd mem (all.not_mem (isBlank_eq_false_of_isWordChar word))

theorem NoBlankFront.cons {c : Char} (solid : isBlank c = false) (cs : List Char) :
    NoBlankFront (c :: cs) := by
  intro d mem
  cases mem
  exact solid

theorem NoBlankFront.of_append {left right : List Char} (front : NoBlankFront (left ++ right)) :
    NoBlankFront left := by
  cases left with
  | nil => simp [NoBlankFront]
  | cons c left => exact .cons (front c rfl) left

theorem NoBlankFront.append {left right : List Char} (front : NoBlankFront left)
    (ne : left ≠ []) : NoBlankFront (left ++ right) := by
  cases left with
  | nil => exact (ne rfl).elim
  | cons c left => exact .cons (front c rfl) _

theorem NoBlankEnd.of_forall {cs : List Char} (solid : ∀ c ∈ cs, isBlank c = false) :
    NoBlankEnd cs :=
  fun c mem => solid c (List.mem_of_getLast? mem)

theorem NoBlankEnd.append {right : List Char} (solid : NoBlankEnd right) (ne : right ≠ [])
    (left : List Char) : NoBlankEnd (left ++ right) := by
  intro c mem
  rw [List.getLast?_append, Option.or_of_isSome (List.getLast?_isSome.2 ne)] at mem
  exact solid c mem

theorem noBlankFront_skipBlanks (cs : List Char) : NoBlankFront (Script.Lexeme.skipBlanks cs) :=
  Script.Lexeme.head?_dropWhile_eq_false

theorem dropWhile_eq_self_iff {p : Char → Bool} {cs : List Char} :
    cs.dropWhile p = cs ↔ ∀ c ∈ cs.head?, p c = false := by
  apply Iff.intro
  · intro whole
    rw [← whole]
    exact Script.Lexeme.head?_dropWhile_eq_false
  · intro solid
    cases cs with
    | nil => rfl
    | cons c cs => exact List.dropWhile_cons_of_neg (by simp [solid c rfl])

/-! ## Skipping blanks -/

section SkipBlanks

open Script.Lexeme

theorem skipBlanks_append {blanks : List Char} (all : Blanks blanks) (cs : List Char) :
    skipBlanks (blanks ++ cs) = skipBlanks cs :=
  List.dropWhile_append_of_pos all

theorem skipBlanks_of_blanks {blanks : List Char} (all : Blanks blanks) : skipBlanks blanks = [] := by
  have skipped := skipBlanks_append all []
  rwa [List.append_nil] at skipped

theorem skipBlanks_of_noBlankFront {cs : List Char} (front : NoBlankFront cs) :
    skipBlanks cs = cs :=
  dropWhile_eq_self_iff.2 front

theorem exists_blanks_append_skipBlanks (cs : List Char) :
    ∃ blanks, Blanks blanks ∧ cs = blanks ++ skipBlanks cs :=
  ⟨cs.takeWhile isBlank, List.all_eq_true.1 List.all_takeWhile,
    List.takeWhile_append_dropWhile.symm⟩

theorem skipBlanks_eq_iff {cs rest : List Char} :
    skipBlanks cs = rest ↔ NoBlankFront rest ∧ ∃ blanks, Blanks blanks ∧ cs = blanks ++ rest := by
  apply Iff.intro
  · intro same
    subst same
    exact ⟨noBlankFront_skipBlanks cs, exists_blanks_append_skipBlanks cs⟩
  · intro found
    rcases found with ⟨front, blanks, all, rfl⟩
    rw [skipBlanks_append all, skipBlanks_of_noBlankFront front]

/-- A symbol that is no blank, behind blanks. -/
theorem symbol_skipBlanks_eq_some_iff {expected : Char} (solid : isBlank expected = false)
    {cs rest : List Char} :
    symbol expected (skipBlanks cs) = some rest ↔
      ∃ blanks, Blanks blanks ∧ cs = blanks ++ expected :: rest := by
  rw [symbol_eq_some_iff, skipBlanks_eq_iff]
  exact ⟨fun split => split.2, fun split => ⟨.cons solid rest, split⟩⟩

theorem symbol_skipBlanks_append {expected : Char} (solid : isBlank expected = false)
    {blanks : List Char} (all : Blanks blanks) (rest : List Char) :
    symbol expected (skipBlanks (blanks ++ expected :: rest)) = some rest :=
  (symbol_skipBlanks_eq_some_iff solid).2 ⟨blanks, all, rfl⟩

end SkipBlanks

/-! ## Trimming -/

section Trim

variable {p : Char → Bool}

theorem trimEnd_append_of_forall {run : List Char} (all : ∀ c ∈ run, p c = true)
    (cs : List Char) : trimEnd p (cs ++ run) = trimEnd p cs := by
  have reversed : ∀ c ∈ run.reverse, p c = true := fun c mem => all c (List.mem_reverse.1 mem)
  rw [trimEnd, List.reverse_append, List.dropWhile_append_of_pos reversed, trimEnd]

theorem trimEnd_eq_nil_iff {cs : List Char} : trimEnd p cs = [] ↔ ∀ c ∈ cs, p c = true := by
  apply Iff.intro
  · intro gone
    obtain ⟨run, all, split⟩ := exists_append_trimEnd p cs
    rw [gone, List.nil_append] at split
    rw [split]
    exact all
  · intro all
    have trimmed := trimEnd_append_of_forall all []
    rwa [List.nil_append] at trimmed

/-- The front of a text stays, unless the whole text goes. -/
theorem trimEnd_cons (c : Char) (cs : List Char) :
    trimEnd p (c :: cs) = if trimEnd p cs = [] ∧ p c = true then [] else c :: trimEnd p cs := by
  have whole : (cs.reverse.dropWhile p).isEmpty = true ↔ trimEnd p cs = [] := by
    simp [trimEnd]
  rw [trimEnd, List.reverse_cons, List.dropWhile_append]
  by_cases gone : trimEnd p cs = []
  · rw [if_pos (whole.2 gone)]
    by_cases first : p c = true
    · simp [gone, first]
    · simp [gone, first]
  · rw [if_neg (fun empty => gone (whole.1 empty)), if_neg (fun both => gone both.1)]
    simp [trimEnd]

theorem trimEnd_eq_self_iff {cs : List Char} :
    trimEnd p cs = cs ↔ ∀ c ∈ cs.getLast?, p c = false := by
  rw [trimEnd, List.reverse_eq_iff, dropWhile_eq_self_iff, List.head?_reverse]

theorem trim_eq_self_iff {cs : List Char} :
    trim p cs = cs ↔ (∀ c ∈ cs.head?, p c = false) ∧ ∀ c ∈ cs.getLast?, p c = false := by
  rw [← dropWhile_eq_self_iff, ← trimEnd_eq_self_iff]
  apply Iff.intro
  · intro whole
    -- both cuts take what they take off the same text, so neither takes anything
    obtain ⟨run, -, split⟩ := exists_append_trimEnd p (cs.dropWhile p)
    rw [← trim, whole] at split
    have suffix := List.dropWhile_suffix p (l := cs)
    have kept : cs.dropWhile p = cs := suffix.eq_of_length_le (by rw [split]; simp)
    rw [trim, kept] at whole
    exact ⟨kept, whole⟩
  · intro whole
    rw [trim, whole.1, whole.2]

theorem noBlankEnd_trimEnd (cs : List Char) : NoBlankEnd (trimEnd isBlank cs) := by
  rw [NoBlankEnd, trimEnd, List.getLast?_reverse]
  exact Script.Lexeme.head?_dropWhile_eq_false

theorem trimEnd_of_noBlankEnd {cs : List Char} (solid : NoBlankEnd cs) :
    trimEnd isBlank cs = cs :=
  trimEnd_eq_self_iff.2 solid

/-- Trimming takes the blanks around a text and leaves the text. -/
theorem trim_append {front cs back : List Char} (frontAll : Blanks front) (backAll : Blanks back)
    (solidFront : NoBlankFront cs) (solidEnd : NoBlankEnd cs) (ne : cs ≠ []) :
    trim isBlank (front ++ (cs ++ back)) = cs := by
  have skipped : (front ++ (cs ++ back)).dropWhile isBlank = cs ++ back := by
    have cut := skipBlanks_of_noBlankFront (solidFront.append ne : NoBlankFront (cs ++ back))
    rw [← skipBlanks_append frontAll] at cut
    exact cut
  rw [trim, skipped, trimEnd_append_of_forall backAll, trimEnd_of_noBlankEnd solidEnd]

/-- Cutting a run off a text that was rewritten, character by character, cuts a run off the text:
what stands for a character of the run is in the run, and what stands for another one begins
outside. -/
theorem dropWhile_flatMap {q : Char → Bool} {rewrite : Char → List Char}
    (inside : ∀ c, q c = true → ∀ d ∈ rewrite c, p d = true)
    (outside : ∀ c, q c = false → ∃ d ds, rewrite c = d :: ds ∧ p d = false) (cs : List Char) :
    (cs.flatMap rewrite).dropWhile p = (cs.dropWhile q).flatMap rewrite := by
  induction cs with
  | nil => rfl
  | cons c cs ih =>
    rw [List.flatMap_cons]
    cases member : q c with
    | true =>
      rw [List.dropWhile_append_of_pos (inside c member), ih, List.dropWhile_cons_of_pos member]
    | false =>
      obtain ⟨d, ds, front, solid⟩ := outside c member
      rw [front, List.cons_append, List.dropWhile_cons_of_neg (by simp [solid]),
        List.dropWhile_cons_of_neg (by simp [member]), List.flatMap_cons, front, List.cons_append]

theorem trimEnd_flatMap {q : Char → Bool} {rewrite : Char → List Char}
    (inside : ∀ c, q c = true → ∀ d ∈ rewrite c, p d = true)
    (outside : ∀ c, q c = false → ∃ ds d, rewrite c = ds ++ [d] ∧ p d = false) (cs : List Char) :
    trimEnd p (cs.flatMap rewrite) = (trimEnd q cs).flatMap rewrite := by
  rw [trimEnd, List.reverse_flatMap, dropWhile_flatMap (q := q), List.reverse_flatMap, trimEnd]
  · simp [Function.comp_def]
  · intro c member d mem
    exact inside c member d (List.mem_reverse.1 mem)
  · intro c member
    obtain ⟨ds, d, back, solid⟩ := outside c member
    exact ⟨d, ds.reverse, by simp [back], solid⟩

end Trim

/-! ## Lines without blanks -/

theorem splitLines_of_forall {cs : List Char} (single : ∀ c ∈ cs, c ≠ '\n') :
    splitLines cs = [cs] := by
  induction cs with
  | nil => rfl
  | cons c cs ih =>
    have here := single c List.mem_cons_self
    rw [splitLines, if_neg here, ih fun d mem => single d (List.mem_cons_of_mem c mem)]

/-- A text of one line is tidied by trimming it. -/
theorem tidy_of_forall_ne {cs : List Char} (single : ∀ c ∈ cs, c ≠ '\n') :
    tidy cs = trim isBlank cs := by
  rw [tidy, splitLines_of_forall single, tidyLines, List.map_singleton]
  cases trim isBlank cs <;> rfl

/-- A text without blanks is tidy. -/
theorem tidy_of_forall {cs : List Char} (solid : ∀ c ∈ cs, isBlank c = false) : tidy cs = cs := by
  have single : ∀ c ∈ cs, c ≠ '\n' := by
    intro c mem same
    subst same
    exact absurd (solid _ mem) (by decide)
  rw [tidy_of_forall_ne single, trim_eq_self_iff]
  exact ⟨fun c mem => solid c (List.mem_of_mem_head? mem), NoBlankEnd.of_forall solid⟩

end Flashdeck.Text
