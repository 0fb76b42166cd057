import Flashdeck.Proofs.Text.Blank

/-!
# Lines

How splitting, joining and tidying go with the parts of a text. The lemmas on lists of lines take
them apart at one line: what stands before it, the line, and what comes after.

* `joinLines_append_cons`, `splitLines_append`: lines in a row, and where two texts meet.
* `tidyLines_append_cons`: tidying goes line by line.
* `exists_last_of_tidyLines_ne_nil`: the last line that is not blank.
* `tidy_append_cons`: a character that is no blank stays, and what stands in front of it is tidied
  apart from what stands behind it.
-/

namespace Flashdeck.Text

/-! ## Splitting and joining -/

theorem joinLines_cons (line : List Char) (lines : List (List Char)) :
    joinLines (line :: lines) = line ++ lines.flatMap ('\n' :: ·) := by
  induction lines generalizing line with
  | nil => simp [joinLines]
  | cons next lines ih => rw [joinLines, ih, List.flatMap_cons, List.cons_append]

/-- Written items in a row begin with the first one, and the others bring their separators. -/
theorem intercalate_map_cons {α : Type} (separator : List Char) (f : α → List Char) (x : α)
    (xs : List α) : separator.intercalate ((x :: xs).map f) =
      f x ++ xs.flatMap fun y => separator ++ f y := by
  induction xs generalizing x with
  | nil => simp
  | cons y ys ih =>
    rw [List.map_cons, List.map_cons, List.intercalate_cons_cons, ← List.map_cons, ih,
      List.flatMap_cons, List.append_assoc, List.append_assoc]

theorem joinLines_append_cons (before : List (List Char)) (line : List Char)
    (after : List (List Char)) :
    joinLines (before ++ line :: after) =
      before.flatMap (· ++ ['\n']) ++ (line ++ after.flatMap ('\n' :: ·)) := by
  induction before with
  | nil => exact joinLines_cons line after
  | cons first before ih =>
    have ne : before ++ line :: after ≠ [] := by simp
    obtain ⟨next, rest, eq⟩ := List.exists_cons_of_ne_nil ne
    rw [List.cons_append, eq, joinLines, ← eq, ih, List.flatMap_cons, List.append_assoc,
      List.append_assoc]
    rfl

theorem splitLines_cons_of_ne {c : Char} (solid : c ≠ '\n') {cs line : List Char}
    {lines : List (List Char)} (split : splitLines cs = line :: lines) :
    splitLines (c :: cs) = (c :: line) :: lines := by
  rw [splitLines, if_neg solid, split]

/-- Where two texts meet, the last line of the one goes on with the first line of the other. -/
theorem splitLines_append {left right last first : List Char} {before after : List (List Char)}
    (splitLeft : splitLines left = before ++ [last])
    (splitRight : splitLines right = first :: after) :
    splitLines (left ++ right) = before ++ (last ++ first) :: after := by
  induction left generalizing before last with
  | nil =>
    rw [splitLines, eq_comm, List.append_eq_singleton_iff] at splitLeft
    rcases splitLeft with ⟨rfl, eq⟩ | ⟨-, eq⟩
    · cases eq
      exact splitRight
    · cases eq
  | cons c left ih =>
    by_cases feed : c = '\n'
    · rw [splitLines, if_pos feed] at splitLeft
      cases before with
      | nil => exact (splitLines_ne_nil left (List.cons.inj splitLeft).2).elim
      | cons line before =>
        obtain ⟨rfl, rest⟩ := List.cons.inj splitLeft
        rw [List.cons_append, splitLines, if_pos feed, ih rest, List.cons_append]
    · obtain ⟨line, rest, lines⟩ := List.exists_cons_of_ne_nil (splitLines_ne_nil left)
      rw [splitLines_cons_of_ne feed lines] at splitLeft
      cases before with
      | nil =>
        obtain ⟨rfl, rfl⟩ := List.cons.inj splitLeft
        have rest : splitLines left = [] ++ [line] := lines
        exact splitLines_cons_of_ne feed (ih rest)
      | cons other before =>
        obtain ⟨rfl, rfl⟩ := List.cons.inj splitLeft
        have rest : splitLines left = (line :: before) ++ [last] := lines
        exact splitLines_cons_of_ne feed (ih rest)

theorem feed_not_mem_of_mem_splitLines {cs line : List Char} (mem : line ∈ splitLines cs) :
    '\n' ∉ line := by
  induction cs generalizing line with
  | nil =>
    rw [List.mem_singleton.1 mem]
    exact List.not_mem_nil
  | cons c cs ih =>
    by_cases feed : c = '\n'
    · rw [splitLines, if_pos feed] at mem
      rcases List.mem_cons.1 mem with rfl | later
      · exact List.not_mem_nil
      · exact ih later
    · obtain ⟨first, rest, lines⟩ := List.exists_cons_of_ne_nil (splitLines_ne_nil cs)
      rw [splitLines_cons_of_ne feed lines] at mem
      rw [lines] at ih
      rcases List.mem_cons.1 mem with rfl | later
      · intro inside
        rcases List.mem_cons.1 inside with eq | inside
        · exact feed eq.symm
        · exact ih List.mem_cons_self inside
      · exact ih (List.mem_cons_of_mem first later)

theorem takeWhile_append_flatMap {line : List Char} (single : '\n' ∉ line)
    (lines : List (List Char)) :
    (line ++ lines.flatMap ('\n' :: ·)).takeWhile (· ≠ '\n') = line := by
  have solid : ∀ c ∈ line, decide (c ≠ '\n') = true := by
    intro c mem
    rw [decide_eq_true_iff]
    rintro rfl
    exact single mem
  have stop : ∀ c ∈ (lines.flatMap ('\n' :: ·)).head?, decide (c ≠ '\n') = false := by
    cases lines with
    | nil => simp
    | cons next lines => simp
  exact (Script.Lexeme.takeWhile_append_of_stop solid stop).1

/-- The first line goes up to the first line feed. -/
theorem takeWhile_eq_of_splitLines {cs line : List Char} {lines : List (List Char)}
    (split : splitLines cs = line :: lines) : cs.takeWhile (· ≠ '\n') = line := by
  have single : '\n' ∉ line := feed_not_mem_of_mem_splitLines (split ▸ List.mem_cons_self)
  rw [← joinLines_splitLines cs, split, joinLines_cons, takeWhile_append_flatMap single]

/-! ## Trimming a line -/

theorem Blanks.ne_slash {blanks : List Char} (all : Blanks blanks) : ∀ c ∈ blanks, c ≠ '\\' := by
  rintro c mem rfl
  exact all.not_mem (by decide) mem

theorem trim_eq_nil_iff {cs : List Char} : trim isBlank cs = [] ↔ Blanks cs := by
  rw [trim, trimEnd_eq_nil_iff]
  apply Iff.intro
  · intro behind
    obtain ⟨blanks, all, split⟩ := exists_blanks_append_skipBlanks cs
    rw [split]
    exact all.append behind
  · intro all c mem
    exact all c ((List.dropWhile_suffix isBlank).subset mem)

theorem trimEnd_append_cons {d : Char} (solid : isBlank d = false) (front behind : List Char) :
    trimEnd isBlank (front ++ d :: behind) = front ++ d :: trimEnd isBlank behind := by
  induction front with
  | nil =>
    rw [List.nil_append, trimEnd_cons, if_neg (by simp [solid])]
    rfl
  | cons c front ih =>
    rw [List.cons_append, trimEnd_cons, ih, if_neg (by simp)]
    rfl

theorem trim_append_cons {d : Char} (solid : isBlank d = false) (front behind : List Char) :
    trim isBlank (front ++ d :: behind) =
      front.dropWhile isBlank ++ d :: trimEnd isBlank behind := by
  have skipped : (front ++ d :: behind).dropWhile isBlank =
      front.dropWhile isBlank ++ d :: behind := by
    rw [List.dropWhile_append]
    split
    · next gone => rw [List.isEmpty_iff.1 gone, List.dropWhile_cons_of_neg (by simp [solid])]; rfl
    · rfl
  rw [trim, skipped, trimEnd_append_cons solid]

/-! ## Tidying -/

theorem tidyLines_append (before after : List (List Char)) :
    tidyLines (before ++ after) = tidyLines before ++ tidyLines after := by
  rw [tidyLines, List.map_append, List.filter_append, tidyLines, tidyLines]

theorem tidyLines_cons_of_ne {line : List Char} (ne : trim isBlank line ≠ [])
    (lines : List (List Char)) : tidyLines (line :: lines) = trim isBlank line :: tidyLines lines := by
  rw [tidyLines, List.map_cons, List.filter_cons_of_pos (by simpa using ne), tidyLines]

theorem tidyLines_append_cons (before : List (List Char)) {line : List Char}
    (ne : trim isBlank line ≠ []) (after : List (List Char)) :
    tidyLines (before ++ line :: after) =
      tidyLines before ++ trim isBlank line :: tidyLines after := by
  rw [tidyLines_append, tidyLines_cons_of_ne ne]

theorem mem_tidyLines_iff {line : List Char} {lines : List (List Char)} :
    line ∈ tidyLines lines ↔ line ≠ [] ∧ ∃ written ∈ lines, trim isBlank written = line := by
  rw [tidyLines, List.mem_filter, List.mem_map, and_comm]
  simp

theorem tidyLines_eq_nil_iff {lines : List (List Char)} :
    tidyLines lines = [] ↔ ∀ line ∈ lines, Blanks line := by
  rw [List.eq_nil_iff_forall_not_mem]
  apply Iff.intro
  · intro none line mem
    by_cases gone : trim isBlank line = []
    · exact trim_eq_nil_iff.1 gone
    · exact (none _ (mem_tidyLines_iff.2 ⟨gone, line, mem, rfl⟩)).elim
  · intro blank line mem
    obtain ⟨ne, written, inside, rfl⟩ := mem_tidyLines_iff.1 mem
    exact ne (trim_eq_nil_iff.2 (blank written inside))

/-- Unless all lines are blank, there is a last one that is not. -/
theorem exists_last_of_tidyLines_ne_nil {lines : List (List Char)} (ne : tidyLines lines ≠ []) :
    ∃ before line after, lines = before ++ line :: after ∧ trim isBlank line ≠ [] ∧
      ∀ other ∈ after, Blanks other := by
  induction lines with
  | nil => exact (ne rfl).elim
  | cons line lines ih =>
    by_cases later : tidyLines lines = []
    · refine ⟨[], line, lines, rfl, fun gone => ne ?_, tidyLines_eq_nil_iff.1 later⟩
      rw [tidyLines, List.map_cons, List.filter_cons_of_neg (by simp [gone])]
      exact later
    · obtain ⟨before, last, after, rfl, solid, blank⟩ := ih later
      exact ⟨line :: before, last, after, rfl, solid, blank⟩

/-! ## Tidying the parts of a text -/

/-- What tidying makes of a text that ends in the middle of a line, before a character that
stays. -/
def tidyFront (front : List Char) : List Char :=
  (tidyLines (splitLines front).dropLast).flatMap (· ++ ['\n']) ++
    ((splitLines front).getLast (splitLines_ne_nil front)).dropWhile isBlank

/-- What tidying makes of a text that begins in the middle of a line, behind a character that
stays. -/
def tidyBehind (behind : List Char) : List Char :=
  match splitLines behind with
  | line :: lines => trimEnd isBlank line ++ (tidyLines lines).flatMap ('\n' :: ·)
  | [] => []

theorem tidyBehind_of_splitLines {behind line : List Char} {lines : List (List Char)}
    (split : splitLines behind = line :: lines) :
    tidyBehind behind = trimEnd isBlank line ++ (tidyLines lines).flatMap ('\n' :: ·) := by
  rw [tidyBehind, split]

theorem tidy_append_cons {c : Char} (solid : isBlank c = false) (front behind : List Char) :
    tidy (front ++ c :: behind) = tidyFront front ++ c :: tidyBehind behind := by
  have feed : c ≠ '\n' := by
    rintro rfl
    exact absurd solid (by decide)
  obtain ⟨back, after, splitBehind⟩ := List.exists_cons_of_ne_nil (splitLines_ne_nil behind)
  have splitFront := (List.dropLast_concat_getLast (splitLines_ne_nil front)).symm
  have lines := splitLines_append splitFront (splitLines_cons_of_ne feed splitBehind)
  have trimmed := trim_append_cons solid
    ((splitLines front).getLast (splitLines_ne_nil front)) back
  rw [tidy, lines, tidyLines_append_cons _ (by rw [trimmed]; simp), joinLines_append_cons,
    trimmed, tidyFront, tidyBehind_of_splitLines splitBehind]
  simp only [List.append_assoc, List.cons_append]

/-- A blank goes if there are only blanks behind it on its line. -/
theorem tidyBehind_cons_of_blank {c : Char} {behind : List Char} (feed : c ≠ '\n')
    (blank : isBlank c = true) (rest : Blanks (behind.takeWhile (· ≠ '\n'))) :
    tidyBehind (c :: behind) = tidyBehind behind := by
  obtain ⟨back, after, split⟩ := List.exists_cons_of_ne_nil (splitLines_ne_nil behind)
  rw [takeWhile_eq_of_splitLines split] at rest
  have gone : trimEnd isBlank back = [] := trimEnd_eq_nil_iff.2 rest
  rw [tidyBehind_of_splitLines (splitLines_cons_of_ne feed split), tidyBehind_of_splitLines split,
    trimEnd_cons, if_pos ⟨gone, blank⟩, gone]

/-- What is no such blank stays. -/
theorem tidyBehind_cons_of_not_blank {c : Char} {behind : List Char} (feed : c ≠ '\n')
    (stays : ¬ (isBlank c = true ∧ Blanks (behind.takeWhile (· ≠ '\n')))) :
    tidyBehind (c :: behind) = c :: tidyBehind behind := by
  obtain ⟨back, after, split⟩ := List.exists_cons_of_ne_nil (splitLines_ne_nil behind)
  rw [takeWhile_eq_of_splitLines split] at stays
  have kept : ¬ (trimEnd isBlank back = [] ∧ isBlank c = true) :=
    fun gone => stays ⟨gone.2, trimEnd_eq_nil_iff.1 gone.1⟩
  rw [tidyBehind_of_splitLines (splitLines_cons_of_ne feed split), tidyBehind_of_splitLines split,
    trimEnd_cons, if_neg kept, List.cons_append]

theorem tidyBehind_of_blanks {behind : List Char} (all : Blanks behind) :
    tidyBehind behind = [] := by
  obtain ⟨back, after, split⟩ := List.exists_cons_of_ne_nil (splitLines_ne_nil behind)
  have parts : behind = back ++ after.flatMap ('\n' :: ·) := by
    rw [← joinLines_cons, ← split, joinLines_splitLines]
  rw [parts] at all
  have backGone : trimEnd isBlank back = [] :=
    trimEnd_eq_nil_iff.2 fun c mem => all c (List.mem_append_left _ mem)
  have afterGone : tidyLines after = [] := by
    rw [tidyLines_eq_nil_iff]
    intro line mem c inside
    apply all c
    exact List.mem_append_right _ (List.mem_flatMap_of_mem mem (List.mem_cons_of_mem _ inside))
  rw [tidyBehind_of_splitLines split, backGone, afterGone]
  rfl

/-- Where a line has only blanks left, tidying goes on with the line feed before the next line. -/
theorem head?_tidyBehind {behind : List Char} (rest : Blanks (behind.takeWhile (· ≠ '\n'))) :
    ∀ next ∈ (tidyBehind behind).head?, next = '\n' := by
  obtain ⟨back, after, split⟩ := List.exists_cons_of_ne_nil (splitLines_ne_nil behind)
  rw [takeWhile_eq_of_splitLines split] at rest
  rw [tidyBehind_of_splitLines split, trimEnd_eq_nil_iff.2 rest, List.nil_append]
  cases tidyLines after with
  | nil => simp
  | cons line lines => simp

end Flashdeck.Text
