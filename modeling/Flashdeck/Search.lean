/-!
# Leftmost matches

A `Pattern` reads one thing at the front of a list. `Pattern.findAll` finds what it reads anywhere
in a list: from the front, at the first place where the pattern reads anything, and on from behind
what was read. Cards are found in a script, and properties in a card, in this way.

`findNext_eq_some_iff` and `findNext_eq_none_iff` say which place is the first one.
-/

namespace Flashdeck

variable {α β : Type}

/-- Reads a value at the front of a list and gives back the rest, which is shorter. -/
structure Pattern (α β : Type) where
  read : List α → Option (β × List α)
  shorter : ∀ {xs rest : List α} {value : β},
    read xs = some (value, rest) → rest.length < xs.length

namespace Pattern

/-- A value that was found. -/
structure Match (α β : Type) where
  /-- The items passed over, since the match before this one. -/
  skipped : List α
  value : β
  /-- What follows the match. -/
  rest : List α

/-- The first place in the list where the pattern reads anything. -/
def findNext (pattern : Pattern α β) : List α → Option (Match α β)
  | [] => none
  | x :: xs =>
    match pattern.read (x :: xs) with
    | some (value, rest) => some ⟨[], value, rest⟩
    | none => (pattern.findNext xs).map fun found => { found with skipped := x :: found.skipped }

theorem read_nil (pattern : Pattern α β) : pattern.read [] = none := by
  cases read : pattern.read [] with
  | none => rfl
  | some pair =>
    have shorter : pair.2.length < ([] : List α).length := pattern.shorter read
    simp at shorter

/-- What is found is read where the skipped items end, and nowhere among them. -/
theorem findNext_eq_some_iff {pattern : Pattern α β} {xs : List α} {found : Match α β} :
    pattern.findNext xs = some found ↔
      ∃ start : List α, xs = found.skipped ++ start ∧
        pattern.read start = some (found.value, found.rest) ∧
        ∀ before after : List α, found.skipped = before ++ after → after ≠ [] →
          pattern.read (after ++ start) = none := by
  induction xs generalizing found with
  | nil =>
    apply Iff.intro
    · simp [findNext]
    · intro found
      rcases found with ⟨start, nil, read, -⟩
      obtain ⟨-, rfl⟩ := List.append_eq_nil_iff.1 nil.symm
      rw [read_nil] at read
      cases read
  | cons x xs ih =>
    rw [findNext]
    cases read : pattern.read (x :: xs) with
    | some pair =>
      obtain ⟨value, rest⟩ := pair
      apply Iff.intro
      · intro found
        cases found
        refine ⟨x :: xs, rfl, read, ?_⟩
        intro before after nil ne
        exact absurd (List.append_eq_nil_iff.1 nil.symm).2 ne
      · intro found
        rcases found with ⟨start, split, read_start, minimal⟩
        obtain ⟨skipped, found_value, found_rest⟩ := found
        cases skipped with
        | nil =>
          simp only [List.nil_append] at split
          subst split
          rw [read] at read_start
          cases read_start
          rfl
        | cons y skipped =>
          have none := minimal [] (y :: skipped) rfl (by simp)
          simp only at split
          rw [← split, read] at none
          cases none
    | none =>
      apply Iff.intro
      · intro mapped
        obtain ⟨inner, found_inner, rfl⟩ := Option.map_eq_some_iff.1 mapped
        obtain ⟨start, rfl, read_start, minimal⟩ := ih.1 found_inner
        refine ⟨start, rfl, read_start, ?_⟩
        intro before after split ne
        cases before with
        | nil =>
          simp only [List.nil_append] at split
          subst split
          exact read
        | cons y before =>
          simp only [List.cons_append, List.cons.injEq] at split
          exact minimal before after split.2 ne
      · intro found
        rcases found with ⟨start, split, read_start, minimal⟩
        obtain ⟨skipped, value, rest⟩ := found
        cases skipped with
        | nil =>
          simp only [List.nil_append] at split
          subst split
          rw [read] at read_start
          cases read_start
        | cons y skipped =>
          simp only [List.cons_append, List.cons.injEq] at split
          obtain ⟨rfl, rfl⟩ := split
          refine Option.map_eq_some_iff.2
            ⟨⟨skipped, value, rest⟩, ih.2 ⟨start, rfl, read_start, ?_⟩, rfl⟩
          intro before after split ne
          exact minimal (x :: before) after (congrArg (x :: ·) split) ne

/-- Nothing is found exactly when the pattern reads nothing anywhere. -/
theorem findNext_eq_none_iff {pattern : Pattern α β} {xs : List α} :
    pattern.findNext xs = none ↔
      ∀ before after : List α, xs = before ++ after → pattern.read after = none := by
  induction xs with
  | nil =>
    refine ⟨fun _ before after nil => ?_, fun _ => rfl⟩
    obtain ⟨-, rfl⟩ := List.append_eq_nil_iff.1 nil.symm
    exact pattern.read_nil
  | cons x xs ih =>
    rw [findNext]
    cases read : pattern.read (x :: xs) with
    | some pair =>
      refine ⟨fun none => (by cases none), fun nowhere => ?_⟩
      rw [nowhere [] (x :: xs) rfl] at read
      cases read
    | none =>
      rw [Option.map_eq_none_iff, ih]
      apply Iff.intro
      · intro nowhere before after split
        cases before with
        | nil =>
          simp only [List.nil_append] at split
          rw [← split]
          exact read
        | cons y before =>
          simp only [List.cons_append, List.cons.injEq] at split
          exact nowhere before after split.2
      · intro nowhere before after split
        exact nowhere (x :: before) after (by rw [split, List.cons_append])

/-- What follows a match is shorter than the list that it was found in. -/
theorem length_rest_lt {pattern : Pattern α β} {xs : List α} {found : Match α β}
    (next : pattern.findNext xs = some found) : found.rest.length < xs.length := by
  obtain ⟨start, rfl, read, -⟩ := findNext_eq_some_iff.1 next
  have shorter := pattern.shorter read
  rw [List.length_append]
  omega

/-- All matches, from the front, none overlapping another. -/
def findAll (pattern : Pattern α β) (xs : List α) : List (Match α β) :=
  match _next : pattern.findNext xs with
  | none => []
  | some found => found :: pattern.findAll found.rest
termination_by xs.length
decreasing_by exact length_rest_lt _next

/-- What the matches hold, in order. -/
def values (pattern : Pattern α β) (xs : List α) : List β :=
  (pattern.findAll xs).map Match.value

theorem findAll_of_findNext_eq_none {pattern : Pattern α β} {xs : List α}
    (next : pattern.findNext xs = none) : pattern.findAll xs = [] := by
  rw [findAll]
  split
  · rfl
  · next found =>
    rw [next] at found
    cases found

theorem findAll_of_findNext_eq_some {pattern : Pattern α β} {xs : List α} {found : Match α β}
    (next : pattern.findNext xs = some found) :
    pattern.findAll xs = found :: pattern.findAll found.rest := by
  rw [findAll]
  split
  · next none =>
    rw [next] at none
    cases none
  · next other =>
    rw [next] at other
    cases other
    rfl

end Pattern

end Flashdeck
