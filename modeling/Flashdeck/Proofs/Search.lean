import Flashdeck.Search

/-!
# Leftmost matches, said without the search

`Leftmost Reads xs values` describes the matches of a relation `Reads` in a list: every match begins
at the first place, not before the end of the match ahead of it, where any match begins, and behind
the last one no match begins at all. A place in the list is the suffix that begins there, so
`Reads start value rest` says that a match with `value` begins at `start` and ends where `rest` is
left.

* `Leftmost.unique`: a relation with one match at a place has one such list of values.
* `Pattern.values_eq_iff_leftmost`: the search of a pattern finds exactly that list, for every
  relation that holds where the pattern reads.
-/

namespace Flashdeck

variable {α β : Type}

/-- No match begins among the items of `skipped`, which `start` follows. -/
def NoneWithin (Reads : List α → β → List α → Prop) (skipped start : List α) : Prop :=
  ∀ before after : List α, skipped = before ++ after → after ≠ [] →
    ∀ value rest, ¬ Reads (after ++ start) value rest

/-- The values of the leftmost matches in a list, none overlapping another. -/
inductive Leftmost (Reads : List α → β → List α → Prop) : List α → List β → Prop
  | done {xs : List α} (nowhere : ∀ before after : List α, xs = before ++ after →
      ∀ value rest, ¬ Reads after value rest) : Leftmost Reads xs []
  | next {skipped start rest : List α} {value : β} {values : List β}
      (first : NoneWithin Reads skipped start) (found : Reads start value rest)
      (others : Leftmost Reads rest values) : Leftmost Reads (skipped ++ start) (value :: values)

namespace Pattern

variable {pattern : Pattern α β}

/-- The relation that a pattern reads by. -/
def Reads (pattern : Pattern α β) (start : List α) (value : β) (rest : List α) : Prop :=
  pattern.read start = some (value, rest)

/-! ## One step of the search -/

theorem values_of_findNext_eq_none {xs : List α} (next : pattern.findNext xs = none) :
    pattern.values xs = [] := by
  rw [values, findAll_of_findNext_eq_none next]
  rfl

theorem values_of_findNext_eq_some {xs : List α} {found : Match α β}
    (next : pattern.findNext xs = some found) :
    pattern.values xs = found.value :: pattern.values found.rest := by
  rw [values, findAll_of_findNext_eq_some next]
  rfl

@[simp] theorem values_nil (pattern : Pattern α β) : pattern.values [] = [] :=
  values_of_findNext_eq_none rfl

/-- Every match was read from what was left of the list. -/
theorem exists_read_of_mem_findAll {xs : List α} {found : Match α β}
    (mem : found ∈ pattern.findAll xs) :
    ∃ start : List α, start.length ≤ xs.length ∧
      pattern.read start = some (found.value, found.rest) := by
  induction length : xs.length using Nat.strongRecOn generalizing xs with
  | ind n ih =>
    cases next : pattern.findNext xs with
    | none =>
      rw [findAll_of_findNext_eq_none next] at mem
      cases mem
    | some first =>
      obtain ⟨start, split, read, -⟩ := findNext_eq_some_iff.1 next
      rw [findAll_of_findNext_eq_some next] at mem
      rcases List.mem_cons.1 mem with rfl | later
      · exact ⟨start, length ▸ List.IsSuffix.length_le ⟨_, split.symm⟩, read⟩
      · have shorter := length ▸ length_rest_lt next
        obtain ⟨start', le, read'⟩ := ih _ shorter later rfl
        exact ⟨start', Nat.le_trans le (Nat.le_of_lt shorter), read'⟩

/-- Every value was read at some place of the list, if what the pattern leaves is always the rear of
what it is given. -/
theorem exists_read_of_mem_values
    (rear : ∀ {xs rest : List α} {value : β}, pattern.read xs = some (value, rest) → rest <:+ xs)
    {xs : List α} {value : β} (mem : value ∈ pattern.values xs) :
    ∃ before start rest : List α, xs = before ++ start ∧
      pattern.read start = some (value, rest) := by
  induction length : xs.length using Nat.strongRecOn generalizing xs with
  | ind n ih =>
    cases next : pattern.findNext xs with
    | none =>
      rw [values_of_findNext_eq_none next] at mem
      cases mem
    | some found =>
      have shorter := length ▸ length_rest_lt next
      obtain ⟨start, rfl, read, -⟩ := findNext_eq_some_iff.1 next
      rw [values_of_findNext_eq_some next] at mem
      rcases List.mem_cons.1 mem with rfl | later
      · exact ⟨found.skipped, start, found.rest, rfl, read⟩
      · obtain ⟨before, start', rest, split, read'⟩ := ih _ shorter later rfl
        obtain ⟨taken, eq⟩ := rear read
        exact ⟨found.skipped ++ (taken ++ before), start', rest, by rw [← eq, split]; simp, read'⟩

/-- A match at the front is the first one. -/
theorem values_of_read_eq_some {xs rest : List α} {value : β}
    (read : pattern.read xs = some (value, rest)) :
    pattern.values xs = value :: pattern.values rest := by
  have next : pattern.findNext xs = some ⟨[], value, rest⟩ := by
    apply findNext_eq_some_iff.2
    refine ⟨xs, rfl, read, fun before after nil ne => ?_⟩
    exact absurd (List.append_eq_nil_iff.1 nil.symm).2 ne
  exact values_of_findNext_eq_some next

/-- Where nothing is read, the search goes on one item further, and no more than one. -/
theorem values_cons_of_read_eq_none {x : α} {xs : List α} (read : pattern.read (x :: xs) = none) :
    pattern.values (x :: xs) = pattern.values xs := by
  cases next : pattern.findNext xs with
  | none =>
    have later : pattern.findNext (x :: xs) = none := by rw [findNext, read, next]; rfl
    rw [values_of_findNext_eq_none later, values_of_findNext_eq_none next]
  | some found =>
    have later : pattern.findNext (x :: xs) =
        some { found with skipped := x :: found.skipped } := by
      rw [findNext, read, next]
      rfl
    rw [values_of_findNext_eq_some later, values_of_findNext_eq_some next]

/-! ## What the search makes of its values -/

/-- The pattern that reads as `pattern` does and makes `f` of what it reads. -/
def map {γ : Type} (pattern : Pattern α β) (f : β → γ) : Pattern α γ where
  read xs := (pattern.read xs).map fun (value, rest) => (f value, rest)
  shorter := by
    intro xs rest value read
    obtain ⟨⟨read_value, read_rest⟩, found, eq⟩ := Option.map_eq_some_iff.1 read
    cases eq
    exact pattern.shorter found

theorem read_map_eq_some_iff {γ : Type} {f : β → γ} {xs rest : List α} {value : γ} :
    (pattern.map f).read xs = some (value, rest) ↔
      ∃ inner, pattern.read xs = some (inner, rest) ∧ f inner = value := by
  simp [map]

theorem read_map_eq_none_iff {γ : Type} {f : β → γ} {xs : List α} :
    (pattern.map f).read xs = none ↔ pattern.read xs = none :=
  Option.map_eq_none_iff

theorem findNext_map {γ : Type} (pattern : Pattern α β) (f : β → γ) (xs : List α) :
    (pattern.map f).findNext xs =
      (pattern.findNext xs).map fun found => ⟨found.skipped, f found.value, found.rest⟩ := by
  induction xs with
  | nil => rfl
  | cons x xs ih =>
    cases read : pattern.read (x :: xs) with
    | none =>
      have mapped : (pattern.map f).read (x :: xs) = none := read_map_eq_none_iff.2 read
      rw [findNext, findNext, read, mapped, ih, Option.map_map, Option.map_map]
      rfl
    | some pair =>
      have mapped := read_map_eq_some_iff (f := f).2 ⟨pair.1, read, rfl⟩
      rw [findNext, findNext, read, mapped]
      rfl

/-- It finds at the same places. -/
theorem values_map {γ : Type} (f : β → γ) (xs : List α) :
    (pattern.map f).values xs = (pattern.values xs).map f := by
  induction length : xs.length using Nat.strongRecOn generalizing xs with
  | ind n ih =>
    have mapped := pattern.findNext_map f xs
    cases next : pattern.findNext xs with
    | none =>
      rw [next] at mapped
      rw [values_of_findNext_eq_none next, values_of_findNext_eq_none mapped]
      rfl
    | some found =>
      have shorter := length_rest_lt next
      have others := ih _ (length ▸ shorter) found.rest rfl
      rw [next] at mapped
      rw [values_of_findNext_eq_some next, values_of_findNext_eq_some mapped, others]
      rfl

/-! ## The search and the relation -/

/-- What the search finds are the leftmost matches. -/
theorem leftmost_values (pattern : Pattern α β) (xs : List α) :
    Leftmost pattern.Reads xs (pattern.values xs) := by
  induction length : xs.length using Nat.strongRecOn generalizing xs with
  | ind n ih =>
    cases next : pattern.findNext xs with
    | none =>
      rw [values_of_findNext_eq_none next]
      refine .done fun before after split value rest read => ?_
      have nowhere := findNext_eq_none_iff.1 next before after split
      rw [Reads, nowhere] at read
      cases read
    | some found =>
      have shorter := length_rest_lt next
      have others := ih _ (length ▸ shorter) found.rest rfl
      obtain ⟨start, rfl, read, minimal⟩ := findNext_eq_some_iff.1 next
      rw [values_of_findNext_eq_some next]
      refine .next (fun before after split ne value rest earlier => ?_) read others
      rw [Reads, minimal before after split ne] at earlier
      cases earlier

end Pattern

/-- Two lists of leftmost matches of one relation are the same, if at one place there is no more
than one match. -/
theorem Leftmost.unique {Reads : List α → β → List α → Prop}
    (single : ∀ {start value rest value' rest'}, Reads start value rest →
      Reads start value' rest' → value = value' ∧ rest = rest')
    {xs : List α} {values values' : List β} (left : Leftmost Reads xs values)
    (right : Leftmost Reads xs values') : values = values' := by
  induction left generalizing values' with
  | done nowhere =>
    cases right with
    | done => rfl
    | next first found others => exact (nowhere _ _ rfl _ _ found).elim
  | @next skipped start rest value values first found others ih =>
    generalize same : skipped ++ start = xs at right
    cases right with
    | done nowhere => exact (nowhere _ _ same.symm _ _ found).elim
    | @next skipped' start' rest' value' values' first' found' others' =>
      -- whichever of the two skips less reads among the items that the other one skips
      have starts : start = start' := by
        rcases List.append_eq_append_iff.1 same with ⟨more, eq, split⟩ | ⟨more, eq, split⟩
        · cases more with
          | nil => exact split
          | cons x more =>
            rw [split] at found
            exact (first' _ _ eq (List.cons_ne_nil _ _) _ _ found).elim
        · cases more with
          | nil => exact split.symm
          | cons x more =>
            rw [split] at found'
            exact (first _ _ eq (List.cons_ne_nil _ _) _ _ found').elim
      subst starts
      obtain ⟨rfl, rfl⟩ := single found found'
      rw [ih others']

/-- An item at which no match begins is passed over, and no other item with it. -/
theorem Leftmost.cons_iff {Reads : List α → β → List α → Prop} {x : α} {xs : List α}
    {values : List β} (none : ∀ value rest, ¬ Reads (x :: xs) value rest) :
    Leftmost Reads (x :: xs) values ↔ Leftmost Reads xs values := by
  apply Iff.intro
  · intro whole
    generalize same : x :: xs = ys at whole
    cases whole with
    | done nowhere =>
      exact .done fun before after split => nowhere (x :: before) after (by rw [← same, split]; rfl)
    | @next skipped start rest value values first found others =>
      cases skipped with
      | nil => exact (none value rest (same ▸ found)).elim
      | cons y skipped =>
        simp only [List.cons_append, List.cons.injEq] at same
        obtain ⟨rfl, rfl⟩ := same
        refine .next (fun before after split => ?_) found others
        exact first (x :: before) after (by rw [split]; rfl)
  · intro behind
    cases behind with
    | done nowhere =>
      refine .done fun before after split value rest found => ?_
      cases before with
      | nil => exact none value rest (split ▸ found)
      | cons y before =>
        simp only [List.cons_append, List.cons.injEq] at split
        exact nowhere before after split.2 value rest found
    | @next skipped start rest value values first found others =>
      rw [← List.cons_append]
      refine .next (fun before after split ne value rest earlier => ?_) found others
      cases before with
      | nil => exact none value rest (by rw [← List.cons_append, split]; exact earlier)
      | cons y before =>
        simp only [List.cons_append, List.cons.injEq] at split
        exact first before after split.2 ne value rest earlier

/-- The search finds the leftmost matches of whatever relation its pattern reads by. -/
theorem Pattern.values_eq_iff_leftmost {pattern : Pattern α β}
    {Reads : List α → β → List α → Prop}
    (reads : ∀ {start value rest}, pattern.read start = some (value, rest) ↔
      Reads start value rest)
    {xs : List α} {values : List β} :
    pattern.values xs = values ↔ Leftmost Reads xs values := by
  have same : pattern.Reads = Reads := by
    funext start value rest
    exact propext reads
  have found := pattern.leftmost_values xs
  rw [same] at found
  apply Iff.intro
  · intro eq
    rw [← eq]
    exact found
  · intro leftmost
    refine Leftmost.unique (fun {start value rest value' rest'} one other => ?_) found leftmost
    have both := (reads.2 one).symm.trans (reads.2 other)
    cases both
    exact ⟨rfl, rfl⟩

end Flashdeck
