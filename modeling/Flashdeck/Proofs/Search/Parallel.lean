import Flashdeck.Proofs.Search

/-!
# Searches side by side

What searches in two lists have to do with each other.

* `Pattern.values_append_of_forall_none`: items in front at which nothing is read change nothing.
* `Pattern.values_intercalate`: what was written with gaps between is found without them.
* `Pattern.values_flatMap`, `Pattern.values_map_items`: where a rewriting of the items carries
  what one pattern reads to what another one does, it carries what the first finds to what the
  other does.
* `Pattern.length_values_le_of_suffix`: where a match that begins earlier ends no later, a search
  that begins earlier finds no less.
* `Pattern.values_append`: where a match settles what is read before it, whatever follows, the
  search in a list goes on behind its last match when more is written behind the list.
-/

namespace Flashdeck.Pattern

variable {α β γ δ : Type} {pattern : Pattern α β} {other : Pattern γ δ}

/-- Items at which nothing is read are passed over. -/
theorem values_append_of_forall_none {front xs : List α}
    (none : ∀ before after : List α, front = before ++ after → after ≠ [] →
      pattern.read (after ++ xs) = none) :
    pattern.values (front ++ xs) = pattern.values xs := by
  induction front with
  | nil => rfl
  | cons x front ih =>
    have here : pattern.read (x :: (front ++ xs)) = Option.none :=
      none [] (x :: front) rfl (List.cons_ne_nil x front)
    rw [List.cons_append, values_cons_of_read_eq_none here]
    apply ih
    intro before after split ne
    exact none (x :: before) after (by rw [split]; rfl) ne

/-- What was written one after the other is found in its order, if nothing is found in the gaps. -/
theorem values_intercalate {write : γ → List α} {value : γ → β} {gap : List α}
    (passes : ∀ xs : List α, pattern.values (gap ++ xs) = pattern.values xs) {items : List γ}
    (reads : ∀ item ∈ items, ∀ rest : List α,
      pattern.read (write item ++ rest) = some (value item, rest)) :
    pattern.values (gap.intercalate (items.map write)) = items.map value := by
  induction items with
  | nil => exact values_nil pattern
  | cons item items ih =>
    have here := reads item List.mem_cons_self
    have others := ih fun other mem => reads other (List.mem_cons_of_mem item mem)
    cases items with
    | nil =>
      have last := here []
      rw [List.append_nil] at last
      rw [List.map_singleton, List.intercalate_singleton, values_of_read_eq_some last, values_nil,
        List.map_singleton]
    | cons next items =>
      rw [List.map_cons, List.map_cons, List.intercalate_cons_cons, List.append_assoc,
        values_of_read_eq_some (here _), passes, ← List.map_cons, others]
      rfl

/-! ## A list and the same list rewritten -/

/-- The search in a list whose items are rewritten, each on its own. Nothing may be read inside what
stands for one item. -/
theorem values_flatMap {rewrite : α → List γ} {image : β → δ}
    (reads : ∀ xs : List α, other.read (xs.flatMap rewrite) =
      (pattern.read xs).map (Prod.map image (List.flatMap rewrite)))
    (inner : ∀ (x : α) (xs : List α) (before after : List γ), rewrite x = before ++ after →
      before ≠ [] → after ≠ [] → other.read (after ++ xs.flatMap rewrite) = none)
    (xs : List α) : other.values (xs.flatMap rewrite) = (pattern.values xs).map image := by
  induction length : xs.length using Nat.strongRecOn generalizing xs with
  | ind n ih =>
    cases xs with
    | nil => rw [List.flatMap_nil, values_nil, values_nil, List.map_nil]
    | cons x xs =>
      have whole := reads (x :: xs)
      cases read : pattern.read (x :: xs) with
      | some found =>
        obtain ⟨value, rest⟩ := found
        have others := ih _ (length ▸ pattern.shorter read) rest rfl
        rw [read] at whole
        rw [values_of_read_eq_some whole, values_of_read_eq_some read, List.map_cons, others]
      | none =>
        rw [read] at whole
        have others := ih xs.length (by rw [← length]; exact Nat.lt_succ_self _) xs rfl
        rw [List.flatMap_cons, values_cons_of_read_eq_none read, ← others]
        apply values_append_of_forall_none
        intro before after split ne
        cases before with
        | nil =>
          rw [List.nil_append] at split
          rw [← split, ← List.flatMap_cons]
          exact whole
        | cons y before => exact inner x xs (y :: before) after split (List.cons_ne_nil y before) ne

/-- The search in a list whose items are rewritten, each to one item. -/
theorem values_map_items {rewrite : α → γ} {image : β → δ}
    (reads : ∀ xs : List α, other.read (xs.map rewrite) =
      (pattern.read xs).map (Prod.map image (List.map rewrite)))
    (xs : List α) : other.values (xs.map rewrite) = (pattern.values xs).map image := by
  have rewritten : List.map rewrite = List.flatMap fun x => [rewrite x] :=
    funext fun _ => List.map_eq_flatMap
  rw [rewritten] at reads ⊢
  refine values_flatMap reads (fun x xs before after split before_ne after_ne => ?_) xs
  have length := congrArg List.length split
  have before_pos := List.length_pos_iff.2 before_ne
  have after_pos := List.length_pos_iff.2 after_ne
  rw [List.length_append, List.length_singleton] at length
  omega

/-! ## A list and its rear -/

/-- Of two matches in one list, the one that begins first does not end last. -/
def EndsInOrder (pattern : Pattern α β) : Prop :=
  ∀ (before : List α) {start rest rest' : List α} {value value' : β},
    pattern.read (before ++ start) = some (value, rest) →
      pattern.read start = some (value', rest') → rest' <:+ rest

/-- Going on from an earlier place costs no match: whatever is found from the later place on, some
match from the earlier place on has ended by the time it ends. -/
theorem length_values_le_of_suffix (ordered : pattern.EndsInOrder) {xs ys : List α}
    (suffix : ys <:+ xs) : (pattern.values ys).length ≤ (pattern.values xs).length := by
  induction length : ys.length using Nat.strongRecOn generalizing xs ys with
  | ind n ih =>
    obtain ⟨front, rfl⟩ := suffix
    cases later : pattern.findNext ys with
    | none =>
      rw [values_of_findNext_eq_none later]
      exact Nat.zero_le _
    | some found' =>
      obtain ⟨start', rfl, read', -⟩ := findNext_eq_some_iff.1 later
      cases first : pattern.findNext (front ++ (found'.skipped ++ start')) with
      | none =>
        have nowhere := findNext_eq_none_iff.1 first (front ++ found'.skipped) start'
          (List.append_assoc _ _ _).symm
        rw [nowhere] at read'
        cases read'
      | some found =>
        obtain ⟨start, split, read, minimal⟩ := findNext_eq_some_iff.1 first
        -- the first match from the earlier place on begins no later than that from the later one
        have ends : found'.rest <:+ found.rest := by
          rw [← List.append_assoc] at split
          rcases List.append_eq_append_iff.1 split with ⟨more, eq, behind⟩ | ⟨more, eq, behind⟩
          · cases more with
            | nil =>
              rw [List.nil_append] at behind
              rw [← behind] at read
              exact ordered [] read read'
            | cons x more =>
              have none := minimal _ _ eq (List.cons_ne_nil x more)
              rw [← behind, read'] at none
              cases none
          · rw [behind] at read
            exact ordered more read read'
        rw [values_of_findNext_eq_some later, values_of_findNext_eq_some first, List.length_cons,
          List.length_cons]
        exact Nat.succ_le_succ (ih _ (length ▸ length_rest_lt later) ends rfl)

/-! ## A list and what is written behind it -/

/-- What is left of a list behind the last match in it; all of the list if there is no match. -/
def remainder (pattern : Pattern α β) (xs : List α) : List α :=
  ((pattern.findAll xs).getLast?.map Match.rest).getD xs

theorem remainder_of_findNext_eq_none {xs : List α} (next : pattern.findNext xs = none) :
    pattern.remainder xs = xs := by
  rw [remainder, findAll_of_findNext_eq_none next]
  rfl

theorem remainder_of_findNext_eq_some {xs : List α} {found : Match α β}
    (next : pattern.findNext xs = some found) :
    pattern.remainder xs = pattern.remainder found.rest := by
  rw [remainder, findAll_of_findNext_eq_some next, List.getLast?_cons, remainder]
  cases (pattern.findAll found.rest).getLast? <;> rfl

/-- A match settles what is read before it and at its own place: `tail` behind the list changes
neither what is read there nor where nothing is. -/
def SettledBefore (pattern : Pattern α β) (tail : List α) : Prop :=
  ∀ (before : List α) {start : List α}, (pattern.read start).isSome = true →
    pattern.read (before ++ start ++ tail) =
      (pattern.read (before ++ start)).map (Prod.map id (· ++ tail))

theorem findNext_append {tail xs : List α} {found : Match α β}
    (settled : pattern.SettledBefore tail) (next : pattern.findNext xs = some found) :
    pattern.findNext (xs ++ tail) = some { found with rest := found.rest ++ tail } := by
  obtain ⟨start, rfl, read, minimal⟩ := findNext_eq_some_iff.1 next
  have here : (pattern.read start).isSome = true := by rw [read]; rfl
  refine findNext_eq_some_iff.2 ⟨start ++ tail, List.append_assoc _ _ _, ?_, ?_⟩
  · have same := settled [] here
    rwa [List.nil_append, read] at same
  · intro before after split ne
    rw [← List.append_assoc, settled after here, minimal before after split ne]
    rfl

/-- What is found in a list is found when more is written behind it, and the search goes on behind
the last match. -/
theorem values_append {tail : List α} (settled : pattern.SettledBefore tail) (xs : List α) :
    pattern.values (xs ++ tail) =
      pattern.values xs ++ pattern.values (pattern.remainder xs ++ tail) := by
  induction length : xs.length using Nat.strongRecOn generalizing xs with
  | ind n ih =>
    cases next : pattern.findNext xs with
    | none =>
      rw [values_of_findNext_eq_none next, remainder_of_findNext_eq_none next, List.nil_append]
    | some found =>
      have others := ih _ (length ▸ length_rest_lt next) found.rest rfl
      rw [values_of_findNext_eq_some (findNext_append settled next),
        values_of_findNext_eq_some next, remainder_of_findNext_eq_some next, others,
        List.cons_append]

end Flashdeck.Pattern
