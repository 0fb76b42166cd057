import Mathlib.Data.List.Induction
import Flashdeck.Proofs.Property

/-!
# Keys are whole words

The search for properties tries every character of a body, and so every rear of a word. What is read
from the rear of a word is read from its front as well, only with a longer key: what decides is what
stands behind the word. So a key begins inside a word only where the search had no choice, right
behind the numeral of the property before it, as in `a: 1b: 2`.

* `Pattern.findNext_left`: where each match of a search stands.
* `Property.read_append`: what is read from the rear of a word.
* `Property.exists_of_read`: what a property ends with.
* `Property.keys_whole`: the keys of a body.
-/

namespace Flashdeck

namespace Pattern

variable {α β : Type} {pattern : Pattern α β}

/-- What is left of a list behind matches in it; all of the list if there are none. -/
def left (xs : List α) (earlier : List (Match α β)) : List α :=
  (earlier.getLast?.map Match.rest).getD xs

theorem left_cons (xs : List α) (first : Match α β) (earlier : List (Match α β)) :
    left xs (first :: earlier) = left first.rest earlier := by
  rw [left, left, List.getLast?_cons]
  cases earlier.getLast? <;> rfl

theorem left_concat (xs : List α) (earlier : List (Match α β)) (last : Match α β) :
    left xs (earlier ++ [last]) = last.rest := by
  rw [left, List.getLast?_concat]
  rfl

theorem of_findAll_eq_cons {xs : List α} {first : Match α β} {others : List (Match α β)}
    (all : pattern.findAll xs = first :: others) :
    pattern.findNext xs = some first ∧ pattern.findAll first.rest = others := by
  cases next : pattern.findNext xs with
  | none =>
    rw [findAll_of_findNext_eq_none next] at all
    cases all
  | some found =>
    rw [findAll_of_findNext_eq_some next] at all
    cases all
    exact ⟨rfl, rfl⟩

/-- Each match is the first one in what the matches before it left. -/
theorem findNext_left {xs : List α} {earlier later : List (Match α β)} {found : Match α β}
    (all : pattern.findAll xs = earlier ++ found :: later) :
    pattern.findNext (left xs earlier) = some found := by
  induction earlier generalizing xs with
  | nil => exact (of_findAll_eq_cons all).1
  | cons first earlier ih =>
    rw [left_cons]
    exact ih (of_findAll_eq_cons all).2

end Pattern

namespace Script

open Text

/-! ## What a property ends with -/

/-- A literal ends in a delimiter, or it is a numeral. -/
theorem Literal.exists_of_read {cs rest : List Char} {literal : Literal}
    (read : Literal.read cs = some (literal, rest)) :
    ∃ front last, cs = front ++ last :: rest ∧ (isWordChar last = true →
      last.isDigit = true ∧ ∃ digits, literal = .numeral digits) := by
  unfold Literal.read at read
  split at read
  · next content _ backtick =>
    cases read
    have delimiter : ¬ isWordChar '`' = true := by decide
    exact ⟨'`' :: content, '`', (Lexeme.backtick_eq_some_iff.1 backtick).1,
      fun word => (delimiter word).elim⟩
  · split at read
    · next content _ quoted =>
      cases read
      have delimiter : ¬ isWordChar '"' = true := by decide
      exact ⟨'"' :: content, '"', (Lexeme.quoted_eq_some_iff.1 quoted).1,
        fun word => (delimiter word).elim⟩
    · obtain ⟨⟨digits, behind⟩, numeral, eq⟩ := Option.map_eq_some_iff.1 read
      cases eq
      obtain ⟨rfl, ne, all, -⟩ := Lexeme.numeral_eq_some_iff.1 numeral
      obtain ⟨front, last, rfl⟩ := (List.eq_nil_or_concat digits).resolve_left ne
      rw [List.concat_eq_append] at all ⊢
      refine ⟨front, last, List.append_assoc _ _ _, fun word => ⟨?_, _, rfl⟩⟩
      exact isDigit_of_isNumeralChar (all last (by simp)) word

namespace Property

theorem exists_of_read {cs rest : List Char} {property : Property}
    (read : Property.read cs = some (property, rest)) :
    ∃ front last, cs = front ++ last :: rest ∧ (isWordChar last = true →
      last.isDigit = true ∧ ∃ digits, property.literal = .numeral digits) := by
  obtain ⟨beforeColon, behindColon, start, -, -, -, -, rfl, literal⟩ := read_eq_some_iff.1 read
  obtain ⟨front, last, rfl, ends⟩ := Literal.exists_of_read literal
  refine ⟨property.key ++ (beforeColon ++ ':' :: (behindColon ++ front)), last, ?_, ends⟩
  simp only [List.append_assoc, List.cons_append]

/-! ## Reading from the rear of a word -/

/-- What is read from the rear of a word is read from the front of the word, with all of the word
for its key. -/
theorem read_append {front cs rest : List Char} {property : Property}
    (word : ∀ c ∈ front, isWordChar c = true)
    (read : Property.read cs = some (property, rest)) :
    Property.read (front ++ cs) = some ({ property with key := front ++ property.key }, rest) := by
  obtain ⟨beforeColon, behindColon, start, ne, all, beforeAll, behindAll, rfl, literal⟩ :=
    read_eq_some_iff.1 read
  refine read_eq_some_iff.2 ⟨beforeColon, behindColon, start, ?_, ?_, beforeAll, behindAll,
    (List.append_assoc _ _ _).symm, literal⟩
  · exact fun nil => ne (List.append_eq_nil_iff.1 nil).2
  · intro c mem
    exact (List.mem_append.1 mem).elim (word c) (all c)

/-- A key takes in the rest of its word. -/
theorem exists_behind_of_read {cs rest : List Char} {property : Property}
    (read : Property.read cs = some (property, rest)) :
    ∃ behind, cs = property.key ++ behind ∧ ∀ c ∈ behind.head?, isWordChar c = false := by
  obtain ⟨beforeColon, behindColon, start, -, -, beforeAll, -, split, -⟩ := read_eq_some_iff.1 read
  exact ⟨_, split, isWordChar_eq_false_of_mem_head? beforeAll (behindColon ++ start)⟩

/-! ## The search in a body -/

/-- The search in `body` found `found` behind the matches `earlier`: its key stands between `before`
and `behind`, and `start` was what the earlier matches left. -/
structure StandsAt (body : List Char) (earlier : List (Pattern.Match Char Property))
    (found : Pattern.Match Char Property) (before behind : List Char) : Prop where
  split : body = before ++ (found.value.key ++ behind)
  left : Pattern.left body earlier = found.skipped ++ (found.value.key ++ behind)
  read : Property.read (found.value.key ++ behind) = some (found.value, found.rest)
  skipped : ∀ front rear : List Char, found.skipped = front ++ rear → rear ≠ [] →
    Property.read (rear ++ (found.value.key ++ behind)) = none

variable {body : List Char} {earlier later : List (Pattern.Match Char Property)}
  {found : Pattern.Match Char Property}

/-- What matches leave of a body is its rear; in front of it stands the end of the last match. -/
theorem exists_append_left (all : pattern.findAll body = earlier ++ later) :
    ∃ front, body = front ++ Pattern.left body earlier ∧
      ∀ c ∈ front.getLast?, isWordChar c = true → c.isDigit = true ∧ ∃ previous digits,
        earlier.getLast? = some previous ∧ previous.value.literal = .numeral digits := by
  induction earlier using List.reverseRecOn generalizing later with
  | nil => exact ⟨[], rfl, by simp⟩
  | append_singleton earlier previous ih =>
    rw [List.append_assoc] at all
    obtain ⟨front, split, -⟩ := ih all
    obtain ⟨start, leftEq, read, -⟩ :=
      Pattern.findNext_eq_some_iff.1 (Pattern.findNext_left all)
    obtain ⟨inner, last, startEq, ends⟩ := exists_of_read read
    refine ⟨front ++ (previous.skipped ++ (inner ++ [last])), ?_, ?_⟩
    · rw [Pattern.left_concat]
      simp only [List.append_assoc, List.singleton_append]
      rw [← startEq, ← leftEq]
      exact split
    · intro c mem word
      rw [← List.append_assoc, ← List.append_assoc, List.getLast?_concat] at mem
      cases mem
      obtain ⟨digit, digits, numeral⟩ := ends word
      exact ⟨digit, previous, digits, List.getLast?_concat, numeral⟩

theorem exists_standsAt (all : pattern.findAll body = earlier ++ found :: later) :
    ∃ before behind, StandsAt body earlier found before behind ∧
      ∀ c ∈ behind.head?, isWordChar c = false := by
  obtain ⟨front, split, -⟩ := exists_append_left all
  obtain ⟨start, leftEq, read, skipped⟩ :=
    Pattern.findNext_eq_some_iff.1 (Pattern.findNext_left all)
  obtain ⟨behind, rfl, ended⟩ := exists_behind_of_read read
  refine ⟨front ++ found.skipped, behind, ⟨?_, leftEq, read, skipped⟩, ended⟩
  rw [List.append_assoc, ← leftEq]
  exact split

/-- Before a key stands no word character, unless it is the last digit of the property before. -/
theorem StandsAt.of_isWordChar {before behind : List Char}
    (all : pattern.findAll body = earlier ++ found :: later)
    (stands : StandsAt body earlier found before behind) {c : Char} (last : c ∈ before.getLast?)
    (word : isWordChar c = true) :
    c.isDigit = true ∧ ∃ previous digits, earlier.getLast? = some previous ∧
      previous.value.literal = .numeral digits ∧
        previous.rest = found.value.key ++ behind := by
  obtain ⟨front, split, ends⟩ := exists_append_left all
  have beforeEq : before = front ++ found.skipped := by
    rw [← List.append_left_inj (found.value.key ++ behind), List.append_assoc, ← stands.left,
      ← stands.split]
    exact split
  rcases List.eq_nil_or_concat found.skipped with nil | ⟨skipped, d, eq⟩
  · rw [beforeEq, nil, List.append_nil] at last
    obtain ⟨digit, previous, digits, behindLast, numeral⟩ := ends c last word
    refine ⟨digit, previous, digits, behindLast, numeral, ?_⟩
    have rest := stands.left
    rw [Pattern.left, behindLast, nil] at rest
    exact rest
  · -- a character that was passed over would have been read with the key behind it
    rw [List.concat_eq_append] at eq
    rw [beforeEq, eq, ← List.append_assoc, List.getLast?_concat] at last
    cases last
    have none := stands.skipped skipped [c] eq (List.cons_ne_nil c [])
    rw [read_append (List.forall_mem_singleton.2 word) stands.read] at none
    cases none

/-- **Keys are whole words.** The fields of a body, under either policy, are those of the matches of
one search. The key of each match goes on to the end of its word, and the character before it is
no word character, unless it is the last digit of the match before, a numeral that ends right there.
Where nothing is read from the front of a word, nothing is read from any rear of it, and no key
stands there. -/
theorem keys_whole (policy : EscapePolicy) (body : List Char) :
    fieldsOfBody policy body =
        Fields.ofList ((pattern.findAll body).map fun found => found.value.entry policy) ∧
    (∀ earlier found later, pattern.findAll body = earlier ++ found :: later →
      ∃ before behind, StandsAt body earlier found before behind ∧
        (∀ c ∈ behind.head?, isWordChar c = false) ∧
        ∀ c ∈ before.getLast?, isWordChar c = true →
          c.isDigit = true ∧ ∃ previous digits, earlier.getLast? = some previous ∧
            previous.value.literal = .numeral digits ∧
              previous.rest = found.value.key ++ behind) ∧
    ∀ before word behind, body = before ++ (word ++ behind) → (∀ c ∈ word, isWordChar c = true) →
      Property.read (word ++ behind) = none → ∀ front rear, word = front ++ rear →
        Property.read (rear ++ behind) = none ∧
          ∀ earlier found behind', ¬ StandsAt body earlier found (before ++ front) behind' := by
  refine ⟨?_, fun earlier found later all => ?_, ?_⟩
  · rw [fieldsOfBody, Pattern.values, List.map_map]
    rfl
  · obtain ⟨before, behind, stands, ended⟩ := exists_standsAt all
    exact ⟨before, behind, stands, ended, fun c last word => stands.of_isWordChar all last word⟩
  · rintro before word behind split all none front rear rfl
    have rearNone : Property.read (rear ++ behind) = Option.none := by
      rw [Option.eq_none_iff_forall_ne_some]
      rintro ⟨property, rest⟩ read
      have whole := read_append (fun c mem => all c (List.mem_append_left rear mem)) read
      rw [← List.append_assoc, none] at whole
      cases whole
    refine ⟨rearNone, fun earlier found behind' stands => ?_⟩
    have same := split.symm.trans stands.split
    rw [List.append_assoc, List.append_assoc, List.append_cancel_left_eq,
      List.append_cancel_left_eq] at same
    rw [same, stands.read] at rearNone
    cases rearNone

/-- A body with a key behind a numeral and a key that lacks its colon: `a: 1front: 2 back "3"`. -/
def crowdedBody : List Char :=
  "a: 1front: 2 back \"3\"".toList

theorem standsAt_crowdedBody :
    (∃ previous found, pattern.findAll crowdedBody = [previous] ++ [found] ∧
      found.value.key = "front".toList ∧ ∃ before behind,
        StandsAt crowdedBody [previous] found before behind ∧
          ∀ c ∈ before.getLast?, isWordChar c = true → c.isDigit = true) ∧
    Property.read "back \"3\"".toList = none ∧ Property.read "ack \"3\"".toList = none := by
  have keys : (pattern.findAll crowdedBody).map (fun found => found.value.key) =
      ["a".toList, "front".toList] := by decide +kernel
  obtain ⟨previous, others, all, -, rest⟩ := List.map_eq_cons_iff.1 keys
  obtain ⟨found, rfl, key⟩ := List.map_eq_singleton_iff.1 rest
  have split : crowdedBody = "a: 1front: 2 ".toList ++ ("back".toList ++ " \"3\"".toList) := by
    decide +kernel
  have malformed : Property.read ("back".toList ++ " \"3\"".toList) = none := by decide +kernel
  refine ⟨⟨previous, found, all, key, ?_⟩, malformed, ?_⟩
  · obtain ⟨before, behind, stands, -, digit⟩ :=
      (keys_whole .decode crowdedBody).2.1 [previous] found [] all
    exact ⟨before, behind, stands, fun c last word => (digit c last word).1⟩
  · exact ((keys_whole .decode crowdedBody).2.2 _ _ _ split (List.all_eq_true.1 (by decide +kernel))
      malformed ['b'] "ack".toList (by decide +kernel)).1

end Property

end Script

end Flashdeck
