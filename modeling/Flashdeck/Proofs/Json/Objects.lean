import Flashdeck.Proofs.Json.Literal
import Flashdeck.Proofs.Number.Format

/-!
# The objects of a written document

How many objects a JSON text holds can be told from the text alone, by counting the braces that open
outside its quoted texts. A written text never ends its quotes early, whatever characters it was
made from, and a number has neither quotes nor braces. So the count of a written list is its length:
`countObjects_writeList_append`.
-/

namespace Flashdeck.Json

open Flashdeck.Text.Escape

/-- Where a character of a JSON text stands. -/
inductive Place where
  | outside
  /-- Between the quotes of a text. -/
  | quoted
  /-- Behind a backslash. -/
  | escaped
deriving DecidableEq, Repr

/-- Where the character behind this one stands. -/
def Place.next : Place → Char → Place
  | outside, c => if c = '"' then quoted else outside
  | quoted, c => if c = '"' then outside else if c = '\\' then escaped else quoted
  | escaped, _ => quoted

/-- The number of objects that begin in a JSON text whose front stands at a place. -/
def countFrom (place : Place) : List Char → Nat
  | [] => 0
  | c :: cs => (if place = .outside ∧ c = '\x7b' then 1 else 0) + countFrom (place.next c) cs

/-- The number of objects in a JSON text. -/
def countObjects (cs : List Char) : Nat :=
  countFrom .outside cs

theorem countFrom_cons_of_ne {place : Place} {c : Char} (other : place ≠ .outside ∨ c ≠ '\x7b')
    (cs : List Char) : countFrom place (c :: cs) = countFrom (place.next c) cs := by
  have no : ¬ (place = .outside ∧ c = '\x7b') := fun both =>
    other.elim (fun ne => ne both.1) (fun ne => ne both.2)
  rw [countFrom, if_neg no, Nat.zero_add]

/-! ## What is passed over -/

/-- Characters that neither open an object nor quote anything are passed over. -/
theorem countFrom_outside_append {front : List Char} (plain : ∀ c ∈ front, c ≠ '"' ∧ c ≠ '\x7b')
    (cs : List Char) : countFrom .outside (front ++ cs) = countFrom .outside cs := by
  induction front with
  | nil => rfl
  | cons c front ih =>
    obtain ⟨quote, brace⟩ := plain c List.mem_cons_self
    rw [List.cons_append, countFrom_cons_of_ne (.inr brace), Place.next, if_neg quote]
    exact ih fun d mem => plain d (List.mem_cons_of_mem c mem)

theorem countFrom_quoted_append {front : List Char} (plain : ∀ c ∈ front, c ≠ '"' ∧ c ≠ '\\')
    (cs : List Char) : countFrom .quoted (front ++ cs) = countFrom .quoted cs := by
  induction front with
  | nil => rfl
  | cons c front ih =>
    obtain ⟨quote, slash⟩ := plain c List.mem_cons_self
    rw [List.cons_append, countFrom_cons_of_ne (.inl (by decide)), Place.next, if_neg quote,
      if_neg slash]
    exact ih fun d mem => plain d (List.mem_cons_of_mem c mem)

/-- A written character leaves the text between quotes where it was. -/
theorem countFrom_escapeChar_append (c : Char) (cs : List Char) :
    countFrom .quoted (escapeChar c ++ cs) = countFrom .quoted cs := by
  have slash : ∀ (d : Char) (ds : List Char),
      countFrom .quoted ('\\' :: d :: ds) = countFrom .quoted ds := by
    intro d ds
    rw [countFrom_cons_of_ne (.inl (by decide)), countFrom_cons_of_ne (.inl (by decide))]
    rfl
  rcases escapeChar_cases c with ⟨raw, -, quote, backslash⟩ | ⟨escape, -, short⟩ |
    ⟨unit, -, -, digits⟩
  · rw [raw]
    exact countFrom_quoted_append (by simpa using ⟨quote, backslash⟩) cs
  · rw [short]
    exact slash _ cs
  · rw [digits, List.cons_append, List.cons_append, slash]
    apply countFrom_quoted_append
    intro d mem
    have word := CodeUnit.isWordChar_of_mem_digits mem
    refine ⟨?_, ?_⟩ <;> (rintro rfl; exact absurd word (by decide))

/-- A text opens no object, whatever it holds. -/
theorem countFrom_writeText_append (content : String) (cs : List Char) :
    countFrom .outside (writeText content ++ cs) = countFrom .outside cs := by
  have inside : ∀ front : List Char,
      countFrom .quoted (front.flatMap escapeChar ++ '"' :: cs) = countFrom .outside cs := by
    intro front
    induction front with
    | nil => exact countFrom_cons_of_ne (.inl (by decide)) cs
    | cons c front ih =>
      rw [List.flatMap_cons, List.append_assoc, countFrom_escapeChar_append, ih]
  rw [writeText, List.cons_append, countFrom_cons_of_ne (.inr (by decide)), List.append_assoc]
  exact inside content.toList

theorem countFrom_writeValue_append (value : Value) (cs : List Char) :
    countFrom .outside (writeValue value ++ cs) = countFrom .outside cs := by
  cases value with
  | text content => exact countFrom_writeText_append content cs
  | number amount =>
    apply countFrom_outside_append
    intro c mem
    have writes := Number.Format.writes_of_mem_write mem
    refine ⟨?_, ?_⟩ <;> (rintro rfl; exact absurd writes (by decide))

/-! ## What is counted -/

/-- White space that a document may be laid out with. -/
def Spacing.IsPlain (spacing : Spacing) : Prop :=
  (∀ depth, ∀ c ∈ spacing.newline depth, c ≠ '"' ∧ c ≠ '\x7b') ∧
    ∀ c ∈ spacing.colon, c ≠ '"' ∧ c ≠ '\x7b'

theorem Spacing.isPlain_compact : compact.IsPlain := by
  refine ⟨fun depth c mem => (by cases mem), ?_⟩
  exact List.forall_mem_singleton.2 (by decide)

theorem Spacing.isPlain_indented : indented.IsPlain := by
  refine ⟨fun depth c mem => ?_, List.forall_mem_cons.2
    ⟨by decide, List.forall_mem_singleton.2 (by decide)⟩⟩
  rcases List.mem_cons.1 mem with rfl | space
  · decide
  · rw [List.eq_of_mem_replicate space]
    decide

section Spacing

variable {spacing : Spacing} (plain : spacing.IsPlain)

include plain

/-- Items in a row count as much as they do one by one. -/
theorem countFrom_intercalate_append {depth count : Nat} {items : List (List Char)}
    (each : ∀ item ∈ items, ∀ cs : List Char,
      countFrom .outside (item ++ cs) = count + countFrom .outside cs) (cs : List Char) :
    countFrom .outside
        ([','].intercalate (items.map fun item => spacing.newline depth ++ item) ++ cs) =
      items.length * count + countFrom .outside cs := by
  induction items with
  | nil => simp
  | cons item items ih =>
    have here := each item List.mem_cons_self
    have others := ih fun other mem => each other (List.mem_cons_of_mem item mem)
    cases items with
    | nil =>
      rw [List.map_singleton, List.intercalate_singleton, List.append_assoc,
        countFrom_outside_append (plain.1 depth), here, List.length_singleton, Nat.one_mul]
    | cons next items =>
      rw [List.map_cons, List.map_cons, List.intercalate_cons_cons, ← List.map_cons,
        List.append_assoc, List.append_assoc, List.append_assoc,
        countFrom_outside_append (plain.1 depth), here, List.singleton_append,
        countFrom_cons_of_ne (.inr (by decide)), Place.next, if_neg (by decide), others]
      simp only [List.length_cons, Nat.add_mul, Nat.one_mul]
      omega

/-- Brackets count what stands between them, and an object more where they are braces. -/
theorem countFrom_enclose_append {depth count : Nat} {first last : Char} {items : List (List Char)}
    (opening : first ≠ '"') (closing : last ≠ '"' ∧ last ≠ '\x7b')
    (each : ∀ item ∈ items, ∀ cs : List Char,
      countFrom .outside (item ++ cs) = count + countFrom .outside cs) (cs : List Char) :
    countFrom .outside (spacing.enclose depth first last items ++ cs) =
      (if first = '\x7b' then 1 else 0) + (items.length * count + countFrom .outside cs) := by
  have front : ∀ ds : List Char, countFrom .outside (first :: ds) =
      (if first = '\x7b' then 1 else 0) + countFrom .outside ds := by
    intro ds
    rw [countFrom, Place.next, if_neg opening]
    simp
  have back : countFrom .outside ([last] ++ cs) = countFrom .outside cs :=
    countFrom_outside_append (List.forall_mem_singleton.2 closing) cs
  unfold Spacing.enclose
  split
  · next empty =>
    rw [List.isEmpty_iff.1 empty, List.length_nil, Nat.zero_mul, Nat.zero_add, List.cons_append,
      front, back]
  · rw [List.cons_append, front, List.append_assoc, List.append_assoc,
      countFrom_intercalate_append plain each, countFrom_outside_append (plain.1 depth), back]

/-- A written object is one object: its members open none. -/
theorem countFrom_writeObject_append (depth : Nat) (object : Object) (cs : List Char) :
    countFrom .outside (spacing.writeObject depth object ++ cs) =
      1 + countFrom .outside cs := by
  have member : ∀ item ∈ object.map spacing.writeMember, ∀ cs : List Char,
      countFrom .outside (item ++ cs) = 0 + countFrom .outside cs := by
    intro item mem cs
    obtain ⟨entry, -, rfl⟩ := List.mem_map.1 mem
    rw [Spacing.writeMember, List.append_assoc, List.append_assoc, countFrom_writeText_append,
      countFrom_outside_append plain.2, countFrom_writeValue_append, Nat.zero_add]
  rw [Spacing.writeObject, countFrom_enclose_append plain (by decide) (by decide) member,
    if_pos rfl, Nat.mul_zero, Nat.zero_add]

/-- **A written list has as many objects as the list that it was written from.** -/
theorem countObjects_writeList_append (objects : List Object) (cs : List Char) :
    countObjects (spacing.writeList objects ++ cs) = objects.length + countObjects cs := by
  have each : ∀ item ∈ objects.map (spacing.writeObject 1), ∀ cs : List Char,
      countFrom .outside (item ++ cs) = 1 + countFrom .outside cs := by
    intro item mem cs
    obtain ⟨object, -, rfl⟩ := List.mem_map.1 mem
    exact countFrom_writeObject_append plain 1 object cs
  rw [countObjects, Spacing.writeList, countFrom_enclose_append plain (by decide) (by decide) each,
    if_neg (by decide), List.length_map, Nat.mul_one, Nat.zero_add, countObjects]

end Spacing

/-- Braces in texts do not count. -/
example : countObjects "[\x7b\"a\":\"\\\"\x7b\"\x7d,\x7b\x7d]".toList = 2 := by
  decide +kernel

end Flashdeck.Json
