import Flashdeck.Card.Placed
import Flashdeck.Proofs.Json.Unique
import Flashdeck.Proofs.Number.ReadBack

/-!
# Placed cards as objects

The object of a placed card has the card's own keys in their order, and `x` and `y` behind them where
the card lacks them: every key once. Whatever the card says about its place, the object says where it
lies; of all else it says what the card does. From the text of such an object the texts of the card
can be told, so two cards that are written alike have the same texts.

* `map_fst_toObject`, `lookup_toObject`: the keys and the values of the object.
* `announced_eq_length`: the number of members that is announced is the number that comes.
* `Json.isWritten_writeValue`: how values are written.
* `members_toObject`: all of it, and what the text tells.
-/

namespace Flashdeck

/-! ## How values are written -/

namespace Json

/-- Texts are written as JSON texts that denote them, finite numbers as JSON numbers that are read as
they were, and what is no finite number as `null`. -/
inductive IsWritten : Value → List Char → Prop
  | text {content : String} {pieces : List Piece} (denotes : Denotes pieces content.toList) :
      IsWritten (.text content) (literal pieces)
  | number {amount : Float} {cs : List Char} (number : amount.isNaN = false)
      (finite : amount.isInf = false) (numeral : IsNumeral cs)
      (reads : Number.ofText? cs = some amount) : IsWritten (.number amount) cs
  | null {amount : Float} (other : amount.isNaN = true ∨ amount.isInf = true) :
      IsWritten (.number amount) "null".toList

theorem isWritten_writeValue (value : Value) : IsWritten value (writeValue value) := by
  cases value with
  | text content =>
    obtain ⟨pieces, written, denotes⟩ := exists_pieces_writeText content.toList
    have same : writeText content = literal pieces := by rw [writeText, literal, written]
    rw [writeValue, same]
    exact .text denotes
  | number amount =>
    rw [writeValue]
    by_cases other : amount.isNaN = true ∨ amount.isInf = true
    · rw [Number.Format.write_eq_null other]
      exact .null other
    · rw [not_or, Bool.not_eq_true, Bool.not_eq_true] at other
      exact .number other.1 other.2 (Number.Format.isNumeral_write other.1 other.2)
        (Number.Format.ofText?_write other.1 other.2)

/-- Under any key, objects whose members are written alike have values that are written alike. -/
theorem map_writeValue_lookup {object object' : Object} (alike : List.Forall₂ Alike object object')
    (key : String) :
    (object.lookup key).map writeValue = (object'.lookup key).map writeValue := by
  induction alike with
  | nil => rfl
  | @cons member member' members members' here _ ih =>
    rw [List.lookup_cons, List.lookup_cons, ← here.1]
    split
    · rw [Option.map_some, Option.map_some, here.2]
    · exact ih

end Json

/-! ## The members -/

namespace PlacedCard

variable (placed : PlacedCard)

theorem contains_eq_mem_keys (key : String) :
    placed.card.fields.contains key = decide (key ∈ placed.card.fields.keys) := by
  rw [Fields.contains, Bool.eq_iff_iff, Fields.isSome_get?_iff, decide_eq_true_iff]

/-- The coordinates that the card lacks. -/
theorem map_fst_filter_coordinates :
    (placed.coordinates.filter fun coordinate =>
        !placed.card.fields.contains coordinate.1).map Prod.fst =
      ["x", "y"].filter fun key => key ∉ placed.card.fields.keys := by
  have names : placed.coordinates.map Prod.fst = ["x", "y"] := rfl
  rw [← names, List.filter_map]
  simp only [contains_eq_mem_keys, Function.comp_def, decide_not]

/-- The keys of the card in their order, and then those coordinates that it lacks. -/
theorem map_fst_toObject :
    placed.toObject.map Prod.fst =
      placed.card.fields.keys ++ ["x", "y"].filter fun key => key ∉ placed.card.fields.keys := by
  rw [toObject, List.map_append, List.map_map, map_fst_filter_coordinates]
  rfl

theorem nodup_map_fst_toObject : (placed.toObject.map Prod.fst).Nodup := by
  rw [map_fst_toObject]
  refine List.nodup_append.2 ⟨placed.card.fields.nodup_keys,
    List.Pairwise.filter _ (by decide), ?_⟩
  intro key own key' lacking same
  rw [List.mem_filter, decide_eq_true_eq, ← same] at lacking
  exact lacking.2 own

/-- The place of a card comes before its own fields. -/
theorem lookup_toObject (key : String) :
    placed.toObject.lookup key =
      (placed.coordinates.lookup key).or (placed.card.fields.get? key) := by
  have own : (placed.card.fields.entries.map fun entry =>
      (entry.1, (placed.coordinates.lookup entry.1).getD entry.2)).lookup key =
        (placed.card.fields.get? key).map (placed.coordinates.lookup key).getD :=
    Fields.lookup_map (fun key => (placed.coordinates.lookup key).getD) _ _
  rw [toObject, List.lookup_append, own,
    Fields.lookup_filter (fun key => !placed.card.fields.contains key), Fields.contains]
  cases placed.card.fields.get? key with
  | none => simp
  | some value => cases placed.coordinates.lookup key <;> rfl

theorem lookup_toObject_of_ne {key : String} (x : key ≠ "x") (y : key ≠ "y") :
    placed.toObject.lookup key = placed.card.fields.get? key := by
  rw [lookup_toObject, coordinates, List.lookup_cons, List.lookup_cons, beq_false_of_ne x,
    beq_false_of_ne y]
  rfl

/-- As many members are announced as there are. -/
theorem announced_eq_length : placed.announced = placed.toObject.length := by
  have keys := congrArg List.length placed.map_fst_toObject
  have size : placed.card.fields.keys.length = placed.card.fields.size := List.length_map _
  rw [List.length_map, List.length_append, ← List.countP_eq_length_filter, size] at keys
  rw [keys, announced]
  simp only [contains_eq_mem_keys, decide_not]

/-- The text of an object tells the texts of the card. -/
theorem bind_text?_of_writeObject_eq {placed placed' : PlacedCard} {spacing : Json.Spacing}
    (indents : spacing.Indents) {depth : Nat}
    (same : spacing.writeObject depth placed.toObject =
      spacing.writeObject depth placed'.toObject)
    {key : String} (x : key ≠ "x") (y : key ≠ "y") :
    (placed.card.fields.get? key).bind Value.text? =
      (placed'.card.fields.get? key).bind Value.text? := by
  have alike := Json.map_writeValue_lookup ((Json.Spacing.writeObject_eq_iff indents).1 same) key
  rw [lookup_toObject_of_ne _ x y, lookup_toObject_of_ne _ x y] at alike
  cases here : placed.card.fields.get? key with
  | none =>
    rw [here, Option.map_none, eq_comm, Option.map_eq_none_iff] at alike
    rw [alike]
  | some value =>
    rw [here, Option.map_some, eq_comm, Option.map_eq_some_iff] at alike
    obtain ⟨value', there, written⟩ := alike
    rw [there, Option.bind_some, Option.bind_some, Json.text?_eq_of_writeValue_eq written]

end PlacedCard

/-- **The object of a placed card.** It has the keys of the card in their order and then those
coordinates that the card lacks, each key once and as many as were announced; `x` and `y` are the
place of the card, and every other key has the card's own value. Texts are written as JSON texts,
finite numbers as JSON numbers that are read as they were and other numbers as `null`; and two cards
that are written as one text, on one line or on many, have the same texts under all keys but the
coordinates. -/
theorem PlacedCard.members_toObject (placed : PlacedCard) :
    let fields := placed.card.fields
    let object := placed.toObject
    object.map Prod.fst = fields.keys ++ ["x", "y"].filter (fun key => key ∉ fields.keys) ∧
    (object.map Prod.fst).Nodup ∧
    placed.announced = object.length ∧
    object.lookup "x" = some (.number placed.x) ∧
    object.lookup "y" = some (.number placed.y) ∧
    (∀ key, key ≠ "x" → key ≠ "y" → object.lookup key = fields.get? key) ∧
    (∀ member ∈ object, Json.IsWritten member.2 (Json.writeValue member.2)) ∧
    ∀ (other : PlacedCard) (pretty : Bool) (depth : Nat),
      let spacing := if pretty then Json.Spacing.indented else Json.Spacing.compact
      spacing.writeObject depth object = spacing.writeObject depth other.toObject →
      ∀ key, key ≠ "x" → key ≠ "y" →
        (fields.get? key).bind Value.text? = (other.card.fields.get? key).bind Value.text? := by
  refine ⟨placed.map_fst_toObject, placed.nodup_map_fst_toObject, placed.announced_eq_length,
    ?_, ?_, ?_, fun member _ => Json.isWritten_writeValue member.2, ?_⟩
  · rw [lookup_toObject]
    rfl
  · rw [lookup_toObject]
    rfl
  · exact fun key x y => placed.lookup_toObject_of_ne x y
  · intro other pretty depth spacing same key x y
    have indents : spacing.Indents := by
      cases pretty with
      | true => exact Json.Spacing.indents_indented
      | false => exact Json.Spacing.indents_compact
    exact bind_text?_of_writeObject_eq indents same x y

/-- A card that names one coordinate, on its place. -/
def PlacedCard.spelled (x : Value) : PlacedCard where
  card :=
    { fields := .ofList [("front", .text "a"), ("x", x), ("back", .text "b")]
      front := .text "a"
      back := .text "b"
      front_eq := rfl
      back_eq := rfl }
  x := 10
  y := 50
  index := 0
  placement := .auto

/-- Two cards that spell a coordinate in different ways are written as one text. -/
theorem PlacedCard.members_toObject_spelled :
    (spelled (.text "10")).card.fields ≠ (spelled (.number 10)).card.fields ∧
      Json.Spacing.compact.writeObject 0 (spelled (.text "10")).toObject =
        Json.Spacing.compact.writeObject 0 (spelled (.number 10)).toObject ∧
      ((spelled (.text "10")).card.fields.get? "front").bind Value.text? =
        ((spelled (.number 10)).card.fields.get? "front").bind Value.text? := by
  have same : Json.Spacing.compact.writeObject 0 (spelled (.text "10")).toObject =
      Json.Spacing.compact.writeObject 0 (spelled (.number 10)).toObject := rfl
  have texts := (members_toObject (spelled (.text "10"))).2.2.2.2.2.2.2
  refine ⟨fun fields => ?_, same, ?_⟩
  · have entry := congrArg (Fields.get? · "x") fields
    cases entry
  · exact texts (spelled (.number 10)) false 0 same "front" (by decide) (by decide)

end Flashdeck
