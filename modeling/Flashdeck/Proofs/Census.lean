import Mathlib.Data.List.Perm.Basic
import Flashdeck.Proofs.Board
import Flashdeck.Proofs.Bytes
import Flashdeck.Proofs.EscapePolicy
import Flashdeck.Proofs.Json.Objects

/-!
# What becomes of the blocks of a script

Every block of a script either makes a card or is dropped, and which of the two is decided by its
own fields: both faces must have something to show. The cards keep the order of their blocks and the
fields that were read from them. A check counts blocks and cards apart from each other, and still
its counts fit; a compiled document has an object for each card, with a layout and without one; and
a board holds the cards of the script, each once, wherever they are dragged.

* `Settings.map_fields_cards`: the cards of a script, by the fields of its blocks.
* `Settings.length_cards_add_lacking`: each block is counted once.
* `Board.map_card_dragAll`, `perm_map_card_layout`: the cards on a board.
* `Command.Action.exists_perform_compile`: the objects of a compiled document.
* `Settings.blocks_accounted`: the script, the commands and the board at once.
-/

namespace Flashdeck

/-! ## Faces -/

/-- The value has something to show: it is a text that is not empty, or a number that is neither
zero nor NaN. -/
inductive Value.Shows : Value → Prop
  | text {content : String} (some : content ≠ "") : Shows (.text content)
  | number {amount : Float} (nonzero : (amount == 0) = false) (some : amount.isNaN = false) :
      Shows (.number amount)

theorem Value.isTruthy_iff_shows {value : Value} : value.isTruthy = true ↔ value.Shows := by
  cases value with
  | text content =>
    rw [isTruthy, bne_iff_ne]
    exact ⟨.text, fun shows => by cases shows; assumption⟩
  | number amount =>
    rw [isTruthy, Bool.and_eq_true, Bool.not_eq_true', bne, Bool.not_eq_true']
    exact ⟨fun both => .number both.1 both.2, fun shows => by cases shows; exact ⟨‹_›, ‹_›⟩⟩

/-- Both faces are there and have something to show. -/
def Fields.Complete (fields : Fields) : Prop :=
  ∀ face : Face, ∃ value, fields.get? face.key = some value ∧ value.Shows

theorem Fields.isSome_truthy?_iff {fields : Fields} {key : String} :
    (fields.truthy? key).isSome = true ↔
      ∃ value, fields.get? key = some value ∧ value.Shows := by
  rw [truthy?, Option.isSome_iff_exists]
  refine exists_congr fun value => ?_
  rw [Option.filter_eq_some_iff, Value.isTruthy_iff_shows]

theorem Fields.isSome_ofFields?_iff_complete {fields : Fields} :
    (Card.ofFields? fields).isSome = true ↔ fields.Complete := by
  rw [Card.isSome_ofFields?, Bool.and_eq_true, isSome_truthy?_iff, isSome_truthy?_iff]
  apply Iff.intro
  · intro both face
    cases face with
    | front => exact both.1
    | back => exact both.2
  · intro complete
    exact ⟨complete .front, complete .back⟩

instance (fields : Fields) : Decidable fields.Complete :=
  decidable_of_iff _ Fields.isSome_ofFields?_iff_complete

/-- The value that a card shows on a face. -/
def Card.shown (card : Card) : Face → Value
  | .front => card.front
  | .back => card.back

/-- A card shows its own fields, and never an empty face. -/
theorem Card.get?_eq_shown (card : Card) (face : Face) :
    card.fields.get? face.key = some (card.shown face) ∧ (card.shown face).Shows := by
  have truthy : card.fields.truthy? face.key = some (card.shown face) := by
    cases face with
    | front => exact card.front_eq
    | back => exact card.back_eq
  obtain ⟨own, shows⟩ := Option.filter_eq_some_iff.1 truthy
  exact ⟨own, Value.isTruthy_iff_shows.1 shows⟩

/-- Fields that are complete make a card of themselves, and no others make one. -/
theorem Card.map_fields_ofFields? (fields : Fields) :
    (ofFields? fields).map Card.fields = Option.guard (fun fields => fields.Complete) fields := by
  have complete : (ofFields? fields).isSome = true ↔ fields.Complete :=
    Fields.isSome_ofFields?_iff_complete
  cases made : ofFields? fields with
  | none =>
    rw [made] at complete
    rw [Option.guard, if_neg]
    · rfl
    · simpa using complete
  | some card =>
    rw [made] at complete
    rw [Option.guard, if_pos]
    · exact congrArg some (fields_of_ofFields?_eq_some made)
    · simpa using complete

/-! ## The cards of a script -/

namespace Settings

/-- The fields of the blocks of a script, in order. -/
def blockFields (settings : Settings) (script : List Char) : List Fields :=
  (settings.bodies script).map (Script.fieldsOfBody settings.escapes)

/-- The cards of a script are made of the complete ones among the fields of its blocks. -/
theorem map_fields_cards (settings : Settings) (script : List Char) :
    (settings.cards script).map Card.fields =
      (settings.blockFields script).filter fun fields => fields.Complete := by
  rw [cards, cardsOfBodies, List.map_filterMap, ← List.filterMap_eq_filter, blockFields,
    List.filterMap_map]
  congr 1
  funext body
  exact Card.map_fields_ofFields? _

/-- The number of blocks that lack a face. -/
def lacking (settings : Settings) (script : List Char) : Nat :=
  (settings.blockFields script).countP fun fields => ¬ fields.Complete

/-- Each block is a card or lacks a face. -/
theorem length_cards_add_lacking (settings : Settings) (script : List Char) :
    (settings.cards script).length + settings.lacking script =
      (settings.bodies script).length := by
  have cards := congrArg List.length (settings.map_fields_cards script)
  have blocks : (settings.blockFields script).length = (settings.bodies script).length :=
    List.length_map _
  rw [List.length_map, ← List.countP_eq_length_filter] at cards
  rw [cards, ← blocks, List.length_eq_countP_add_countP (fun fields => decide fields.Complete),
    lacking]
  simp

end Settings

/-! ## The cards on a board -/

/-- A layout holds the cards of the deck, each once. -/
theorem perm_map_card_layout (grid : Grid) (cards : List Card) :
    ((layout grid cards).map PlacedCard.card).Perm cards := by
  have own : (layout grid cards).map (fun placed => cards[placed.index]?) =
      ((layout grid cards).map PlacedCard.card).map some := by
    rw [List.map_map]
    apply List.map_congr_left
    intro placed mem
    exact (laidOut_groups grid cards).unchanged placed mem
  have whole : (List.range cards.length).map (fun index => cards[index]?) = cards.map some := by
    apply List.ext_getElem?
    intro index
    by_cases inside : index < cards.length <;> simp [inside]
  have indices := (perm_map_index_layout grid cards).map fun index => cards[index]?
  rw [List.map_map] at indices
  have somes : (((layout grid cards).map PlacedCard.card).map some).Perm (cards.map some) := by
    rw [← own, ← whole]
    exact indices
  exact (List.map_perm_map_iff (Option.some_injective Card)).1 somes

theorem length_layout (grid : Grid) (cards : List Card) :
    (layout grid cards).length = cards.length := by
  rw [← (perm_map_card_layout grid cards).length_eq, List.length_map]

/-- A drag changes no card but for its place. -/
theorem Board.map_card_dragAll (board : Board) (requests : List Drag) :
    (board.dragAll requests).2.cards.map PlacedCard.card = board.cards.map PlacedCard.card := by
  apply List.ext_getElem?
  intro position
  have here := board.get?_dragAll requests position
  rw [Board.get?, Board.get?] at here
  rw [List.getElem?_map, List.getElem?_map, here, Option.map_map]
  congr 1
  funext placed
  rw [Function.comp_apply, PlacedCard.moveAll_eq]

/-! ## The commands -/

namespace Command

/-- The counts of a report fit, since a block makes one card at most. -/
theorem Counts.dropped_ofScript (settings : Settings) (script : List Char) :
    (ofScript settings script).dropped = settings.lacking script := by
  have whole := settings.length_cards_add_lacking script
  rw [dropped, ofScript, ← whole]
  exact Nat.add_sub_cancel_left _ _

theorem Action.perform_check (settings : Settings) (script : List Char) :
    check.perform settings script =
      { code := if 0 < settings.lacking script then 1 else 0
        output := "blocks: " ++ toString (settings.bodies script).length ++ ", cards: " ++
          toString (settings.cards script).length ++ ", dropped: " ++
          toString (settings.lacking script) ++ "\n"
        errors := "" } := by
  have code : (if settings.lacking script = 0 then 0 else 1) =
      if 0 < settings.lacking script then 1 else 0 := by
    cases settings.lacking script with
    | zero => rfl
    | succ count => rfl
  rw [perform, Counts.report, Counts.dropped_ofScript, code]
  rfl

/-- A compiled document has an object for each card, whether or not the cards are laid out. -/
theorem Action.exists_perform_compile (settings : Settings) (script : List Char)
    (placed pretty : Bool) :
    ∃ objects : List Json.Object, objects.length = (settings.cards script).length ∧
      (compile placed pretty).perform settings script = .success (String.ofList
        ((if pretty then Json.Spacing.indented else Json.Spacing.compact).writeList objects) ++
          "\n") := by
  refine ⟨_, ?_, rfl⟩
  cases placed with
  | true =>
    rw [if_pos rfl, List.length_map]
    exact length_layout settings.grid (settings.cards script)
  | false =>
    rw [if_neg Bool.false_ne_true, List.length_map]

theorem Action.countObjects_perform_compile (settings : Settings) (script : List Char)
    (placed pretty : Bool) :
    Json.countObjects ((compile placed pretty).perform settings script).output.toList =
      (settings.cards script).length := by
  obtain ⟨objects, length, run⟩ := exists_perform_compile settings script placed pretty
  have plain : (if pretty then Json.Spacing.indented else Json.Spacing.compact).IsPlain := by
    cases pretty with
    | true => exact Json.Spacing.isPlain_indented
    | false => exact Json.Spacing.isPlain_compact
  have ending : Json.countObjects "\n".toList = 0 := by decide
  rw [run, Outcome.success, String.toList_append, String.toList_ofList,
    Json.countObjects_writeList_append plain, length, ending, Nat.add_zero]

end Command

/-- **No card is lost or made up.** The cards of a script are made, in order, of the fields of those
of its blocks that have something to show on both faces, and each of the other blocks is counted as
dropped. A check of the script prints these numbers, and its code tells whether any was dropped; a
compiled document, with places or without, has as many objects as there are cards; and the cards
shown on a board, behind whatever drags, are those of the script, each once, with both their faces. -/
theorem Settings.blocks_accounted (settings : Settings) (script : List Char) :
    (settings.cards script).map Card.fields =
        (settings.blockFields script).filter (fun fields => fields.Complete) ∧
    (settings.cards script).length + settings.lacking script =
        (settings.bodies script).length ∧
    (∀ (invocation : Command.Invocation) (lookup : String → Option String)
      (standardInput : List UInt8) (readFile : String → Except FileFault (List UInt8)),
      invocation.settings lookup = .ok settings →
      invocation.script standardInput readFile = .ok script →
      (invocation.action = .check →
        invocation.run lookup standardInput readFile =
          { code := if 0 < settings.lacking script then 1 else 0
            output := "blocks: " ++ toString (settings.bodies script).length ++ ", cards: " ++
              toString (settings.cards script).length ++ ", dropped: " ++
              toString (settings.lacking script) ++ "\n"
            errors := "" }) ∧
      ∀ placed pretty : Bool, invocation.action = .compile placed pretty →
        Json.countObjects (invocation.run lookup standardInput readFile).output.toList =
          (settings.cards script).length ∧
        ∃ objects : List Json.Object, objects.length = (settings.cards script).length ∧
          invocation.run lookup standardInput readFile = .success (String.ofList
            ((if pretty then Json.Spacing.indented else Json.Spacing.compact).writeList objects) ++
              "\n")) ∧
    (∀ card ∈ settings.cards script, ∀ face : Face,
      card.fields.get? face.key = some (card.shown face) ∧ (card.shown face).Shows) ∧
    ∀ (grid : Grid) (requests : List Drag),
      (((⟨layout grid (settings.cards script)⟩ : Board).dragAll requests).2.cards.map
        PlacedCard.card).Perm (settings.cards script) := by
  refine ⟨settings.map_fields_cards script, settings.length_cards_add_lacking script, ?_,
    fun card _ face => card.get?_eq_shown face, fun grid requests => ?_⟩
  · intro invocation lookup standardInput readFile loaded read
    rw [Command.Invocation.run_eq_perform loaded read]
    refine ⟨fun check => ?_, fun placed pretty compile => ?_⟩
    · rw [check]
      exact Command.Action.perform_check settings script
    · rw [compile]
      exact ⟨Command.Action.countObjects_perform_compile settings script placed pretty,
        Command.Action.exists_perform_compile settings script placed pretty⟩
  · rw [Board.map_card_dragAll]
    exact perm_map_card_layout grid (settings.cards script)

end Flashdeck
