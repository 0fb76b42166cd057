import Flashdeck.Deck
import Flashdeck.Proofs.EscapePolicy
import Flashdeck.Proofs.Number.Coercion
import Flashdeck.Proofs.Property

/-!
# Numerals and numbers between quotes

A coordinate may be given as a numeral or as a text, and a text is read by rules of its own. On the
digits and dots that make a numeral the two ways of reading agree, also where they denote no number,
so that quotes around a coordinate move no card.

* `Literal.toNumber_value_quoted`: a numeral between quotes stands for the number that it denotes.
* `map_seat_layout`: a layout hangs on the places that its cards have of their own.
* `Value.toNumber_text_and_numeral`: what texts stand for, and how coordinates are given.
-/

namespace Flashdeck

open Text Script Number

/-- The same property, or a coordinate whose numeral was put between quotes. -/
inductive Script.Requoted : Property → Property → Prop
  | same (property : Property) : Requoted property property
  | coordinate {key run : List Char} (coordinate : key = ['x'] ∨ key = ['y']) (ne : run ≠ [])
      (all : ∀ c ∈ run, isNumeralChar c = true) :
      Requoted ⟨key, .numeral run⟩ ⟨key, .quoted run⟩

/-- The place of a card on the board, which card it is and how it came there. -/
def PlacedCard.seat (placed : PlacedCard) : (Float × Float) × Nat × Placement :=
  (placed.place, placed.origin)

/-! ## One literal -/

theorem Text.Escape.decode_of_forall_ne {cs : List Char} (plain : ∀ c ∈ cs, c ≠ '\\') :
    Escape.decode cs = cs := by
  induction cs with
  | nil => exact Escape.decode_nil
  | cons c cs ih =>
    rw [Escape.decode_cons_of_ne (plain c List.mem_cons_self),
      ih fun d mem => plain d (List.mem_cons_of_mem c mem)]

section Run

variable {run : List Char} (all : ∀ c ∈ run, isNumeralChar c = true)

include all

theorem isDigit_or_eq_of_run : ∀ c ∈ run, c.isDigit = true ∨ c = '.' := by
  intro c mem
  have char := all c mem
  rwa [isNumeralChar, Bool.or_eq_true, beq_iff_eq] at char

theorem ne_of_run : ∀ c ∈ run, c ≠ '\\' ∧ c ≠ '"' := by
  intro c mem
  constructor
  · rintro rfl
    exact absurd (all _ mem) (by decide)
  · rintro rfl
    exact absurd (all _ mem) (by decide)

/-- Quotes and escapes do nothing to digits and dots. -/
theorem Script.Literal.value_quoted_run (policy : EscapePolicy) :
    (Literal.quoted run).value policy = .text (String.ofList run) := by
  have tidied : tidy run = run :=
    tidy_of_forall fun c mem => isBlank_eq_false_of_isNumeralChar (all c mem)
  rw [Literal.value, tidied]
  cases policy with
  | decode =>
    rw [EscapePolicy.apply, Escape.decode_of_forall_ne fun c mem => (ne_of_run all c mem).1]
  | raw => rfl

theorem isQuotedContent_run : Lexeme.IsQuotedContent run := by
  induction run with
  | nil => exact .nil
  | cons c run ih =>
    have here := ne_of_run all c List.mem_cons_self
    exact .plain here.2 here.1 (ih fun d mem => all d (List.mem_cons_of_mem c mem))

/-- A numeral between quotes stands for the number that it denotes. -/
theorem Script.Literal.toNumber_value_quoted (ne : run ≠ []) (policy : EscapePolicy) :
    ((Literal.quoted run).value policy).toNumber =
      ((Literal.numeral run).value policy).toNumber := by
  rw [Literal.value_quoted_run all, Value.toNumber, String.toList_ofList,
    ← ofNumeral_eq_coerce ne (isDigit_or_eq_of_run all)]
  rfl

/-- A key with a numeral, and the same with the numeral between quotes. -/
theorem Script.Property.read_numeral_and_quoted {key beforeColon behindColon rest : List Char}
    (ne : run ≠ []) (word : key ≠ [] ∧ ∀ c ∈ key, isWordChar c = true)
    (beforeAll : Blanks beforeColon) (behindAll : Blanks behindColon)
    (stop : ∀ c ∈ rest.head?, isNumeralChar c = false) :
    Property.read (key ++ (beforeColon ++ ':' :: (behindColon ++ (run ++ rest)))) =
        some (⟨key, .numeral run⟩, rest) ∧
      Property.read (key ++ (beforeColon ++ ':' :: (behindColon ++ '"' :: (run ++ '"' :: rest)))) =
        some (⟨key, .quoted run⟩, rest) :=
  ⟨Property.read_eq_some_iff.2 ⟨beforeColon, behindColon, _, word.1, word.2, beforeAll, behindAll,
      rfl, Literal.read_numeral ne all stop⟩,
    Property.read_eq_some_iff.2 ⟨beforeColon, behindColon, _, word.1, word.2, beforeAll, behindAll,
      rfl, Literal.read_quoted (isQuotedContent_run all) rest⟩⟩

end Run

/-! ## The card of a body -/

/-- Values that a key may have without a card being placed elsewhere. -/
def SameUse (key : String) (value value' : Value) : Prop :=
  value = value' ∨ (key = "x" ∨ key = "y") ∧ value.toNumber = value'.toNumber

theorem Script.Requoted.sameUse {property property' : Property}
    (requoted : Requoted property property') (policy : EscapePolicy) :
    (property.entry policy).1 = (property'.entry policy).1 ∧
      SameUse (property.entry policy).1 (property.entry policy).2 (property'.entry policy).2 := by
  cases requoted with
  | same => exact ⟨rfl, .inl rfl⟩
  | coordinate coordinate ne all =>
    refine ⟨rfl, .inr ⟨?_, (Literal.toNumber_value_quoted all ne policy).symm⟩⟩
    rcases coordinate with rfl | rfl
    · exact .inl rfl
    · exact .inr rfl

theorem rel_lookup {key : String} {entries entries' : List (String × Value)}
    (same : List.Forall₂ (fun entry entry' : String × Value =>
      entry.1 = entry'.1 ∧ SameUse entry.1 entry.2 entry'.2) entries entries') :
    Option.Rel (SameUse key) (entries.lookup key) (entries'.lookup key) := by
  induction same with
  | nil => exact .none
  | @cons entry entry' entries entries' here others ih =>
    obtain ⟨name, use⟩ := here
    rw [List.lookup_cons, List.lookup_cons, ← name]
    split
    · next found =>
      rw [beq_iff_eq] at found
      exact .some (found ▸ use)
    · exact ih

/-- Only coordinates are used as numbers. -/
theorem eq_of_rel_sameUse {key : String} (other : ¬ (key = "x" ∨ key = "y"))
    {found found' : Option Value} (same : Option.Rel (SameUse key) found found') :
    found = found' := by
  cases same with
  | none => rfl
  | some use => rw [use.resolve_right fun coordinate => other coordinate.1]

theorem map_toNumber_eq_of_rel {key : String} {found found' : Option Value}
    (same : Option.Rel (SameUse key) found found') :
    found.map Value.toNumber = found'.map Value.toNumber := by
  cases same with
  | none => rfl
  | some use =>
    rcases use with rfl | ⟨-, same⟩
    · rfl
    · rw [Option.map_some, Option.map_some, same]

/-- A card's own place hangs on the numbers that its coordinates stand for. -/
theorem Card.ownPlace?_congr {card card' : Card}
    (x : (card.fields.get? "x").map Value.toNumber = (card'.fields.get? "x").map Value.toNumber)
    (y : (card.fields.get? "y").map Value.toNumber = (card'.fields.get? "y").map Value.toNumber) :
    card.ownPlace? = card'.ownPlace? := by
  have own : ∀ card : Card, card.ownPlace? =
      ((card.fields.get? "x").map Value.toNumber).bind fun x =>
        ((card.fields.get? "y").map Value.toNumber).map fun y => (x, y) := by
    intro card
    rw [ownPlace?, position?]
    cases card.fields.get? "x" with
    | none => rfl
    | some x => cases card.fields.get? "y" <;> rfl
  rw [own, own, x, y]

section Bodies

variable {body body' : List Char}
  (requoted : List.Forall₂ Requoted (Property.pattern.values body) (Property.pattern.values body'))
  (policy : EscapePolicy)

include requoted

theorem rel_get?_fieldsOfBody (key : String) :
    Option.Rel (SameUse key) ((fieldsOfBody policy body).get? key)
      ((fieldsOfBody policy body').get? key) := by
  rw [fieldsOfBody, fieldsOfBody, Fields.get?_ofList, Fields.get?_ofList]
  apply rel_lookup
  rw [List.forall₂_reverse_iff, List.forall₂_map_left_iff, List.forall₂_map_right_iff]
  exact requoted.imp fun property property' same => same.sameUse policy

/-- The faces are no coordinates, so both bodies make a card or neither does. -/
theorem isSome_ofFields?_of_requoted :
    (Card.ofFields? (fieldsOfBody policy body)).isSome =
      (Card.ofFields? (fieldsOfBody policy body')).isSome := by
  have face : ∀ face : Face, (fieldsOfBody policy body).truthy? face.key =
      (fieldsOfBody policy body').truthy? face.key := by
    intro face
    have other : ¬ (face.key = "x" ∨ face.key = "y") := by cases face <;> decide
    rw [Fields.truthy?, Fields.truthy?,
      eq_of_rel_sameUse other (rel_get?_fieldsOfBody requoted policy face.key)]
  rw [Card.isSome_ofFields?, Card.isSome_ofFields?, face, face]

/-- The cards of both bodies have the same place of their own, if they have one. -/
theorem rel_ofFields?_of_requoted :
    Option.Rel (fun card card' : Card => card.ownPlace? = card'.ownPlace?)
      (Card.ofFields? (fieldsOfBody policy body)) (Card.ofFields? (fieldsOfBody policy body')) := by
  have both := isSome_ofFields?_of_requoted requoted policy
  cases first : Card.ofFields? (fieldsOfBody policy body) with
  | none =>
    rw [first, Option.isSome_none, eq_comm, Option.isSome_eq_false_iff, Option.isNone_iff_eq_none]
      at both
    rw [both]
    exact .none
  | some card =>
    rw [first, Option.isSome_some, eq_comm, Option.isSome_iff_exists] at both
    obtain ⟨card', second⟩ := both
    rw [second]
    have x := map_toNumber_eq_of_rel (rel_get?_fieldsOfBody requoted policy "x")
    have y := map_toNumber_eq_of_rel (rel_get?_fieldsOfBody requoted policy "y")
    rw [← Card.fields_of_ofFields?_eq_some first, ← Card.fields_of_ofFields?_eq_some second] at x y
    exact .some (Card.ownPlace?_congr x y)

end Bodies

/-! ## Decks -/

/-- Where the cards of a deck lie, by the places that they have of their own. -/
def Grid.seats (grid : Grid) (own : List (Option (Float × Float))) :
    List ((Float × Float) × Nat × Placement) :=
  own.zipIdx.filterMap (fun entry => entry.1.map fun place => (place, entry.2, .manual)) ++
    (own.zipIdx.filter fun entry => entry.1.isNone).zipIdx.map fun entry =>
      (grid.place entry.2, entry.1.2, .auto)

/-- A layout hangs on the places that its cards have of their own. -/
theorem map_seat_layout (grid : Grid) (cards : List Card) :
    (layout grid cards).map PlacedCard.seat = grid.seats (cards.map Card.ownPlace?) := by
  have manual : ∀ entry : Card × Nat, (placeManually? entry.1 entry.2).map PlacedCard.seat =
      entry.1.ownPlace?.map fun place => (place, entry.2, .manual) := by
    intro entry
    rw [placeManually?, Option.map_map]
    rfl
  rw [layout_eq_append, List.map_append, manualCards, List.map_filterMap, Grid.autoCards,
    List.map_map, waitingCards, Grid.seats]
  simp only [List.zipIdx_map, List.filterMap_map, List.filter_map, List.map_map,
    Function.comp_def, Prod.map_fst, Prod.map_snd, id_eq, manual]
  rfl

/-- Quotes around coordinates move no card of a deck. -/
theorem map_seat_layout_of_requoted (settings : Settings) {bodies bodies' : List (List Char)}
    (requoted : List.Forall₂ (fun body body' => List.Forall₂ Requoted
      (Property.pattern.values body) (Property.pattern.values body')) bodies bodies') :
    (layout settings.grid (settings.cardsOfBodies bodies)).map PlacedCard.seat =
      (layout settings.grid (settings.cardsOfBodies bodies')).map PlacedCard.seat := by
  have each : ∀ ⦃body body' : List Char⦄, List.Forall₂ Requoted (Property.pattern.values body)
      (Property.pattern.values body') →
      Option.Rel (fun card card' : Card => card.ownPlace? = card'.ownPlace?)
        (Card.ofFields? (fieldsOfBody settings.escapes body))
        (Card.ofFields? (fieldsOfBody settings.escapes body')) :=
    fun body body' alike => rel_ofFields?_of_requoted alike settings.escapes
  have cards : List.Forall₂ (fun card card' : Card => card.ownPlace? = card'.ownPlace?)
      (settings.cardsOfBodies bodies) (settings.cardsOfBodies bodies') :=
    List.rel_filterMap each requoted
  have own : (settings.cardsOfBodies bodies).map Card.ownPlace? =
      (settings.cardsOfBodies bodies').map Card.ownPlace? := by
    rw [← List.forall₂_eq_eq_eq, List.forall₂_map_left_iff, List.forall₂_map_right_iff]
    exact cards
  rw [map_seat_layout, map_seat_layout, own]

/-- **What texts stand for, and how coordinates are given.** A text without the mark of a base
stands for zero if nothing but blanks is in it, for an infinity if it is the name of one, for the
double that is read from it if it is a decimal, and for no number otherwise; so the other words for
numbers stand for none. A run of digits and dots is the same as a numeral and as a text, no number
exactly if it has a second dot or no digit, and it makes no difference to the places of cards
whether their coordinates are given as numerals or as these numerals between quotes. -/
theorem Value.toNumber_text_and_numeral :
    (∀ content : String, (∀ base digits, ¬ Marked base (trim isBlank content.toList) digits) →
      let trimmed := trim isBlank content.toList
      let number := (Value.text content).toNumber
      (∀ x, number = x ↔ Denotes trimmed x) ∧
      (number.isNaN = true ↔ trimmed ≠ [] ∧ (∀ x, ¬ IsInfinity trimmed x) ∧
        ∀ d, ¬ IsDecimal trimmed d) ∧
      (∀ d, IsDecimal trimmed d → ofText? trimmed = some number) ∧
      ((ofWord? (readSign trimmed).2).isSome = true → (∀ x, ¬ IsInfinity trimmed x) →
        number.isNaN = true)) ∧
    (∀ run : List Char, run ≠ [] → (∀ c ∈ run, isNumeralChar c = true) →
      ofNumeral run = (Value.text (String.ofList run)).toNumber ∧
      ((ofNumeral run).isNaN = true ↔ 2 ≤ run.count '.' ∨ ∀ c ∈ run, c.isDigit = false) ∧
      (∀ policy : EscapePolicy, ((Literal.quoted run).value policy).toNumber =
        ((Literal.numeral run).value policy).toNumber) ∧
      ∀ key beforeColon behindColon rest : List Char,
        (key ≠ [] ∧ ∀ c ∈ key, isWordChar c = true) → Blanks beforeColon → Blanks behindColon →
        (∀ c ∈ rest.head?, isNumeralChar c = false) →
        Property.read (key ++ (beforeColon ++ ':' :: (behindColon ++ (run ++ rest)))) =
            some (⟨key, .numeral run⟩, rest) ∧
          Property.read
              (key ++ (beforeColon ++ ':' :: (behindColon ++ '"' :: (run ++ '"' :: rest)))) =
            some (⟨key, .quoted run⟩, rest)) ∧
    ∀ (settings : Settings) (bodies bodies' : List (List Char)),
      List.Forall₂ (fun body body' => List.Forall₂ Requoted
        (Property.pattern.values body) (Property.pattern.values body')) bodies bodies' →
      (layout settings.grid (settings.cardsOfBodies bodies)).map PlacedCard.seat =
        (layout settings.grid (settings.cardsOfBodies bodies')).map PlacedCard.seat := by
  refine ⟨fun content unmarked => ?_, fun run ne all => ?_,
    fun settings bodies bodies' requoted => map_seat_layout_of_requoted settings requoted⟩
  · have denotes := (ofTrimmed_eq_iff_denotes unmarked).1 rfl
    refine ⟨fun x => ofTrimmed_eq_iff_denotes unmarked, denotes.isNaN_iff, fun d spelled => ?_,
      isNaN_ofTrimmed_of_ofWord? unmarked⟩
    rw [ofText?_eq_of_isDecimal spelled, Value.toNumber, coerce,
      ofTrimmed_eq_of_isDecimal unmarked spelled]
  · have chars := isDigit_or_eq_of_run all
    refine ⟨?_, isNaN_ofNumeral_iff ne chars, Literal.toNumber_value_quoted all ne,
      fun key beforeColon behindColon rest word beforeAll behindAll stop =>
        Property.read_numeral_and_quoted all ne word beforeAll behindAll stop⟩
    rw [Value.toNumber, String.toList_ofList, ofNumeral_eq_coerce ne chars]

/-- A body with its coordinates as numerals, `front: "a", back: "b", x: 1.5, y: .5`, and the same
with quotes around them. -/
def numeralBody : List Char :=
  "front: \"a\", back: \"b\", x: 1.5, y: .5".toList

def quotedBody : List Char :=
  "front: \"a\", back: \"b\", x: \"1.5\", y: \".5\"".toList

theorem requoted_numeralBody :
    List.Forall₂ Requoted (Property.pattern.values numeralBody)
      (Property.pattern.values quotedBody) := by
  have numerals : Property.pattern.values numeralBody =
      [⟨"front".toList, .quoted ['a']⟩, ⟨"back".toList, .quoted ['b']⟩,
        ⟨['x'], .numeral ['1', '.', '5']⟩, ⟨['y'], .numeral ['.', '5']⟩] := by decide +kernel
  have quoted : Property.pattern.values quotedBody =
      [⟨"front".toList, .quoted ['a']⟩, ⟨"back".toList, .quoted ['b']⟩,
        ⟨['x'], .quoted ['1', '.', '5']⟩, ⟨['y'], .quoted ['.', '5']⟩] := by decide +kernel
  rw [numerals, quoted]
  exact .cons (.same _) (.cons (.same _)
    (.cons (.coordinate (.inl rfl) (by decide) (List.all_eq_true.1 rfl))
      (.cons (.coordinate (.inr rfl) (by decide) (List.all_eq_true.1 rfl)) .nil)))

theorem toNumber_spellings :
    (Value.text " nan ").toNumber.isNaN = true ∧ (ofNumeral "1.2.3".toList).isNaN = true ∧
      (layout .default (Settings.cardsOfBodies .default [numeralBody])).map PlacedCard.seat =
        (layout .default (Settings.cardsOfBodies .default [quotedBody])).map PlacedCard.seat := by
  have trimmed : trim isBlank " nan ".toList = ['n', 'a', 'n'] := by decide +kernel
  have unmarked : ∀ base digits, ¬ Marked base (trim isBlank " nan ".toList) digits := by
    rw [trimmed]
    rintro base digits ⟨mark, -, same⟩
    cases same
  have noName : ∀ x, ¬ IsInfinity (trim isBlank " nan ".toList) x := by
    intro x name
    have letter : 'I' ∈ trim isBlank " nan ".toList := name.mem_letter
    rw [trimmed] at letter
    exact absurd letter (by decide)
  refine ⟨?_, ?_, ?_⟩
  · exact (Value.toNumber_text_and_numeral.1 " nan " unmarked).2.2.2 (by rw [trimmed]; rfl) noName
  · exact (Value.toNumber_text_and_numeral.2.1 "1.2.3".toList (by decide)
      (List.all_eq_true.1 (by decide +kernel))).2.1.2 (.inl (by decide))
  · exact Value.toNumber_text_and_numeral.2.2 .default _ _ (.cons requoted_numeralBody .nil)

end Flashdeck
