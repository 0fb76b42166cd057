import Mathlib.Data.List.Forall2
import Flashdeck.Command.Run
import Flashdeck.Proofs.Card
import Flashdeck.Proofs.Layout

/-!
# What the escape policy decides

Whether escapes are decoded decides the texts of quoted literals and nothing else. Which literals a
body has, and which of them counts for a key, is settled before any value is made; and as decoding
empties no text, a value is truthy under both policies or under neither. So the same bodies make a
card, the cards have the same keys and come to their places in the same way, and a check counts the
same.

* `get?_fieldsOfBody`, `keys_fieldsOfBody`: the fields of a body, by its literals.
* `twinFields_fieldsOfBody`: the fields of one body under the two policies.
* `map_origin_layout_congr`: how the cards of a deck are placed.
* `Settings.cards_twins_and_check_eq`: a whole deck under the two policies.
-/

namespace Flashdeck

open Text

namespace Script

/-- The literals of the properties in a body, each with its key. -/
def literalsOfBody (body : List Char) : List (String × Literal) :=
  (Property.pattern.values body).map fun property =>
    (String.ofList property.key, property.literal)

/-- The literal that counts for a key: that of the last property with this key. -/
def literalOf? (body : List Char) (key : String) : Option Literal :=
  (literalsOfBody body).reverse.lookup key

/-- The values of one literal, its escapes kept in the first one and decoded in the second. -/
inductive TwinValues : Literal → Value → Value → Prop
  | backtick {content : List Char} (text : String) :
      TwinValues (.backtick content) (.text text) (.text text)
  | quoted {content text : List Char} (empty : Escape.decode text = [] ↔ text = []) :
      TwinValues (.quoted content) (.text (String.ofList text))
        (.text (String.ofList (Escape.decode text)))
  | numeral {digits : List Char} (amount : Float) :
      TwinValues (.numeral digits) (.number amount) (.number amount)

/-- The fields of `body`, escapes kept in the first ones and decoded in the second: the same keys in
the same order, and for each key the values of the literal that counts for it. -/
structure TwinFields (body : List Char) (raw decoded : Fields) : Prop where
  keys : raw.keys = decoded.keys
  values : ∀ (key : String) (value : Value), raw.get? key = some value →
    ∃ literal value', literalOf? body key = some literal ∧ decoded.get? key = some value' ∧
      TwinValues literal value value'

/-! ## The fields of a body -/

theorem twinValues_value (literal : Literal) :
    TwinValues literal (literal.value .raw) (literal.value .decode) := by
  cases literal with
  | backtick content => exact .backtick _
  | quoted content => exact .quoted Escape.decode_eq_nil_iff
  | numeral digits => exact .numeral _

theorem isTruthy_text_ofList_iff {cs : List Char} :
    (Value.text (String.ofList cs)).isTruthy = true ↔ cs ≠ [] := by
  rw [Value.isTruthy, bne_iff_ne, ne_eq, String.ofList_eq_empty_iff]

theorem TwinValues.isTruthy_eq {literal : Literal} {value value' : Value}
    (twins : TwinValues literal value value') : value.isTruthy = value'.isTruthy := by
  cases twins with
  | backtick text => rfl
  | quoted empty =>
    rw [Bool.eq_iff_iff, isTruthy_text_ofList_iff, isTruthy_text_ofList_iff]
    exact not_congr empty.symm
  | numeral amount => rfl

theorem fieldsOfBody_eq_ofList (policy : EscapePolicy) (body : List Char) :
    fieldsOfBody policy body =
      Fields.ofList ((literalsOfBody body).map fun entry => (entry.1, entry.2.value policy)) := by
  rw [fieldsOfBody, literalsOfBody, List.map_map]
  rfl

theorem get?_fieldsOfBody (policy : EscapePolicy) (body : List Char) (key : String) :
    (fieldsOfBody policy body).get? key = (literalOf? body key).map (Literal.value policy) := by
  rw [fieldsOfBody_eq_ofList, Fields.get?_ofList, literalOf?, ← List.map_reverse]
  exact Fields.lookup_map (fun _ => Literal.value policy) _ _

theorem keys_fieldsOfBody (policy policy' : EscapePolicy) (body : List Char) :
    (fieldsOfBody policy body).keys = (fieldsOfBody policy' body).keys := by
  rw [fieldsOfBody_eq_ofList, fieldsOfBody_eq_ofList]
  apply Fields.keys_ofList_congr
  rw [List.map_map, List.map_map]
  rfl

theorem twinFields_fieldsOfBody (body : List Char) :
    TwinFields body (fieldsOfBody .raw body) (fieldsOfBody .decode body) where
  keys := keys_fieldsOfBody .raw .decode body
  values := by
    intro key value found
    rw [get?_fieldsOfBody] at found
    obtain ⟨literal, counts, rfl⟩ := Option.map_eq_some_iff.1 found
    refine ⟨literal, literal.value .decode, counts, ?_, twinValues_value literal⟩
    rw [get?_fieldsOfBody, counts, Option.map_some]

/-- No value turns blank or stops being so. -/
theorem isSome_truthy?_fieldsOfBody (body : List Char) (key : String) :
    ((fieldsOfBody .raw body).truthy? key).isSome =
      ((fieldsOfBody .decode body).truthy? key).isSome := by
  rw [Fields.truthy?, Fields.truthy?, get?_fieldsOfBody, get?_fieldsOfBody]
  cases literalOf? body key with
  | none => rfl
  | some literal =>
    have truthy := (twinValues_value literal).isTruthy_eq
    rw [Option.map_some, Option.map_some, Option.filter_some, Option.filter_some, truthy]
    split <;> rfl

end Script

/-! ## Cards -/

namespace Card

theorem fields_of_ofFields?_eq_some {fields : Fields} {card : Card}
    (made : ofFields? fields = some card) : card.fields = fields := by
  unfold ofFields? at made
  cases result : ofFields fields with
  | error face =>
    rw [result] at made
    cases made
  | ok other =>
    rw [result] at made
    cases made
    exact ofFields_eq_ok_iff.1 result

end Card

namespace Script

/-- The same bodies make a card. -/
theorem isSome_ofFields?_fieldsOfBody (body : List Char) :
    (Card.ofFields? (fieldsOfBody .raw body)).isSome =
      (Card.ofFields? (fieldsOfBody .decode body)).isSome := by
  rw [Card.isSome_ofFields?, Card.isSome_ofFields?, isSome_truthy?_fieldsOfBody,
    isSome_truthy?_fieldsOfBody]

/-- Two cards that one of the bodies makes under the two policies. -/
def Twins (bodies : List (List Char)) (card card' : Card) : Prop :=
  ∃ body ∈ bodies, TwinFields body card.fields card'.fields

theorem rel_ofFields?_fieldsOfBody {body : List Char} {bodies : List (List Char)}
    (mem : body ∈ bodies) : Option.Rel (Twins bodies) (Card.ofFields? (fieldsOfBody .raw body))
      (Card.ofFields? (fieldsOfBody .decode body)) := by
  have both := isSome_ofFields?_fieldsOfBody body
  cases raw : Card.ofFields? (fieldsOfBody .raw body) with
  | none =>
    cases decoded : Card.ofFields? (fieldsOfBody .decode body) with
    | none => exact .none
    | some card' =>
      rw [raw, decoded] at both
      cases both
  | some card =>
    cases decoded : Card.ofFields? (fieldsOfBody .decode body) with
    | none =>
      rw [raw, decoded] at both
      cases both
    | some card' =>
      refine .some ⟨body, mem, ?_⟩
      rw [Card.fields_of_ofFields?_eq_some raw, Card.fields_of_ofFields?_eq_some decoded]
      exact twinFields_fieldsOfBody body

/-- The cards of a script under the two policies, one by one. -/
theorem forall₂_cards (mode : BlockMode) (grid : Grid) (script : List Char) :
    List.Forall₂ (Twins (blockBodies mode script)) (Settings.cards ⟨mode, .raw, grid⟩ script)
      (Settings.cards ⟨mode, .decode, grid⟩ script) := by
  have each : ∀ ⦃body body' : List Char⦄, body ∈ blockBodies mode script ∧ body' = body →
      Option.Rel (Twins (blockBodies mode script)) (Card.ofFields? (fieldsOfBody .raw body))
        (Card.ofFields? (fieldsOfBody .decode body')) := by
    intro body body' found
    obtain ⟨mem, rfl⟩ := found
    exact rel_ofFields?_fieldsOfBody mem
  exact List.rel_filterMap each (List.forall₂_same.2 fun body mem => ⟨mem, rfl⟩)

end Script

/-! ## Places -/

theorem Script.TwinFields.isSome_get? {body : List Char} {raw decoded : Fields}
    (twins : TwinFields body raw decoded) (key : String) :
    (raw.get? key).isSome = (decoded.get? key).isSome := by
  rw [Bool.eq_iff_iff, Fields.isSome_get?_iff, Fields.isSome_get?_iff, twins.keys]

/-- Twins are placed in the same way, though perhaps not on the same place. -/
theorem Script.Twins.isSome_ownPlace? {bodies : List (List Char)} {card card' : Card}
    (twins : Twins bodies card card') : card.ownPlace?.isSome = card'.ownPlace?.isSome := by
  obtain ⟨body, -, fields⟩ := twins
  rw [Card.isSome_ownPlace?, Card.isSome_ownPlace?, fields.isSome_get?, fields.isSome_get?]

/-- Twins come to their places in the same way. -/
theorem map_origin_layout_congr (grid : Grid) {bodies : List (List Char)} {cards cards' : List Card}
    (twins : List.Forall₂ (Script.Twins bodies) cards cards') :
    (layout grid cards).map PlacedCard.origin = (layout grid cards').map PlacedCard.origin := by
  have placed : cards.map (fun card => card.ownPlace?.isSome) =
      cards'.map fun card => card.ownPlace?.isSome := by
    induction twins with
    | nil => rfl
    | cons here others ih => rw [List.map_cons, List.map_cons, here.isSome_ownPlace?, ih]
  rw [map_origin_layout, map_origin_layout, placed]

/-! ## A check -/

namespace Command

/-- A check counts the same under both policies. -/
theorem ofScript_raw_eq_decode (mode : Script.BlockMode) (grid : Grid) (script : List Char) :
    Counts.ofScript ⟨mode, .raw, grid⟩ script = Counts.ofScript ⟨mode, .decode, grid⟩ script := by
  have cards := (Script.forall₂_cards mode grid script).length_eq
  rw [Counts.ofScript, Counts.ofScript, Counts.mk.injEq]
  exact ⟨rfl, cards⟩

theorem run_check_raw_eq_decode (mode : Option Script.BlockMode) (source : Source)
    (lookup : String → Option String) (standardInput : List UInt8)
    (readFile : String → Except FileFault (List UInt8)) :
    (Invocation.mk mode (some .raw) .check source).run lookup standardInput readFile =
      (Invocation.mk mode (some .decode) .check source).run lookup standardInput readFile := by
  unfold Invocation.run Invocation.settings
  cases Settings.load lookup with
  | error fault => rfl
  | ok loaded =>
    have counts := ofScript_raw_eq_decode (mode.getD loaded.blockMode) loaded.grid
    have scripts : (Invocation.mk mode (some .raw) .check source).script standardInput readFile =
      (Invocation.mk mode (some .decode) .check source).script standardInput readFile := rfl
    simp only [Except.mapError, Except.map, scripts]
    cases (Invocation.mk mode (some .decode) .check source).script standardInput readFile with
    | error fault => rfl
    | ok script => simp only [Action.perform, Option.getD_some, counts]

end Command

/-! ## A deck under the two policies -/

/-- **The escape policy changes the texts of quoted literals and nothing else.** A deck has as many
cards under one policy as under the other, made of the same bodies; card by card the keys and their
order, the numbers and the texts between backticks are the same, and each text between double quotes
is decoded. The cards come to their places in the same way, and a check prints and returns the
same. -/
theorem Settings.cards_twins_and_check_eq (mode : Script.BlockMode) (grid : Grid)
    (script : List Char) :
    let raw : Settings := ⟨mode, .raw, grid⟩
    let decoded : Settings := ⟨mode, .decode, grid⟩
    List.Forall₂ (Script.Twins (Script.blockBodies mode script)) (raw.cards script)
        (decoded.cards script) ∧
      (∀ body : List Char, (Card.ofFields? (Script.fieldsOfBody .raw body)).isSome =
        (Card.ofFields? (Script.fieldsOfBody .decode body)).isSome) ∧
      (raw.board script).cards.map PlacedCard.origin =
        (decoded.board script).cards.map PlacedCard.origin ∧
      ∀ (option : Option Script.BlockMode) (source : Command.Source)
        (lookup : String → Option String) (standardInput : List UInt8)
        (readFile : String → Except FileFault (List UInt8)),
        (Command.Invocation.mk option (some .raw) .check source).run lookup standardInput readFile =
          (Command.Invocation.mk option (some .decode) .check source).run lookup standardInput
            readFile := by
  have twins := Script.forall₂_cards mode grid script
  exact ⟨twins, Script.isSome_ofFields?_fieldsOfBody, map_origin_layout_congr grid twins,
    Command.run_check_raw_eq_decode⟩

end Flashdeck
