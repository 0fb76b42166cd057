import Flashdeck.Card.Fields

/-!
# Cards

A card is a set of fields with something on its front and something on its back. Both faces are
kept beside the fields, with the proof that they are truthy fields of the card.
-/

namespace Flashdeck

/-- A face of a card. -/
inductive Face where
  | front
  | back
deriving DecidableEq, Repr

/-- The key of the field that a face shows. -/
def Face.key : Face → String
  | .front => "front"
  | .back => "back"

/-- Fields that make a card. -/
structure Card where
  fields : Fields
  front : Value
  back : Value
  front_eq : fields.truthy? Face.front.key = some front
  back_eq : fields.truthy? Face.back.key = some back

namespace Card

/-- The card that fields make, or the first face that they leave blank. -/
def ofFields (fields : Fields) : Except Face Card :=
  match front_eq : fields.truthy? Face.front.key with
  | none => .error .front
  | some front =>
    match back_eq : fields.truthy? Face.back.key with
    | none => .error .back
    | some back => .ok { fields, front, back, front_eq, back_eq }

/-- The card that fields make, if they make one. -/
def ofFields? (fields : Fields) : Option Card :=
  (ofFields fields).toOption

/-- The values of `x` and `y`, if the card has both. -/
def position? (card : Card) : Option (Value × Value) :=
  (card.fields.get? "x").bind fun x => (card.fields.get? "y").map fun y => (x, y)

/-- Fields make a card exactly when both faces are truthy, and the card holds these very fields. -/
theorem ofFields_eq_ok_iff {fields : Fields} {card : Card} :
    ofFields fields = .ok card ↔ card.fields = fields := by
  apply Iff.intro
  · intro made
    unfold ofFields at made
    split at made
    · cases made
    · split at made
      · cases made
      · cases made
        rfl
  · intro same
    subst same
    unfold ofFields
    split
    · next missing =>
      rw [card.front_eq] at missing
      cases missing
    · next front front_eq =>
      split
      · next missing =>
        rw [card.back_eq] at missing
        cases missing
      · next back back_eq =>
        have sameFront := front_eq.symm.trans card.front_eq
        have sameBack := back_eq.symm.trans card.back_eq
        cases card
        simp_all

end Card

end Flashdeck
