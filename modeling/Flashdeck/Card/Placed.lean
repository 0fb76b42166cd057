import Flashdeck.Card.Basic
import Flashdeck.Json

/-!
# Placed cards

A card with a place on the board. As JSON it is the card's fields with the place in them: `x` and
`y` are replaced where the card has them and follow the other fields where it does not.
-/

namespace Flashdeck

/-- How a card came to its place. -/
inductive Placement where
  /-- By its own fields. -/
  | manual
  /-- By a slot of the grid. -/
  | auto
deriving DecidableEq, Repr

/-- A card with a place on the board. -/
structure PlacedCard where
  card : Card
  x : Float
  y : Float
  /-- The number of cards before this one in the deck. -/
  index : Nat
  placement : Placement

namespace PlacedCard

/-- The place of the card. -/
def place (placed : PlacedCard) : Float × Float :=
  (placed.x, placed.y)

/-- The coordinates as fields. -/
def coordinates (placed : PlacedCard) : Json.Object :=
  [("x", .number placed.x), ("y", .number placed.y)]

/-- The card as an object: its fields with its place. -/
def toObject (placed : PlacedCard) : Json.Object :=
  let fields := placed.card.fields
  fields.entries.map (fun entry =>
      (entry.1, (placed.coordinates.lookup entry.1).getD entry.2)) ++
    placed.coordinates.filter fun coordinate => !fields.contains coordinate.1

/-- The number of members of the object, as a writer is told before the first of them. -/
def announced (placed : PlacedCard) : Nat :=
  let fields := placed.card.fields
  fields.size + ["x", "y"].countP fun key => !fields.contains key

end PlacedCard

end Flashdeck
