import Flashdeck.Card.Placed

/-!
# The grid

Cards that do not say where they belong take the slots of a grid, row by row. `layout` gives every
card of a deck its place: first those placed by their own fields, then those on the grid, each
group in the order of the deck.
-/

namespace Flashdeck

/-- A grid of slots on the board. -/
structure Grid where
  startX : Float
  startY : Float
  spacingX : Float
  spacingY : Float
  /-- The number of slots in a row; a grid with none in a row has one. -/
  columns : Nat
deriving DecidableEq

namespace Grid

/-- The grid of a board whose settings name no other. -/
def default : Grid where
  startX := 50
  startY := 50
  spacingX := 350
  spacingY := 450
  columns := 5

/-- The row and the column of a slot, counted from zero. -/
def cell (grid : Grid) (slot : Nat) : Nat × Nat :=
  let columns := max grid.columns 1
  (slot / columns, slot % columns)

/-- The place of a slot. -/
def place (grid : Grid) (slot : Nat) : Float × Float :=
  let (row, column) := grid.cell slot
  (grid.startX + Float.ofNat column * grid.spacingX, grid.startY + Float.ofNat row * grid.spacingY)

end Grid

/-- The place that a card's own fields give it. -/
def Card.ownPlace? (card : Card) : Option (Float × Float) :=
  card.position?.map fun (x, y) => (x.toNumber, y.toNumber)

/-- A card on its own place, if it has one. -/
def placeManually? (card : Card) (index : Nat) : Option PlacedCard :=
  card.ownPlace?.map fun (x, y) => { card, x, y, index, placement := .manual }

/-- A card on a slot of the grid. -/
def Grid.placeCard (grid : Grid) (slot : Nat) (card : Card) (index : Nat) : PlacedCard :=
  { card, x := (grid.place slot).1, y := (grid.place slot).2, index, placement := .auto }

/-- The cards of a deck on the board. -/
def layout (grid : Grid) (cards : List Card) : List PlacedCard :=
  let indexed := cards.zipIdx
  let manual := indexed.filterMap fun (card, index) => placeManually? card index
  let waiting := indexed.filter fun (card, _) => card.ownPlace?.isNone
  manual ++ waiting.zipIdx.map fun ((card, index), slot) => grid.placeCard slot card index

end Flashdeck
