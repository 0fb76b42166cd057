import Flashdeck.Board.Grid
import Flashdeck.Fault

/-!
# The board

Placed cards that can be dragged. A drag adds to the place of one card and leaves all else as it
was; a drag of a card that is not there changes nothing.
-/

namespace Flashdeck

/-- The cards on a board, by position. -/
structure Board where
  cards : List PlacedCard

/-- A request to move the card at a position by a distance. -/
structure Drag where
  position : Nat
  dx : Float
  dy : Float
deriving DecidableEq

/-- The card moved by a distance. -/
def PlacedCard.move (placed : PlacedCard) (dx dy : Float) : PlacedCard :=
  { placed with x := placed.x + dx, y := placed.y + dy }

namespace Board

/-- A board without cards. -/
def empty : Board := ⟨[]⟩

/-- The number of cards on the board. -/
def size (board : Board) : Nat :=
  board.cards.length

def isEmpty (board : Board) : Bool :=
  board.cards.isEmpty

/-- The card at a position. -/
def get? (board : Board) (position : Nat) : Option PlacedCard :=
  board.cards[position]?

/-- The places of the cards. -/
def places (board : Board) : List (Float × Float) :=
  board.cards.map PlacedCard.place

/-- Drags a card: its new place, or why there is none, and the board behind the drag. -/
def drag (board : Board) (request : Drag) : Except Fault (Float × Float) × Board :=
  match board.get? request.position with
  | none => (.error (.noSuchCard request.position board.size), board)
  | some card =>
    let moved := card.move request.dx request.dy
    (.ok moved.place, ⟨board.cards.set request.position moved⟩)

/-- Drags one card after the other: what each drag gave, and the board behind the last. -/
def dragAll (board : Board) : List Drag → List (Except Fault (Float × Float)) × Board
  | [] => ([], board)
  | request :: requests =>
    let (reply, board) := board.drag request
    let (replies, board) := board.dragAll requests
    (reply :: replies, board)

end Board

end Flashdeck
