import Flashdeck.Card.Basic

/-!
# Appearance

How a card looks: what its fields say, over the look that cards have by default.
-/

namespace Flashdeck

/-- The look of a card. Font sizes are in pixels. -/
structure Appearance where
  background : String
  frontSize : Float
  backSize : Float
deriving DecidableEq

namespace Appearance

/-- The look of a card that says nothing about it. -/
def default : Appearance where
  background := "#FF2DD1"
  frontSize := 24
  backSize := 20

/-- A font size that stands for a finite number. -/
def sizeOf? (value : Value) : Option Float :=
  let size := value.toNumber
  if size.isFinite then some size else none

/-- The look of a card. A background that is no text does not count, nor does a font size that is
no finite number. -/
def ofCard (card : Card) : Appearance where
  background := ((card.fields.get? "bg_color").bind Value.text?).getD default.background
  frontSize := ((card.fields.get? "fontSize_front").bind sizeOf?).getD default.frontSize
  backSize := ((card.fields.get? "fontSize_back").bind sizeOf?).getD default.backSize

end Appearance

end Flashdeck
