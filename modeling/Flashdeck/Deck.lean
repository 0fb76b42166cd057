import Flashdeck.Board.Basic
import Flashdeck.Card.Appearance

/-!
# Decks

From a script to its cards: the bodies of its blocks, the fields of each body, and of those the
ones that make a card. Blocks without both faces are dropped in silence.
-/

namespace Flashdeck

namespace Settings

/-- The cards that bodies make, in order. -/
def cardsOfBodies (settings : Settings) (bodies : List (List Char)) : List Card :=
  bodies.filterMap fun body => Card.ofFields? (Script.fieldsOfBody settings.escapes body)

/-- The bodies of the blocks of a script. -/
def bodies (settings : Settings) (script : List Char) : List (List Char) :=
  Script.blockBodies settings.blockMode script

/-- The cards of a script, in order. -/
def cards (settings : Settings) (script : List Char) : List Card :=
  settings.cardsOfBodies (settings.bodies script)

/-- The cards of a script on the board. -/
def board (settings : Settings) (script : List Char) : Board :=
  ⟨layout settings.grid (settings.cards script)⟩

end Settings

/-- The text of a script's bytes. -/
def readScript (bytes : List UInt8) : Except Fault (List Char) :=
  (Text.Utf8.decode bytes).mapError Fault.notUtf8

namespace Settings

/-- The cards of a script that is given as bytes. -/
def cardsOfBytes (settings : Settings) (bytes : List UInt8) : Except Fault (List Card) :=
  (readScript bytes).map settings.cards

/-- The cards of a script that was read from a file. -/
def cardsOfFile (settings : Settings) (path : String)
    (content : Except FileFault (List UInt8)) : Except Fault (List Card) :=
  (content.mapError (Fault.unreadable path)).bind settings.cardsOfBytes

end Settings

end Flashdeck
