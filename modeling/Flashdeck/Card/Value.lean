import Flashdeck.Number.Coercion
import Flashdeck.Number.Format

/-!
# Values

The value of a card's field: a text or a number.
-/

namespace Flashdeck

/-- The value of a field. -/
inductive Value where
  | text (content : String)
  /-- A number, or not a number where a numeral denotes none. -/
  | number (amount : Float)
deriving DecidableEq

namespace Value

/-- The text of a value that is one. -/
def text? : Value → Option String
  | text content => some content
  | number _ => none

/-- The number of a value that is one. -/
def number? : Value → Option Float
  | text _ => none
  | number amount => some amount

/-- Whether the value says anything: it is not the empty text, not zero and not a number that is
none. -/
def isTruthy : Value → Bool
  | text content => content != ""
  | number amount => amount != 0 && !amount.isNaN

/-- The number that the value stands for where a number is wanted. -/
def toNumber : Value → Float
  | text content => Number.coerce content.toList
  | number amount => amount

/-- The value in a report: a text as it is, a number in plain digits. -/
def display : Value → String
  | text content => content
  | number amount => Number.Format.plain.write amount

end Value

end Flashdeck
