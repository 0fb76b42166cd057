import Flashdeck.Text.Class
import Flashdeck.Text.Trim
import Flashdeck.Number.Decimal
import Flashdeck.Number.Word

/-!
# Texts as numbers

The number that a text property stands for where a number is wanted, a coordinate or a font size.
Blanks around it do not count and no text at all is zero. `Infinity` is spelled out, `0x`, `0o` and
`0b` begin whole numbers in base sixteen, eight and two, and all else is a decimal without the
words that decimals have elsewhere. What denotes no number is not a number.
-/

namespace Flashdeck.Number

/-- The infinity that a text spells out. -/
def ofInfinityName? (cs : List Char) : Option Float :=
  let name := String.ofList cs
  if name = "Infinity" ∨ name = "+Infinity" then some infinity
  else if name = "-Infinity" then some (-infinity)
  else none

/-- Splits off the mark of a base: the base and the text behind the mark. -/
def splitBase? : List Char → Option (Nat × List Char)
  | '0' :: mark :: cs =>
    if mark = 'x' ∨ mark = 'X' then some (16, cs)
    else if mark = 'o' ∨ mark = 'O' then some (8, cs)
    else if mark = 'b' ∨ mark = 'B' then some (2, cs)
    else none
  | _ => none

/-- A letter that no decimal number holds. -/
def isForeignLetter (c : Char) : Bool :=
  c.isAlpha && c != 'e' && c != 'E'

/-- The number that a trimmed text stands for. -/
def ofTrimmed (cs : List Char) : Float :=
  if cs.isEmpty then 0
  else
    match ofInfinityName? cs with
    | some x => x
    | none =>
      match splitBase? cs with
      | some (base, digits) => ((word? base digits).map Float.ofNat).getD notANumber
      | none => if cs.any isForeignLetter then notANumber else ofNumeral cs

/-- The number that a text stands for. -/
def coerce (cs : List Char) : Float :=
  ofTrimmed (Text.trim Text.isBlank cs)

end Flashdeck.Number
