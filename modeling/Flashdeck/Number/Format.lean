import Flashdeck.Number.Shortest

/-!
# Numbers as text

Doubles are written with the fewest digits that read back. How the digits are laid out is a
`Format`: the library has one for reports and one for JSON, and they differ in where positional
notation ends, in whole numbers, in ties and in the values that are no finite number.
-/

namespace Flashdeck.Number

/-- How numbers are laid out as text. -/
structure Format where
  /-- The choice between two equally near decimals of the fewest digits. -/
  tie : Tie
  /-- The least and the greatest position of the point, counted from the first digit, at which a
  number is written without an exponent; none if every number is. -/
  positional : Option (Int × Int)
  /-- Written behind a whole number. -/
  whole : String
  notANumber : String
  infinity : String
  negativeInfinity : String

/-- Numbers in reports: never with an exponent, and whole numbers as integers. -/
def Format.plain : Format where
  tie := .upward
  positional := none
  whole := ""
  notANumber := "NaN"
  infinity := "inf"
  negativeInfinity := "-inf"

/-- Numbers in JSON, which has no text for what is not a finite number. -/
def Format.json : Format where
  tie := .toEven
  positional := some (-4, 16)
  whole := ".0"
  notANumber := "null"
  infinity := "null"
  negativeInfinity := "null"

namespace Format

/-- Digits with the point `point` places behind the first one's front, zeros filling the gap. -/
def layoutPositional (format : Format) (digits : List Char) (point : Int) : List Char :=
  if point ≤ 0 then
    '0' :: '.' :: (List.replicate (-point).toNat '0' ++ digits)
  else if digits.length ≤ point.toNat then
    digits ++ List.replicate (point.toNat - digits.length) '0' ++ format.whole.toList
  else
    digits.take point.toNat ++ '.' :: digits.drop point.toNat

/-- Digits with the point behind the first one and a signed exponent. -/
def layoutScientific (digits : List Char) (point : Int) : List Char :=
  let exponent := point - 1
  let fraction := if digits.length ≤ 1 then [] else '.' :: digits.drop 1
  let sign := if exponent < 0 then '-' else '+'
  digits.take 1 ++ fraction ++ 'e' :: sign :: Nat.toDigits 10 exponent.natAbs

/-- The text of a positive decimal. -/
def layout (format : Format) (d : Digits) : List Char :=
  let digits := Nat.toDigits 10 d.digits
  let point := (digits.length : Int) + d.scale
  match format.positional with
  | none => format.layoutPositional digits point
  | some (least, greatest) =>
    if least ≤ point ∧ point ≤ greatest then format.layoutPositional digits point
    else layoutScientific digits point

/-- The text of the magnitude of a finite double. -/
def writeMagnitude (format : Format) (x : Magnitude) : List Char :=
  if x.significand = 0 then '0' :: format.whole.toList
  else format.layout (x.shortest format.tie)

/-- Whether the sign bit is set. -/
def isSigned (x : Float) : Bool :=
  Nat.pow 2 63 ≤ x.toBits.toNat

/-- The text of a number. -/
def write (format : Format) (x : Float) : String :=
  if x.isNaN then format.notANumber
  else if x.isInf then if isSigned x then format.negativeInfinity else format.infinity
  else
    let magnitude := format.writeMagnitude (Magnitude.ofBits x.toBits)
    String.ofList (if isSigned x then '-' :: magnitude else magnitude)

end Format

end Flashdeck.Number
