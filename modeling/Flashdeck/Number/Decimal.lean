/-!
# Reading decimals

The decimal notation of numbers: an optional sign, then `inf`, `infinity` or `nan` in any letter
case, or digits with at most one dot, digits on at least one side of it, and an optional exponent.
Nothing else is a number, no blank and no separator.

The value is the double nearest to what the digits denote, ties to even: overflow gives an
infinity and underflow a zero, both of the sign that was written.
-/

namespace Flashdeck.Number

/-- What is not a number, the value of text that denotes none. -/
def notANumber : Float := 0.0 / 0.0

/-- The infinity above all doubles. -/
def infinity : Float := 1.0 / 0.0

/-- The number `± mantissa * 10 ^ exponent`. -/
structure Decimal where
  negative : Bool
  mantissa : Nat
  exponent : Int
deriving DecidableEq, Repr

/-- The double with the given sign and magnitude. -/
def signed (negative : Bool) (magnitude : Float) : Float :=
  if negative then -magnitude else magnitude

/-- The double nearest to a decimal. -/
def Decimal.toFloat (d : Decimal) : Float :=
  signed d.negative (Float.ofScientific d.mantissa (d.exponent < 0) d.exponent.natAbs)

/-- Reads an optional sign: whether it is a minus, and what follows it. -/
def readSign : List Char → Bool × List Char
  | '+' :: cs => (false, cs)
  | '-' :: cs => (true, cs)
  | cs => (false, cs)

/-- Appends a decimal digit to a number. -/
def appendDigit (n : Nat) (digit : Char) : Nat :=
  10 * n + (digit.toNat - '0'.toNat)

/-- The number that decimal digits denote. -/
def ofDigits (digits : List Char) : Nat :=
  digits.foldl appendDigit 0

/-- Reads the digits behind a dot, if there is a dot. -/
def readFraction : List Char → List Char × List Char
  | '.' :: cs => cs.span Char.isDigit
  | cs => ([], cs)

/-- Reads an exponent that ends the text; no text is the exponent 0. -/
def readExponent : List Char → Option Int
  | [] => some 0
  | c :: cs =>
    if c = 'e' ∨ c = 'E' then
      let (negative, digits) := readSign cs
      if digits.isEmpty || !digits.all Char.isDigit then none
      else if negative then some (-(ofDigits digits : Int))
      else some (ofDigits digits : Int)
    else none

/-- Reads digits, an optional fraction and an optional exponent, to the end of the text. -/
def readUnsigned (negative : Bool) (cs : List Char) : Option Decimal :=
  let (whole, cs) := cs.span Char.isDigit
  let (fraction, cs) := readFraction cs
  if whole.isEmpty && fraction.isEmpty then none
  else
    (readExponent cs).map fun exponent =>
      { negative
        mantissa := ofDigits (whole ++ fraction)
        exponent := exponent - fraction.length }

/-- The decimal that a text denotes, sign included. -/
def Decimal.ofText? (cs : List Char) : Option Decimal :=
  let (negative, cs) := readSign cs
  readUnsigned negative cs

/-- The magnitude that a word denotes, in any letter case. -/
def ofWord? (cs : List Char) : Option Float :=
  let word := String.ofList (cs.map Char.toLower)
  if word = "inf" ∨ word = "infinity" then some infinity
  else if word = "nan" then some notANumber
  else none

/-- The number that a text denotes. -/
def ofText? (cs : List Char) : Option Float :=
  let (negative, body) := readSign cs
  match ofWord? body with
  | some magnitude => some (signed negative magnitude)
  | none => (readUnsigned negative body).map Decimal.toFloat

/-- The number that a numeral denotes; digits and dots that denote none, such as `1.2.3`, are not
a number. -/
def ofNumeral (cs : List Char) : Float :=
  (ofText? cs).getD notANumber

end Flashdeck.Number
