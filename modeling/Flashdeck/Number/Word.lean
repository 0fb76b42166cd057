/-!
# Reading 64-bit words

Natural numbers below 2^64 in a given base: an optional plus sign, then one digit or more. A value
that needs more bits is no word, whatever its digits.
-/

namespace Flashdeck.Number

/-- The value of a digit, letters counting from ten in either case. -/
def digitValue? (c : Char) : Option Nat :=
  if '0' ≤ c ∧ c ≤ '9' then some (c.toNat - '0'.toNat)
  else if 'a' ≤ c ∧ c ≤ 'z' then some (c.toNat - 'a'.toNat + 10)
  else if 'A' ≤ c ∧ c ≤ 'Z' then some (c.toNat - 'A'.toNat + 10)
  else none

/-- Reads digits of `base` to the end of the text, onto `value`. -/
def readDigits (base value : Nat) : List Char → Option Nat
  | [] => some value
  | c :: cs =>
    match digitValue? c with
    | some digit => if digit < base then readDigits base (base * value + digit) cs else none
    | none => none

/-- The text without a plus sign at its front. -/
def dropPlus : List Char → List Char
  | '+' :: cs => cs
  | cs => cs

/-- The word that a text denotes in `base`. -/
def word? (base : Nat) (cs : List Char) : Option Nat :=
  let digits := dropPlus cs
  if digits.isEmpty then none
  else (readDigits base 0 digits).filter (· < Nat.pow 2 64)

end Flashdeck.Number
