/-!
# The fewest digits that read back

The decimal digits that identify a double. A positive double stands for an interval of reals, those
that round to it; of all decimals in that interval `shortest` chooses one with the fewest digits,
and of those the nearest to the double itself. Everything is decided by exact comparisons of
natural numbers.
-/

namespace Flashdeck.Number

/-- Where a double lies exactly between two decimals of the same length. -/
inductive Tie where
  /-- The one whose last digit is even. -/
  | toEven
  /-- The greater one. -/
  | upward
deriving DecidableEq, Repr

/-- The magnitude `significand * 2 ^ exponent` of a finite double. -/
structure Magnitude where
  significand : Nat
  exponent : Int
  /-- The next double below is half as far away as the next one above. -/
  narrowBelow : Bool
deriving DecidableEq, Repr

/-- The magnitude that the bits of a finite double hold. -/
def Magnitude.ofBits (bits : UInt64) : Magnitude :=
  let field : Nat := bits.toNat / Nat.pow 2 52 % Nat.pow 2 11
  let fraction : Nat := bits.toNat % Nat.pow 2 52
  if field = 0 then ⟨fraction, -1074, false⟩
  else ⟨Nat.pow 2 52 + fraction, (field : Int) - 1075, fraction == 0 && field != 1⟩

/-- The decimal `digits * 10 ^ scale`. -/
structure Digits where
  digits : Nat
  scale : Int
deriving DecidableEq, Repr

/-- Compares `a * 10 ^ i` with `b * 2 ^ j`. -/
def compareScaled (a : Nat) (i : Int) (b : Nat) (j : Int) : Ordering :=
  compare (a * Nat.pow 10 i.toNat * Nat.pow 2 (-j).toNat)
    (b * Nat.pow 2 j.toNat * Nat.pow 10 (-i).toNat)

/-- Whether `d * 10 ^ scale` rounds to the magnitude: it lies between the middles to the two
neighbours, which themselves round to the magnitude when its significand is even. -/
def Magnitude.admits (x : Magnitude) (d : Nat) (scale : Int) : Bool :=
  let low := if x.narrowBelow then 4 * x.significand - 1 else 4 * x.significand - 2
  let high := 4 * x.significand + 2
  let even := x.significand % 2 == 0
  let below := compareScaled d scale low (x.exponent - 2)
  let above := compareScaled d scale high (x.exponent - 2)
  (below == .gt || (even && below == .eq)) && (above == .lt || (even && above == .eq))

/-- The magnitude in units of `10 ^ scale`, as a fraction. -/
def Magnitude.over (x : Magnitude) (scale : Int) : Nat × Nat :=
  (x.significand * Nat.pow 2 x.exponent.toNat * Nat.pow 10 (-scale).toNat,
    Nat.pow 2 (-x.exponent).toNat * Nat.pow 10 scale.toNat)

/-- The one of `low` and `low + 1` that is nearer to `num / den`, which lies between them. -/
def nearer (tie : Tie) (num den low : Nat) : Nat :=
  match compare (2 * num) ((2 * low + 1) * den) with
  | .lt => low
  | .gt => low + 1
  | .eq =>
    match tie with
    | .toEven => if low % 2 = 0 then low else low + 1
    | .upward => low + 1

/-- A multiple of `10 ^ scale` that reads back as the magnitude, if there is one: the nearest. -/
def Magnitude.onGrid? (x : Magnitude) (tie : Tie) (scale : Int) : Option Digits :=
  let (num, den) := x.over scale
  let low := num / den
  match x.admits low scale, x.admits (low + 1) scale with
  | true, true => some ⟨nearer tie num den low, scale⟩
  | true, false => some ⟨low, scale⟩
  | false, true => some ⟨low + 1, scale⟩
  | false, false => none

/-- No positive double is below `10 ^ (-finestPlaces)`. -/
def finestPlaces : Nat := 324

/-- The least `k` for which a positive magnitude is below `10 ^ k`. It is the count of digits of
the magnitude in units of `10 ^ (-finestPlaces)`, moved back to the point. -/
def Magnitude.places (x : Magnitude) : Int :=
  let (num, den) := x.over (-finestPlaces)
  ((Nat.toDigits 10 (num / den)).length : Int) - finestPlaces

/-- The magnitude written out in full. -/
def Magnitude.exact (x : Magnitude) : Digits :=
  if x.exponent < 0 then ⟨x.significand * Nat.pow 5 (-x.exponent).toNat, x.exponent⟩
  else ⟨x.significand * Nat.pow 2 x.exponent.toNat, 0⟩

/-- The same decimal without zeros at its end. -/
def Digits.strip (d : Digits) : Digits :=
  if h : d.digits ≠ 0 ∧ d.digits % 10 = 0 then
    Digits.strip ⟨d.digits / 10, d.scale + 1⟩
  else d
termination_by d.digits
decreasing_by omega

/-- The most digits that a double needs. -/
def mostDigits : Nat := 17

/-- The shortest decimal that reads back as a positive magnitude, by trying ever finer grids. -/
def Magnitude.shortest (x : Magnitude) (tie : Tie) : Digits :=
  let places := x.places
  let found := (List.range mostDigits).findSome? fun (n : Nat) => x.onGrid? tie (places - (n + 1))
  (found.getD x.exact).strip

end Flashdeck.Number
