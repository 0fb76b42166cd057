import Flashdeck.Script.Block
import Flashdeck.Script.Property
import Flashdeck.Board.Grid

/-!
# Settings

How a deck is compiled. Settings are taken from named variables, each of them optional, and checked
in a fixed order: the first variable with a value that does not do decides the fault.
-/

namespace Flashdeck

open Script

/-- How a deck is compiled. -/
structure Settings where
  blockMode : BlockMode
  escapes : EscapePolicy
  grid : Grid
deriving DecidableEq

namespace Settings

/-- The settings where no variable is set. -/
def default : Settings where
  blockMode := .compat
  escapes := .decode
  grid := Grid.default

/-- The variables that settings are taken from. -/
inductive Variable where
  | blockMode
  | escapes
  | columns
  | startX
  | startY
  | spacingX
  | spacingY
deriving DecidableEq, Repr

/-- The name of a variable. -/
def Variable.name : Variable → String
  | .blockMode => "KARD_EXTRACT_MODE"
  | .escapes => "KARD_ESCAPES"
  | .columns => "KARD_LAYOUT_COLUMNS"
  | .startX => "KARD_LAYOUT_START_X"
  | .startY => "KARD_LAYOUT_START_Y"
  | .spacingX => "KARD_LAYOUT_SPACING_X"
  | .spacingY => "KARD_LAYOUT_SPACING_Y"

/-- Every variable. -/
def Variable.all : List Variable :=
  [.blockMode, .escapes, .columns, .startX, .startY, .spacingX, .spacingY]

/-- Why a value does not do. -/
inductive ValueFault where
  | unknownBlockMode (value : String)
  | unknownEscapePolicy (value : String)
  /-- The value of the variable is not a number of the kind it takes. -/
  | malformed (key : Variable) (value : String)
  /-- A grid has at least one column. -/
  | noColumns
deriving DecidableEq, Repr

/-- The fault in words, with the value as it was given. -/
def ValueFault.message : ValueFault → String
  | .unknownBlockMode value =>
    "unsupported extract mode '" ++ value ++ "' (expected 'compat' or 'balanced')"
  | .unknownEscapePolicy value =>
    "unsupported escape mode '" ++ value ++ "' (expected 'decode' or 'raw')"
  | .malformed key value => key.name ++ ": cannot parse '" ++ value ++ "'"
  | .noColumns => "KARD_LAYOUT_COLUMNS must be at least 1"

/-- The rule for finding blocks that a value names; no value names the default. -/
def readBlockMode : Option String → Except ValueFault BlockMode
  | none => .ok default.blockMode
  | some value =>
    match BlockMode.ofName? value with
    | some mode => .ok mode
    | none => .error (.unknownBlockMode value)

/-- The escape policy that a value names; no value names the default. -/
def readEscapes : Option String → Except ValueFault EscapePolicy
  | none => .ok default.escapes
  | some value =>
    match EscapePolicy.ofName? value with
    | some policy => .ok policy
    | none => .error (.unknownEscapePolicy value)

/-- The value of a variable without the white space around it. -/
def trimmed (value : String) : List Char :=
  Text.trim Text.isWhiteSpace value.toList

/-- The number of columns that a value denotes. -/
def readColumns : Option String → Except ValueFault Nat
  | none => .ok default.grid.columns
  | some value =>
    match Number.word? 10 (trimmed value) with
    | none => .error (.malformed .columns value)
    | some 0 => .error .noColumns
    | some columns => .ok columns

/-- The coordinate that a value of the variable denotes. -/
def readCoordinate (key : Variable) (fallback : Float) : Option String → Except ValueFault Float
  | none => .ok fallback
  | some value =>
    match Number.ofText? (trimmed value) with
    | none => .error (.malformed key value)
    | some coordinate => .ok coordinate

/-- The settings that the variables give. -/
def load (lookup : String → Option String) : Except ValueFault Settings := do
  let valueOf (key : Variable) := lookup key.name
  let blockMode ← readBlockMode (valueOf .blockMode)
  let escapes ← readEscapes (valueOf .escapes)
  let columns ← readColumns (valueOf .columns)
  let startX ← readCoordinate .startX Grid.default.startX (valueOf .startX)
  let startY ← readCoordinate .startY Grid.default.startY (valueOf .startY)
  let spacingX ← readCoordinate .spacingX Grid.default.spacingX (valueOf .spacingX)
  let spacingY ← readCoordinate .spacingY Grid.default.spacingY (valueOf .spacingY)
  return { blockMode, escapes, grid := { startX, startY, spacingX, spacingY, columns } }

end Settings

end Flashdeck
