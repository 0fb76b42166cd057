import Flashdeck.Script.Block.Compat
import Flashdeck.Script.Block.Balanced

/-!
# Blocks

The bodies of the card blocks of a script, found by one of two rules.
-/

namespace Flashdeck.Script

/-- The rule by which blocks are found. -/
inductive BlockMode where
  /-- By their text, to the first closing brace that a closing parenthesis follows. -/
  | compat
  /-- By their tokens, to the brace that matches. -/
  | balanced
deriving DecidableEq, Repr

namespace BlockMode

/-- The name of the rule in settings and options. -/
def name : BlockMode → String
  | .compat => "compat"
  | .balanced => "balanced"

/-- The rule of a name. -/
def ofName? (name : String) : Option BlockMode :=
  if name = "compat" then some .compat
  else if name = "balanced" then some .balanced
  else none

theorem ofName?_eq_some_iff {name : String} {mode : BlockMode} :
    ofName? name = some mode ↔ name = mode.name := by
  unfold ofName? BlockMode.name
  cases mode <;> grind

end BlockMode

/-- The bodies of the blocks of a script, in order and without the blanks around them. -/
def blockBodies (mode : BlockMode) (script : List Char) : List (List Char) :=
  match mode with
  | .compat => Block.Compat.bodies script
  | .balanced => (Block.Balanced.pattern.values (tokenize script)).map Block.Balanced.body

end Flashdeck.Script
