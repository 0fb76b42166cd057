import Flashdeck.Script.Block
import Flashdeck.Script.Property

/-!
# Arguments

The command line in three steps: each argument by its form, the arguments as items, and the items
as an invocation. An invocation is a command with its own options and two options that any command
takes, which may stand before the command or behind it. Where both places give one, the place
behind the command counts.
-/

namespace Flashdeck.Command

open Script

/-- Where a script comes from. -/
inductive Source where
  | standardInput
  | file (path : String)
deriving DecidableEq, Repr

/-- The source that an operand names. -/
def Source.ofOperand (operand : String) : Source :=
  if operand = "-" then .standardInput else .file operand

/-- What is to be done with a script. -/
inductive Action where
  /-- Write its cards as JSON, with their places on the board or without. -/
  | compile (placed pretty : Bool)
  /-- Count its blocks and its cards. -/
  | check
  /-- Write a line for each card on the board. -/
  | list
deriving DecidableEq, Repr

/-- A whole command line. -/
structure Invocation where
  blockMode : Option BlockMode
  escapes : Option EscapePolicy
  action : Action
  source : Source
deriving DecidableEq, Repr

/-- An argument by its form. -/
inductive Form where
  /-- Two dashes: only operands follow. -/
  | separator
  /-- Two dashes and a name, with the value behind an equals sign if there is one. -/
  | option (name : String) (value : Option String)
  /-- One dash and more; no option has this form. -/
  | short
  | operand
deriving DecidableEq, Repr

/-- The form of an argument. A single dash is an operand. -/
def Form.ofArgument : List Char → Form
  | ['-', '-'] => .separator
  | '-' :: '-' :: cs =>
    let name := String.ofList (cs.takeWhile (· != '='))
    match cs.dropWhile (· != '=') with
    | _ :: value => .option name (some (String.ofList value))
    | [] => .option name none
  | ['-'] => .operand
  | '-' :: _ :: _ => .short
  | _ => .operand

/-- What an argument, or an option with its value, says. -/
inductive Item where
  | blockMode (mode : BlockMode)
  | escapes (policy : EscapePolicy)
  | noLayout
  | pretty
  | separator
  | operand (text : String)
deriving DecidableEq, Repr

namespace Item

/-- Whether an option of this name takes a value. -/
def takesValue (name : String) : Bool :=
  name = "mode" || name = "escapes"

/-- The item of an option with a value. -/
def ofValue? (name value : String) : Option Item :=
  if name = "mode" then (BlockMode.ofName? value).map .blockMode
  else if name = "escapes" then (EscapePolicy.ofName? value).map .escapes
  else none

/-- The item of an option without a value. -/
def ofFlag? (name : String) : Option Item :=
  if name = "no-layout" then some .noLayout
  else if name = "pretty" then some .pretty
  else none

/-- The items of the arguments; none if some argument is no item. An option without a value of its
own takes the next argument, whatever its form. -/
def ofArguments : List String → Option (List Item)
  | [] => some []
  | argument :: arguments =>
    match Form.ofArgument argument.toList with
    | .separator => some (.separator :: arguments.map .operand)
    | .operand => (ofArguments arguments).map (.operand argument :: ·)
    | .short => none
    | .option name (some value) =>
      (ofValue? name value).bind fun item => (ofArguments arguments).map (item :: ·)
    | .option name none =>
      if takesValue name then
        match arguments with
        | [] => none
        | value :: arguments =>
          (ofValue? name value).bind fun item => (ofArguments arguments).map (item :: ·)
      else (ofFlag? name).bind fun item => (ofArguments arguments).map (item :: ·)

/-- Whether any command takes the item, before its name too. -/
def isShared : Item → Bool
  | blockMode _ => true
  | escapes _ => true
  | _ => false

def blockMode? : Item → Option BlockMode
  | blockMode mode => some mode
  | _ => none

def escapes? : Item → Option EscapePolicy
  | escapes policy => some policy
  | _ => none

def operand? : Item → Option String
  | operand text => some text
  | _ => none

end Item

/-- The one element of a list that has no more than one. -/
def atMostOne {α : Type} : List α → Option (Option α)
  | [] => some none
  | [x] => some (some x)
  | _ => none

/-- The action of a command's name, with the items behind it. -/
def Action.ofName? (name : String) (items : List Item) : Option Action := do
  let noLayout ← atMostOne (items.filter (· = .noLayout))
  let pretty ← atMostOne (items.filter (· = .pretty))
  if name = "compile" then some (.compile noLayout.isNone pretty.isSome)
  else if noLayout.isSome || pretty.isSome then none
  else if name = "check" then some .check
  else if name = "list" then some .list
  else none

namespace Invocation

/-- The invocation that items make: shared options, the name of a command, and what it takes. No
option is given twice in one place, and there is one operand at the most. -/
def ofItems? (items : List Item) : Option Invocation :=
  let before := items.takeWhile Item.isShared
  match items.dropWhile Item.isShared with
  | .operand name :: behind => do
    let action ← Action.ofName? name behind
    let operand ← atMostOne (behind.filterMap Item.operand?)
    let outerMode ← atMostOne (before.filterMap Item.blockMode?)
    let outerEscapes ← atMostOne (before.filterMap Item.escapes?)
    let innerMode ← atMostOne (behind.filterMap Item.blockMode?)
    let innerEscapes ← atMostOne (behind.filterMap Item.escapes?)
    some
      { blockMode := innerMode.or outerMode
        escapes := innerEscapes.or outerEscapes
        action
        source := Source.ofOperand (operand.getD "-") }
  | _ => none

/-- The invocation that the arguments make. -/
def ofArguments? (arguments : List String) : Option Invocation :=
  (Item.ofArguments arguments).bind ofItems?

end Invocation

end Flashdeck.Command
