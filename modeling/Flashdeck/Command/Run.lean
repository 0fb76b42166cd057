import Flashdeck.Command.Arguments
import Flashdeck.Deck
import Flashdeck.Text.Lines

/-!
# Running a command

What a command prints and how it ends, as a function of the variables, of what its source gives,
and of its arguments. The variables come first: with a value among them that does not do, the
source is not looked at. A run that fails prints its fault as an error and nothing else.
-/

namespace Flashdeck.Command

/-- How a run ends. -/
structure Outcome where
  code : Nat
  output : String
  errors : String
deriving DecidableEq, Repr

namespace Outcome

/-- A run that ends well. -/
def success (output : String) : Outcome :=
  { code := 0, output, errors := "" }

/-- A run that a fault ends. -/
def failure (fault : Fault) : Outcome :=
  { code := 1, output := "", errors := "error: " ++ fault.message ++ "\n" }

end Outcome

/-- The counts of a script: its blocks and the cards that they make. -/
structure Counts where
  blocks : Nat
  cards : Nat
deriving DecidableEq, Repr

namespace Counts

/-- The counts of a script. -/
def ofScript (settings : Settings) (script : List Char) : Counts where
  blocks := (settings.bodies script).length
  cards := (settings.cards script).length

/-- The number of blocks that make no card. -/
def dropped (counts : Counts) : Nat :=
  counts.blocks - counts.cards

/-- The counts in a report. -/
def report (counts : Counts) : String :=
  "blocks: " ++ toString counts.blocks ++ ", cards: " ++ toString counts.cards ++ ", dropped: " ++
    toString counts.dropped

end Counts

/-- The name of a placement in a listing. -/
def placementName : Placement → String
  | .manual => "Manual"
  | .auto => "Auto"

/-- A text with blanks behind it, three characters wide at the least. -/
def padIndex (text : String) : String :=
  text ++ String.ofList (List.replicate (3 - text.toList.length) ' ')

/-- The line of a card in a listing: its index, how it was placed and where, its background, and
the first line of its front. -/
def listingLine (placed : PlacedCard) : String :=
  let number := Number.Format.plain.write
  "#" ++ padIndex (toString placed.index) ++ " " ++ placementName placed.placement ++ " (" ++
    number placed.x ++ ", " ++ number placed.y ++ ") " ++
    (Appearance.ofCard placed.card).background ++ " " ++
    String.ofList (Text.firstLine placed.card.front.display.toList)

namespace Action

/-- What an action makes of a script. -/
def perform (action : Action) (settings : Settings) (script : List Char) : Outcome :=
  match action with
  | .compile placed pretty =>
    let objects : List Json.Object :=
      if placed then (settings.board script).cards.map PlacedCard.toObject
      else (settings.cards script).map fun card => card.fields.entries
    let spacing := if pretty then Json.Spacing.indented else Json.Spacing.compact
    .success (String.ofList (spacing.writeList objects) ++ "\n")
  | .check =>
    let counts := Counts.ofScript settings script
    { code := if counts.dropped = 0 then 0 else 1
      output := counts.report ++ "\n"
      errors := "" }
  | .list =>
    .success (String.join ((settings.board script).cards.map fun placed =>
      listingLine placed ++ "\n"))

end Action

namespace Invocation

/-- The settings of a run: those of the variables, less what the options override. -/
def settings (invocation : Invocation) (lookup : String → Option String) :
    Except Fault Settings :=
  ((Settings.load lookup).mapError Fault.settings).map fun loaded =>
    { loaded with
      blockMode := invocation.blockMode.getD loaded.blockMode
      escapes := invocation.escapes.getD loaded.escapes }

/-- The script of a run. Standard input always gives bytes. -/
def script (invocation : Invocation) (standardInput : List UInt8)
    (readFile : String → Except FileFault (List UInt8)) : Except Fault (List Char) :=
  match invocation.source with
  | .standardInput => readScript standardInput
  | .file path => ((readFile path).mapError (Fault.unreadable path)).bind readScript

/-- Runs a command with given variables, standard input and files. -/
def run (invocation : Invocation) (lookup : String → Option String)
    (standardInput : List UInt8) (readFile : String → Except FileFault (List UInt8)) : Outcome :=
  match invocation.settings lookup with
  | .error fault => .failure fault
  | .ok settings =>
    match invocation.script standardInput readFile with
    | .error fault => .failure fault
    | .ok script => invocation.action.perform settings script

end Invocation

end Flashdeck.Command
