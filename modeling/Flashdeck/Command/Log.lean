import Flashdeck.Command.Run
import Flashdeck.Log

/-!
# Runs with their log

The log of a run goes where its errors go, in front of them. Which events are shown is for a filter
to say, which a variable of its own holds, and how they are shown is for the logger: to a run, it is
a function from the value of that variable and the events to a text. `Log.plain` is a logger that
shows no times and no colours.
-/

namespace Flashdeck

/-- What is shown of the events of a run, with the value of the variable that holds the filter. -/
abbrev Logger := Option String → List Log.Event → String

namespace Log

/-- The variable that holds the filter. -/
def filterVariable : String :=
  "RUST_LOG"

/-! ## Filters -/

/-- How far a level is from silence. -/
def Level.rank : Level → Nat
  | .error => 1
  | .warning => 2
  | .info => 3
  | .debug => 4
  | .trace => 5

/-- The rank of a level by its name, in any case, or by its digit. -/
def rankOfName? (name : List Char) : Option Nat :=
  match String.ofList (name.map Char.toLower) with
  | "off" | "0" => some 0
  | "error" | "1" => some 1
  | "warn" | "2" => some 2
  | "info" | "3" => some 3
  | "debug" | "4" => some 4
  | "trace" | "5" => some 5
  | _ => none

/-- A part of a filter: events from sources that begin like this one are shown up to a rank. -/
structure Directive where
  source : List Char
  rank : Nat
deriving DecidableEq, Repr

namespace Directive

/-- The directive that shows nothing but errors. -/
def errorsOnly : Directive :=
  ⟨[], Level.error.rank⟩

/-- The directive of a text: a level, a source, or both with an equals sign between them. -/
def ofText? (text : List Char) : Option Directive :=
  let source := text.takeWhile (· ≠ '=')
  if source = [] ∨ ¬ source.all fun c => Text.isWordChar c || c == ':' || c == '-' then none
  else
    match text.dropWhile (· ≠ '='), rankOfName? text with
    | _, some rank => some ⟨[], rank⟩
    | [], none => some ⟨source, Level.trace.rank⟩
    | _ :: level, none => (rankOfName? level).map fun rank => ⟨source, rank⟩

/-- Whether the directive is about events of this source. -/
def Concerns (directive : Directive) (event : Event) : Prop :=
  directive.source <+: event.source.toList

instance (directive : Directive) (event : Event) : Decidable (directive.Concerns event) :=
  inferInstanceAs (Decidable (_ <+: _))

/-- Whether directives show an event: the one that decides names the most of its source. -/
def shows (directives : List Directive) (event : Event) : Bool :=
  let concerned := directives.filter fun directive => directive.Concerns event
  let decisive := concerned.foldl (fun best directive =>
    if best.source.length ≤ directive.source.length then directive else best) ⟨[], 0⟩
  event.level.rank ≤ decisive.rank

end Directive

/-! ## Lines -/

/-- The name of a level in a line. -/
def Level.label : Level → String
  | .error => "ERROR"
  | .warning => " WARN"
  | .info => " INFO"
  | .debug => "DEBUG"
  | .trace => "TRACE"

/-- A detail in a line. -/
def Detail.write : Detail → String
  | .number value => toString value
  | .name value => value
  | .text value => "\"" ++ value ++ "\""

/-- The line of an event. -/
def Event.line (event : Event) : String :=
  event.level.label ++ " " ++ event.source ++ ": " ++ event.message ++
    String.join (event.details.map fun (key, detail) => " " ++ key ++ "=" ++ detail.write) ++ "\n"

/-- The line about a part of a filter that is no directive. -/
def warning (part : List Char) : String :=
  "ignoring `" ++ String.ofList part ++ "`: invalid filter directive\n"

/-- The parts of a filter, as the commas separate them. -/
def partsOf : List Char → List (List Char)
  | [] => [[]]
  | c :: cs =>
    if c = ',' then [] :: partsOf cs
    else
      match partsOf cs with
      | part :: parts => (c :: part) :: parts
      | [] => [[c]]

/-- Shows one event to a line, and first of all the parts of the filter that are no directives. With
no directive at all, only errors are shown. -/
def plain : Logger := fun filter events =>
  let parts := (partsOf (filter.getD "").toList).filter (· ≠ [])
  let directives :=
    match parts.filterMap Directive.ofText? with
    | [] => [Directive.errorsOnly]
    | directives => directives
  String.join ((parts.filter fun part => (Directive.ofText? part).isNone).map warning) ++
    String.join ((events.filter (Directive.shows directives)).map Event.line)

end Log

namespace Command

open Log

/-- What happens while an action makes something of a script. A check finds the blocks twice: it
counts them, and then it counts their cards. -/
def Action.events (action : Action) (settings : Settings) (script : List Char) : List Event :=
  match action with
  | .compile placed _ =>
    if placed then settings.boardEvents script else settings.cardsEvents script
  | .check =>
    let counts := Counts.ofScript settings script
    Script.blockEvents settings.blockMode script ++ settings.cardsEvents script ++ [{
      level := .info
      source := "kard"
      message := "checked script"
      details := [("blocks", .number counts.blocks), ("cards", .number counts.cards)] }]
  | .list => settings.boardEvents script

namespace Invocation

/-- What happens in a run. Before a script is there, nothing does. -/
def events (invocation : Invocation) (lookup : String → Option String)
    (standardInput : List UInt8) (readFile : String → Except FileFault (List UInt8)) :
    List Event :=
  match invocation.settings lookup, invocation.script standardInput readFile with
  | .ok settings, .ok script => invocation.action.events settings script
  | _, _ => []

/-- Runs a command with its log, which comes before the errors of the run. -/
def runLogged (invocation : Invocation) (log : Logger) (lookup : String → Option String)
    (standardInput : List UInt8) (readFile : String → Except FileFault (List UInt8)) : Outcome :=
  let outcome := invocation.run lookup standardInput readFile
  let shown := log (lookup filterVariable) (invocation.events lookup standardInput readFile)
  { outcome with errors := shown ++ outcome.errors }

end Invocation

end Command

end Flashdeck
