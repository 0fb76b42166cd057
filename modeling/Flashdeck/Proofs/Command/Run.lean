import Flashdeck.Proofs.Census
import Flashdeck.Proofs.Command.Log
import Flashdeck.Proofs.Command.Options
import Flashdeck.Proofs.Settings

/-!
# Options, variables and the ends of runs

The options that any command takes say what two of the variables say. Where an option is given, it
can be left out of the arguments and its value be given to the variable, and the run stays the same,
with its log. But the variables are read whether or not an option overrides them, so a value among
them that does not do ends every run. A run that a fault ends has nothing on its output.

* `SharedOption.gives_text`: an option and its variable take the same texts.
* `Invocation.runLogged_moveToVariables`: a run with options, and the run with variables in their
  place.
* `Invocation.perform_cases`: how a run ends that has read its script.
* `Invocation.runLogged_exchange_and_report`: the runs, and the ways in which they end.
-/

namespace Flashdeck.Command

open Script Log

namespace SharedOption

/-- The text of a value of the option. -/
def text : (option : SharedOption) → option.key.Setting → String
  | .blockMode => BlockMode.name
  | .escapes => EscapePolicy.name

theorem key_name_injective : Function.Injective fun option : SharedOption => option.key.name := by
  intro left right same
  cases left <;> cases right <;> first | rfl | exact absurd same (by decide)

/-- A variable takes the texts that the option takes, and they mean the same to it. -/
theorem gives_text (option : SharedOption) (setting : option.key.Setting) :
    option.key.Gives (some (option.text setting)) setting := by
  cases option with
  | blockMode =>
    exact Settings.Variable.ofName?_eq_some_iff_namesBlockMode.1
      (BlockMode.ofName?_eq_some_iff.2 rfl)
  | escapes =>
    exact Settings.Variable.ofName?_eq_some_iff_namesEscapes.1
      (EscapePolicy.ofName?_eq_some_iff.2 rfl)

end SharedOption

namespace Invocation

variable (moved : List SharedOption)

/-! ## The values in the variables -/

/-- The value of an option, if it is given. -/
def value? (invocation : Invocation) : (option : SharedOption) → Option option.key.Setting
  | .blockMode => invocation.blockMode
  | .escapes => invocation.escapes

/-- The variables with the texts of the options in `moved`, where these are given. -/
def moveToVariables (invocation : Invocation) (lookup : String → Option String) (key : String) :
    Option String :=
  ((moved.find? fun option => option.key.name = key).bind fun option =>
    (invocation.value? option).map option.text).or (lookup key)

variable {moved} {invocation : Invocation} {lookup : String → Option String} {loaded : Settings}

theorem find?_key_name (option : SharedOption) :
    (moved.find? fun found => found.key.name = option.key.name) =
      if option ∈ moved then some option else none := by
  induction moved with
  | nil => rfl
  | cons first moved ih =>
    by_cases same : first = option
    · subst same
      rw [List.find?_cons, decide_eq_true rfl, if_pos List.mem_cons_self]
    · have other : first.key.name ≠ option.key.name :=
        fun eq => same (SharedOption.key_name_injective eq)
      rw [List.find?_cons_of_neg (by simpa using other), ih]
      simp [Ne.symm same]

/-- No other variable changes. -/
theorem moveToVariables_of_forall_ne {key : String}
    (ne : ∀ option : SharedOption, option.key.name ≠ key) :
    invocation.moveToVariables moved lookup key = lookup key := by
  have none : (moved.find? fun option => option.key.name = key) = none :=
    List.find?_eq_none.2 fun option _ => by simpa using ne option
  rw [moveToVariables, none]
  rfl

/-- The value of an option counts more than what its variable gave. -/
theorem gives_moveToVariables (option : SharedOption) {setting : option.key.Setting}
    (before : option.key.Gives (lookup option.key.name) setting) :
    option.key.Gives (invocation.moveToVariables moved lookup option.key.name)
      ((if option ∈ moved then invocation.value? option else none).getD setting) := by
  rw [moveToVariables, find?_key_name]
  split
  · rw [Option.bind_some]
    cases invocation.value? option with
    | none => exact before
    | some value => exact option.gives_text value
  · exact before

/-- Variables with the texts of options give the settings of these options. -/
theorem load_moveToVariables (loads : Settings.load lookup = .ok loaded) :
    Settings.load (invocation.moveToVariables moved lookup) = .ok
      { loaded with
        blockMode :=
          (if .blockMode ∈ moved then invocation.blockMode else none).getD loaded.blockMode
        escapes := (if .escapes ∈ moved then invocation.escapes else none).getD loaded.escapes } := by
  rw [Settings.load_eq_ok_iff] at loads ⊢
  intro key
  cases key with
  | blockMode => exact gives_moveToVariables .blockMode (loads .blockMode)
  | escapes => exact gives_moveToVariables .escapes (loads .escapes)
  | columns | startX | startY | spacingX | spacingY =>
    rw [moveToVariables_of_forall_ne fun option => by cases option <;> decide]
    exact loads _

theorem settings_eq_ok (loads : Settings.load lookup = .ok loaded) :
    invocation.settings lookup = .ok
      { loaded with
        blockMode := invocation.blockMode.getD loaded.blockMode
        escapes := invocation.escapes.getD loaded.escapes } := by
  rw [settings, loads]
  rfl

/-- Options give the same settings as variables with their texts. -/
theorem settings_moveToVariables (loads : Settings.load lookup = .ok loaded) :
    (invocation.without moved).settings (invocation.moveToVariables moved lookup) =
      invocation.settings lookup := by
  have exchange {α : Type} {p : Prop} [Decidable p] (given : Option α) (old : α) :
      (if p then none else given).getD ((if p then given else none).getD old) =
        given.getD old := by
    split <;> rfl
  rw [settings_eq_ok (load_moveToVariables loads), settings_eq_ok loads]
  simp only [without, exchange]

variable (standardInput : List UInt8) (readFile : String → Except FileFault (List UInt8))

/-- The run with some options is the run without them, with their texts in the variables. -/
theorem run_moveToVariables (loads : Settings.load lookup = .ok loaded) :
    (invocation.without moved).run (invocation.moveToVariables moved lookup) standardInput
        readFile =
      invocation.run lookup standardInput readFile := by
  have script : (invocation.without moved).script standardInput readFile =
      invocation.script standardInput readFile := rfl
  rw [run, run, settings_moveToVariables loads, script]
  rfl

theorem events_moveToVariables (loads : Settings.load lookup = .ok loaded) :
    (invocation.without moved).events (invocation.moveToVariables moved lookup) standardInput
        readFile =
      invocation.events lookup standardInput readFile := by
  have script : (invocation.without moved).script standardInput readFile =
      invocation.script standardInput readFile := rfl
  rw [events, events, settings_moveToVariables loads, script]
  rfl

/-- The log is the same too: no option is about its filter. -/
theorem runLogged_moveToVariables (log : Logger) (loads : Settings.load lookup = .ok loaded) :
    (invocation.without moved).runLogged log (invocation.moveToVariables moved lookup) standardInput
        readFile =
      invocation.runLogged log lookup standardInput readFile := by
  have filter : invocation.moveToVariables moved lookup filterVariable = lookup filterVariable :=
    moveToVariables_of_forall_ne fun option => by cases option <;> decide
  rw [runLogged, runLogged, run_moveToVariables _ _ loads, events_moveToVariables _ _ loads, filter]

/-! ## How a run ends -/

theorem settings_eq_error {cause : Settings.ValueFault}
    (fails : Settings.load lookup = .error cause) :
    invocation.settings lookup = .error (.settings cause) := by
  rw [settings, fails]
  rfl

/-- With a value among the variables that does not do, all else is the same to a run. -/
theorem runLogged_of_load_eq_error {cause : Settings.ValueFault}
    (fails : Settings.load lookup = .error cause) (log : Logger) :
    invocation.runLogged log lookup standardInput readFile =
      { code := 1
        output := ""
        errors := log (lookup filterVariable) [] ++
          ("error: " ++ (Fault.settings cause).message ++ "\n") } := by
  rw [runLogged, run, events, settings_eq_error fails]
  rfl

theorem runLogged_of_script_eq_error {fault : Fault} (loads : Settings.load lookup = .ok loaded)
    (unread : invocation.script standardInput readFile = .error fault) (log : Logger) :
    invocation.runLogged log lookup standardInput readFile =
      { code := 1
        output := ""
        errors := log (lookup filterVariable) [] ++ ("error: " ++ fault.message ++ "\n") } := by
  rw [runLogged, run_eq_failure (settings_eq_ok loads) unread, events, settings_eq_ok loads, unread]
  rfl

theorem runLogged_of_script_eq_ok {settings : Settings} {script : List Char}
    (own : invocation.settings lookup = .ok settings)
    (read : invocation.script standardInput readFile = .ok script) (log : Logger) :
    invocation.runLogged log lookup standardInput readFile =
      { invocation.action.perform settings script with
        errors := log (lookup filterVariable) (invocation.action.events settings script) ++
          (invocation.action.perform settings script).errors } := by
  rw [runLogged, run_eq_perform own read, events, own, read]

/-- A script is printed without an error, and only a check can tell of blocks that it dropped. -/
theorem perform_cases (action : Action) (settings : Settings) (script : List Char) :
    let outcome := action.perform settings script
    outcome.errors = "" ∧
      (action ≠ .check ∧ outcome.code = 0 ∨
        action = .check ∧
          outcome.code = (if 0 < settings.lacking script then 1 else 0) ∧
          outcome.output = "blocks: " ++ toString (settings.bodies script).length ++ ", cards: " ++
            toString (settings.cards script).length ++ ", dropped: " ++
            toString (settings.lacking script) ++ "\n") := by
  cases action with
  | compile placed pretty => exact ⟨rfl, .inl ⟨nofun, rfl⟩⟩
  | list => exact ⟨rfl, .inl ⟨nofun, rfl⟩⟩
  | check =>
    rw [Action.perform_check]
    exact ⟨rfl, .inr ⟨rfl, rfl, rfl⟩⟩

end Invocation

/-- **Options are variables, and a run that fails prints nothing.** The errors of a run begin with its
log, which is the logger's business; the rest is not. With a value among the variables that does not
do, a run tells the fault, whatever there is to read and whatever its options override. Otherwise any
of the options can be left out of the arguments and their values be given to the variables: the
arguments are still accepted, and the run is the same. A run that cannot read its script has nothing
on its output, and behind its log the fault; every other run has nothing but its log among the errors
and ends with 0, except that a check, which prints its report, ends with 1 exactly if a block was
dropped. And where no filter is given, a logger that keeps to errors shows nothing of any run. -/
theorem Invocation.runLogged_exchange_and_report {arguments : List String} {invocation : Invocation}
    (accepted : ofArguments? arguments = some invocation) (log : Logger)
    (lookup : String → Option String) (standardInput : List UInt8)
    (readFile : String → Except FileFault (List UInt8)) :
    let filter := lookup filterVariable
    let run := invocation.runLogged log lookup standardInput readFile
    (∀ cause, Settings.load lookup = .error cause →
      ∀ (standardInput : List UInt8) (readFile : String → Except FileFault (List UInt8)),
        invocation.runLogged log lookup standardInput readFile =
          { code := 1
            output := ""
            errors := log filter [] ++
              ("error: " ++ (Fault.settings cause).message ++ "\n") }) ∧
    (∀ loaded, Settings.load lookup = .ok loaded →
      (∀ moved : List SharedOption,
        ofArguments? (withoutOptions moved arguments) = some (invocation.without moved) ∧
        (invocation.without moved).runLogged log (invocation.moveToVariables moved lookup)
          standardInput readFile = run) ∧
      (∀ fault, invocation.script standardInput readFile = .error fault →
        run =
          { code := 1
            output := ""
            errors := log filter [] ++ ("error: " ++ fault.message ++ "\n") }) ∧
      ∀ script, invocation.script standardInput readFile = .ok script →
        ∃ settings, invocation.settings lookup = .ok settings ∧
          run.errors = log filter (invocation.action.events settings script) ∧
          run.output = (invocation.action.perform settings script).output ∧
          (invocation.action ≠ .check ∧ run.code = 0 ∨
            invocation.action = .check ∧
              run.code = (if 0 < settings.lacking script then 1 else 0) ∧
              run.output = "blocks: " ++ toString (settings.bodies script).length ++ ", cards: " ++
                toString (settings.cards script).length ++ ", dropped: " ++
                toString (settings.lacking script) ++ "\n")) ∧
    (log.KeepsToErrors → filter = none →
      run = invocation.run lookup standardInput readFile) := by
  intro filter run
  refine ⟨fun cause fails standardInput readFile => ?failed, fun loaded loads =>
    ⟨fun moved => ?exchange, fun fault unread => ?fault, fun script read => ?ends⟩,
    fun quiet unfiltered => runLogged_eq_run quiet unfiltered⟩
  case failed => exact runLogged_of_load_eq_error _ _ fails log
  case exchange =>
    exact ⟨ofArguments?_withoutOptions moved accepted, runLogged_moveToVariables _ _ log loads⟩
  case fault => exact runLogged_of_script_eq_error _ _ loads unread log
  case ends =>
    have own : invocation.settings lookup = .ok _ := settings_eq_ok loads
    obtain ⟨harmless, ends⟩ := perform_cases invocation.action _ script
    refine ⟨_, own, ?_⟩
    rw [show run = _ from runLogged_of_script_eq_ok _ _ own read log, harmless, String.append_empty]
    exact ⟨rfl, rfl, ends⟩

/-- Arguments with both options, on either side of the command. -/
def overridingArguments : List String :=
  ["--mode", "balanced", "check", "--escapes=raw"]

/-- A check that overrides both variables. -/
def overridingCheck : Invocation where
  blockMode := some .balanced
  escapes := some .raw
  action := .check
  source := .standardInput

/-- Variables one of which names no rule for finding blocks. -/
def foreignMode (name : String) : Option String :=
  if name = "KARD_EXTRACT_MODE" then some "any" else none

/-- A script with one block, which lacks a face. -/
def faceless : List Char :=
  "flash(\x7b front: \"a\" \x7d)".toList

/-- A variable with a value that does not do ends a run, though an option overrides it; otherwise the
options are moved to the variables, and the check tells of the block. Without a filter there is no
log. -/
theorem Invocation.runLogged_exchange_and_report_overridingCheck :
    ofArguments? overridingArguments = some overridingCheck ∧
    Settings.load foreignMode = .error (.unknownBlockMode "any") ∧
    (∀ (standardInput : List UInt8) (readFile : String → Except FileFault (List UInt8)),
      overridingCheck.runLogged Log.plain foreignMode standardInput readFile =
        { code := 1
          output := ""
          errors := "error: invalid configuration: unsupported extract mode 'any' " ++
            "(expected 'compat' or 'balanced')\n" }) ∧
    let run := overridingCheck.runLogged Log.plain (fun _ => none) (Text.Utf8.encode faceless)
      fun _ => .error .notFound
    Settings.load (fun _ => none) = .ok .default ∧
    ofArguments? ["check"] = some (overridingCheck.without [.blockMode, .escapes]) ∧
    (overridingCheck.without [.blockMode, .escapes]).runLogged Log.plain
      (overridingCheck.moveToVariables [.blockMode, .escapes] fun _ => none)
      (Text.Utf8.encode faceless) (fun _ => .error .notFound) = run ∧
    run.code = 1 ∧ run.errors = "" ∧
    run = overridingCheck.run (fun _ => none) (Text.Utf8.encode faceless)
      fun _ => .error .notFound := by
  have accepted : ofArguments? overridingArguments = some overridingCheck := by decide +kernel
  have left : withoutOptions [.blockMode, .escapes] overridingArguments = ["check"] := by
    decide +kernel
  have dropped : 0 < (⟨.balanced, .raw, Grid.default⟩ : Settings).lacking faceless := by
    decide +kernel
  have fails : Settings.load foreignMode = .error (.unknownBlockMode "any") := rfl
  have loads : Settings.load (fun _ => none) = .ok .default := rfl
  have own : overridingCheck.settings (fun _ => none) = .ok ⟨.balanced, .raw, Grid.default⟩ := rfl
  refine ⟨accepted, fails, fun standardInput readFile => ?_, loads, ?_⟩
  · exact (runLogged_exchange_and_report accepted Log.plain _ standardInput readFile).1 _ fails _ _
  · obtain ⟨-, loaded, unfiltered⟩ := runLogged_exchange_and_report accepted Log.plain
      (fun _ => none) (Text.Utf8.encode faceless) fun _ => .error .notFound
    obtain ⟨exchange, -, ends⟩ := loaded .default loads
    obtain ⟨same, moved⟩ := exchange [.blockMode, .escapes]
    have silent := unfiltered keepsToErrors_plain rfl
    rw [left] at same
    obtain ⟨settings, given, errors, -, ⟨other, -⟩ | ⟨-, code, -⟩⟩ :=
      ends faceless (readScript_encode faceless)
    · exact (other rfl).elim
    · rw [own] at given
      cases given
      rw [if_pos dropped] at code
      have quiet := errors.trans (keepsToErrors_plain _ fun _ mem => Action.level_ne_error mem)
      exact ⟨same, moved, code, quiet, silent⟩

/-- A listing of standard input. -/
def listing : Invocation where
  blockMode := none
  escapes := none
  action := .list
  source := .standardInput

/-- Variables with a filter that is no directive. -/
def foreignFilter (name : String) : Option String :=
  if name = filterVariable then some "!" else none

/-- A run can end well and yet have something among its errors: where a part of the filter is no
directive, the logger says so. -/
theorem Invocation.not_forall_fault_or_errors_eq_empty :
    listing.runLogged Log.plain foreignFilter [] (fun _ => .error .notFound) =
      { code := 0, output := "", errors := "ignoring `!`: invalid filter directive\n" } ∧
    ¬ ∀ (arguments : List String) (invocation : Invocation) (lookup : String → Option String)
      (standardInput : List UInt8) (readFile : String → Except FileFault (List UInt8)),
      ofArguments? arguments = some invocation →
        let run := invocation.runLogged Log.plain lookup standardInput readFile
        (∃ fault : Fault, run =
          { code := 1, output := "", errors := "error: " ++ fault.message ++ "\n" }) ∨
        run.errors = "" := by
  have run : listing.runLogged Log.plain foreignFilter [] (fun _ => .error .notFound) =
      { code := 0, output := "", errors := "ignoring `!`: invalid filter directive\n" } := by
    decide +kernel
  refine ⟨run, fun all => ?_⟩
  rcases all ["list"] listing foreignFilter [] (fun _ => .error .notFound)
    (by decide +kernel) with ⟨fault, failed⟩ | silent
  · rw [run] at failed
    cases congrArg Outcome.code failed
  · rw [run] at silent
    exact absurd silent (by decide)

end Flashdeck.Command
