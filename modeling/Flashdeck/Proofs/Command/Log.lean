import Flashdeck.Command.Log

/-!
# What is shown where no filter is given

A logger without a filter shows errors and nothing else. No event of a run is an error: a fault ends
a run and is told by the run itself. So without a filter, a run is what it is without its log.

* `Action.level_ne_error`: no event is an error.
* `Log.keepsToErrors_plain`: `Log.plain` is such a logger.
* `Invocation.runLogged_eq_run`: runs without a filter.
-/

namespace Flashdeck

open Log

/-! ## The levels of events -/

section

variable {event : Event}

theorem Script.level_of_mem_bodyEvents {body : List Char} (mem : event ∈ bodyEvents body) :
    event.level = .trace := by
  obtain ⟨missed, -, told⟩ := List.mem_filterMap.1 mem
  obtain ⟨key, -, rfl⟩ := Option.map_eq_some_iff.1 told
  rfl

theorem Script.Block.Balanced.level_of_mem_events {script : List Char}
    (mem : event ∈ events script) : event.level = .trace := by
  obtain ⟨missed, -, told⟩ := List.mem_filterMap.1 mem
  obtain ⟨found, -, rfl⟩ := Option.map_eq_some_iff.1 told
  rfl

theorem Script.level_ne_error_of_mem_blockEvents {mode : BlockMode} {script : List Char}
    (mem : event ∈ blockEvents mode script) : event.level ≠ .error := by
  rcases List.mem_append.1 mem with passed | last
  · cases mode with
    | compat => cases passed
    | balanced => simp [Block.Balanced.level_of_mem_events passed]
  · cases List.mem_singleton.1 last
    nofun

namespace Settings

variable {settings : Settings} {script : List Char}

theorem level_ne_error_of_mem_cardEvents {body : List Char} {index : Nat}
    (mem : event ∈ settings.cardEvents body index) : event.level ≠ .error := by
  rcases List.mem_append.1 mem with skipped | dropped
  · simp [Script.level_of_mem_bodyEvents skipped]
  · cases made : Card.ofFields (Script.fieldsOfBody settings.escapes body) with
    | ok card =>
      rw [made] at dropped
      cases dropped
    | error face =>
      rw [made] at dropped
      cases List.mem_singleton.1 dropped
      nofun

theorem level_ne_error_of_mem_cardsEvents (mem : event ∈ settings.cardsEvents script) :
    event.level ≠ .error := by
  rcases List.mem_append.1 mem with mem | last
  · rcases List.mem_append.1 mem with blocks | cards
    · exact Script.level_ne_error_of_mem_blockEvents blocks
    · obtain ⟨⟨body, index⟩, -, mem⟩ := List.mem_flatMap.1 cards
      exact level_ne_error_of_mem_cardEvents mem
  · cases List.mem_singleton.1 last
    nofun

theorem level_ne_error_of_mem_boardEvents (mem : event ∈ settings.boardEvents script) :
    event.level ≠ .error := by
  rcases List.mem_append.1 mem with cards | last
  · exact level_ne_error_of_mem_cardsEvents cards
  · cases List.mem_singleton.1 last
    nofun

end Settings

/-- What an action tells while it works is no error. -/
theorem Command.Action.level_ne_error {action : Action} {settings : Settings} {script : List Char}
    (mem : event ∈ action.events settings script) : event.level ≠ .error := by
  cases action with
  | compile placed pretty =>
    cases placed with
    | true => exact Settings.level_ne_error_of_mem_boardEvents mem
    | false => exact Settings.level_ne_error_of_mem_cardsEvents mem
  | check =>
    rcases List.mem_append.1 mem with mem | last
    · rcases List.mem_append.1 mem with blocks | cards
      · exact Script.level_ne_error_of_mem_blockEvents blocks
      · exact Settings.level_ne_error_of_mem_cardsEvents cards
    · cases List.mem_singleton.1 last
      nofun
  | list => exact Settings.level_ne_error_of_mem_boardEvents mem

end

/-! ## Loggers without a filter -/

/-- Without a filter, nothing but errors is shown. -/
def Logger.KeepsToErrors (log : Logger) : Prop :=
  ∀ events : List Event, (∀ event ∈ events, event.level ≠ .error) → log none events = ""

theorem Log.shows_errorsOnly (event : Event) :
    Directive.shows [Directive.errorsOnly] event = decide (event.level = .error) := by
  obtain ⟨level, source, message, details⟩ := event
  cases level <;> rfl

theorem Log.keepsToErrors_plain : Logger.KeepsToErrors Log.plain := by
  intro events harmless
  have unfiltered : Log.plain none events =
      "" ++ String.join ((events.filter (Directive.shows [Directive.errorsOnly])).map Event.line) :=
    rfl
  have shown : events.filter (Directive.shows [Directive.errorsOnly]) = [] :=
    List.filter_eq_nil_iff.2 fun event mem => by simp [shows_errorsOnly, harmless event mem]
  rw [unfiltered, shown]
  rfl

namespace Command.Invocation

variable {invocation : Invocation} {lookup : String → Option String} {standardInput : List UInt8}
  {readFile : String → Except FileFault (List UInt8)}

theorem level_ne_error {event : Event}
    (mem : event ∈ invocation.events lookup standardInput readFile) : event.level ≠ .error := by
  rw [events] at mem
  split at mem
  · exact Action.level_ne_error mem
  · cases mem

/-- A run without a filter is the run without its log. -/
theorem runLogged_eq_run {log : Logger} (quiet : log.KeepsToErrors)
    (unfiltered : lookup filterVariable = none) :
    invocation.runLogged log lookup standardInput readFile =
      invocation.run lookup standardInput readFile := by
  rw [runLogged, unfiltered, quiet _ fun event => level_ne_error, String.empty_append]

end Command.Invocation

end Flashdeck
