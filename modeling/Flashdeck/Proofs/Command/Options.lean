import Mathlib.Data.List.Basic
import Flashdeck.Command.Arguments
import Flashdeck.Settings

/-!
# Options left out

Two options are taken by any command, before its name and behind it, in one argument or in two. Here
they are left out of the arguments, either or both, wherever they are given. What is left is accepted
and says what was said before, less these options.

* `withoutOptions`: the arguments without some of the options.
* `Item.ofArguments_withoutOptions`: what is left of the items.
* `Invocation.ofArguments?_withoutOptions`: what is left of the invocation.
-/

namespace Flashdeck.Command

open Script

/-- The options that any command takes. -/
inductive SharedOption where
  | blockMode
  | escapes
deriving DecidableEq, Repr

namespace SharedOption

/-- The name of the option among the arguments. -/
def name : SharedOption → String
  | .blockMode => "mode"
  | .escapes => "escapes"

/-- The variable that says the same. -/
def key : SharedOption → Settings.Variable
  | .blockMode => .blockMode
  | .escapes => .escapes

theorem name_injective : Function.Injective name := by
  intro left right same
  cases left <;> cases right <;> first | rfl | exact absurd same (by decide)

end SharedOption

variable (moved : List SharedOption)

/-- The arguments without the options in `moved`, each with its value. Behind the separator there
are no options. -/
def withoutOptions : List String → List String
  | [] => []
  | argument :: arguments =>
    match Form.ofArgument argument.toList with
    | .separator => argument :: arguments
    | .operand => argument :: withoutOptions arguments
    | .short => argument :: withoutOptions arguments
    | .option name (some _) =>
      if name ∈ moved.map SharedOption.name then withoutOptions arguments
      else argument :: withoutOptions arguments
    | .option name none =>
      if Item.takesValue name then
        match arguments with
        | [] => [argument]
        | value :: arguments =>
          if name ∈ moved.map SharedOption.name then withoutOptions arguments
          else argument :: value :: withoutOptions arguments
      else argument :: withoutOptions arguments

example :
    withoutOptions [.blockMode] ["--mode", "compat", "list", "--escapes=raw", "--mode=balanced"] =
      ["list", "--escapes=raw"] := by
  decide +kernel

namespace Item

/-- The option that an item gives. -/
def option? : Item → Option SharedOption
  | blockMode _ => some .blockMode
  | escapes _ => some .escapes
  | _ => none

/-- Whether the item is there without the options in `moved`. -/
def stays (item : Item) : Bool :=
  item.option?.all (· ∉ moved)

variable {moved} {item : Item} {items : List Item}

theorem option?_of_ofValue? {name value : String} (read : ofValue? name value = some item) :
    ∃ option, item.option? = some option ∧ option.name = name := by
  unfold ofValue? at read
  split at read
  · next mode =>
    obtain ⟨mode', -, rfl⟩ := Option.map_eq_some_iff.1 read
    exact ⟨.blockMode, rfl, mode.symm⟩
  · split at read
    · next escapes =>
      obtain ⟨policy, -, rfl⟩ := Option.map_eq_some_iff.1 read
      exact ⟨.escapes, rfl, escapes.symm⟩
    · cases read

theorem option?_of_ofFlag? {name : String} (read : ofFlag? name = some item) :
    item.option? = none := by
  unfold ofFlag? at read
  split at read
  · cases read
    rfl
  · split at read
    · cases read
      rfl
    · cases read

/-- An option stays by its name. -/
theorem stays_iff_of_ofValue? {name value : String} (read : ofValue? name value = some item) :
    item.stays moved = true ↔ name ∉ moved.map SharedOption.name := by
  obtain ⟨option, given, rfl⟩ := option?_of_ofValue? read
  rw [stays, given, Option.all_some, decide_eq_true_eq,
    List.mem_map_of_injective SharedOption.name_injective]

theorem filter_cons_of_mem {name value : String} (read : ofValue? name value = some item)
    (mem : name ∈ moved.map SharedOption.name) :
    (item :: items).filter (stays moved) = items.filter (stays moved) :=
  List.filter_cons_of_neg fun kept => (stays_iff_of_ofValue? read).1 kept mem

theorem filter_cons_of_not_mem {name value : String} (read : ofValue? name value = some item)
    (absent : name ∉ moved.map SharedOption.name) :
    (item :: items).filter (stays moved) = item :: items.filter (stays moved) :=
  List.filter_cons_of_pos ((stays_iff_of_ofValue? read).2 absent)

theorem stays_of_option?_eq_none (none : item.option? = none) : item.stays moved = true := by
  rw [stays, none, Option.all_none]

/-! ## The items of the arguments -/

section Arguments

variable {argument name : String} {arguments : List String}

theorem ofArguments_of_separator (form : Form.ofArgument argument.toList = .separator) :
    ofArguments (argument :: arguments) = some (.separator :: arguments.map .operand) := by
  rw [ofArguments, form]

theorem ofArguments_of_operand (form : Form.ofArgument argument.toList = .operand) :
    ofArguments (argument :: arguments) =
      (ofArguments arguments).map (.operand argument :: ·) := by
  rw [ofArguments, form]

theorem ofArguments_of_short (form : Form.ofArgument argument.toList = .short) :
    ofArguments (argument :: arguments) = none := by
  rw [ofArguments, form]

theorem ofArguments_of_attached {value : String}
    (form : Form.ofArgument argument.toList = .option name (some value)) :
    ofArguments (argument :: arguments) =
      (ofValue? name value).bind fun item => (ofArguments arguments).map (item :: ·) := by
  rw [ofArguments, form]

theorem ofArguments_of_detached (form : Form.ofArgument argument.toList = .option name none)
    (takes : takesValue name = true) (value : String) :
    ofArguments (argument :: value :: arguments) =
      (ofValue? name value).bind fun item => (ofArguments arguments).map (item :: ·) := by
  rw [ofArguments, form]
  exact if_pos takes

theorem ofArguments_of_flag (form : Form.ofArgument argument.toList = .option name none)
    (bare : ¬ takesValue name = true) :
    ofArguments (argument :: arguments) =
      (ofFlag? name).bind fun item => (ofArguments arguments).map (item :: ·) := by
  rw [ofArguments, form]
  exact if_neg bare

end Arguments

theorem bind_map_cons_eq_some_iff {read : Option Item} {others : Option (List Item)} :
    (read.bind fun item => others.map (item :: ·)) = some items ↔
      ∃ item behind, read = some item ∧ others = some behind ∧ items = item :: behind := by
  simp only [Option.bind_eq_some_iff, Option.map_eq_some_iff, eq_comm (b := items)]
  tauto

/-- The arguments without some options give the items without them. -/
theorem ofArguments_withoutOptions {arguments : List String}
    (parsed : ofArguments arguments = some items) :
    ofArguments (withoutOptions moved arguments) = some (items.filter (stays moved)) := by
  fun_induction withoutOptions moved arguments generalizing items with
  | case1 =>
    cases parsed
    rfl
  | case2 argument arguments form =>
    rw [ofArguments_of_separator form] at parsed ⊢
    cases parsed
    have operands : (arguments.map operand).filter (stays moved) = arguments.map operand := by
      refine List.filter_eq_self.2 fun item mem => ?_
      obtain ⟨text, -, rfl⟩ := List.mem_map.1 mem
      rfl
    rw [List.filter_cons_of_pos rfl, operands]
  | case3 argument arguments form ih =>
    rw [ofArguments_of_operand form] at parsed ⊢
    obtain ⟨behind, others, rfl⟩ := Option.map_eq_some_iff.1 parsed
    rw [ih others, List.filter_cons_of_pos rfl, Option.map_some]
  | case4 argument arguments form ih =>
    rw [ofArguments_of_short form] at parsed
    cases parsed
  | case5 argument arguments name value form named ih =>
    rw [ofArguments_of_attached form, bind_map_cons_eq_some_iff] at parsed
    obtain ⟨item, behind, read, others, rfl⟩ := parsed
    rw [ih others, filter_cons_of_mem read named]
  | case6 argument arguments name value form kept ih =>
    rw [ofArguments_of_attached form, bind_map_cons_eq_some_iff] at parsed ⊢
    obtain ⟨item, behind, read, others, rfl⟩ := parsed
    exact ⟨item, _, read, ih others, filter_cons_of_not_mem read kept⟩
  | case7 argument name form takes =>
    rw [ofArguments, form] at parsed
    simp [takes] at parsed
  | case8 argument name form takes value arguments named ih =>
    rw [ofArguments_of_detached form takes, bind_map_cons_eq_some_iff] at parsed
    obtain ⟨item, behind, read, others, rfl⟩ := parsed
    rw [ih others, filter_cons_of_mem read named]
  | case9 argument name form takes value arguments kept ih =>
    rw [ofArguments_of_detached form takes, bind_map_cons_eq_some_iff] at parsed ⊢
    obtain ⟨item, behind, read, others, rfl⟩ := parsed
    exact ⟨item, _, read, ih others, filter_cons_of_not_mem read kept⟩
  | case10 argument arguments name form bare ih =>
    rw [ofArguments_of_flag form bare, bind_map_cons_eq_some_iff] at parsed ⊢
    obtain ⟨item, behind, read, others, rfl⟩ := parsed
    exact ⟨item, _, read, ih others,
      List.filter_cons_of_pos (stays_of_option?_eq_none (option?_of_ofFlag? read))⟩

/-! ## The items without some options -/

theorem stays_of_isShared_eq_false (own : item.isShared = false) : item.stays moved = true := by
  cases item with
  | blockMode | escapes => cases own
  | noLayout | pretty | separator | operand => rfl

/-- Options that any command takes are left out on either side of its name. -/
theorem takeWhile_filter_stays (items : List Item) :
    (items.filter (stays moved)).takeWhile isShared =
      (items.takeWhile isShared).filter (stays moved) ∧
    (items.filter (stays moved)).dropWhile isShared =
      (items.dropWhile isShared).filter (stays moved) := by
  induction items with
  | nil => exact ⟨rfl, rfl⟩
  | cons item items ih =>
    cases shared : item.isShared with
    | false =>
      have here : (item :: items).filter (stays moved) = item :: items.filter (stays moved) :=
        List.filter_cons_of_pos (stays_of_isShared_eq_false shared)
      simp only [here, List.takeWhile_cons, List.dropWhile_cons, shared, Bool.false_eq_true,
        if_false, List.filter_nil, and_self]
    | true =>
      rw [List.takeWhile_cons_of_pos shared, List.dropWhile_cons_of_pos shared]
      cases kept : item.stays moved with
      | false =>
        rw [List.filter_cons_of_neg (by simp [kept]), List.filter_cons_of_neg (by simp [kept])]
        exact ih
      | true =>
        rw [List.filter_cons_of_pos kept, List.filter_cons_of_pos kept,
          List.takeWhile_cons_of_pos shared, List.dropWhile_cons_of_pos shared, ih.1]
        exact ⟨rfl, ih.2⟩

/-- What is read off items that give no option is read off what is left of them. -/
theorem filterMap_filter_of_option?_eq_none {α : Type} {f : Item → Option α}
    (other : ∀ item, (f item).isSome = true → item.option? = none) (items : List Item) :
    (items.filter (stays moved)).filterMap f = items.filterMap f := by
  rw [List.filterMap_filter]
  congr 1
  funext item
  split
  · rfl
  · next gone =>
    cases read : f item with
    | none => rfl
    | some value => exact (gone (stays_of_option?_eq_none (other item (by rw [read]; rfl)))).elim

/-- What is read off the items of one option is left out with it. -/
theorem filterMap_filter_of_option?_eq_some {α : Type} {f : Item → Option α}
    {option : SharedOption} (own : ∀ item, (f item).isSome = true → item.option? = some option)
    (items : List Item) :
    (items.filter (stays moved)).filterMap f =
      if option ∈ moved then [] else items.filterMap f := by
  have kept : ∀ item, (f item).isSome = true → (item.stays moved = true ↔ option ∉ moved) := by
    intro item read
    rw [stays, own item read, Option.all_some, decide_eq_true_eq]
  rw [List.filterMap_filter]
  split
  · next mem =>
    refine List.filterMap_eq_nil_iff.2 fun item _ => ?_
    cases read : f item with
    | none => exact ite_self _
    | some value => exact if_neg fun stays => (kept item (by rw [read]; rfl)).1 stays mem
  · next absent =>
    congr 1
    funext item
    cases read : f item with
    | none => exact ite_self _
    | some value => exact if_pos ((kept item (by rw [read]; rfl)).2 absent)

theorem filterMap_blockMode?_filter (items : List Item) :
    (items.filter (stays moved)).filterMap blockMode? =
      if .blockMode ∈ moved then [] else items.filterMap blockMode? := by
  refine filterMap_filter_of_option?_eq_some (fun item read => ?_) items
  cases item with
  | blockMode => rfl
  | _ => cases read

theorem filterMap_escapes?_filter (items : List Item) :
    (items.filter (stays moved)).filterMap escapes? =
      if .escapes ∈ moved then [] else items.filterMap escapes? := by
  refine filterMap_filter_of_option?_eq_some (fun item read => ?_) items
  cases item with
  | escapes => rfl
  | _ => cases read

theorem filterMap_operand?_filter (items : List Item) :
    (items.filter (stays moved)).filterMap operand? = items.filterMap operand? := by
  refine filterMap_filter_of_option?_eq_none (fun item read => ?_) items
  cases item with
  | operand => rfl
  | _ => cases read

theorem filter_eq_filter_of_option?_eq_none {item : Item} (other : item.option? = none)
    (items : List Item) :
    (items.filter (stays moved)).filter (· = item) = items.filter (· = item) := by
  rw [List.filter_filter]
  congr 1
  funext found
  by_cases same : found = item
  · subst same
    simp [stays_of_option?_eq_none other]
  · simp [same]

end Item

/-- The options of a command are left as they are. -/
theorem Action.ofName?_filter_stays (name : String) (items : List Item) :
    ofName? name (items.filter (Item.stays moved)) = ofName? name items := by
  rw [ofName?, Item.filter_eq_filter_of_option?_eq_none rfl,
    Item.filter_eq_filter_of_option?_eq_none rfl, ofName?]

namespace Invocation

/-- The invocation without the options in `moved`. -/
def without (invocation : Invocation) : Invocation :=
  { invocation with
    blockMode := if .blockMode ∈ moved then none else invocation.blockMode
    escapes := if .escapes ∈ moved then none else invocation.escapes }

theorem atMostOne_ite {α : Type} {p : Prop} [Decidable p] {xs : List α} {found : Option α}
    (single : atMostOne xs = some found) :
    atMostOne (if p then [] else xs) = some (if p then none else found) := by
  split
  · rfl
  · exact single

theorem or_ite {α : Type} {p : Prop} [Decidable p] {inner outer : Option α} :
    (if p then none else inner).or (if p then none else outer) =
      if p then none else inner.or outer := by
  split <;> rfl

theorem ofItems?_filter_stays {items : List Item} {invocation : Invocation}
    (made : ofItems? items = some invocation) :
    ofItems? (items.filter (Item.stays moved)) = some (invocation.without moved) := by
  obtain ⟨before, behind⟩ := @Item.takeWhile_filter_stays moved items
  unfold ofItems? at made ⊢
  simp only [before, behind]
  generalize items.dropWhile Item.isShared = command at made
  match command, made with
  | .operand name :: behind, made =>
    obtain ⟨action, named, made⟩ := Option.bind_eq_some_iff.1 made
    obtain ⟨operand, single, made⟩ := Option.bind_eq_some_iff.1 made
    obtain ⟨outerMode, outerModes, made⟩ := Option.bind_eq_some_iff.1 made
    obtain ⟨outerEscapes, outerPolicies, made⟩ := Option.bind_eq_some_iff.1 made
    obtain ⟨innerMode, innerModes, made⟩ := Option.bind_eq_some_iff.1 made
    obtain ⟨innerEscapes, innerPolicies, made⟩ := Option.bind_eq_some_iff.1 made
    cases made
    rw [List.filter_cons_of_pos rfl]
    simp only [Action.ofName?_filter_stays, Item.filterMap_operand?_filter,
      Item.filterMap_blockMode?_filter, Item.filterMap_escapes?_filter, named, single,
      atMostOne_ite outerModes, atMostOne_ite outerPolicies, atMostOne_ite innerModes,
      atMostOne_ite innerPolicies, Option.bind_eq_bind, Option.bind_some, or_ite, without]

/-- The arguments without some options make the invocation without them. -/
theorem ofArguments?_withoutOptions {arguments : List String} {invocation : Invocation}
    (accepted : ofArguments? arguments = some invocation) :
    ofArguments? (withoutOptions moved arguments) = some (invocation.without moved) := by
  obtain ⟨items, parsed, made⟩ := Option.bind_eq_some_iff.1 accepted
  rw [ofArguments?, Item.ofArguments_withoutOptions parsed, Option.bind_some,
    ofItems?_filter_stays moved made]

end Invocation

end Flashdeck.Command
