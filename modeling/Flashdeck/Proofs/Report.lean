import Flashdeck.Proofs.Bytes
import Flashdeck.Proofs.Number.Format
import Flashdeck.Proofs.Text.Tidy

/-!
# The lines of a listing

A listing is meant to have a line for each card. Of a front it shows the first line only, and
indices, placements and numbers have no line feed in them; but a background is written as the card
has it. So a listing has the lines it is meant to have exactly if no card has a background with a
line feed in it, and each such line feed makes a line more.

* `count_feed_listingLine`: the line feeds of a line are those of its background.
* `splitLines_flatMap_feed`: lines that are written one behind the other are split again.
* `Invocation.count_feed_run_list`: the lines that a run prints.
* `Invocation.not_forall_count_feed_run_list`: a script that prints a line too many.
-/

namespace Flashdeck

open Text

/-! ## Lines in a row -/

namespace Text

theorem feed_not_mem_dropReturn {cs : List Char} (single : '\n' ∉ cs) : '\n' ∉ dropReturn cs := by
  unfold dropReturn
  split
  · exact fun mem => single (List.dropLast_subset cs mem)
  · exact single

/-- The first line of a text is one line. -/
theorem feed_not_mem_firstLine (cs : List Char) : '\n' ∉ firstLine cs := by
  have single : ∀ line ∈ splitLines cs, '\n' ∉ line := fun _ => feed_not_mem_of_mem_splitLines
  unfold firstLine
  split
  · next split => exact feed_not_mem_dropReturn (single _ (split ▸ List.mem_cons_self))
  · next split => exact single _ (split ▸ List.mem_cons_self)
  · exact List.not_mem_nil

/-- Lines that each end with a line feed are split into these lines and an empty one. -/
theorem splitLines_flatMap_feed {lines : List (List Char)}
    (single : ∀ line ∈ lines, '\n' ∉ line) :
    splitLines (lines.flatMap (· ++ ['\n'])) = lines ++ [[]] := by
  have joined : lines.flatMap (· ++ ['\n']) = joinLines (lines ++ [[]]) := by
    rw [joinLines_append_cons]
    simp
  rw [joined, splitLines_joinLines (by simp)]
  exact List.forall_mem_append.2 ⟨single, List.forall_mem_singleton.2 List.not_mem_nil⟩

end Text

/-! ## The line of a card -/

/-- The card has a background with a line feed in it. -/
def Card.Spills (card : Card) : Prop :=
  ∃ content, card.fields.get? "bg_color" = some (.text content) ∧ '\n' ∈ content.toList

/-- The background of the line of a card. -/
def PlacedCard.background (placed : PlacedCard) : List Char :=
  (Appearance.ofCard placed.card).background.toList

theorem PlacedCard.feed_mem_background_iff {placed : PlacedCard} :
    '\n' ∈ placed.background ↔ placed.card.Spills := by
  have default : '\n' ∉ Appearance.default.background.toList := by decide
  rw [background, Appearance.ofCard, Card.Spills]
  cases placed.card.fields.get? "bg_color" with
  | none => exact iff_of_false default fun spills => nomatch spills
  | some value =>
    cases value with
    | text content => simp [Value.text?]
    | number amount => exact iff_of_false default fun spills => nomatch spills

namespace Command

theorem count_feed_padIndex (n : Nat) : (padIndex (toString n)).toList.count '\n' = 0 := by
  have digits : '\n' ∉ (toString n).toList := by
    intro mem
    rw [show toString n = n.repr from rfl, Nat.toList_repr] at mem
    exact absurd (Nat.isDigit_of_mem_toDigits (by decide) (Nat.le_refl 10) mem) (by decide)
  rw [padIndex, String.toList_append, String.toList_ofList, List.count_append,
    List.count_eq_zero.2 digits, List.count_replicate]
  rfl

theorem count_feed_write_plain (x : Float) :
    (Number.Format.plain.write x).toList.count '\n' = 0 := by
  refine List.count_eq_zero.2 fun mem => ?_
  exact absurd (Number.Format.writes_of_mem_write mem) (by decide)

theorem count_feed_placementName (placement : Placement) :
    (placementName placement).toList.count '\n' = 0 := by
  cases placement <;> decide

/-- The line of a card has the line feeds of its background and no others. -/
theorem count_feed_listingLine (placed : PlacedCard) :
    (listingLine placed).toList.count '\n' = placed.background.count '\n' := by
  have title : (firstLine placed.card.front.display.toList).count '\n' = 0 :=
    List.count_eq_zero.2 (feed_not_mem_firstLine _)
  have marks : "#".toList.count '\n' = 0 ∧ " ".toList.count '\n' = 0 ∧
      " (".toList.count '\n' = 0 ∧ ", ".toList.count '\n' = 0 ∧ ") ".toList.count '\n' = 0 := by
    decide
  simp only [listingLine, String.toList_append, String.toList_ofList, List.count_append,
    count_feed_padIndex, count_feed_write_plain, count_feed_placementName, title, marks,
    PlacedCard.background, Nat.zero_add, Nat.add_zero]

theorem feed_not_mem_listingLine_iff {placed : PlacedCard} :
    '\n' ∉ (listingLine placed).toList ↔ ¬ placed.card.Spills := by
  rw [← List.count_eq_zero, count_feed_listingLine, List.count_eq_zero,
    PlacedCard.feed_mem_background_iff]

/-! ## The listing -/

namespace Action

theorem toList_output_perform_list (settings : Settings) (script : List Char) :
    (list.perform settings script).output.toList =
      ((settings.board script).cards.map fun placed => (listingLine placed).toList).flatMap
        (· ++ ['\n']) := by
  simp only [perform, Outcome.success, String.toList_join, List.flatMap_map, String.toList_append]
  rfl

/-- A listing has a line feed for each card and those of the backgrounds. -/
theorem count_feed_perform_list (settings : Settings) (script : List Char) :
    (list.perform settings script).output.toList.count '\n' =
      (settings.board script).size +
        ((settings.board script).cards.flatMap PlacedCard.background).count '\n' := by
  rw [toList_output_perform_list, Board.size]
  induction (settings.board script).cards with
  | nil => rfl
  | cons placed cards ih =>
    rw [List.map_cons, List.flatMap_cons, List.count_append, ih, List.count_append,
      count_feed_listingLine, List.count_singleton_self, List.flatMap_cons, List.count_append,
      List.length_cons]
    omega

theorem count_feed_perform_list_eq_iff {settings : Settings} {script : List Char} :
    (list.perform settings script).output.toList.count '\n' = (settings.board script).size ↔
      ∀ placed ∈ (settings.board script).cards, ¬ placed.card.Spills := by
  rw [count_feed_perform_list, Nat.add_eq_left, List.count_eq_zero]
  simp only [List.mem_flatMap, PlacedCard.feed_mem_background_iff, not_exists, not_and]

theorem splitLines_output_perform_list {settings : Settings} {script : List Char}
    (none : ∀ placed ∈ (settings.board script).cards, ¬ placed.card.Spills) :
    splitLines (list.perform settings script).output.toList =
      (settings.board script).cards.map (fun placed => (listingLine placed).toList) ++ [[]] := by
  rw [toList_output_perform_list, splitLines_flatMap_feed]
  intro line mem
  obtain ⟨placed, inside, rfl⟩ := List.mem_map.1 mem
  exact feed_not_mem_listingLine_iff.2 (none placed inside)

end Action

/-- **A listing has a line for each card, and a line more for each line feed of a background.** So
it has as many lines as cards exactly if no background has a line feed in it, whatever else the
cards hold, and then its lines are those of the cards, in the order of the board. -/
theorem Invocation.count_feed_run_list {invocation : Invocation} {lookup : String → Option String}
    {standardInput : List UInt8} {readFile : String → Except FileFault (List UInt8)}
    {settings : Settings} {script : List Char} (list : invocation.action = .list)
    (loaded : invocation.settings lookup = .ok settings)
    (read : invocation.script standardInput readFile = .ok script) :
    let run := invocation.run lookup standardInput readFile
    let board := settings.board script
    run = .success run.output ∧
    run.output.toList.count '\n' =
      board.size + (board.cards.flatMap PlacedCard.background).count '\n' ∧
    (run.output.toList.count '\n' = board.size ↔
      ∀ placed ∈ board.cards, ¬ placed.card.Spills) ∧
    ((∀ placed ∈ board.cards, ¬ placed.card.Spills) →
      splitLines run.output.toList =
        board.cards.map (fun placed => (listingLine placed).toList) ++ [[]]) := by
  rw [run_eq_perform loaded read, list]
  exact ⟨rfl, Action.count_feed_perform_list settings script,
    Action.count_feed_perform_list_eq_iff, Action.splitLines_output_perform_list⟩

/-- A script with one card, `flash({ front: "a", back: "b", bg_color: "red\nblue" })`. -/
def spillingScript : List Char :=
  "flash(\x7b front: \"a\", back: \"b\", bg_color: \"red\\nblue\" \x7d)".toList

/-- Lists the script on standard input. -/
def listInput : Invocation where
  blockMode := none
  escapes := none
  action := .list
  source := .standardInput

example : Invocation.ofArguments? ["list"] = some listInput := by
  decide +kernel

theorem settings_listInput : listInput.settings (fun _ => none) = .ok .default := rfl

theorem script_listInput :
    listInput.script (Utf8.encode spillingScript) (fun _ => .error .notFound) =
      .ok spillingScript :=
  readScript_encode spillingScript

theorem map_background_spillingScript :
    (Settings.default.board spillingScript).cards.map PlacedCard.background =
      ["red\nblue".toList] := by
  decide +kernel

theorem size_board_spillingScript : (Settings.default.board spillingScript).size = 1 := by
  have length := congrArg List.length map_background_spillingScript
  rwa [List.length_map] at length

theorem count_feed_spillingScript :
    ((Settings.default.board spillingScript).cards.flatMap PlacedCard.background).count '\n' =
      1 := by
  rw [List.flatMap_def, map_background_spillingScript]
  rfl

/-- One card and two lines. -/
theorem Invocation.count_feed_run_list_spillingScript :
    listInput.action = .list ∧ listInput.settings (fun _ => none) = .ok .default ∧
      listInput.script (Utf8.encode spillingScript) (fun _ => .error .notFound) =
        .ok spillingScript ∧
      (Settings.default.board spillingScript).size = 1 ∧
      (listInput.run (fun _ => none) (Utf8.encode spillingScript)
        (fun _ => .error .notFound)).output.toList.count '\n' = 2 := by
  refine ⟨rfl, settings_listInput, script_listInput, size_board_spillingScript, ?_⟩
  have lines := (count_feed_run_list rfl settings_listInput script_listInput).2.1
  rw [lines, size_board_spillingScript, count_feed_spillingScript]

/-- A background of two lines makes a line too many. -/
theorem Invocation.not_forall_count_feed_run_list :
    ¬ ∀ (invocation : Invocation) (lookup : String → Option String) (standardInput : List UInt8)
      (readFile : String → Except FileFault (List UInt8)) (settings : Settings)
      (script : List Char), invocation.action = .list →
      invocation.settings lookup = .ok settings →
      invocation.script standardInput readFile = .ok script →
      (invocation.run lookup standardInput readFile).output.toList.count '\n' =
        (settings.board script).size := by
  intro single
  have one := single _ _ _ _ _ _ rfl settings_listInput script_listInput
  have two := Action.count_feed_perform_list .default spillingScript
  rw [run_eq_perform settings_listInput script_listInput] at one
  rw [count_feed_spillingScript, size_board_spillingScript] at two
  rw [size_board_spillingScript] at one
  cases one.symm.trans two

end Command

end Flashdeck
