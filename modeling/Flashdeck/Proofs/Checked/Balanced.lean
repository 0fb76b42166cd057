import Flashdeck.Proofs.Block.Balanced
import Flashdeck.Proofs.Checked.Token

/-!
# Checked blocks by tokens

The blocks of a script by their tokens, found by the indices of the tokens: a count of the open braces
leads to the one that closes a block, and the body is cut out of the script between the offsets of its
braces. `bodies_eq` says that these are the blocks of the script: a brace is only ever closed while one
is open, and the offsets of tokens are between characters.

* `closeFrom_eq`: the count comes to the brace that the reader of blocks comes to.
* `blockAt_eq`: the block at an index.
-/

namespace Flashdeck.Checked.Balanced

open Flashdeck.Text Flashdeck.Script Flashdeck.Script.Block Flashdeck.Script.Block.Balanced

/-- Looks for the brace that closes the last one that is still open, with `depth` braces open before
the mark at `index`: the brace, its index and the marks behind it. -/
def closeFrom (depth index : Nat) : List Mark → Attempt (Option (Mark × Nat × List Mark))
  | [] => return none
  | mark :: marks =>
    match mark.kind with
    | .braceOpen => closeFrom (depth + 1) (index + 1) marks
    | .braceClose => do
      let depth ← subtract depth 1
      if depth = 0 then return some (mark, index, marks)
      else closeFrom depth (index + 1) marks
    | _ => closeFrom depth (index + 1) marks

/-- The body that begins behind an opening brace with an index, and the index behind its block. -/
def bodyAt (script : List Char) (index : Nat) (opening : Mark) (behind : List Mark) :
    Attempt (Option (List Char × Nat)) := do
  match ← closeFrom 0 index (opening :: behind) with
  | some (close, closeIndex, ending :: _) =>
    if ending.kind = .parenClose then
      return some (trim isBlank (← slice script opening.stop close.start), closeIndex + 2)
    else return none
  | _ => return none

/-- The body of the block whose keyword has an index, and the index behind the block. -/
def blockAt (script : List Char) (marks : List Mark) (index : Nat) :
    Attempt (Option (List Char × Nat)) :=
  match marks.drop index with
  | call :: paren :: opening :: behind =>
    if call.kind = .call ∧ paren.kind = .parenOpen ∧ opening.kind = .braceOpen then
      bodyAt script (index + 2) opening behind
    else return none
  | _ => return none

/-- Takes the block at an index onto those before it, or passes one token. -/
def blockPass (script : List Char) (marks : List Mark) (state : Nat × List (List Char)) :
    Attempt (List (List Char) ⊕ Nat × List (List Char)) := do
  if state.1 < marks.length then
    match ← blockAt script marks state.1 with
    | some (body, next) => return .inr (next, state.2 ++ [body])
    | none => return .inr (state.1 + 1, state.2)
  else return .inl state.2

/-- The bodies of the blocks of a script. -/
def bodies (script : List Char) : Attempt (List (List Char)) := do
  let marks ← tokens script
  loop Prod.fst marks.length (blockPass script marks) (0, [])

/-! ## One block -/

/-- The offsets of the brace that closes a block, with the first token inside behind `position`. -/
def closing (position : Nat) (block : Balanced) : Mark :=
  .of (position + Utf8.size (block.inside.flatMap Token.spelling) + Utf8.size block.close.gap,
    block.close)

theorem closing_cons (position : Nat) (token : Token) (block : Balanced) :
    closing position { block with inside := token :: block.inside } =
      closing (position + Utf8.size token.gap + Utf8.size token.text) block := by
  simp only [closing, List.flatMap_cons, Token.spelling, Utf8.size_append, Nat.add_assoc]

/-- What `closeFrom` gives for a block that the reader of blocks has read to its end. -/
def closed (position index : Nat) (pair : Balanced × List Token) : Mark × Nat × List Mark :=
  (closing position pair.1, index + pair.1.inside.length,
    (locate (closing position pair.1).stop pair.2).map Mark.of)

theorem closed_cons (position index : Nat) (token : Token) (pair : Balanced × List Token) :
    closed position index ({ pair.1 with inside := token :: pair.1.inside }, pair.2) =
      closed (position + Utf8.size token.gap + Utf8.size token.text) (index + 1) pair := by
  rw [closed, closed, closing_cons, List.length_cons]
  simp only [Nat.add_comm 1, Nat.add_assoc]

/-- With one more token in front, the same brace is found from further ahead. -/
theorem map_closed_cons (position index : Nat) (token : Token)
    (pairs : Option (Balanced × List Token)) :
    (pairs.map fun (block, rest) =>
        ({ block with inside := token :: block.inside }, rest)).map (closed position index) =
      pairs.map (closed (position + Utf8.size token.gap + Utf8.size token.text) (index + 1)) := by
  rw [Option.map_map]
  exact congrArg (Option.map · pairs) (funext (closed_cons position index token))

section Count

variable {depth index : Nat} {mark : Mark} {marks : List Mark}

theorem closeFrom_open (opens : mark.kind = .braceOpen) :
    closeFrom depth index (mark :: marks) = closeFrom (depth + 1) (index + 1) marks := by
  rw [closeFrom, opens]

theorem closeFrom_close_one (closes : mark.kind = .braceClose) :
    closeFrom 1 index (mark :: marks) = .ok (some (mark, index, marks)) := by
  rw [closeFrom, closes]
  rfl

theorem closeFrom_close_succ (closes : mark.kind = .braceClose) :
    closeFrom (depth + 2) index (mark :: marks) = closeFrom (depth + 1) (index + 1) marks := by
  rw [closeFrom, closes]
  rfl

theorem closeFrom_plain (opens : mark.kind ≠ .braceOpen) (closes : mark.kind ≠ .braceClose) :
    closeFrom depth index (mark :: marks) = closeFrom depth (index + 1) marks := by
  rw [closeFrom]
  split
  · next kind => exact (opens kind).elim
  · next kind => exact (closes kind).elim
  · rfl

end Count

/-- The count of open braces is one more than the reader's, which leaves out the block's own, and so
it is never zero at a brace that closes one. -/
theorem closeFrom_eq (depth index position : Nat) (tokens : List Token) :
    closeFrom (depth + 1) index ((locate position tokens).map Mark.of) =
      .ok ((readInside depth tokens).map (closed position index)) := by
  induction tokens generalizing depth index position with
  | nil => rfl
  | cons token tokens ih =>
    rw [locate, List.map_cons]
    by_cases opens : token.kind = .braceOpen
    · rw [closeFrom_open opens, readInside_open opens, ih, map_closed_cons]
    by_cases closes : token.kind = .braceClose
    · cases depth with
      | zero =>
        rw [closeFrom_close_one closes, readInside_close_zero closes]
        simp [closed, closing, Mark.of, endOf]
      | succ depth =>
        rw [closeFrom_close_succ closes, readInside_close_succ closes, ih, map_closed_cons]
    · rw [closeFrom_plain opens closes, readInside_plain opens closes, ih, map_closed_cons]

variable {script : List Char} {marks : List Mark} {index position : Nat} {tokens : List Token}

/-- What stands between the braces of a block can be cut out by their offsets. -/
theorem slice_closing {block : Balanced} {rest : List Token}
    (located : Locates script position (block.inside ++ block.close :: rest)) :
    slice script position (closing position block).start =
      .ok (block.inside.flatMap Token.spelling ++ block.close.gap) :=
  slice_eq_ok_iff.2 located.standsAt

/-- The block whose opening brace has an index is the one that begins with the tokens behind it. -/
theorem bodyAt_eq {item : Nat × Token} {stop : Nat} (opens : item.2.kind = .braceOpen)
    (located : Locates script stop tokens) (ends : endOf item = stop) :
    bodyAt script index (.of item) ((locate stop tokens).map Mark.of) =
      .ok ((readInside 0 tokens).bind fun (block, rest) => (readKind .parenClose rest).map
        fun _ => (block.body, index + (block.inside.length + 3))) := by
  rw [bodyAt, closeFrom_open opens, closeFrom_eq, ok_bind, Mark.stop_of, ends]
  cases inside : readInside 0 tokens with
  | none => rfl
  | some pair =>
    obtain ⟨block, rest⟩ := pair
    rw [eq_append_of_readInside inside] at located
    have cut := slice_closing located
    have behind : index + 1 + block.inside.length + 2 = index + (block.inside.length + 3) := by omega
    cases rest with
    | nil => rfl
    | cons ending rest =>
      simp only [Option.map_some, closed, locate, List.map_cons, Mark.kind_of, Option.bind_some,
        readKind, cut, ok_bind, behind]
      split <;> rfl

theorem read_eq_none (absent : ∀ call paren opening behind,
    tokens = call :: paren :: opening :: behind →
      ¬ (call.kind = .call ∧ paren.kind = .parenOpen ∧ opening.kind = .braceOpen)) :
    Balanced.read tokens = none := by
  refine Option.eq_none_iff_forall_ne_some.2 fun pair found => ?_
  obtain ⟨call, paren, opening, ending, split, head, -⟩ := read_eq_some_iff.1 found
  exact absent call paren opening _ split head

theorem read_of_head {call paren opening : Token} {behind : List Token}
    (head : call.kind = .call ∧ paren.kind = .parenOpen ∧ opening.kind = .braceOpen) :
    Balanced.read (call :: paren :: opening :: behind) = (readInside 0 behind).bind
      fun (block, rest) => (readKind .parenClose rest).bind fun rest => some (block, rest) := by
  simp only [Balanced.read, readKind, head, ↓reduceIte, Option.bind_eq_bind, Option.bind_some]

/-- The block at an index is the one that begins with the tokens from there on. -/
theorem blockAt_eq (here : marks.drop index = (locate position tokens).map Mark.of)
    (located : Locates script position tokens) :
    blockAt script marks index = .ok ((Balanced.read tokens).map
      fun (block, _) => (block.body, index + (block.inside.length + 5))) := by
  rw [blockAt, here]
  rcases tokens with _ | ⟨call, _ | ⟨paren, _ | ⟨opening, behind⟩⟩⟩
  · rfl
  · rw [read_eq_none fun _ _ _ _ eq => by cases eq]
    rfl
  · rw [read_eq_none fun _ _ _ _ eq => by cases eq]
    rfl
  · simp only [locate, List.map_cons]
    split
    · next head =>
      have behind_located := located.of_cons.of_cons.of_cons
      have shift : ∀ n, index + 2 + (n + 3) = index + (n + 5) := fun n => by omega
      rw [read_of_head head, bodyAt_eq head.2.2 behind_located rfl]
      simp only [shift]
      cases readInside 0 behind with
      | none => rfl
      | some pair =>
        simp only [Option.bind_some]
        cases readKind .parenClose pair.2 <;> rfl
    · next other =>
      rw [read_eq_none fun _ _ _ _ eq => by cases eq; exact other]
      rfl

/-! ## All blocks -/

/-- The state before the tokens `behind` is promised the blocks among them, behind those read. -/
def PromisesBlocks (script : List Char) (state : Nat × List (List Char)) (out : List (List Char)) :
    Prop :=
  ∃ before behind, tokenize script = before ++ behind ∧ state.1 = before.length ∧
    out = state.2 ++ (pattern.values behind).map Balanced.body

theorem length_locate (position : Nat) (tokens : List Token) :
    (locate position tokens).length = tokens.length := by
  rw [← List.length_map Prod.snd, map_snd_locate]

theorem blockPass_keeps (marks_eq : marks = (locate 0 (tokenize script)).map Mark.of)
    (state : Nat × List (List Char)) (out : List (List Char))
    (promised : PromisesBlocks script state out) :
    blockPass script marks state = .ok (.inl out) ∨
      ∃ next, blockPass script marks state = .ok (.inr next) ∧ state.1 < next.1 ∧
        next.1 ≤ marks.length ∧ PromisesBlocks script next out := by
  obtain ⟨index, bodies⟩ := state
  obtain ⟨before, behind, split, eq, rfl⟩ := promised
  dsimp only at eq
  subst eq
  have length : marks.length = before.length + behind.length := by
    rw [marks_eq, List.length_map, length_locate, split, List.length_append]
  have here : marks.drop before.length =
      (locate (0 + Utf8.size (before.flatMap Token.spelling)) behind).map Mark.of := by
    rw [marks_eq, split, locate_append, List.map_append, ← length_locate 0 before,
      ← List.length_map Mark.of, List.drop_left]
  have located := locates_tokenize script
  rw [split] at located
  rw [blockPass]
  cases behind with
  | nil =>
    left
    have ended : ¬ before.length < marks.length := by
      rw [length]
      exact Nat.lt_irrefl _
    rw [if_neg ended, Pattern.values_nil, List.map_nil, List.append_nil]
    rfl
  | cons token tokens =>
    right
    have going : before.length < marks.length := by
      rw [length, List.length_cons]
      omega
    rw [if_pos going, blockAt_eq here located.of_append, ok_bind]
    cases found : Balanced.read (token :: tokens) with
    | some pair =>
      obtain ⟨block, rest⟩ := pair
      obtain ⟨call, paren, opening, ending, items, -⟩ := read_eq_some_iff.1 found
      refine ⟨_, rfl, ?_, ?_, before ++ call :: paren :: opening ::
        (block.inside ++ [block.close, ending]), rest, ?_, ?_, ?_⟩
      · dsimp only
        omega
      · rw [length, items]
        simp only [List.length_cons, List.length_append]
        omega
      · rw [split, items]
        simp
      · simp
      · rw [Pattern.values_of_read_eq_some found, List.map_cons, List.append_assoc,
          List.singleton_append]
    | none =>
      refine ⟨_, rfl, Nat.lt_succ_self _, going, before ++ [token], tokens, ?_, ?_, ?_⟩
      · rw [split, List.append_assoc, List.singleton_append]
      · simp
      · rw [Pattern.values_cons_of_read_eq_none found]

/-- The blocks of a script are found with nothing that finding them can fail at. -/
theorem bodies_eq (script : List Char) : bodies script = .ok (blockBodies .balanced script) := by
  rw [bodies, tokens_eq, ok_bind]
  exact loop_eq_ok (blockPass_keeps rfl) ⟨[], tokenize script, rfl, rfl, rfl⟩

end Flashdeck.Checked.Balanced
