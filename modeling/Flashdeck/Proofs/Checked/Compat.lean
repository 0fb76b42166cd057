import Flashdeck.Proofs.Block.Order
import Flashdeck.Proofs.Block.Joining
import Flashdeck.Proofs.Checked.Cut

/-!
# Checked blocks by text

The blocks of a script by their text, found by offsets: the keyword is looked for behind an offset,
and the body up to each closing brace in turn, until a closing parenthesis follows. A keyword without
a block is passed by one byte, a closing brace without a parenthesis too. `bodies_eq` says that these
are the blocks of the script: the bytes are characters of their own, so that all offsets are between
characters, and each search goes on behind where it began.

* `headAt_eq`, `bodyAt_eq`: the two parts of a block.
-/

namespace Flashdeck

open Flashdeck.Text Flashdeck.Script Flashdeck.Script.Cursor

namespace Checked.Compat

open Block.Compat

/-- The cursor in front of the body of the block whose keyword stands at an offset. -/
def headAt (script : List Char) (start : Nat) : Attempt (Option Cursor) := do
  let cursor ← cursorAt script (start + Utf8.size Lexeme.keyword)
  let some cursor ← eat '(' (← skipBlanks cursor) | return none
  let some cursor ← eat '{' (← skipBlanks cursor) | return none
  return some (← skipBlanks cursor)

/-- Looks at the first closing brace behind `search`. With a closing parenthesis behind it, it ends
the body that begins at `start`, and the block ends behind the parenthesis. -/
def closingPass (script : List Char) (start search : Nat) :
    Attempt (Option (List Char × Nat) ⊕ Nat) := do
  match Utf8.offsetOf? ['}'] (← cutFrom script search) with
  | none => return .inl none
  | some offset =>
    let close := search + offset
    match ← eat ')' (← skipBlanks (← cursorAt script (close + 1))) with
    | some cursor =>
      return .inl (some (trimEnd isBlank (← slice script start close), cursor.position))
    | none => return .inr (close + 1)

/-- The body that begins at an offset, and the end of its block. -/
def bodyAt (script : List Char) (start : Nat) : Attempt (Option (List Char × Nat)) :=
  loop id (Utf8.size script) (closingPass script start) start

/-- The body of the block whose keyword stands at an offset, and the end of the block. -/
def blockAt (script : List Char) (start : Nat) : Attempt (Option (List Char × Nat)) := do
  match ← headAt script start with
  | some cursor => bodyAt script cursor.position
  | none => return none

/-- Looks at the first keyword behind an offset, and takes the block that begins there onto those
before it. -/
def blockPass (script : List Char) (state : Nat × List (List Char)) :
    Attempt (List (List Char) ⊕ Nat × List (List Char)) := do
  match Utf8.offsetOf? Lexeme.keyword (← cutFrom script state.1) with
  | none => return .inl state.2
  | some offset =>
    let start := state.1 + offset
    match ← blockAt script start with
    | some (body, stop) => return .inr (stop, state.2 ++ [body])
    | none => return .inr (start + 1, state.2)

/-- The bodies of the blocks of a script. -/
def bodies (script : List Char) : Attempt (List (List Char)) :=
  loop Prod.fst (Utf8.size script) (blockPass script) (0, [])

variable {script behind tail : List Char}

/-! ## One block -/

theorem headAt_eq (rear : Lexeme.keyword ++ tail <:+ script) :
    headAt script (inFrontOf script (Lexeme.keyword ++ tail)).position =
      .ok ((readHead (Lexeme.keyword ++ tail)).map (inFrontOf script)) := by
  have tail_rear : tail <:+ script := (List.suffix_append _ _).trans rear
  have paren_rear := (Lexeme.skipBlanks_suffix tail).trans tail_rear
  have word : Lexeme.keyword.isPrefixOf? (Lexeme.keyword ++ tail) = some tail :=
    Part.isPrefixOf?_eq_some_iff.2 rfl
  rw [headAt, position_inFrontOf_add rear rfl, cursorAt_inFrontOf tail_rear, ok_bind,
    skipBlanks_inFrontOf tail_rear, ok_bind, eat_inFrontOf paren_rear, ok_bind, readHead, word]
  simp only [Option.bind_eq_bind, Option.bind_some]
  cases paren : Lexeme.symbol '(' (Lexeme.skipBlanks tail) with
  | none => rfl
  | some inner =>
    have inner_rear := (Lexeme.suffix_of_symbol paren).trans paren_rear
    have brace_rear := (Lexeme.skipBlanks_suffix inner).trans inner_rear
    simp only [Option.map_some, Option.bind_some]
    rw [skipBlanks_inFrontOf inner_rear, ok_bind, eat_inFrontOf brace_rear, ok_bind]
    cases brace : Lexeme.symbol '{' (Lexeme.skipBlanks inner) with
    | none => rfl
    | some inside =>
      have inside_rear := (Lexeme.suffix_of_symbol brace).trans brace_rear
      simp only [Option.map_some, Option.bind_some, skipBlanks_inFrontOf inside_rear, ok_bind]
      rfl

/-- The search in front of `behind` is promised the body that ends there, with `passed` in front of
it. -/
def PromisesBody (script inside : List Char) (search : Nat) (out : Option (List Char × Nat)) :
    Prop :=
  ∃ passed behind, passed ++ behind = inside ∧ search = (inFrontOf script behind).position ∧
    out = (readBody behind).map fun (body, rest) =>
      (trimEnd isBlank (passed ++ body), (inFrontOf script rest).position)

theorem closingPass_keeps {inside : List Char} (rear : inside <:+ script) (search : Nat)
    (out : Option (List Char × Nat)) (promised : PromisesBody script inside search out) :
    closingPass script (inFrontOf script inside).position search = .ok (.inl out) ∨
      ∃ next, closingPass script (inFrontOf script inside).position search = .ok (.inr next) ∧
        id search < id next ∧ id next ≤ Utf8.size script ∧
        PromisesBody script inside next out := by
  obtain ⟨passed, behind, split, rfl, rfl⟩ := promised
  have behind_rear : behind <:+ script := List.IsSuffix.trans ⟨passed, split⟩ rear
  rw [closingPass, cutFrom_inFrontOf behind_rear, ok_bind]
  cases first : Utf8.offsetOf? ['}'] behind with
  | none =>
    left
    have nothing := readBody_append_of_not_mem (Utf8.not_mem_of_offsetOf?_eq_none first) []
    rw [List.append_nil] at nothing
    rw [nothing]
    rfl
  | some offset =>
    obtain ⟨skipped, tail, rfl, rfl, absent⟩ := Utf8.exists_not_mem_of_offsetOf?_eq_some first
    have close_rear : '}' :: tail <:+ script := (List.suffix_append _ _).trans behind_rear
    have tail_rear : tail <:+ script := (List.suffix_cons _ _).trans close_rear
    have paren_rear := (Lexeme.skipBlanks_suffix tail).trans tail_rear
    have close := position_inFrontOf_add behind_rear rfl
    have next := position_inFrontOf_succ close_rear (by decide)
    have body : slice script (inFrontOf script inside).position
        (inFrontOf script ('}' :: tail)).position = .ok (passed ++ skipped) :=
      slice_inFrontOf rear (by rw [List.append_assoc, split])
    simp only [close, next, cursorAt_inFrontOf tail_rear, skipBlanks_inFrontOf tail_rear,
      eat_inFrontOf paren_rear, ok_bind, body]
    rw [readBody_append_of_not_mem absent, readBody, if_pos rfl, readTail]
    cases closed : Lexeme.symbol ')' (Lexeme.skipBlanks tail) with
    | some rest =>
      left
      simp only [Option.map_some, List.append_nil]
      rfl
    | none =>
      right
      refine ⟨_, rfl, ?_, position_inFrontOf_le, passed ++ (skipped ++ ['}']), tail, ?_, rfl, ?_⟩
      · simp only [id]
        omega
      · rw [← split]
        simp only [List.append_assoc, List.singleton_append]
      · simp only [Option.map_map]
        congr 1
        funext found
        simp

theorem bodyAt_eq {inside : List Char} (rear : inside <:+ script) :
    bodyAt script (inFrontOf script inside).position = .ok ((readBody inside).map
      fun (body, rest) => (trimEnd isBlank body, (inFrontOf script rest).position)) :=
  loop_eq_ok (closingPass_keeps rear) ⟨[], inside, rfl, rfl, rfl⟩

theorem suffix_of_readHead {cs inside : List Char} (head : readHead cs = some inside) :
    inside <:+ cs := by
  obtain ⟨behindWord, word, head⟩ := Option.bind_eq_some_iff.1 head
  obtain ⟨behindParen, paren, head⟩ := Option.bind_eq_some_iff.1 head
  obtain ⟨behindBrace, brace, head⟩ := Option.bind_eq_some_iff.1 head
  cases head
  have front : behindWord <:+ cs := ⟨_, (Part.isPrefixOf?_eq_some_iff.1 word).symm⟩
  have blanks := Lexeme.skipBlanks_suffix
  have inner := (Lexeme.suffix_of_symbol paren).trans ((blanks _).trans front)
  exact (blanks _).trans ((Lexeme.suffix_of_symbol brace).trans ((blanks _).trans inner))

theorem suffix_of_read {cs body rest : List Char} (found : read cs = some (body, rest)) :
    rest <:+ cs := by
  obtain ⟨inside, _, head, inner, -⟩ := read_eq_some_iff.1 found
  obtain ⟨tail, rfl, closed, -⟩ := readBody_eq_some_iff.1 inner
  have behind := (suffix_of_readTail closed).trans (List.suffix_cons '}' tail)
  exact (behind.trans (List.suffix_append _ _)).trans (suffix_of_readHead head)

theorem blockAt_eq (rear : Lexeme.keyword ++ tail <:+ script) :
    blockAt script (inFrontOf script (Lexeme.keyword ++ tail)).position =
      .ok ((read (Lexeme.keyword ++ tail)).map
        fun (body, rest) => (body, (inFrontOf script rest).position)) := by
  rw [blockAt, headAt_eq rear, ok_bind, Block.Compat.read]
  cases head : readHead (Lexeme.keyword ++ tail) with
  | none => rfl
  | some inside =>
    have inside_rear : inside <:+ script := (suffix_of_readHead head).trans rear
    simp only [Option.map_some, Option.bind_eq_bind, Option.bind_some, bodyAt_eq inside_rear]
    cases readBody inside <;> rfl

/-! ## All blocks -/

/-- The state in front of `behind` is promised the blocks of `behind`, behind those read. -/
def PromisesBlocks (script : List Char) (state : Nat × List (List Char)) (out : List (List Char)) :
    Prop :=
  ∃ behind, behind <:+ script ∧ state.1 = (inFrontOf script behind).position ∧
    out = state.2 ++ pattern.values behind

theorem blockPass_keeps (state : Nat × List (List Char)) (out : List (List Char))
    (promised : PromisesBlocks script state out) :
    blockPass script state = .ok (.inl out) ∨ ∃ next, blockPass script state = .ok (.inr next) ∧
      state.1 < next.1 ∧ next.1 ≤ Utf8.size script ∧ PromisesBlocks script next out := by
  obtain ⟨search, bodies⟩ := state
  obtain ⟨behind, rear, eq, rfl⟩ := promised
  dsimp only at eq
  subst eq
  rw [blockPass, cutFrom_inFrontOf rear, ok_bind]
  cases first : Utf8.offsetOf? Lexeme.keyword behind with
  | none =>
    left
    have nothing : pattern.values behind = [] := by
      rw [← List.append_nil behind, Pattern.values_append_of_forall_none, Pattern.values_nil]
      intro before after split ne
      rw [List.append_nil]
      exact read_eq_none_of_not_prefix (Utf8.not_prefix_of_offsetOf?_eq_none first split)
    rw [nothing, List.append_nil]
    rfl
  | some offset =>
    right
    obtain ⟨skipped, tail, rfl, rfl, earliest⟩ := Utf8.exists_of_offsetOf?_eq_some first
    have start_rear : Lexeme.keyword ++ tail <:+ script := (List.suffix_append _ _).trans rear
    have start := position_inFrontOf_add rear rfl
    have values : pattern.values (skipped ++ (Lexeme.keyword ++ tail)) =
        pattern.values (Lexeme.keyword ++ tail) :=
      Pattern.values_append_of_forall_none fun before after split ne =>
        read_eq_none_of_not_prefix (earliest before after split ne)
    simp only [start, blockAt_eq start_rear, ok_bind, values]
    cases found : read (Lexeme.keyword ++ tail) with
    | some pair =>
      obtain ⟨body, rest⟩ := pair
      have rest_rear := suffix_of_read found
      have further := position_inFrontOf_lt start_rear rest_rear (pattern.shorter found)
      refine ⟨_, rfl, ?_, position_inFrontOf_le, rest, rest_rear.trans start_rear, rfl, ?_⟩
      · dsimp only
        omega
      · rw [Pattern.values_of_read_eq_some found, List.append_assoc, List.singleton_append]
    | none =>
      -- the keyword is passed by its first letter, a byte of its own
      let rest := 'l' :: 'a' :: 's' :: 'h' :: tail
      have letter_rear : 'f' :: rest <:+ script := start_rear
      have next := position_inFrontOf_succ letter_rear (by decide)
      refine ⟨(_, _), rfl, ?_, ?_, rest, (List.suffix_cons 'f' rest).trans letter_rear, next, ?_⟩
      · dsimp only
        omega
      · exact next ▸ position_inFrontOf_le
      · exact congrArg _ (Pattern.values_cons_of_read_eq_none found)

/-- The blocks of a script are found with nothing that finding them can fail at. -/
theorem bodies_eq (script : List Char) : bodies script = .ok (Block.Compat.bodies script) := by
  refine loop_eq_ok blockPass_keeps ⟨script, List.suffix_refl script, ?_, rfl⟩
  rw [inFrontOf_self]

end Checked.Compat

end Flashdeck
