import Flashdeck.Proofs.Checked.Loop
import Flashdeck.Proofs.Cursor.Run
import Flashdeck.Proofs.Text.Offset

/-!
# Checked cuts and cursors

Texts are cut by the byte, and a cursor is asked only where a text can be cut. In front of a rear of
its text a cursor can be asked anything: it does with its offset what the readers of lexemes do with
the rear, and what it scans can be cut out of the text.

* `eat_inFrontOf`, `skipBlanks_inFrontOf`, `scanText_inFrontOf` and their like: what a cursor does.
* `sliceOf_of_apply_eq_span`: a span that was scanned can be cut out.
-/

namespace Flashdeck

open Flashdeck.Text Flashdeck.Script

/-! ## Cursors in front of a rear of the text -/

namespace Script.Lexeme

theorem skipBlanks_suffix (cs : List Char) : skipBlanks cs <:+ cs :=
  List.dropWhile_suffix _

theorem suffix_of_symbol {expected : Char} {cs rest : List Char}
    (read : symbol expected cs = some rest) : rest <:+ cs :=
  ⟨[expected], (symbol_eq_some_iff.1 read).symm⟩

end Script.Lexeme

namespace Script.Cursor

theorem ScansBy.suffix {operation : Operation} {delimiter cs content rest : List Char}
    {reader : List Char → Option (List Char × List Char)}
    (by_reader : ScansBy operation reader delimiter) (read : reader cs = some (content, rest)) :
    rest <:+ cs :=
  ⟨_, (by_reader.read_iff.1 read).1.symm⟩

/-- The cursor in front of `behind`, a rear of its text. -/
def inFrontOf (source behind : List Char) : Cursor :=
  ⟨source, Utf8.size source - Utf8.size behind⟩

variable {source behind rest : List Char}

@[simp] theorem source_inFrontOf : (inFrontOf source behind).source = source := rfl

theorem position_inFrontOf :
    (inFrontOf source behind).position = Utf8.size source - Utf8.size behind := rfl

theorem exists_standsBetween_inFrontOf (rear : behind <:+ source) :
    ∃ before, (inFrontOf source behind).StandsBetween before behind := by
  obtain ⟨before, rfl⟩ := rear
  refine ⟨before, rfl, ?_⟩
  rw [inFrontOf, Utf8.size_append, Nat.add_sub_cancel]

theorem inFrontOf_self (source : List Char) : inFrontOf source source = ⟨source, 0⟩ := by
  rw [inFrontOf, Nat.sub_self]

/-- The position grows by what is passed. -/
theorem position_inFrontOf_add {taken : List Char} (rear : behind <:+ source)
    (split : taken ++ rest = behind) :
    (inFrontOf source behind).position + Utf8.size taken = (inFrontOf source rest).position := by
  have within := Utf8.size_le_of_suffix rear
  rw [← split, Utf8.size_append] at within
  rw [position_inFrontOf, position_inFrontOf, ← split, Utf8.size_append]
  omega

/-- A character of one byte is passed by one byte. -/
theorem position_inFrontOf_succ {c : Char} (rear : c :: rest <:+ source) (byte : c.utf8Size = 1) :
    (inFrontOf source (c :: rest)).position + 1 = (inFrontOf source rest).position := by
  rw [← position_inFrontOf_add rear (List.singleton_append : [c] ++ rest = c :: rest),
    Utf8.size_cons, Utf8.size_nil, byte]

theorem position_inFrontOf_le : (inFrontOf source behind).position ≤ Utf8.size source :=
  Nat.sub_le _ _

theorem rest_inFrontOf (rear : behind <:+ source) : (inFrontOf source behind).rest = behind := by
  obtain ⟨before, stands⟩ := exists_standsBetween_inFrontOf rear
  exact stands.rest_eq

theorem advanceTo_inFrontOf (rear : behind <:+ source) (rest_rear : rest <:+ behind) :
    (inFrontOf source behind).advanceTo rest = inFrontOf source rest := by
  obtain ⟨taken, rfl⟩ := rest_rear
  have passed := position_inFrontOf_add rear rfl
  rw [advanceTo, rest_inFrontOf rear, Utf8.size_append, Nat.add_sub_cancel, passed]
  rfl

theorem atEnd_inFrontOf (rear : behind <:+ source) :
    (inFrontOf source behind).atEnd = true ↔ behind = [] := by
  have within := Utf8.size_le_of_suffix rear
  rw [atEnd, decide_eq_true_iff, position_inFrontOf, source_inFrontOf]
  apply Iff.intro
  · intro ended
    have empty : ¬ 0 < Utf8.size behind := by omega
    exact Decidable.not_not.1 fun ne => empty (Utf8.size_pos ne)
  · rintro rfl
    exact Nat.le_refl _

/-- A cursor in front of less is further. -/
theorem position_inFrontOf_lt (rear : behind <:+ source) (rest_rear : rest <:+ behind)
    (shorter : rest.length < behind.length) :
    (inFrontOf source behind).position < (inFrontOf source rest).position := by
  obtain ⟨taken, rfl⟩ := rest_rear
  have passed := position_inFrontOf_add rear rfl
  have ne : taken ≠ [] := by
    rintro rfl
    exact absurd shorter (Nat.lt_irrefl _)
  have longer := Utf8.size_pos ne
  omega

theorem seek_inFrontOf (ended : List Char) :
    (inFrontOf source ended).seek (inFrontOf source behind).position = inFrontOf source behind := by
  rw [seek, source_inFrontOf, Nat.min_eq_left position_inFrontOf_le]
  rfl

theorem ofPosition_inFrontOf :
    ofPosition source (inFrontOf source behind).position = inFrontOf source behind := by
  rw [ofPosition, seek, Nat.min_eq_left position_inFrontOf_le]
  rfl

end Script.Cursor

namespace Checked

/-- The text behind an offset. -/
def cutFrom (source : List Char) (start : Nat) : Attempt (List Char) :=
  require .cut (Utf8.dropBytes start source)

/-- The text between two offsets. -/
def slice (source : List Char) (start stop : Nat) : Attempt (List Char) :=
  require .cut (Utf8.part? source start stop)

/-- The text of a span. -/
def sliceOf (source : List Char) (span : Span) : Attempt (List Char) :=
  slice source span.start span.stop

/-- Asks a cursor, which has to stand where the text can be cut. -/
def ask (cursor : Cursor) (operation : Cursor.Operation) : Attempt (Cursor.Reply × Cursor) := do
  let _ ← cutFrom cursor.source cursor.position
  return cursor.apply operation

/-- A cursor at an offset where the text can be cut. -/
def cursorAt (source : List Char) (position : Nat) : Attempt Cursor := do
  let _ ← cutFrom source position
  return Cursor.ofPosition source position

/-- The cursor behind the blanks. -/
def skipBlanks (cursor : Cursor) : Attempt Cursor := do
  return (← ask cursor .skipBlanks).2

/-- The next character. -/
def peek (cursor : Cursor) : Attempt (Option Char) := do
  match (← ask cursor .peek).1 with
  | .char found => return found
  | _ => return none

/-- The cursor behind the next character. -/
def bump (cursor : Cursor) : Attempt Cursor := do
  return (← ask cursor .bump).2

/-- The cursor behind the given character, if it is the next one. -/
def eat (expected : Char) (cursor : Cursor) : Attempt (Option Cursor) := do
  match ← ask cursor (.eat expected) with
  | (.eaten true, next) => return some next
  | _ => return none

/-- The span of a lexeme and the cursor behind it, if there is one. -/
def scan (operation : Cursor.Operation) (cursor : Cursor) : Attempt (Option (Span × Cursor)) := do
  match ← ask cursor operation with
  | (.span (some span), next) => return some (span, next)
  | _ => return none

/-- The text of a lexeme, cut out by its span, and the cursor behind it, if there is one. -/
def scanText (operation : Cursor.Operation) (cursor : Cursor) :
    Attempt (Option (List Char × Cursor)) := do
  match ← scan operation cursor with
  | some (span, next) => return some (← sliceOf cursor.source span, next)
  | none => return none

open Cursor

variable {source behind rest : List Char}

theorem cutFrom_inFrontOf (rear : behind <:+ source) :
    cutFrom source (inFrontOf source behind).position = .ok behind := by
  obtain ⟨before, stands⟩ := exists_standsBetween_inFrontOf rear
  exact require_eq_ok_iff.2 stands.dropBytes_eq

theorem slice_eq_ok_iff {part : List Char} {start stop : Nat} :
    slice source start stop = .ok part ↔ StandsAt source start stop part :=
  require_eq_ok_iff.trans Utf8.part?_eq_some_iff

/-- The second byte is inside the first character. -/
example : slice ['é', 'a'] 1 3 = .error .cut := rfl

/-- What is passed can be cut out by the offsets before and behind it. -/
theorem slice_inFrontOf {taken : List Char} (rear : behind <:+ source)
    (split : taken ++ rest = behind) :
    slice source (inFrontOf source behind).position (inFrontOf source rest).position =
      .ok taken := by
  obtain ⟨before, stands⟩ := exists_standsBetween_inFrontOf rear
  refine slice_eq_ok_iff.2 ⟨before, rest, ?_, stands.position_eq.symm, ?_⟩
  · rw [split]
    exact stands.source_eq
  · rw [← stands.position_eq, position_inFrontOf_add rear split]

theorem ask_inFrontOf (rear : behind <:+ source) (operation : Operation) :
    ask (inFrontOf source behind) operation = .ok ((inFrontOf source behind).apply operation) := by
  rw [ask, source_inFrontOf, cutFrom_inFrontOf rear]
  rfl

theorem cursorAt_inFrontOf (rear : behind <:+ source) :
    cursorAt source (inFrontOf source behind).position = .ok (inFrontOf source behind) := by
  rw [cursorAt, cutFrom_inFrontOf rear, ofPosition_inFrontOf]
  rfl

theorem skipBlanks_inFrontOf (rear : behind <:+ source) :
    skipBlanks (inFrontOf source behind) = .ok (inFrontOf source (Lexeme.skipBlanks behind)) := by
  rw [skipBlanks, ask_inFrontOf rear, apply, rest_inFrontOf rear,
    advanceTo_inFrontOf rear (Lexeme.skipBlanks_suffix behind)]
  rfl

theorem peek_inFrontOf (rear : behind <:+ source) :
    peek (inFrontOf source behind) = .ok behind.head? := by
  rw [peek, ask_inFrontOf rear, apply, rest_inFrontOf rear]
  rfl

theorem bump_inFrontOf {c : Char} (rear : c :: rest <:+ source) :
    bump (inFrontOf source (c :: rest)) = .ok (inFrontOf source rest) := by
  rw [bump, ask_inFrontOf rear, apply, rest_inFrontOf rear]
  simp only
  rw [advanceTo_inFrontOf rear (List.suffix_cons c rest)]
  rfl

theorem eat_inFrontOf (rear : behind <:+ source) (expected : Char) :
    eat expected (inFrontOf source behind) =
      .ok ((Lexeme.symbol expected behind).map (inFrontOf source)) := by
  rw [eat, ask_inFrontOf rear, apply, rest_inFrontOf rear]
  cases read : Lexeme.symbol expected behind with
  | none => rfl
  | some rest =>
    simp only
    rw [advanceTo_inFrontOf rear (Lexeme.suffix_of_symbol read)]
    rfl

/-- The span of the content that an operation scans in front of `behind`. -/
def spanBehind (source delimiter behind content : List Char) : Span :=
  ⟨(inFrontOf source behind).position + Utf8.size delimiter, content⟩

theorem scan_inFrontOf {operation : Operation} {delimiter : List Char}
    {reader : List Char → Option (List Char × List Char)}
    (by_reader : ScansBy operation reader delimiter) (rear : behind <:+ source) :
    scan operation (inFrontOf source behind) = .ok ((reader behind).map fun (content, rest) =>
      (spanBehind source delimiter behind content, inFrontOf source rest)) := by
  rw [scan, ask_inFrontOf rear, by_reader.apply_eq, Cursor.scan, rest_inFrontOf rear]
  cases read : reader behind with
  | none => rfl
  | some found =>
    obtain ⟨content, rest⟩ := found
    simp only
    rw [advanceTo_inFrontOf rear (by_reader.suffix read)]
    rfl

/-- A span that was scanned can be cut out of the text, wherever the cursor stood. -/
theorem sliceOf_of_apply_eq_span {cursor next : Cursor} {operation : Operation} {span : Span}
    (scanned : cursor.apply operation = (.span (some span), next)) :
    sliceOf cursor.source span = .ok span.content := by
  generalize reply_eq : Reply.span (some span) = reply at scanned
  cases apply_eq_iff_performs.1 scanned with
  | @scan _ before delimiter content rest lexeme stands =>
    cases reply_eq
    refine slice_eq_ok_iff.2 ⟨before ++ delimiter, delimiter ++ rest, ?_, ?_, ?_⟩
    · rw [stands.source_eq]
      simp only [List.append_assoc]
    · rw [Utf8.size_append, stands.position_eq]
    · rw [Span.stop, Utf8.size_append, stands.position_eq]
  | inside still inside => cases operation <;> cases reply_eq
  | _ => cases reply_eq

theorem scanText_inFrontOf {operation : Operation} {delimiter : List Char}
    {reader : List Char → Option (List Char × List Char)}
    (by_reader : ScansBy operation reader delimiter) (rear : behind <:+ source) :
    scanText operation (inFrontOf source behind) =
      .ok ((reader behind).map fun (content, rest) => (content, inFrontOf source rest)) := by
  rw [scanText, scan_inFrontOf by_reader rear, ok_bind]
  cases read : reader behind with
  | none => rfl
  | some found =>
    obtain ⟨content, rest⟩ := found
    have scanned : (inFrontOf source behind).apply operation =
        (.span (some (spanBehind source delimiter behind content)),
          (inFrontOf source behind).advanceTo rest) := by
      rw [by_reader.apply_eq, Cursor.scan, rest_inFrontOf rear, read]
      rfl
    have cut := sliceOf_of_apply_eq_span scanned
    simp only [Option.map_some, cut, ok_bind]
    rfl

end Checked

end Flashdeck
