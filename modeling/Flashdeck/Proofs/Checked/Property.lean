import Flashdeck.Proofs.Checked.Escape
import Flashdeck.Proofs.Key

/-!
# Checked properties

The properties of a body, read by a cursor. Where there is none the cursor is put back, wherever the
attempt has left it, and passes one character. `fields_eq` says that this gives the fields of the body:
the cursor stands between characters all the time, so there is a character to pass, and the keys and
values can be cut out.

* `valueAt_inFrontOf`, `exists_propertyAt_inFrontOf`: a value and a property, read by a cursor.
-/

namespace Flashdeck.Checked

open Flashdeck.Text Flashdeck.Script Flashdeck.Script.Cursor

/-- What a policy makes of a quoted text. -/
def applyPolicy : EscapePolicy → List Char → Attempt (List Char)
  | .decode, cs => decode cs
  | .raw, cs => return cs

/-- The value in front of the cursor, and the cursor behind it. -/
def valueAt (policy : EscapePolicy) (cursor : Cursor) : Attempt (Option (Value × Cursor)) := do
  match ← scanText .backtick cursor with
  | some (content, next) => return some (.text (String.ofList (tidy content)), next)
  | none =>
    match ← scanText .quoted cursor with
    | some (content, next) =>
      return some (.text (String.ofList (← applyPolicy policy (tidy content))), next)
    | none =>
      match ← scanText .numeral cursor with
      | some (digits, next) => return some (.number (Number.ofNumeral digits), next)
      | none => return none

/-- The property in front of the cursor, if there is one, and the cursor where the attempt ended. -/
def propertyAt (policy : EscapePolicy) (cursor : Cursor) :
    Attempt (Option (String × Value) × Cursor) := do
  let some (key, cursor) ← scanText .word cursor | return (none, cursor)
  let cursor ← skipBlanks cursor
  let some cursor ← eat ':' cursor | return (none, cursor)
  let cursor ← skipBlanks cursor
  let some (value, cursor) ← valueAt policy cursor | return (none, cursor)
  return (some (String.ofList key, value), cursor)

/-- Reads one property onto the fields before it, or passes a character. -/
def propertyPass (policy : EscapePolicy) (state : Cursor × Fields) :
    Attempt (Fields ⊕ Cursor × Fields) := do
  if state.1.atEnd then return .inl state.2
  else
    match ← propertyAt policy state.1 with
    | (some (key, value), next) => return .inr (next, state.2.insert key value)
    | (none, ended) => return .inr (← bump (ended.seek state.1.position), state.2)

/-- The fields of a body. -/
def fields (policy : EscapePolicy) (body : List Char) : Attempt Fields :=
  loop (fun state => state.1.position) (Utf8.size body) (propertyPass policy)
    (⟨body, 0⟩, Fields.empty)

variable {source behind : List Char} {policy : EscapePolicy}

/-! ## One property -/

theorem applyPolicy_eq (policy : EscapePolicy) (cs : List Char) :
    applyPolicy policy cs = .ok (policy.apply cs) := by
  cases policy with
  | decode => exact decode_eq cs
  | raw => rfl

theorem valueAt_inFrontOf (rear : behind <:+ source) :
    valueAt policy (inFrontOf source behind) = .ok ((Literal.read behind).map
      fun (literal, rest) => (literal.value policy, inFrontOf source rest)) := by
  rw [valueAt, scanText_inFrontOf scansBy_backtick rear, ok_bind, Literal.read]
  cases Lexeme.backtick behind with
  | some found => rfl
  | none =>
    simp only [Option.map_none]
    rw [scanText_inFrontOf scansBy_quoted rear, ok_bind]
    cases Lexeme.quoted behind with
    | some found =>
      simp only [Option.map_some, applyPolicy_eq, ok_bind]
      rfl
    | none =>
      simp only [Option.map_none]
      rw [scanText_inFrontOf scansBy_numeral rear, ok_bind]
      cases Lexeme.numeral behind <;> rfl

/-- A property is read as from the text behind the cursor. Where there is none, the cursor ends
somewhere in that text. -/
theorem exists_propertyAt_inFrontOf (policy : EscapePolicy) (rear : behind <:+ source) :
    ∃ ended, propertyAt policy (inFrontOf source behind) =
      .ok ((Property.read behind).map fun found => found.1.entry policy, inFrontOf source ended) ∧
      ∀ property rest, Property.read behind = some (property, rest) → ended = rest := by
  rw [propertyAt, scanText_inFrontOf scansBy_word rear, ok_bind, Property.read]
  cases word : Lexeme.word behind with
  | none => exact ⟨behind, rfl, fun _ _ eq => by cases eq⟩
  | some found =>
    obtain ⟨key, behindKey⟩ := found
    have key_rear : behindKey <:+ source := (scansBy_word.suffix word).trans rear
    have colon_rear : Lexeme.skipBlanks behindKey <:+ source :=
      (Lexeme.skipBlanks_suffix _).trans key_rear
    simp only [Option.map_some, Option.bind_eq_bind, Option.bind_some]
    rw [skipBlanks_inFrontOf key_rear, ok_bind, eat_inFrontOf colon_rear, ok_bind]
    cases colon : Lexeme.symbol ':' (Lexeme.skipBlanks behindKey) with
    | none => exact ⟨_, rfl, fun _ _ eq => by cases eq⟩
    | some behindColon =>
      have behind_rear : behindColon <:+ source := (Lexeme.suffix_of_symbol colon).trans colon_rear
      have value_rear : Lexeme.skipBlanks behindColon <:+ source :=
        (Lexeme.skipBlanks_suffix _).trans behind_rear
      simp only [Option.map_some, Option.bind_some]
      rw [skipBlanks_inFrontOf behind_rear, ok_bind, valueAt_inFrontOf value_rear, ok_bind]
      cases Literal.read (Lexeme.skipBlanks behindColon) with
      | none => exact ⟨_, rfl, fun _ _ eq => by cases eq⟩
      | some found => exact ⟨found.2, rfl, fun _ _ eq => by cases eq; rfl⟩

/-! ## All properties -/

/-- The state in front of `behind` is promised the fields of `behind` onto those read. -/
def PromisesFields (source : List Char) (policy : EscapePolicy) (state : Cursor × Fields)
    (out : Fields) : Prop :=
  ∃ behind, behind <:+ source ∧ state.1 = inFrontOf source behind ∧
    out = ((Property.pattern.values behind).map (Property.entry policy)).foldl
      (fun fields entry => fields.insert entry.1 entry.2) state.2

theorem propertyPass_keeps (state : Cursor × Fields) (out : Fields)
    (promised : PromisesFields source policy state out) :
    propertyPass policy state = .ok (.inl out) ∨ ∃ next, propertyPass policy state = .ok (.inr next) ∧
      state.1.position < next.1.position ∧ next.1.position ≤ Utf8.size source ∧
      PromisesFields source policy next out := by
  obtain ⟨cursor, fields⟩ := state
  obtain ⟨behind, rear, eq, rfl⟩ := promised
  dsimp only at eq
  subst eq
  by_cases empty : behind = []
  · subst empty
    left
    rw [propertyPass, if_pos ((atEnd_inFrontOf rear).2 rfl), Pattern.values_nil]
    rfl
  right
  have going : ¬ (inFrontOf source behind).atEnd = true := fun ended =>
    empty ((atEnd_inFrontOf rear).1 ended)
  obtain ⟨ended, attempt, ended_eq⟩ := exists_propertyAt_inFrontOf policy rear
  cases read : Property.read behind with
  | some found =>
    obtain ⟨property, rest⟩ := found
    obtain rfl := ended_eq property rest read
    obtain ⟨front, last, split, -⟩ := Property.exists_of_read read
    have rest_rear : ended <:+ behind := ⟨front ++ [last], by rw [split]; simp⟩
    refine ⟨(inFrontOf source ended, fields.insert (property.entry policy).1
      (property.entry policy).2), ?_, position_inFrontOf_lt rear rest_rear
      (Property.pattern.shorter read), position_inFrontOf_le, ended, rest_rear.trans rear, rfl, ?_⟩
    · rw [propertyPass, if_neg going, attempt, read]
      rfl
    · rw [Pattern.values_of_read_eq_some read, List.map_cons, List.foldl_cons]
  | none =>
    obtain ⟨c, cs, rfl⟩ := List.exists_cons_of_ne_nil empty
    refine ⟨(inFrontOf source cs, fields), ?_, position_inFrontOf_lt rear (List.suffix_cons c cs)
      (Nat.lt_succ_self _), position_inFrontOf_le, cs, (List.suffix_cons c cs).trans rear, rfl, ?_⟩
    · rw [propertyPass, if_neg going, attempt, read, ok_bind]
      simp only [Option.map_none, seek_inFrontOf, bump_inFrontOf rear, ok_bind]
      rfl
    · rw [Pattern.values_cons_of_read_eq_none read]

/-- The fields of a body are found with nothing that finding them can fail at. -/
theorem fields_eq (policy : EscapePolicy) (body : List Char) :
    fields policy body = .ok (fieldsOfBody policy body) := by
  refine loop_eq_ok propertyPass_keeps ⟨body, List.suffix_refl body, ?_, rfl⟩
  rw [inFrontOf_self]

end Flashdeck.Checked
