import Flashdeck.Script.Cursor

/-!
# The place of a cursor

A cursor stands between two parts of its text, or inside a character. Between two parts it moves over
what stands behind it; inside a character there is nothing behind it.

* `StandsBetween.rest_eq`, `rest_eq_nil_of_not_onBoundary`: what is behind a cursor.
* `StandsBetween.moveOver`: the place behind a text that was passed.
-/

namespace Flashdeck.Script.Cursor

open Flashdeck.Text

/-- The cursor stands behind `before` and in front of `behind`. -/
structure StandsBetween (cursor : Cursor) (before behind : List Char) : Prop where
  source_eq : cursor.source = before ++ behind
  position_eq : cursor.position = Utf8.size before

/-- The cursor stands where a character begins or where the text ends. -/
def OnBoundary (cursor : Cursor) : Prop :=
  ∃ before behind, cursor.StandsBetween before behind

/-- The cursor behind a text that it passes. -/
def moveOver (cursor : Cursor) (taken : List Char) : Cursor :=
  { cursor with position := cursor.position + Utf8.size taken }

@[simp] theorem source_moveOver (cursor : Cursor) (taken : List Char) :
    (cursor.moveOver taken).source = cursor.source := rfl

@[simp] theorem position_moveOver (cursor : Cursor) (taken : List Char) :
    (cursor.moveOver taken).position = cursor.position + Utf8.size taken := rfl

variable {cursor : Cursor} {before behind taken : List Char}

/-- A cut of the text at the cursor gives what is behind it. -/
theorem StandsBetween.dropBytes_eq (stands : cursor.StandsBetween before behind) :
    Utf8.dropBytes cursor.position cursor.source = some behind := by
  rw [stands.position_eq, stands.source_eq, Utf8.dropBytes_size_append]

theorem StandsBetween.rest_eq (stands : cursor.StandsBetween before behind) :
    cursor.rest = behind := by
  rw [rest, stands.dropBytes_eq, Option.getD_some]

theorem StandsBetween.onBoundary (stands : cursor.StandsBetween before behind) :
    cursor.OnBoundary :=
  ⟨before, behind, stands⟩

theorem StandsBetween.position_le (stands : cursor.StandsBetween before behind) :
    cursor.position ≤ Utf8.size cursor.source := by
  rw [stands.position_eq, stands.source_eq, Utf8.size_append]
  exact Nat.le_add_right _ _

theorem StandsBetween.moveOver (stands : cursor.StandsBetween before (taken ++ behind)) :
    (cursor.moveOver taken).StandsBetween (before ++ taken) behind where
  source_eq := by rw [source_moveOver, stands.source_eq, List.append_assoc]
  position_eq := by rw [position_moveOver, stands.position_eq, Utf8.size_append]

/-- The cursor advances over what is no longer behind it. -/
theorem StandsBetween.advanceTo_eq (stands : cursor.StandsBetween before (taken ++ behind)) :
    cursor.advanceTo behind = cursor.moveOver taken := by
  rw [advanceTo, stands.rest_eq, Utf8.size_append, Nat.add_sub_cancel, Cursor.moveOver]

/-- Inside a character there is nothing behind the cursor. -/
theorem rest_eq_nil_of_not_onBoundary (inside : ¬ cursor.OnBoundary) : cursor.rest = [] := by
  cases cut : Utf8.dropBytes cursor.position cursor.source with
  | none => rw [rest, cut, Option.getD_none]
  | some behind =>
    obtain ⟨before, split, size⟩ := Utf8.eq_append_of_dropBytes cut
    exact (inside ⟨before, behind, split, size.symm⟩).elim

end Flashdeck.Script.Cursor
