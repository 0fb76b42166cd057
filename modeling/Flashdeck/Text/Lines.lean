import Flashdeck.Text.Class
import Flashdeck.Text.Trim

/-!
# Lines

A text is split at its line feeds. `tidy` is the normal form of a value that spans several lines:
every line trimmed, blank lines dropped. `firstLine` is the part of a text that fits into a report
of one line per card.
-/

namespace Flashdeck.Text

/-- The lines of a text, separated by line feeds. There is always at least one. -/
def splitLines : List Char → List (List Char)
  | [] => [[]]
  | c :: cs =>
    if c = '\n' then [] :: splitLines cs
    else
      match splitLines cs with
      | line :: lines => (c :: line) :: lines
      | [] => [[c]]

/-- The lines in a row, a line feed between each two. -/
def joinLines : List (List Char) → List Char
  | [] => []
  | [line] => line
  | line :: next :: lines => line ++ '\n' :: joinLines (next :: lines)

/-- Every line without the blanks around it, and no line that is blank throughout. -/
def tidyLines (lines : List (List Char)) : List (List Char) :=
  (lines.map (trim isBlank)).filter fun line => !line.isEmpty

/-- The normal form of a text: its lines trimmed, the blank ones dropped. -/
def tidy (cs : List Char) : List Char :=
  joinLines (tidyLines (splitLines cs))

/-- The text without the carriage return at its end, if there is one. -/
def dropReturn (cs : List Char) : List Char :=
  if cs.getLast? = some '\r' then cs.dropLast else cs

/-- The first line of a text. A carriage return right before the line feed belongs to the line's
end; any other one is part of the line. -/
def firstLine (cs : List Char) : List Char :=
  match splitLines cs with
  | line :: _ :: _ => dropReturn line
  | [line] => line
  | [] => []

theorem splitLines_ne_nil (cs : List Char) : splitLines cs ≠ [] := by
  cases cs with
  | nil => simp [splitLines]
  | cons c cs =>
    rw [splitLines]
    split
    · simp
    · split <;> simp

/-- Splitting loses nothing but the line feeds between the lines. -/
theorem joinLines_splitLines (cs : List Char) : joinLines (splitLines cs) = cs := by
  induction cs with
  | nil => rfl
  | cons c cs ih =>
    rw [splitLines]
    split
    · next feed =>
      subst feed
      cases split : splitLines cs with
      | nil => exact absurd split (splitLines_ne_nil cs)
      | cons line lines => simp [joinLines, ← split, ih]
    · cases split : splitLines cs with
      | nil => exact absurd split (splitLines_ne_nil cs)
      | cons line lines =>
        cases lines with
        | nil => simpa [joinLines, split] using ih
        | cons next lines => simpa [joinLines, split] using ih

end Flashdeck.Text
