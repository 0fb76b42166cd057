import Flashdeck.Card.Value

/-!
# JSON

Cards leave the library as JSON: a list of objects whose members are texts and numbers, in the
order of the fields. The text is either compact or indented by two spaces.
-/

namespace Flashdeck.Json

/-- An object: its members in order. -/
abbrev Object := List (String × Value)

/-- A lowercase hexadecimal digit. -/
def hexDigit (n : Nat) : Char :=
  if n < 10 then Char.ofNat ('0'.toNat + n) else Char.ofNat ('a'.toNat + (n - 10))

/-- A character between the quotes of a JSON text. Only quotes, backslashes and characters below
U+0020 are escaped. -/
def escapeChar (c : Char) : List Char :=
  if c = '"' then ['\\', '"']
  else if c = '\\' then ['\\', '\\']
  else if c = '\u0008' then ['\\', 'b']
  else if c = '\u000C' then ['\\', 'f']
  else if c = '\n' then ['\\', 'n']
  else if c = '\r' then ['\\', 'r']
  else if c = '\t' then ['\\', 't']
  else if c.toNat < 0x20 then ['\\', 'u', '0', '0', hexDigit (c.toNat / 16), hexDigit (c.toNat % 16)]
  else [c]

/-- A text between quotes. -/
def writeText (content : String) : List Char :=
  '"' :: (content.toList.flatMap escapeChar ++ ['"'])

/-- A text or a number. -/
def writeValue : Value → List Char
  | .text content => writeText content
  | .number amount => (Number.Format.json.write amount).toList

/-- The white space of a written document. -/
structure Spacing where
  /-- What begins a line at some depth of nesting. -/
  newline : Nat → List Char
  /-- What separates a key from its value. -/
  colon : List Char

/-- No white space at all. -/
def Spacing.compact : Spacing where
  newline _ := []
  colon := [':']

/-- A line for each part, indented by two spaces for each level. -/
def Spacing.indented : Spacing where
  newline depth := '\n' :: List.replicate (2 * depth) ' '
  colon := [':', ' ']

namespace Spacing

/-- Items between brackets, separated by commas. -/
def enclose (spacing : Spacing) (depth : Nat) (first last : Char)
    (items : List (List Char)) : List Char :=
  if items.isEmpty then [first, last]
  else
    first :: ([','].intercalate (items.map fun item => spacing.newline (depth + 1) ++ item) ++
      spacing.newline depth ++ [last])

/-- A member of an object. -/
def writeMember (spacing : Spacing) (member : String × Value) : List Char :=
  writeText member.1 ++ spacing.colon ++ writeValue member.2

/-- An object at some depth of nesting. -/
def writeObject (spacing : Spacing) (depth : Nat) (object : Object) : List Char :=
  spacing.enclose depth '{' '}' (object.map spacing.writeMember)

/-- A list of objects. -/
def writeList (spacing : Spacing) (objects : List Object) : List Char :=
  spacing.enclose 0 '[' ']' (objects.map (spacing.writeObject 1))

end Spacing

end Flashdeck.Json
