/-!
# Backslash escapes

Decoding the escapes of a quoted value. A backslash and what follows it stand for one character:
a named control character, a character given by two or four hexadecimal digits, or the following
character itself. Four digits are a UTF-16 code unit, so two of them in a row can make one
character beyond the basic plane; half a pair becomes U+FFFD.

`decode` consumes an escape at a time through `readEscape`, and `decode_cons_of_ne` and
`decode_backslash` say what it does with each character.
-/

namespace Flashdeck.Text.Escape

/-- The value of an ASCII hexadecimal digit of either case. -/
def hexValue? (c : Char) : Option Nat :=
  if '0' ≤ c ∧ c ≤ '9' then some (c.toNat - '0'.toNat)
  else if 'a' ≤ c ∧ c ≤ 'f' then some (c.toNat - 'a'.toNat + 10)
  else if 'A' ≤ c ∧ c ≤ 'F' then some (c.toNat - 'A'.toNat + 10)
  else none

/-- Reads `n` hexadecimal digits, most significant first, onto `value`. Nothing is read unless all
of them are there. -/
def readHex (value : Nat) : (n : Nat) → List Char → Option (Nat × List Char)
  | 0, cs => some (value, cs)
  | _ + 1, [] => none
  | n + 1, c :: cs => (hexValue? c).bind fun digit => readHex (16 * value + digit) n cs

/-- The first half of a surrogate pair. -/
def IsHighSurrogate (unit : Nat) : Prop := 0xD800 ≤ unit ∧ unit < 0xDC00

/-- The second half of a surrogate pair. -/
def IsLowSurrogate (unit : Nat) : Prop := 0xDC00 ≤ unit ∧ unit < 0xE000

instance (unit : Nat) : Decidable (IsHighSurrogate unit) := inferInstanceAs (Decidable (_ ∧ _))

instance (unit : Nat) : Decidable (IsLowSurrogate unit) := inferInstanceAs (Decidable (_ ∧ _))

/-- What stands for half a surrogate pair without its other half. -/
def replacement : Char := '\uFFFD'

/-- The character of a code unit on its own. -/
def unitChar (unit : Nat) : Char :=
  if unit.isValidChar then Char.ofNat unit else replacement

/-- The code point that a surrogate pair stands for. -/
def pairCode (high low : Nat) : Nat :=
  0x10000 + (high - 0xD800) * 0x400 + (low - 0xDC00)

/-- Reads an escaped low surrogate, `\u` and four digits. -/
def readLowSurrogate : List Char → Option (Nat × List Char)
  | '\\' :: 'u' :: cs => (readHex 0 4 cs).filter fun (unit, _) => IsLowSurrogate unit
  | _ => none

/-- The character of the code unit `unit`, which `cs` follows. A high surrogate takes the low
surrogate that is escaped right behind it; nothing else is taken. -/
def readUnit (unit : Nat) (cs : List Char) : Char × List Char :=
  if IsHighSurrogate unit then
    match readLowSurrogate cs with
    | some (low, rest) => (Char.ofNat (pairCode unit low), rest)
    | none => (replacement, cs)
  else (unitChar unit, cs)

/-- The character that a letter after the backslash names; every other one stands for itself. -/
def named : Char → Char
  | 'n' => '\n'
  | 'r' => '\r'
  | 't' => '\t'
  | 'b' => '\u0008'
  | 'f' => '\u000C'
  | 'v' => '\u000B'
  | '0' => '\u0000'
  | c => c

/-- Reads what follows a backslash: the character it stands for and the text behind it. A
backslash that nothing follows stands for itself, and `x` and `u` stand for themselves where
their digits are not complete. -/
def readEscape : List Char → Char × List Char
  | [] => ('\\', [])
  | 'x' :: cs =>
    match readHex 0 2 cs with
    | some (code, rest) => (Char.ofNat code, rest)
    | none => ('x', cs)
  | 'u' :: cs =>
    match readHex 0 4 cs with
    | some (unit, rest) => readUnit unit rest
    | none => ('u', cs)
  | c :: cs => (named c, cs)

theorem length_le_of_readHex {value n out : Nat} {cs rest : List Char}
    (read : readHex value n cs = some (out, rest)) : rest.length ≤ cs.length := by
  induction n generalizing value cs with
  | zero => simp only [readHex, Option.some.injEq, Prod.mk.injEq] at read; simp [read.2]
  | succ n ih =>
    cases cs with
    | nil => simp [readHex] at read
    | cons c cs =>
      obtain ⟨digit, -, read⟩ := Option.bind_eq_some_iff.1 read
      have shorter := ih read
      simp only [List.length_cons]
      omega

theorem length_readUnit_le (unit : Nat) (cs : List Char) :
    (readUnit unit cs).2.length ≤ cs.length := by
  unfold readUnit
  split
  · split
    · next low rest read =>
      unfold readLowSurrogate at read
      split at read
      · obtain ⟨read, -⟩ := Option.filter_eq_some_iff.1 read
        have shorter := length_le_of_readHex read
        simp only [List.length_cons]
        omega
      · simp at read
    · exact Nat.le_refl _
  · exact Nat.le_refl _

/-- An escape never gives back more than it was given, so decoding ends. -/
theorem length_readEscape_le (cs : List Char) : (readEscape cs).2.length ≤ cs.length := by
  unfold readEscape
  split
  · exact Nat.le_refl _
  · split
    · next read =>
      have shorter := length_le_of_readHex read
      simp only [List.length_cons]
      omega
    · simp
  · split
    · next read =>
      have shorter := length_le_of_readHex read
      have unit := length_readUnit_le ‹Nat› ‹List Char›
      simp only [List.length_cons]
      omega
    · simp
  · simp

/-- The text with every escape replaced by the character it stands for. -/
def decode : List Char → List Char
  | [] => []
  | c :: cs =>
    if c = '\\' then (readEscape cs).1 :: decode (readEscape cs).2
    else c :: decode cs
termination_by cs => cs.length
decreasing_by
  · have shorter := length_readEscape_le cs
    simp only [List.length_cons]
    omega
  · simp

@[simp] theorem decode_nil : decode [] = [] := by rw [decode]

/-- A character other than the backslash stands for itself. -/
theorem decode_cons_of_ne {c : Char} (ne : c ≠ '\\') (cs : List Char) :
    decode (c :: cs) = c :: decode cs := by
  rw [decode, if_neg ne]

/-- A backslash stands, with what it takes, for one character. -/
theorem decode_backslash (cs : List Char) :
    decode ('\\' :: cs) = (readEscape cs).1 :: decode (readEscape cs).2 := by
  rw [decode, if_pos rfl]

/-- Decoding neither empties a text nor fills an empty one. -/
theorem decode_eq_nil_iff {cs : List Char} : decode cs = [] ↔ cs = [] := by
  cases cs with
  | nil => simp
  | cons c cs =>
    by_cases slash : c = '\\'
    · subst slash; simp [decode_backslash]
    · simp [decode_cons_of_ne slash]

end Flashdeck.Text.Escape
