import Flashdeck.Json
import Flashdeck.Text.Escape
import Flashdeck.Script.Lexeme

/-!
# Writing escapes

Any text can stand between double quotes. Backslashes and quotes are written with a backslash in
front of them, characters of a chosen class by the digits of their code unit, and all others as they
are. Decoding gives the text back, and no character of the class is left in what was written.

* `CodeUnit`: four digits of either case, and what the decoder makes of them.
* `decode_write`: decoding undoes writing.
* `isQuotedContent_write`: what was written closes no quote.
* `hidden_eq_false_of_mem_write`: the class does not occur in it.
-/

namespace Flashdeck.Text.Escape

open Flashdeck.Json

/-- The four digits of a code unit. -/
def hexDigits (unit : Nat) : List Char :=
  [hexDigit (unit / 0x1000 % 16), hexDigit (unit / 0x100 % 16), hexDigit (unit / 0x10 % 16),
    hexDigit (unit % 16)]

/-- A character between double quotes, given by its digits if it is of the class `hidden`. -/
def writeChar (hidden : Char → Bool) (c : Char) : List Char :=
  if c = '\\' then ['\\', '\\']
  else if c = '"' then ['\\', '"']
  else if hidden c then '\\' :: 'u' :: hexDigits c.toNat
  else [c]

/-- A text between double quotes. -/
def write (hidden : Char → Bool) (cs : List Char) : List Char :=
  cs.flatMap (writeChar hidden)

/-! ## Digits -/

/-- A hexadecimal digit of either case. -/
structure HexDigit where
  value : Fin 16
  upper : Bool

/-- The digit as it is written. -/
def HexDigit.char (digit : HexDigit) : Char :=
  if digit.upper then (Nat.digitChar digit.value).toUpper else Nat.digitChar digit.value

theorem hexDigit_eq_char (n : Fin 16) : hexDigit n = HexDigit.char ⟨n, false⟩ := by
  revert n
  decide

theorem HexDigit.hexValue?_char (digit : HexDigit) :
    hexValue? digit.char = some digit.value.val := by
  have all : ∀ (value : Fin 16) (upper : Bool),
      hexValue? (HexDigit.char ⟨value, upper⟩) = some value.val := by
    decide
  exact all digit.value digit.upper

theorem HexDigit.isWordChar_char (digit : HexDigit) : isWordChar digit.char = true := by
  have all : ∀ (value : Fin 16) (upper : Bool),
      isWordChar (HexDigit.char ⟨value, upper⟩) = true := by
    decide
  exact all digit.value digit.upper

/-- A code unit by its four digits. -/
structure CodeUnit where
  first : HexDigit
  second : HexDigit
  third : HexDigit
  fourth : HexDigit

namespace CodeUnit

/-- The digits as they are written. -/
def digits (unit : CodeUnit) : List Char :=
  [unit.first.char, unit.second.char, unit.third.char, unit.fourth.char]

/-- The number that the digits spell. -/
def value (unit : CodeUnit) : Nat :=
  0x1000 * unit.first.value + 0x100 * unit.second.value + 0x10 * unit.third.value +
    unit.fourth.value

/-- The code unit of a number, in lowercase digits. -/
def ofNat (unit : Nat) : CodeUnit where
  first := ⟨Fin.ofNat 16 (unit / 0x1000), false⟩
  second := ⟨Fin.ofNat 16 (unit / 0x100), false⟩
  third := ⟨Fin.ofNat 16 (unit / 0x10), false⟩
  fourth := ⟨Fin.ofNat 16 unit, false⟩

theorem value_lt (unit : CodeUnit) : unit.value < 0x10000 := by
  have first := unit.first.value.isLt
  have second := unit.second.value.isLt
  have third := unit.third.value.isLt
  have fourth := unit.fourth.value.isLt
  unfold value
  omega

theorem value_ofNat {unit : Nat} (small : unit < 0x10000) : (ofNat unit).value = unit := by
  simp only [value, ofNat, Fin.val_ofNat]
  omega

theorem digits_ofNat (unit : Nat) : (ofNat unit).digits = hexDigits unit := by
  simp only [digits, ofNat, ← hexDigit_eq_char, Fin.val_ofNat, hexDigits]

theorem isWordChar_of_mem_digits {unit : CodeUnit} {c : Char} (mem : c ∈ unit.digits) :
    isWordChar c = true := by
  simp only [digits, List.mem_cons, List.not_mem_nil, or_false] at mem
  rcases mem with rfl | rfl | rfl | rfl
  all_goals exact HexDigit.isWordChar_char _

/-- Four digits are read as the code unit that they spell. -/
theorem readHex_digits (unit : CodeUnit) (rest : List Char) :
    readHex 0 4 (unit.digits ++ rest) = some (unit.value, rest) := by
  simp only [digits, List.cons_append, List.nil_append, readHex, HexDigit.hexValue?_char,
    Option.bind_some, Option.some.injEq, Prod.mk.injEq, and_true, value]
  omega

theorem readEscape_digits (unit : CodeUnit) (rest : List Char) :
    readEscape ('u' :: (unit.digits ++ rest)) = readUnit unit.value rest := by
  rw [readEscape, readHex_digits]

end CodeUnit

theorem isWordChar_of_mem_hexDigits {unit : Nat} {c : Char} (mem : c ∈ hexDigits unit) :
    isWordChar c = true := by
  rw [← CodeUnit.digits_ofNat] at mem
  exact CodeUnit.isWordChar_of_mem_digits mem

/-- A character is no half of a surrogate pair, so its code unit stands for it whatever follows. -/
theorem readUnit_toNat (c : Char) (rest : List Char) : readUnit c.toNat rest = (c, rest) := by
  have valid : c.toNat.isValidChar := c.valid
  have single : ¬ IsHighSurrogate c.toNat := by
    intro high
    have range : c.toNat < 0xD800 ∨ 0xDFFF < c.toNat ∧ c.toNat < 0x110000 := valid
    unfold IsHighSurrogate at high
    omega
  rw [readUnit, if_neg single, unitChar, if_pos valid, Char.ofNat_toNat]

/-- The digits of a character stand for the character. -/
theorem readEscape_hexDigits {c : Char} (small : c.toNat < 0x10000) (rest : List Char) :
    readEscape ('u' :: (hexDigits c.toNat ++ rest)) = (c, rest) := by
  rw [← CodeUnit.digits_ofNat, CodeUnit.readEscape_digits, CodeUnit.value_ofNat small,
    readUnit_toNat]

/-! ## Decoding what was written -/

section Write

variable {hidden : Char → Bool} (small : ∀ c, hidden c = true → c.toNat < 0x10000)

include small

theorem decode_writeChar_append (c : Char) (cs : List Char) :
    decode (writeChar hidden c ++ cs) = c :: decode cs := by
  unfold writeChar
  split
  · next slash =>
    subst slash
    rw [List.cons_append, decode_backslash]
    rfl
  · split
    · next quote =>
      subst quote
      rw [List.cons_append, decode_backslash]
      rfl
    · next slash _ =>
      split
      · next hide =>
        rw [List.cons_append, decode_backslash, List.cons_append,
          readEscape_hexDigits (small c hide)]
      · rw [List.singleton_append, decode_cons_of_ne slash]

/-- **Decoding undoes writing.** -/
theorem decode_write (cs : List Char) : decode (write hidden cs) = cs := by
  induction cs with
  | nil => exact decode_nil
  | cons c cs ih =>
    rw [write, List.flatMap_cons, decode_writeChar_append small]
    exact congrArg (c :: ·) ih

end Write

example : write isBlank ['a', ' ', '"'] = ['a', '\\', 'u', '0', '0', '2', '0', '\\', '"'] := by
  decide

/-! ## What was written -/

open Script.Lexeme

theorem isQuotedContent_append {cs rest : List Char}
    (word : ∀ c ∈ cs, isWordChar c = true) (content : IsQuotedContent rest) :
    IsQuotedContent (cs ++ rest) := by
  induction cs with
  | nil => exact content
  | cons c cs ih =>
    have here := word c List.mem_cons_self
    refine .plain ?_ ?_ (ih fun d mem => word d (List.mem_cons_of_mem c mem))
    · intro same
      subst same
      exact absurd here (by decide)
    · intro same
      subst same
      exact absurd here (by decide)

theorem isQuotedContent_write (hidden : Char → Bool) (cs : List Char) :
    IsQuotedContent (write hidden cs) := by
  induction cs with
  | nil => exact .nil
  | cons c cs ih =>
    rw [write, List.flatMap_cons, writeChar]
    split
    · exact .pair (by decide) ih
    · split
      · exact .pair (by decide) ih
      · next slash quote =>
        split
        · exact .pair (by decide) (isQuotedContent_append (fun _ => isWordChar_of_mem_hexDigits) ih)
        · exact .plain quote slash ih

/-- A class that holds none of the characters of an escape is hidden throughout. -/
theorem hidden_eq_false_of_mem_write {hidden : Char → Bool}
    (escapes : ∀ c, c = '\\' ∨ c = '"' ∨ isWordChar c = true → hidden c = false)
    {cs : List Char} {c : Char} (mem : c ∈ write hidden cs) : hidden c = false := by
  obtain ⟨d, -, mem⟩ := List.mem_flatMap.1 mem
  unfold writeChar at mem
  split at mem
  · exact escapes c (.inl (by simpa using mem))
  · split at mem
    · have slash_or_quote : c = '\\' ∨ c = '"' := by simpa using mem
      rcases slash_or_quote with slash | quote
      · exact escapes c (.inl slash)
      · exact escapes c (.inr (.inl quote))
    · split at mem
      · apply escapes
        rcases List.mem_cons.1 mem with slash | mem
        · exact .inl slash
        · rcases List.mem_cons.1 mem with rfl | mem
          · exact .inr (.inr (by decide))
          · exact .inr (.inr (isWordChar_of_mem_hexDigits mem))
      · next visible =>
        rw [List.mem_singleton.1 mem]
        exact Bool.eq_false_iff.2 visible

end Flashdeck.Text.Escape
