import Flashdeck.Proofs.Checked.Cut
import Flashdeck.Text.Escape

/-!
# Checked escapes

Backslash escapes, with their digits cut out of the text by the byte and with every character made of
a number that has to be one. `decode_eq` says that this decodes as `Escape.decode` does: the digits
are bytes of their own, and the two halves of a surrogate pair are a character beyond the basic plane.

* `readHex_eq_some_iff`: which digits are read, and `size_of_digits`: their bytes.
* `isValidChar_pairCode`: the code point of a pair.
* `decodeEscape_eq`: one escape.
-/

namespace Flashdeck

open Flashdeck.Text Flashdeck.Text.Escape

/-! ## Hexadecimal digits -/

namespace Text.Escape

/-- The number that digits are in hexadecimal, onto `value`. -/
def hexNumber? (value : Nat) : List Char → Option Nat
  | [] => some value
  | c :: cs => (hexValue? c).bind fun digit => hexNumber? (16 * value + digit) cs

theorem readHex_eq_some_iff {value n out : Nat} {cs rest : List Char} :
    readHex value n cs = some (out, rest) ↔
      ∃ digits, cs = digits ++ rest ∧ digits.length = n ∧ hexNumber? value digits = some out := by
  induction n generalizing value cs with
  | zero =>
    apply Iff.intro
    · intro read
      cases read
      exact ⟨[], rfl, rfl, rfl⟩
    · rintro ⟨digits, rfl, empty, number⟩
      obtain rfl := List.length_eq_zero_iff.1 empty
      cases number
      rfl
  | succ n ih =>
    apply Iff.intro
    · intro read
      cases cs with
      | nil => cases read
      | cons c cs =>
        obtain ⟨digit, valued, read⟩ := Option.bind_eq_some_iff.1 read
        obtain ⟨digits, rfl, length, number⟩ := ih.1 read
        exact ⟨c :: digits, rfl, congrArg (· + 1) length,
          Option.bind_eq_some_iff.2 ⟨digit, valued, number⟩⟩
    · rintro ⟨digits, rfl, length, number⟩
      cases digits with
      | nil => cases length
      | cons c digits =>
        obtain ⟨digit, valued, number⟩ := Option.bind_eq_some_iff.1 number
        exact Option.bind_eq_some_iff.2
          ⟨digit, valued, ih.2 ⟨digits, rfl, Nat.succ.inj length, number⟩⟩

/-- A digit is a byte of its own and less than the base. -/
theorem hexValue?_bounds {c : Char} {digit : Nat} (valued : hexValue? c = some digit) :
    c.utf8Size = 1 ∧ digit < 16 := by
  simp only [hexValue?, Char.le_def, UInt32.le_iff_toNat_le, Char.toNat] at valued
  rw [Char.utf8Size_eq_one_iff, UInt32.le_iff_toNat_le]
  have zero : '0'.val.toNat = 48 := rfl
  have nine : '9'.val.toNat = 57 := rfl
  have lowerA : 'a'.val.toNat = 97 := rfl
  have lowerF : 'f'.val.toNat = 102 := rfl
  have upperA : 'A'.val.toNat = 65 := rfl
  have upperF : 'F'.val.toNat = 70 := rfl
  have last : (127 : UInt32).toNat = 127 := rfl
  split at valued
  · cases valued
    omega
  split at valued
  · cases valued
    omega
  split at valued
  · cases valued
    omega
  · cases valued

theorem size_of_digits {value out : Nat} {digits : List Char}
    (number : hexNumber? value digits = some out) : Utf8.size digits = digits.length := by
  induction digits generalizing value with
  | nil => rfl
  | cons c digits ih =>
    obtain ⟨digit, valued, number⟩ := Option.bind_eq_some_iff.1 number
    rw [Utf8.size_cons, (hexValue?_bounds valued).1, ih number, List.length_cons, Nat.add_comm]

theorem hexNumber?_lt {value out : Nat} {digits : List Char}
    (number : hexNumber? value digits = some out) : out < (value + 1) * Nat.pow 16 digits.length := by
  induction digits generalizing value with
  | nil =>
    cases number
    exact Nat.lt_of_lt_of_eq (Nat.lt_succ_self _) (Nat.mul_one _).symm
  | cons c digits ih =>
    obtain ⟨digit, valued, number⟩ := Option.bind_eq_some_iff.1 number
    have small := (hexValue?_bounds valued).2
    calc out < (16 * value + digit + 1) * Nat.pow 16 digits.length := ih number
      _ ≤ ((value + 1) * 16) * Nat.pow 16 digits.length := Nat.mul_le_mul_right _ (by omega)
      _ = (value + 1) * Nat.pow 16 (c :: digits).length := by
        rw [Nat.mul_assoc, Nat.mul_comm 16]
        rfl

/-! ## Surrogates -/

theorem isValidChar_pairCode {high low : Nat} (isHigh : IsHighSurrogate high)
    (isLow : IsLowSurrogate low) : (pairCode high low).isValidChar := by
  obtain ⟨high_least, high_most⟩ := isHigh
  obtain ⟨low_least, low_most⟩ := isLow
  unfold pairCode Nat.isValidChar
  omega

/-- Half a pair is no character. -/
theorem unitChar_of_isHighSurrogate {unit : Nat} (high : IsHighSurrogate unit) :
    unitChar unit = replacement := by
  obtain ⟨least, most⟩ := high
  have invalid : ¬ unit.isValidChar := by
    unfold Nat.isValidChar
    omega
  rw [unitChar, if_neg invalid]

end Text.Escape

namespace Checked

/-- The character of a number that has to be one. -/
def charOf (code : Nat) : Attempt Char :=
  require .noChar (if code.isValidChar then some (Char.ofNat code) else none)

/-- Takes a number of `length` digits from the front of a text, or nothing. The digits are cut out,
and the text behind them again. -/
def takeHex (length : Nat) (cs : List Char) : Attempt (Option (Nat × List Char)) := do
  match (Utf8.part? cs 0 length).bind (hexNumber? 0) with
  | some number => return some (number, ← cutFrom cs length)
  | none => return none

/-- Takes an escaped low surrogate. -/
def takeLowSurrogate : List Char → Attempt (Option (Nat × List Char))
  | '\\' :: 'u' :: cs => do
    return (← takeHex 4 cs).filter fun (unit, _) => IsLowSurrogate unit
  | _ => return none

/-- The code point of a surrogate pair. -/
def codeOfPair (high low : Nat) : Attempt Nat := do
  let above ← subtract high 0xD800
  let below ← subtract low 0xDC00
  return 0x10000 + above * 0x400 + below

/-- The character of a code unit, with the other half of its pair if that follows. -/
def decodeUnit (unit : Nat) (cs : List Char) : Attempt (Char × List Char) := do
  if IsHighSurrogate unit then
    match ← takeLowSurrogate cs with
    | some (low, rest) => return (← charOf (← codeOfPair unit low), rest)
    | none => return (unitChar unit, cs)
  else return (unitChar unit, cs)

/-- The character that an escape stands for, and the text behind it. -/
def decodeEscape : List Char → Attempt (Char × List Char)
  | [] => return ('\\', [])
  | 'x' :: cs => do
    match ← takeHex 2 cs with
    | some (code, rest) => return (← charOf code, rest)
    | none => return ('x', cs)
  | 'u' :: cs => do
    match ← takeHex 4 cs with
    | some (unit, rest) => decodeUnit unit rest
    | none => return ('u', cs)
  | c :: cs => return (named c, cs)

/-- Decodes one character onto those before it. -/
def decodePass : List Char × List Char → Attempt (List Char ⊕ List Char × List Char)
  | ([], out) => return .inl out
  | (c :: cs, out) => do
    if c = '\\' then
      let (decoded, rest) ← decodeEscape cs
      return .inr (rest, out ++ [decoded])
    else return .inr (cs, out ++ [c])

/-- The text with its escapes decoded. -/
def decode (raw : List Char) : Attempt (List Char) :=
  loop (fun state => raw.length - state.1.length) raw.length decodePass (raw, [])

theorem charOf_eq {code : Nat} (valid : code.isValidChar) : charOf code = .ok (Char.ofNat code) :=
  require_eq_ok_iff.2 (if_pos valid)

theorem takeHex_eq (length : Nat) (cs : List Char) :
    takeHex length cs = .ok (readHex 0 length cs) := by
  cases cut : (Utf8.part? cs 0 length).bind (hexNumber? 0) with
  | none =>
    have absent : readHex 0 length cs = none := by
      refine Option.eq_none_iff_forall_ne_some.2 fun found read => ?_
      obtain ⟨digits, split, measure, number⟩ := readHex_eq_some_iff.1 read
      have part : Utf8.part? cs 0 length = some digits :=
        Utf8.part?_zero_eq_some_iff.2 ⟨_, split, (size_of_digits number).trans measure⟩
      rw [part, Option.bind_some, number] at cut
      cases cut
    rw [takeHex, cut, absent]
    rfl
  | some number =>
    obtain ⟨digits, part, valued⟩ := Option.bind_eq_some_iff.1 cut
    obtain ⟨rest, rfl, size⟩ := Utf8.part?_zero_eq_some_iff.1 part
    have read : readHex 0 length (digits ++ rest) = some (number, rest) :=
      readHex_eq_some_iff.2 ⟨digits, rfl, (size_of_digits valued).symm.trans size, valued⟩
    have behind : cutFrom (digits ++ rest) length = .ok rest :=
      require_eq_ok_iff.2 (size ▸ Utf8.dropBytes_size_append digits rest)
    rw [takeHex, cut, read]
    simp only [behind, ok_bind]
    rfl

theorem takeLowSurrogate_eq (cs : List Char) :
    takeLowSurrogate cs = .ok (readLowSurrogate cs) := by
  unfold takeLowSurrogate
  split
  · rw [takeHex_eq, ok_bind, readLowSurrogate, pure_eq_ok]
  · next other => rw [readLowSurrogate, pure_eq_ok]; exact other

theorem codeOfPair_eq {high low : Nat} (isHigh : IsHighSurrogate high)
    (isLow : IsLowSurrogate low) : codeOfPair high low = .ok (pairCode high low) := by
  unfold codeOfPair pairCode
  rw [subtract_of_le isHigh.1, ok_bind, subtract_of_le isLow.1, ok_bind]
  rfl

theorem isLowSurrogate_of_readLowSurrogate {low : Nat} {cs rest : List Char}
    (read : readLowSurrogate cs = some (low, rest)) : IsLowSurrogate low := by
  unfold readLowSurrogate at read
  split at read
  · simpa using (Option.filter_eq_some_iff.1 read).2
  · cases read

theorem decodeUnit_eq (unit : Nat) (cs : List Char) :
    decodeUnit unit cs = .ok (readUnit unit cs) := by
  unfold decodeUnit readUnit
  split
  · next high =>
    rw [takeLowSurrogate_eq, ok_bind]
    cases read : readLowSurrogate cs with
    | none =>
      simp only [unitChar_of_isHighSurrogate high, pure_eq_ok]
    | some found =>
      obtain ⟨low, rest⟩ := found
      have isLow := isLowSurrogate_of_readLowSurrogate read
      dsimp only
      rw [codeOfPair_eq high isLow, ok_bind, charOf_eq (isValidChar_pairCode high isLow), ok_bind]
      rfl
  · rfl

/-- An escape is decoded as it is read, whatever its digits are. -/
theorem decodeEscape_eq (cs : List Char) : decodeEscape cs = .ok (readEscape cs) := by
  unfold decodeEscape
  split
  · rw [readEscape, pure_eq_ok]
  · next cs =>
    rw [takeHex_eq, ok_bind, readEscape]
    cases read : readHex 0 2 cs with
    | none => rfl
    | some found =>
      obtain ⟨digits, -, length, number⟩ := readHex_eq_some_iff.1 read
      have below := hexNumber?_lt number
      have byte : (0 + 1) * Nat.pow 16 digits.length = 256 := by rw [length]
      have valid : found.1.isValidChar := by
        unfold Nat.isValidChar
        omega
      simp only [charOf_eq valid, ok_bind, pure_eq_ok]
  · next cs =>
    rw [takeHex_eq, ok_bind, readEscape]
    cases readHex 0 4 cs with
    | none => rfl
    | some found => exact decodeUnit_eq found.1 found.2
  · next c cs notX notU =>
    rw [readEscape, pure_eq_ok]
    · exact notX
    · exact notU

/-! ## All escapes -/

/-- The state is promised what the text that is left decodes to, behind what was decoded. -/
def PromisesDecoded (raw : List Char) (state : List Char × List Char) (out : List Char) : Prop :=
  state.1.length ≤ raw.length ∧ out = state.2 ++ Escape.decode state.1

theorem decodePass_keeps {raw : List Char} (state : List Char × List Char) (out : List Char)
    (promised : PromisesDecoded raw state out) :
    decodePass state = .ok (.inl out) ∨ ∃ next, decodePass state = .ok (.inr next) ∧
      raw.length - state.1.length < raw.length - next.1.length ∧
      raw.length - next.1.length ≤ raw.length ∧ PromisesDecoded raw next out := by
  obtain ⟨cs, done⟩ := state
  obtain ⟨within, rfl⟩ := promised
  cases cs with
  | nil =>
    left
    rw [decode_nil, List.append_nil]
    rfl
  | cons c cs =>
    right
    dsimp only at within
    rw [List.length_cons] at within
    by_cases slash : c = '\\'
    · subst slash
      have shorter := length_readEscape_le cs
      refine ⟨((readEscape cs).2, done ++ [(readEscape cs).1]), ?_, ?_, Nat.sub_le _ _, ?_, ?_⟩
      · rw [decodePass, if_pos rfl, decodeEscape_eq]
        rfl
      · simp only [List.length_cons]
        omega
      · dsimp only
        omega
      · simp only [decode_backslash, List.append_assoc, List.singleton_append]
    · refine ⟨(cs, done ++ [c]), ?_, ?_, Nat.sub_le _ _, ?_, ?_⟩
      · rw [decodePass, if_neg slash]
        rfl
      · simp only [List.length_cons]
        omega
      · dsimp only
        omega
      · simp only [decode_cons_of_ne slash, List.append_assoc, List.singleton_append]

/-- Escapes are decoded with nothing that decoding can fail at. -/
theorem decode_eq (raw : List Char) : decode raw = .ok (Escape.decode raw) :=
  loop_eq_ok decodePass_keeps ⟨Nat.le_refl _, rfl⟩

end Checked

end Flashdeck
