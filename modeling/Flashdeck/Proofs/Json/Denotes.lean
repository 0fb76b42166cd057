import Flashdeck.Json
import Flashdeck.Proofs.Text.Escape
import Flashdeck.Proofs.Text.Utf8

/-!
# What a JSON text denotes

A JSON text is made of pieces, and what the pieces stand for is said without the decoder. Both
languages escape with a backslash, and a script knows every escape that JSON has. What JSON leaves
to UTF-16 is settled from left to right: a surrogate joins the one right behind it or is replaced,
and it takes a look at one more escape to know which.

* `Denotes`: the text that the pieces of a JSON text stand for.
* `decode_content`: the decoder gives a text that the pieces denote, and no other.
* `exists_denotes`: whatever the order and the number of the surrogates, there is one.
-/

namespace Flashdeck.Json

open Text Text.Escape

/-! ## The grammar -/

/-- The escapes of one letter. -/
inductive ShortEscape where
  | quote
  | backslash
  | slash
  | backspace
  | formFeed
  | lineFeed
  | carriageReturn
  | tab
deriving DecidableEq

namespace ShortEscape

/-- What stands behind the backslash. -/
def letter : ShortEscape → Char
  | quote => '"'
  | backslash => '\\'
  | slash => '/'
  | backspace => 'b'
  | formFeed => 'f'
  | lineFeed => 'n'
  | carriageReturn => 'r'
  | tab => 't'

/-- What the escape stands for. -/
def char : ShortEscape → Char
  | quote => '"'
  | backslash => '\\'
  | slash => '/'
  | backspace => '\u0008'
  | formFeed => '\u000C'
  | lineFeed => '\n'
  | carriageReturn => '\r'
  | tab => '\t'

end ShortEscape

/-- What a JSON text is made of between its quotes. -/
inductive Piece where
  /-- A character that stands for itself. -/
  | plain (c : Char) (printed : 0x20 ≤ c.toNat) (quote : c ≠ '"') (slash : c ≠ '\\')
  | short (escape : ShortEscape)
  | codeUnit (unit : CodeUnit)

/-- A piece as it is written. -/
def Piece.write : Piece → List Char
  | plain c _ _ _ => [c]
  | short escape => ['\\', escape.letter]
  | codeUnit unit => '\\' :: 'u' :: unit.digits

/-- What stands between the quotes. -/
def content (pieces : List Piece) : List Char :=
  pieces.flatMap Piece.write

/-- A JSON text. -/
def literal (pieces : List Piece) : List Char :=
  '"' :: (content pieces ++ ['"'])

/-! ## What a text denotes -/

/-- The code units of a character in UTF-16. -/
def utf16 (c : Char) : List Nat :=
  if c.toNat < 0x10000 then [c.toNat]
  else [0xD800 + (c.toNat - 0x10000) / 0x400, 0xDC00 + (c.toNat - 0x10000) % 0x400]

/-- The text that pieces stand for. A code unit is a character of its own or makes one with the code
unit right behind it; half a pair without its other half stands for U+FFFD. -/
inductive Denotes : List Piece → List Char → Prop
  | nil : Denotes [] []
  | plain {c : Char} {printed : 0x20 ≤ c.toNat} {quote : c ≠ '"'} {slash : c ≠ '\\'}
      {pieces : List Piece} {cs : List Char} (behind : Denotes pieces cs) :
      Denotes (.plain c printed quote slash :: pieces) (c :: cs)
  | short {escape : ShortEscape} {pieces : List Piece} {cs : List Char}
      (behind : Denotes pieces cs) : Denotes (.short escape :: pieces) (escape.char :: cs)
  | single {unit : CodeUnit} {c : Char} {pieces : List Piece} {cs : List Char}
      (same : utf16 c = [unit.value]) (behind : Denotes pieces cs) :
      Denotes (.codeUnit unit :: pieces) (c :: cs)
  | pair {high low : CodeUnit} {c : Char} {pieces : List Piece} {cs : List Char}
      (same : utf16 c = [high.value, low.value]) (behind : Denotes pieces cs) :
      Denotes (.codeUnit high :: .codeUnit low :: pieces) (c :: cs)
  | half {unit : CodeUnit} {pieces : List Piece} {cs : List Char}
      (surrogate : IsHighSurrogate unit.value ∨ IsLowSurrogate unit.value)
      (alone : IsHighSurrogate unit.value → ∀ low others, pieces = .codeUnit low :: others →
        ¬ IsLowSurrogate low.value)
      (behind : Denotes pieces cs) : Denotes (.codeUnit unit :: pieces) ('\uFFFD' :: cs)

/-! ## UTF-16 -/

theorem utf16_eq_singleton_iff {c : Char} {unit : Nat} :
    utf16 c = [unit] ↔ c.toNat = unit ∧ unit < 0x10000 := by
  unfold utf16
  split
  · next small =>
    rw [List.singleton_inj]
    exact ⟨fun same => ⟨same, same ▸ small⟩, And.left⟩
  · next large =>
    simp only [List.cons.injEq, List.cons_ne_nil, and_false, false_iff, not_and]
    intro same
    exact same ▸ large

/-- A pair of surrogates makes one character. -/
theorem utf16_eq_pair_iff {c : Char} {high low : Nat} :
    utf16 c = [high, low] ↔
      IsHighSurrogate high ∧ IsLowSurrogate low ∧ c.toNat = pairCode high low := by
  have valid : c.toNat < 0xD800 ∨ 0xDFFF < c.toNat ∧ c.toNat < 0x110000 := c.valid
  unfold utf16 IsHighSurrogate IsLowSurrogate pairCode
  split
  · next small =>
    simp only [List.cons.injEq, List.nil_eq, List.cons_ne_nil, and_false, false_iff]
    omega
  · next large =>
    simp only [List.cons.injEq, and_true]
    omega

/-- A code unit outside the surrogates is a character of its own. -/
theorem exists_utf16_eq_singleton {unit : Nat} (small : unit < 0x10000)
    (single : ¬ (IsHighSurrogate unit ∨ IsLowSurrogate unit)) : ∃ c, utf16 c = [unit] := by
  have valid : unit.isValidChar := by
    unfold IsHighSurrogate IsLowSurrogate at single
    unfold Nat.isValidChar
    omega
  exact ⟨Char.ofNat unit, utf16_eq_singleton_iff.2 ⟨toNat_ofNat valid, small⟩⟩

theorem exists_utf16_eq_pair {high low : Nat} (isHigh : IsHighSurrogate high)
    (isLow : IsLowSurrogate low) : ∃ c, utf16 c = [high, low] := by
  have valid : (pairCode high low).isValidChar := by
    unfold IsHighSurrogate at isHigh
    unfold IsLowSurrogate at isLow
    unfold pairCode Nat.isValidChar
    omega
  exact ⟨_, utf16_eq_pair_iff.2 ⟨isHigh, isLow, toNat_ofNat valid⟩⟩

/-! ## Digits and escapes -/

theorem readEscape_letter (escape : ShortEscape) (rest : List Char) :
    readEscape (escape.letter :: rest) = (escape.char, rest) := by
  cases escape <;> rfl

theorem readLowSurrogate_unit (unit : CodeUnit) (rest : List Char) :
    readLowSurrogate ('\\' :: 'u' :: (unit.digits ++ rest)) =
      if IsLowSurrogate unit.value then some (unit.value, rest) else none := by
  rw [readLowSurrogate, unit.readHex_digits, Option.filter_some]
  simp

theorem content_cons (piece : Piece) (pieces : List Piece) :
    content (piece :: pieces) = piece.write ++ content pieces := rfl

/-- No other piece is mistaken for a low surrogate. -/
theorem readLowSurrogate_content_eq_none {pieces : List Piece}
    (other : ∀ low others, pieces = .codeUnit low :: others → ¬ IsLowSurrogate low.value) :
    readLowSurrogate (content pieces) = none := by
  cases pieces with
  | nil => rfl
  | cons piece pieces =>
    rw [content_cons]
    cases piece with
    | plain c printed quote slash =>
      rw [Piece.write, List.singleton_append]
      unfold readLowSurrogate
      split
      · next same => exact absurd (List.cons.inj same).1 slash
      · rfl
    | short escape => cases escape <;> rfl
    | codeUnit unit =>
      exact (readLowSurrogate_unit unit _).trans (if_neg (other unit pieces rfl))

/-! ## Decoding -/

/-- A code unit that is a character is read as that character. -/
theorem readUnit_of_utf16_eq_singleton {c : Char} {unit : Nat} (same : utf16 c = [unit])
    (rest : List Char) : readUnit unit rest = (c, rest) := by
  obtain ⟨rfl, -⟩ := utf16_eq_singleton_iff.1 same
  exact readUnit_toNat c rest

/-- A code unit that makes a character with the one behind it takes that one along. -/
theorem readUnit_of_utf16_eq_pair {c : Char} {high : Nat} {low : CodeUnit}
    (same : utf16 c = [high, low.value]) (rest : List Char) :
    readUnit high ('\\' :: 'u' :: (low.digits ++ rest)) = (c, rest) := by
  obtain ⟨isHigh, isLow, code⟩ := utf16_eq_pair_iff.1 same
  rw [readUnit, if_pos isHigh, readLowSurrogate_unit, if_pos isLow]
  simp only [← code, Char.ofNat_toNat]

theorem readUnit_of_surrogate {unit : Nat} {rest : List Char}
    (surrogate : IsHighSurrogate unit ∨ IsLowSurrogate unit)
    (alone : IsHighSurrogate unit → readLowSurrogate rest = none) :
    readUnit unit rest = (replacement, rest) := by
  by_cases high : IsHighSurrogate unit
  · rw [readUnit, if_pos high, alone high]
  · have invalid : ¬ unit.isValidChar := by
      have low := surrogate.resolve_left high
      unfold IsLowSurrogate at low
      unfold Nat.isValidChar
      omega
    rw [readUnit, if_neg high, unitChar, if_neg invalid]

theorem decode_codeUnit {unit : CodeUnit} {c : Char} {rest behind : List Char}
    (read : readUnit unit.value rest = (c, behind)) :
    decode ((Piece.codeUnit unit).write ++ rest) = c :: decode behind := by
  rw [Piece.write, List.cons_append, List.cons_append, decode_backslash,
    unit.readEscape_digits, read]

/-- **The decoder gives what the pieces denote.** -/
theorem decode_content {pieces : List Piece} {cs : List Char} (denotes : Denotes pieces cs) :
    decode (content pieces) = cs := by
  induction denotes with
  | nil => exact decode_nil
  | @plain c printed quote slash pieces cs behind ih =>
    rw [content_cons, Piece.write, List.singleton_append, decode_cons_of_ne slash, ih]
  | @short escape pieces cs behind ih =>
    rw [content_cons, Piece.write, List.cons_append, decode_backslash, List.singleton_append,
      readEscape_letter, ih]
  | @single unit c pieces cs same behind ih =>
    rw [content_cons, decode_codeUnit (readUnit_of_utf16_eq_singleton same _), ih]
  | @pair high low c pieces cs same behind ih =>
    have read : readUnit high.value (content (.codeUnit low :: pieces)) = (c, content pieces) :=
      readUnit_of_utf16_eq_pair same (content pieces)
    rw [content_cons, decode_codeUnit read, ih]
  | @half unit pieces cs surrogate alone behind ih =>
    have read := readUnit_of_surrogate surrogate fun high =>
      readLowSurrogate_content_eq_none (alone high)
    rw [content_cons, decode_codeUnit read, ih]
    rfl

/-- Whatever the pieces are, they denote a text. -/
theorem exists_denotes (pieces : List Piece) : ∃ cs, Denotes pieces cs := by
  -- a pair takes two pieces at once, so the induction is on their number
  induction length : pieces.length using Nat.strongRecOn generalizing pieces with
  | ind n ih =>
    subst length
    cases pieces with
    | nil => exact ⟨[], .nil⟩
    | cons piece pieces =>
      obtain ⟨cs, behind⟩ := ih pieces.length (Nat.lt_succ_self _) pieces rfl
      cases piece with
      | plain c printed quote slash => exact ⟨c :: cs, .plain behind⟩
      | short escape => exact ⟨escape.char :: cs, .short behind⟩
      | codeUnit unit =>
        by_cases surrogate : IsHighSurrogate unit.value ∨ IsLowSurrogate unit.value
        · by_cases paired : IsHighSurrogate unit.value ∧
            ∃ low others, pieces = .codeUnit low :: others ∧ IsLowSurrogate low.value
          · obtain ⟨isHigh, low, others, rfl, isLow⟩ := paired
            obtain ⟨c, same⟩ := exists_utf16_eq_pair isHigh isLow
            have shorter := Nat.lt_succ_of_lt (Nat.lt_succ_self others.length)
            obtain ⟨cs, behind⟩ := ih others.length shorter others rfl
            exact ⟨c :: cs, .pair same behind⟩
          · refine ⟨_, .half surrogate (fun isHigh low others split isLow => ?_) behind⟩
            exact paired ⟨isHigh, low, others, split, isLow⟩
        · obtain ⟨c, same⟩ := exists_utf16_eq_singleton unit.value_lt surrogate
          exact ⟨c :: cs, .single same behind⟩

end Flashdeck.Json
