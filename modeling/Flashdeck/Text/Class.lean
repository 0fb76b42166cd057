/-!
# Character classes of the script

The script knows three classes of characters: blanks, which separate, word characters, which make
up keys and keywords, and line ends, which no backslash may escape. Blanks are the characters of
Unicode `White_Space`, less U+0085 and with U+FEFF; settings, which come from outside the script,
are trimmed by `White_Space` itself.
-/

namespace Flashdeck.Text

/-- The ranges of Unicode `White_Space`, ends included, in ascending order. -/
def whiteSpaceRanges : List (Nat × Nat) :=
  [(0x09, 0x0D), (0x20, 0x20), (0x85, 0x85), (0xA0, 0xA0), (0x1680, 0x1680), (0x2000, 0x200A),
    (0x2028, 0x2029), (0x202F, 0x202F), (0x205F, 0x205F), (0x3000, 0x3000)]

/-- A character of Unicode `White_Space`. -/
def isWhiteSpace (c : Char) : Bool :=
  whiteSpaceRanges.any fun (first, last) => first ≤ c.toNat && c.toNat ≤ last

/-- A character that separates the parts of a script. The byte order mark is one, so that a script
may begin with it; the next-line character U+0085 is not. -/
def isBlank (c : Char) : Bool :=
  (isWhiteSpace c && c != '\u0085') || c == '\uFEFF'

/-- An ASCII letter, an ASCII digit or the underscore. -/
def isWordChar (c : Char) : Bool :=
  c.isAlphanum || c == '_'

/-- An ASCII digit or the dot, the characters of a numeral. -/
def isNumeralChar (c : Char) : Bool :=
  c.isDigit || c == '.'

/-- A character that ends a line of text: no backslash escapes it. -/
def isLineEnd (c : Char) : Bool :=
  c == '\n' || c == '\r' || c == '\u2028' || c == '\u2029'

/-- No word character is a blank, so a blank always ends a word. -/
theorem isBlank_eq_false_of_isWordChar {c : Char} (word : isWordChar c = true) :
    isBlank c = false := by
  have bound : c.toNat < 128 ∧ 48 ≤ c.toNat := by
    delta isWordChar Char.isAlphanum Char.isAlpha Char.isUpper Char.isLower Char.isDigit at word
    simp only [Bool.or_eq_true, Bool.and_eq_true, decide_eq_true_eq, beq_iff_eq,
      UInt32.le_iff_toNat_le, ge_iff_le] at word
    change ((((65 ≤ c.toNat ∧ c.toNat ≤ 90) ∨ (97 ≤ c.toNat ∧ c.toNat ≤ 122)) ∨
      (48 ≤ c.toNat ∧ c.toNat ≤ 57)) ∨ c = '_') at word
    rcases word with ((upper | lower) | digit) | rfl
    · omega
    · omega
    · omega
    · decide
  have mark : c ≠ '\uFEFF' := by
    intro same
    subst same
    exact absurd bound.1 (by decide)
  have space : isWhiteSpace c = false := by
    simp only [isWhiteSpace, whiteSpaceRanges, List.any_cons, List.any_nil, Bool.or_false,
      Bool.or_eq_false_iff, Bool.and_eq_false_iff, decide_eq_false_iff_not]
    omega
  simp [isBlank, space, mark]

/-- No letter is a digit. -/
theorem isDigit_eq_false_of_isAlpha {c : Char} (letter : c.isAlpha = true) : c.isDigit = false := by
  delta Char.isAlpha Char.isUpper Char.isLower at letter
  delta Char.isDigit
  simp only [Bool.or_eq_true, Bool.and_eq_true, decide_eq_true_eq, Bool.and_eq_false_iff,
    decide_eq_false_iff_not, UInt32.le_iff_toNat_le, ge_iff_le] at letter ⊢
  change (65 ≤ c.toNat ∧ c.toNat ≤ 90) ∨ (97 ≤ c.toNat ∧ c.toNat ≤ 122) at letter
  change ¬ 48 ≤ c.toNat ∨ ¬ c.toNat ≤ 57
  omega

theorem isWordChar_of_isDigit {c : Char} (digit : c.isDigit = true) : isWordChar c = true := by
  simp [isWordChar, Char.isAlphanum, digit]

/-- The dot is the only character of a numeral that is no word character. -/
theorem isWordChar_or_eq_of_isNumeralChar {c : Char} (numeral : isNumeralChar c = true) :
    isWordChar c = true ∨ c = '.' := by
  simp only [isNumeralChar, Bool.or_eq_true, beq_iff_eq] at numeral
  rcases numeral with digit | dot
  · exact .inl (isWordChar_of_isDigit digit)
  · exact .inr dot

/-- The word characters of a numeral are its digits. -/
theorem isDigit_of_isNumeralChar {c : Char} (numeral : isNumeralChar c = true)
    (word : isWordChar c = true) : c.isDigit = true := by
  simp only [isNumeralChar, Bool.or_eq_true, beq_iff_eq] at numeral
  rcases numeral with digit | rfl
  · exact digit
  · exact absurd word (by decide)

theorem isBlank_eq_false_of_isNumeralChar {c : Char} (numeral : isNumeralChar c = true) :
    isBlank c = false := by
  rcases isWordChar_or_eq_of_isNumeralChar numeral with word | rfl
  · exact isBlank_eq_false_of_isWordChar word
  · decide

end Flashdeck.Text
