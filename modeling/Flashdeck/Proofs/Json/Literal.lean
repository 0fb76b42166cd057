import Flashdeck.Proofs.Card
import Flashdeck.Proofs.Property
import Flashdeck.Proofs.Json.Denotes

/-!
# JSON texts as values

A text of JSON, quotes and all, is a value of a script as it stands. The quote that ends the one
ends the other, and there are no line ends between. Tidying comes before decoding and sees the
escapes still written, so it takes nothing but blanks that stand at the two ends as they are.

* `entries_fieldsOfBody`: what a JSON text behind a key gives.
* `exists_pieces_writeText`: what is written for a text is a JSON text that denotes it.
* `decode_trim_flatMap_escapeChar`: what a text loses when it is written and read back.
* `entries_fieldsOfBody_literal`: a JSON text behind a key gives the text that it denotes.
-/

namespace Flashdeck.Json

open Text Text.Escape Script

/-- A blank that a JSON text can hold as it is. -/
def isPlainBlank (c : Char) : Bool :=
  isBlank c && 0x20 ≤ c.toNat

/-! ## Reading a JSON text -/

/-- Between the quotes of a JSON text there is one line. -/
theorem ne_feed_of_mem_content {pieces : List Piece} {c : Char} (mem : c ∈ content pieces) :
    c ≠ '\n' := by
  obtain ⟨piece, -, mem⟩ := List.mem_flatMap.1 mem
  intro feed
  subst feed
  cases piece with
  | plain c printed quote slash =>
    rw [← List.mem_singleton.1 mem] at printed
    exact absurd printed (by decide)
  | short escape => cases escape <;> simp [Piece.write, ShortEscape.letter] at mem
  | codeUnit unit =>
    simp only [Piece.write, List.mem_cons, Char.reduceEq, false_or] at mem
    exact absurd (CodeUnit.isWordChar_of_mem_digits mem) (by decide)

/-- The quote that ends a JSON text is the one that ends a literal of a script. -/
theorem isQuotedContent_content (pieces : List Piece) :
    Lexeme.IsQuotedContent (content pieces) := by
  induction pieces with
  | nil => exact .nil
  | cons piece pieces ih =>
    rw [content_cons]
    cases piece with
    | plain c printed quote slash => exact .plain quote slash ih
    | short escape => exact .pair (by cases escape <;> decide) ih
    | codeUnit unit =>
      exact .pair (by decide) (isQuotedContent_append (fun _ => CodeUnit.isWordChar_of_mem_digits) ih)

theorem tidy_content (pieces : List Piece) :
    tidy (content pieces) = trim isBlank (content pieces) :=
  tidy_of_forall_ne fun _ => ne_feed_of_mem_content

/-- A JSON text behind a key gives one field, its content decoded once the blanks at the ends are
off. -/
theorem entries_fieldsOfBody {key : String} (ne : key.toList ≠ [])
    (word : ∀ c ∈ key.toList, isWordChar c = true) (pieces : List Piece) :
    (fieldsOfBody .decode (key.toList ++ ':' :: ' ' :: literal pieces)).entries =
      [(key, .text (String.ofList (decode (trim isBlank (content pieces)))))] := by
  have read : Property.read (key.toList ++ ':' :: ' ' :: literal pieces) =
      some (⟨key.toList, .quoted (content pieces)⟩, []) :=
    Property.read_eq_some_iff.2 ⟨[], [' '], literal pieces, ne, word, .nil, .space, rfl,
      Literal.read_quoted (isQuotedContent_content pieces) []⟩
  rw [fieldsOfBody, Pattern.values_of_read_eq_some read, Pattern.values_nil, List.map_singleton,
    Property.entry, String.ofList_toList, Literal.value, EscapePolicy.apply, tidy_content]
  rfl

/-! ## Texts that were written -/

/-- Every escape of one letter is written but that of the slash, which needs none. -/
theorem escapeChar_char {escape : ShortEscape} (other : escape ≠ .slash) :
    escapeChar escape.char = ['\\', escape.letter] := by
  cases escape with
  | slash => exact (other rfl).elim
  | _ => rfl

theorem escapeChar_of_forall_ne {c : Char}
    (ne : ∀ escape : ShortEscape, escape ≠ .slash → c ≠ escape.char) :
    escapeChar c = if c.toNat < 0x20 then
      ['\\', 'u', '0', '0', hexDigit (c.toNat / 16), hexDigit (c.toNat % 16)] else [c] := by
  have quote : c ≠ '"' := ne .quote (by decide)
  have backslash : c ≠ '\\' := ne .backslash (by decide)
  have backspace : c ≠ '\u0008' := ne .backspace (by decide)
  have formFeed : c ≠ '\u000C' := ne .formFeed (by decide)
  have lineFeed : c ≠ '\n' := ne .lineFeed (by decide)
  have carriageReturn : c ≠ '\r' := ne .carriageReturn (by decide)
  have tab : c ≠ '\t' := ne .tab (by decide)
  rw [escapeChar, if_neg quote, if_neg backslash, if_neg backspace, if_neg formFeed,
    if_neg lineFeed, if_neg carriageReturn, if_neg tab]

/-- The digits of a control character, of which two are known. -/
theorem hexDigits_of_lt {code : Nat} (control : code < 0x20) :
    hexDigits code = ['0', '0', hexDigit (code / 16), hexDigit (code % 16)] := by
  have first : code / 0x1000 % 16 = 0 := by omega
  have second : code / 0x100 % 16 = 0 := by omega
  have third : code / 0x10 % 16 = code / 16 := by omega
  rw [hexDigits, first, second, third]
  rfl

/-- A character is written as it is, by its letter, or by its digits. -/
theorem escapeChar_cases (c : Char) :
    (escapeChar c = [c] ∧ 0x20 ≤ c.toNat ∧ c ≠ '"' ∧ c ≠ '\\') ∨
    (∃ escape : ShortEscape, c = escape.char ∧ escapeChar c = ['\\', escape.letter]) ∨
    ∃ unit : CodeUnit, unit.value = c.toNat ∧ c.toNat < 0x20 ∧
      escapeChar c = '\\' :: 'u' :: unit.digits := by
  by_cases short : ∃ escape : ShortEscape, escape ≠ .slash ∧ c = escape.char
  · obtain ⟨escape, other, rfl⟩ := short
    exact .inr (.inl ⟨escape, rfl, escapeChar_char other⟩)
  · have ne : ∀ escape : ShortEscape, escape ≠ .slash → c ≠ escape.char :=
      fun escape other same => short ⟨escape, other, same⟩
    rw [escapeChar_of_forall_ne ne]
    by_cases control : c.toNat < 0x20
    · have value : (CodeUnit.ofNat c.toNat).value = c.toNat :=
        CodeUnit.value_ofNat (Nat.lt_trans control (by decide))
      refine .inr (.inr ⟨.ofNat c.toNat, value, control, ?_⟩)
      rw [if_pos control, CodeUnit.digits_ofNat, hexDigits_of_lt control]
    · exact .inl ⟨if_neg control, Nat.le_of_not_lt control, ne .quote (by decide),
        ne .backslash (by decide)⟩

/-- What is written is a JSON text, and it denotes what it was written for. -/
theorem exists_pieces_writeText (cs : List Char) :
    ∃ pieces, content pieces = cs.flatMap escapeChar ∧ Denotes pieces cs := by
  induction cs with
  | nil => exact ⟨[], rfl, .nil⟩
  | cons c cs ih =>
    obtain ⟨pieces, written, denotes⟩ := ih
    rw [List.flatMap_cons, ← written]
    rcases escapeChar_cases c with ⟨here, printed, quote, slash⟩ | ⟨escape, rfl, here⟩ |
      ⟨unit, code, control, here⟩
    · exact ⟨.plain c printed quote slash :: pieces, by rw [here]; rfl, .plain denotes⟩
    · exact ⟨.short escape :: pieces, by rw [here]; rfl, .short denotes⟩
    · have single : utf16 c = [unit.value] :=
        utf16_eq_singleton_iff.2 ⟨code.symm, unit.value_lt⟩
      exact ⟨.codeUnit unit :: pieces, by rw [here]; rfl, .single single denotes⟩

/-- A character written as it is, is blank as it is; an escape has no blanks at its ends. -/
theorem escapeChar_of_isPlainBlank {c : Char} (blank : isPlainBlank c = true) :
    ∀ d ∈ escapeChar c, isBlank d = true := by
  intro d mem
  rcases escapeChar_cases c with ⟨here, -⟩ | ⟨escape, rfl, -⟩ | ⟨unit, -, control, -⟩
  · rw [here, List.mem_singleton] at mem
    rw [mem]
    exact (Bool.and_eq_true_iff.1 blank).1
  · exact absurd blank (by cases escape <;> decide)
  · have printed : 0x20 ≤ c.toNat := of_decide_eq_true (Bool.and_eq_true_iff.1 blank).2
    omega

/-- The ends of what is written for any other character. -/
theorem noBlank_escapeChar {c : Char} (solid : isPlainBlank c = false) :
    ∃ first last ds es, escapeChar c = first :: ds ∧ escapeChar c = es ++ [last] ∧
      isBlank first = false ∧ isBlank last = false := by
  rcases escapeChar_cases c with ⟨here, printed, -⟩ | ⟨escape, -, here⟩ | ⟨unit, -, -, here⟩
  · have visible : isBlank c = false :=
      (Bool.and_eq_false_iff.1 solid).resolve_right (by simpa using printed)
    exact ⟨c, c, [], [], here, here, visible, visible⟩
  · exact ⟨'\\', escape.letter, _, ['\\'], here, here, by decide, by cases escape <;> decide⟩
  · exact ⟨'\\', unit.fourth.char, _,
      ['\\', 'u', unit.first.char, unit.second.char, unit.third.char], here, here, by decide,
      isBlank_eq_false_of_isWordChar (unit.fourth.isWordChar_char)⟩

/-- Trimming takes the blanks that are written as they are, and no part of an escape. -/
theorem trim_flatMap_escapeChar (cs : List Char) :
    trim isBlank (cs.flatMap escapeChar) = (trim isPlainBlank cs).flatMap escapeChar := by
  have front : ∀ c, isPlainBlank c = false →
      ∃ d ds, escapeChar c = d :: ds ∧ isBlank d = false := by
    intro c solid
    obtain ⟨first, -, ds, -, here, -, visible, -⟩ := noBlank_escapeChar solid
    exact ⟨first, ds, here, visible⟩
  have back : ∀ c, isPlainBlank c = false →
      ∃ ds d, escapeChar c = ds ++ [d] ∧ isBlank d = false := by
    intro c solid
    obtain ⟨-, last, -, es, -, here, -, visible⟩ := noBlank_escapeChar solid
    exact ⟨es, last, here, visible⟩
  have run : ∀ c, isPlainBlank c = true → ∀ d ∈ escapeChar c, isBlank d = true :=
    fun _ => escapeChar_of_isPlainBlank
  rw [trim, dropWhile_flatMap run front, trimEnd_flatMap run back, trim]

example : trim isBlank ([' ', '\n', 'a', '\t', ' '].flatMap escapeChar) =
    ['\\', 'n', 'a', '\\', 't'] := by
  decide

/-- What was written for a text is read back without the plain blanks at its ends. -/
theorem decode_trim_flatMap_escapeChar (cs : List Char) :
    decode (trim isBlank (cs.flatMap escapeChar)) = trim isPlainBlank cs := by
  obtain ⟨pieces, written, denotes⟩ := exists_pieces_writeText (trim isPlainBlank cs)
  rw [trim_flatMap_escapeChar, ← written, decode_content denotes]

/-- **A JSON text is a value of a script.** Behind a key it gives one field, the text that it
denotes, if no blank stands as it is at either end of it. A text written as JSON denotes that text,
and so is read back as itself, exactly if it has no blank at its ends that is written as it is. -/
theorem entries_fieldsOfBody_literal {key : String} (ne : key.toList ≠ [])
    (word : ∀ c ∈ key.toList, isWordChar c = true) :
    (∀ pieces, NoBlankFront (content pieces) → NoBlankEnd (content pieces) →
      ∃ text : String,
        (fieldsOfBody .decode (key.toList ++ ':' :: ' ' :: literal pieces)).entries =
          [(key, .text text)] ∧
        ∀ cs, Denotes pieces cs ↔ cs = text.toList) ∧
    ∀ text : String,
      (∃ pieces, writeText text = literal pieces ∧ Denotes pieces text.toList) ∧
      ((fieldsOfBody .decode (key.toList ++ ':' :: ' ' :: writeText text)).entries =
          [(key, .text text)] ↔
        (∀ c ∈ text.toList.head?, isPlainBlank c = false) ∧
          ∀ c ∈ text.toList.getLast?, isPlainBlank c = false) := by
  refine ⟨fun pieces front back => ?_, fun text => ?_⟩
  · obtain ⟨cs, denotes⟩ := exists_denotes pieces
    refine ⟨String.ofList cs, ?_, fun cs' => ?_⟩
    · rw [entries_fieldsOfBody ne word, trim_eq_self_iff.2 ⟨front, back⟩, decode_content denotes]
    · rw [String.toList_ofList]
      apply Iff.intro
      · intro denotes'
        exact (decode_content denotes').symm.trans (decode_content denotes)
      · rintro rfl
        exact denotes
  · obtain ⟨pieces, written, denotes⟩ := exists_pieces_writeText text.toList
    have same : writeText text = literal pieces := by rw [writeText, literal, written]
    refine ⟨⟨pieces, same, denotes⟩, ?_⟩
    rw [same, entries_fieldsOfBody ne word, written, decode_trim_flatMap_escapeChar,
      ← trim_eq_self_iff]
    simp only [List.cons.injEq, Prod.mk.injEq, Value.text.injEq, true_and, and_true]
    apply Iff.intro
    · intro back
      have kept := congrArg String.toList back
      rwa [String.toList_ofList] at kept
    · intro kept
      rw [kept, String.ofList_toList]

/-- Two halves of one kind, a pair and half a pair, in digits of both cases. -/
theorem entries_fieldsOfBody_surrogates :
    "k_1".toList ≠ [] ∧ (∀ c ∈ "k_1".toList, isWordChar c = true) ∧
      (fieldsOfBody .decode "k_1: \"\\uD83d\\ud83D\\uDe00\\uDC0a\\/\"".toList).entries =
        [("k_1", .text (String.ofList ['\uFFFD', '😀', '\uFFFD', '/']))] := by
  have ne : "k_1".toList ≠ [] := by decide
  have word : ∀ c ∈ "k_1".toList, isWordChar c = true := List.all_eq_true.1 (by decide)
  have read := (entries_fieldsOfBody_literal ne word).1
    [.codeUnit ⟨⟨0xD, true⟩, ⟨8, false⟩, ⟨3, false⟩, ⟨0xD, false⟩⟩,
      .codeUnit ⟨⟨0xD, false⟩, ⟨8, false⟩, ⟨3, false⟩, ⟨0xD, true⟩⟩,
      .codeUnit ⟨⟨0xD, true⟩, ⟨0xE, false⟩, ⟨0, false⟩, ⟨0, false⟩⟩,
      .codeUnit ⟨⟨0xD, true⟩, ⟨0xC, true⟩, ⟨0, false⟩, ⟨0xA, false⟩⟩, .short .slash]
    (.cons (by decide) _) fun c last => by
      cases (show some '/' = some c from last)
      decide
  obtain ⟨text, entries, denotes⟩ := read
  have given : ['\uFFFD', '😀', '\uFFFD', '/'] = text.toList := by
    apply (denotes _).1
    refine .half (.inl (by decide)) (fun _ low others split => ?_) (.pair (by decide)
      (.half (.inr (by decide)) (fun high => absurd high (by decide)) (.short .nil)))
    cases split
    decide
  rw [given, String.ofList_toList]
  exact ⟨ne, word, entries⟩

end Flashdeck.Json
