import Flashdeck.Proofs.Token.Form

/-!
# Chains in other surroundings

A token fits with what follows it in view, and what follows can reach far: a lone quote is no token
of its own if some later quote closes it. Here a chain is taken out of its text and put in front of
another one. What follows can be left away, for a form that begins in the text that is left begins
in the longer one too; and what holds neither quotes nor backticks and goes on with no run can follow
instead.

* `Fits.isDigit_of_isWordChar`: a word character before a word is the end of a numeral.
* `Chain.of_append`, `Chain.append_tail`: another end of the text.
* `Chain.unindent`: no blanks before the first token.
* `trim_flatMap_spelling_append`: trimming takes the blanks around a chain and nothing else.
-/

namespace Flashdeck.Script

open Flashdeck.Text

variable {kind : Kind} {text rest tail : List Char} {tokens : List Token}

/-! ## The ends of tokens -/

theorem Fits.noBlankFront (fits : Fits kind text rest) : NoBlankFront text := by
  obtain ⟨c, cs, rfl, solid, -⟩ := fits.exists_readText
  exact .cons solid cs

theorem noBlankEnd_append_singleton (cs : List Char) {c : Char} (solid : isBlank c = false) :
    NoBlankEnd (cs ++ [c]) :=
  NoBlankEnd.append (.of_forall fun _ mem => List.mem_singleton.1 mem ▸ solid)
    (List.cons_ne_nil c []) cs

theorem Form.noBlankEnd (form : Form kind text rest) : NoBlankEnd text := by
  cases form with
  | call ended =>
    exact .of_forall fun d mem => isBlank_eq_false_of_isWordChar (isWordChar_of_mem_keyword d mem)
  | word first others ne ended =>
    exact .of_forall fun d mem =>
      isBlank_eq_false_of_isWordChar (isWordChar_of_mem_word first others d mem)
  | numeral first others ended =>
    refine .of_forall fun d mem => ?_
    rcases List.mem_cons.1 mem with rfl | mem
    · exact isBlank_eq_false_of_isWordChar (isWordChar_of_isDigit first)
    · exact isBlank_eq_false_of_isNumeralChar (others d mem)
  | @backtick content _ inside => exact noBlankEnd_append_singleton ('`' :: content) (by decide)
  | @quoted content _ inside => exact noBlankEnd_append_singleton ('"' :: content) (by decide)
  | @symbol c _ _ mem =>
    obtain ⟨d, ds, eq, solid, -⟩ := (Form.symbol mem : Form kind [c] rest).exists_readText
    obtain ⟨rfl, rfl⟩ := List.cons.inj eq
    exact noBlankEnd_append_singleton [] solid

theorem Fits.noBlankEnd (fits : Fits kind text rest) : NoBlankEnd text := by
  cases fits with
  | form form => exact form.noBlankEnd
  | @other c _ solid none => exact noBlankEnd_append_singleton [] solid

/-- The keyword is written in one way, and no word goes on with it. -/
theorem Fits.eq_keyword (fits : Fits .call text rest) :
    text = Lexeme.keyword ∧ RunEnds isWordChar rest := by
  cases fits with
  | form form =>
    cases form with
    | call ended => exact ⟨rfl, ended⟩
    | symbol mem => exact absurd mem (by simp [symbols])

/-- A token that ends with a word character, where a word character follows, is a numeral. -/
theorem Fits.isDigit_of_isWordChar (fits : Fits kind text rest) {c d : Char}
    (last : c ∈ text.getLast?) (word : isWordChar c = true) (next : d ∈ rest.head?)
    (goes : isWordChar d = true) : kind = .numeral ∧ c.isDigit = true := by
  have not_ended : ¬ RunEnds isWordChar rest := by
    intro ended
    rw [ended d next] at goes
    cases goes
  have ends_in : ∀ {front : List Char} {e : Char}, text = front ++ [e] → isWordChar e = true := by
    intro front e eq
    rw [eq, List.getLast?_concat] at last
    cases last
    exact word
  cases fits with
  | form form =>
    cases form with
    | call ended => exact (not_ended ended).elim
    | word first others ne ended => exact (not_ended ended).elim
    | numeral first others ended =>
      refine ⟨rfl, ?_⟩
      rcases List.mem_cons.1 (List.mem_of_getLast? last) with rfl | mem
      · exact first
      · exact isDigit_of_isNumeralChar (others c mem) word
    | @backtick content _ inside =>
      have tick : '`' :: (content ++ ['`']) = ('`' :: content) ++ ['`'] := rfl
      exact absurd (ends_in tick) (by decide)
    | @quoted content _ inside =>
      have quote : '"' :: (content ++ ['"']) = ('"' :: content) ++ ['"'] := rfl
      exact absurd (ends_in quote) (by decide)
    | @symbol e _ _ mem =>
      have symbol : isWordChar e = true := ends_in (List.nil_append [e]).symm
      rw [isWordChar_eq_false_of_mem_symbols mem] at symbol
      cases symbol
  | @other e _ solid none =>
    exact (none (beginsForm_of_isWordChar (ends_in (List.nil_append [e]).symm) rest)).elim

/-! ## Another end of the text -/

/-- A form that begins in a text begins in the longer one, be it another form. -/
theorem BeginsForm.append {cs : List Char} (begins : BeginsForm cs) (tail : List Char) :
    BeginsForm (cs ++ tail) := by
  obtain ⟨kind, text, rest, rfl, form⟩ := begins
  cases form with
  | call ended => exact beginsForm_of_isWordChar (by decide) _
  | word first others ne ended => exact beginsForm_of_isWordChar (isAlpha_or_eq_iff.1 first).1 _
  | numeral first others ended => exact beginsForm_of_isWordChar (isWordChar_of_isDigit first) _
  | backtick inside => exact ⟨_, _, rest ++ tail, List.append_assoc _ _ _, .backtick inside⟩
  | quoted inside => exact ⟨_, _, rest ++ tail, List.append_assoc _ _ _, .quoted inside⟩
  | symbol mem => exact ⟨_, _, rest ++ tail, List.append_assoc _ _ _, .symbol mem⟩

/-- What fits in a text fits where its end is left away. -/
theorem Fits.of_append (fits : Fits kind text (rest ++ tail)) : Fits kind text rest := by
  cases fits with
  | form form =>
    apply Fits.form
    cases form with
    | call ended => exact .call ended.of_append
    | word first others ne ended => exact .word first others ne ended.of_append
    | numeral first others ended => exact .numeral first others ended.of_append
    | backtick inside => exact .backtick inside
    | quoted inside => exact .quoted inside
    | symbol mem => exact .symbol mem
  | other solid none => exact .other solid fun begins => none (begins.append tail)

theorem Chain.of_append (chain : Chain (rest ++ tail) tokens) : Chain rest tokens := by
  induction chain with
  | nil => exact .nil
  | cons blanks fits others ih =>
    rw [← List.append_assoc] at fits
    exact .cons blanks fits.of_append ih

/-- A text that ends a block: it closes no literal, and goes on with no run. -/
structure ClosesNothing (tail : List Char) : Prop where
  backtick : '`' ∉ tail
  quote : '"' ∉ tail
  word : RunEnds isWordChar tail
  numeral : RunEnds isNumeralChar tail

/-- A form that begins in a text begins in it without the end, if the end closes nothing. -/
theorem BeginsForm.of_append {cs : List Char} {c : Char} (closes : ClosesNothing tail)
    (begins : BeginsForm (c :: (cs ++ tail))) : BeginsForm (c :: cs) := by
  obtain ⟨kind, text, rest, split, form⟩ := begins
  cases form with
  | call ended =>
    obtain ⟨rfl, -⟩ := List.cons.inj split
    exact beginsForm_of_isWordChar (by decide) cs
  | word first others ne ended =>
    obtain ⟨rfl, -⟩ := List.cons.inj split
    exact beginsForm_of_isWordChar (isAlpha_or_eq_iff.1 first).1 cs
  | numeral first others ended =>
    obtain ⟨rfl, -⟩ := List.cons.inj split
    exact beginsForm_of_isWordChar (isWordChar_of_isDigit first) cs
  | @backtick content _ inside =>
    simp only [List.cons_append, List.append_assoc, List.nil_append, List.cons.injEq] at split
    obtain ⟨rfl, behind⟩ := split
    rcases append_eq_append_cons behind with ⟨more, rfl⟩ | ⟨more, -, rfl⟩
    · exact ⟨.backtick, '`' :: (content ++ ['`']), more, by simp, .backtick inside⟩
    · exact (closes.backtick (by simp)).elim
  | @quoted content _ inside =>
    simp only [List.cons_append, List.append_assoc, List.nil_append, List.cons.injEq] at split
    obtain ⟨rfl, behind⟩ := split
    rcases append_eq_append_cons behind with ⟨more, rfl⟩ | ⟨more, -, rfl⟩
    · exact ⟨.quoted, '"' :: (content ++ ['"']), more, by simp, .quoted inside⟩
    · exact (closes.quote (by simp)).elim
  | symbol mem =>
    obtain ⟨rfl, -⟩ := List.cons.inj split
    exact ⟨_, _, cs, rfl, .symbol mem⟩

/-- What fits at the end of a text fits in front of an end that closes nothing. -/
theorem Fits.append (fits : Fits kind text rest) (closes : ClosesNothing tail) :
    Fits kind text (rest ++ tail) := by
  cases fits with
  | form form =>
    apply Fits.form
    cases form with
    | call ended => exact .call (ended.append closes.word)
    | word first others ne ended => exact .word first others ne (ended.append closes.word)
    | numeral first others ended => exact .numeral first others (ended.append closes.numeral)
    | backtick inside => exact .backtick inside
    | quoted inside => exact .quoted inside
    | symbol mem => exact .symbol mem
  | other solid none => exact .other solid fun begins => none (begins.of_append closes)

theorem Chain.append_tail (chain : Chain rest tokens) (closes : ClosesNothing tail) :
    Chain (rest ++ tail) tokens := by
  induction chain with
  | nil => exact .nil
  | cons blanks fits others ih =>
    have fits := fits.append closes
    rw [List.append_assoc] at fits
    exact .cons blanks fits ih

/-! ## The blanks around a chain -/

/-- The blanks before the first token. -/
def indent : List Token → List Char
  | [] => []
  | token :: _ => token.gap

/-- The tokens without the blanks before the first. -/
def unindent : List Token → List Token
  | [] => []
  | token :: tokens => { token with gap := [] } :: tokens

theorem indent_append_unindent (tokens : List Token) :
    indent tokens ++ (unindent tokens).flatMap Token.spelling =
      tokens.flatMap Token.spelling := by
  cases tokens with
  | nil => rfl
  | cons token tokens =>
    rw [indent, unindent, List.flatMap_cons, List.flatMap_cons, Token.spelling, Token.spelling,
      List.nil_append, List.append_assoc]

theorem unindent_unindent (tokens : List Token) : unindent (unindent tokens) = unindent tokens := by
  cases tokens <;> rfl

theorem map_kind_unindent (tokens : List Token) :
    (unindent tokens).map Token.kind = tokens.map Token.kind := by
  cases tokens <;> rfl

theorem Chain.unindent (chain : Chain rest tokens) : Chain rest (unindent tokens) := by
  cases chain with
  | nil => exact .nil
  | cons blanks fits others => exact .cons .nil fits others

theorem Chain.noBlankEnd (chain : Chain rest tokens) :
    NoBlankEnd (tokens.flatMap Token.spelling) := by
  induction chain with
  | nil => exact .of_forall (by simp)
  | @cons token tokens blanks fits others ih =>
    rw [List.flatMap_cons]
    by_cases last : tokens.flatMap Token.spelling = []
    · rw [last, List.append_nil, Token.spelling]
      exact fits.noBlankEnd.append fits.text_ne_nil token.gap
    · exact ih.append last token.spelling

/-- Trimming takes the blanks before the first token and behind the last. -/
theorem trim_flatMap_spelling_append (chain : Chain rest tokens) {gap : List Char}
    (blanks : Blanks gap) :
    trim isBlank (tokens.flatMap Token.spelling ++ gap) =
      (unindent tokens).flatMap Token.spelling := by
  have solid := chain.unindent.noBlankEnd
  rw [← indent_append_unindent, List.append_assoc]
  cases chain with
  | nil =>
    change trimEnd isBlank (Lexeme.skipBlanks gap) = []
    rw [skipBlanks_of_blanks blanks, trimEnd_nil]
  | @cons token tokens first fits others =>
    refine trim_append first blanks ?_ solid ?_
    · exact fits.noBlankFront.append fits.text_ne_nil
    · exact List.append_ne_nil_of_left_ne_nil fits.text_ne_nil _

/-! ## Places in the text without the blanks -/

/-- A token `offset` bytes further on, without the blanks before it. -/
def moved (offset : Nat) (item : Nat × Token) : Nat × Token :=
  (offset + item.1, { item.2 with gap := [] })

theorem map_moved_locate (offset position : Nat) (tokens : List Token) :
    (locate position tokens).map (moved offset) =
      (locate (offset + position) tokens).map (moved 0) := by
  induction tokens generalizing position with
  | nil => rfl
  | cons token tokens ih =>
    simp only [locate, List.map_cons, ih, moved, Nat.zero_add, Nat.add_assoc]

/-- Without the blanks before the first, the tokens begin where it does. -/
theorem map_moved_locate_unindent (position : Nat) (tokens : List Token) :
    (locate 0 (unindent tokens)).map (moved (position + Utf8.size (indent tokens))) =
      (locate position tokens).map (moved 0) := by
  cases tokens with
  | nil => rfl
  | cons token tokens =>
    simp only [unindent, indent, locate, List.map_cons, map_moved_locate _ _ tokens, moved,
      Utf8.size_nil, Nat.zero_add, Nat.add_zero]

end Flashdeck.Script
