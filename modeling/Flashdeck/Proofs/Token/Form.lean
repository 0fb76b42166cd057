import Mathlib.Logic.ExistsUnique
import Flashdeck.Proofs.Token.Location
import Flashdeck.Proofs.Token.Plain

/-!
# The forms of tokens

What the tokens of a text are, said without the reader that takes them off its front. `Form` lists
the forms that a token may be written in, and how far each goes: a word or a numeral as far as its
characters, a literal to the delimiter that closes it. `Fits` adds the characters at which no such
form begins, which are tokens of their own. Whether a token fits depends on what follows it, so
`Chain rest tokens` says that tokens in a row fit in front of `rest`.

* `Fits.exists_readText`: the reader takes the token that fits, so at each place only one does.
* `tokenize_eq_iff_chain`: the tokens of a text are the one chain that spells it, up to blanks at
  its end.
* `tokenize_flatMap_spelling_append`: a chain in front of a text is its first tokens.
* `tokenize_eq_iff_chain_and_spans`: the places of the tokens, and the characters that they cover.
-/

namespace Flashdeck.Script

open Flashdeck.Text

/-- The run of characters of the class is over where `rest` follows. -/
def RunEnds (p : Char → Bool) (rest : List Char) : Prop :=
  ∀ c ∈ rest.head?, p c = false

/-- The characters that are tokens of a kind of their own. -/
def symbols : List (Char × Kind) :=
  [('(', .parenOpen), (')', .parenClose), ('{', .braceOpen), ('}', .braceClose), (':', .colon),
    (',', .comma)]

/-- The text is written as tokens of the kind are, and no more of it could be taken where `rest`
follows. -/
inductive Form : Kind → List Char → List Char → Prop
  | call {rest : List Char} (ended : RunEnds isWordChar rest) : Form .call Lexeme.keyword rest
  | word {c : Char} {cs rest : List Char} (first : c.isAlpha = true ∨ c = '_')
      (others : ∀ d ∈ cs, isWordChar d = true) (ne : c :: cs ≠ Lexeme.keyword)
      (ended : RunEnds isWordChar rest) : Form .word (c :: cs) rest
  | numeral {c : Char} {cs rest : List Char} (first : c.isDigit = true)
      (others : ∀ d ∈ cs, isNumeralChar d = true) (ended : RunEnds isNumeralChar rest) :
      Form .numeral (c :: cs) rest
  | backtick {content rest : List Char} (inside : '`' ∉ content) :
      Form .backtick ('`' :: (content ++ ['`'])) rest
  | quoted {content rest : List Char} (inside : Lexeme.IsQuotedContent content) :
      Form .quoted ('"' :: (content ++ ['"'])) rest
  | symbol {c : Char} {kind : Kind} {rest : List Char} (mem : (c, kind) ∈ symbols) :
      Form kind [c] rest

/-- A form begins the text. -/
def BeginsForm (cs : List Char) : Prop :=
  ∃ kind text rest, cs = text ++ rest ∧ Form kind text rest

/-- The text is a token of the kind where `rest` follows: one of the forms, or a character at which
none of them begins and which is no blank. -/
inductive Fits : Kind → List Char → List Char → Prop
  | form {kind : Kind} {text rest : List Char} (form : Form kind text rest) : Fits kind text rest
  | other {c : Char} {rest : List Char} (solid : isBlank c = false)
      (none : ¬ BeginsForm (c :: rest)) : Fits .other [c] rest

/-- Tokens in a row in front of `rest`: blanks before each, and each fits where the others follow. -/
inductive Chain (rest : List Char) : List Token → Prop
  | nil : Chain rest []
  | cons {token : Token} {tokens : List Token} (blanks : Blanks token.gap)
      (fits : Fits token.kind token.text (tokens.flatMap Token.spelling ++ rest))
      (others : Chain rest tokens) : Chain rest (token :: tokens)

/-! ## Word characters -/

/-- A word begins with a word character that is no digit. -/
theorem isAlpha_or_eq_iff {c : Char} :
    (c.isAlpha = true ∨ c = '_') ↔ isWordChar c = true ∧ c.isDigit = false := by
  simp only [isWordChar, Char.isAlphanum, Bool.or_eq_true, beq_iff_eq]
  apply Iff.intro
  · intro first
    rcases first with letter | rfl
    · exact ⟨.inl (.inl letter), isDigit_eq_false_of_isAlpha letter⟩
    · exact ⟨.inr rfl, by decide⟩
  · intro both
    rcases both with ⟨(letter | digit) | line, other⟩
    · exact .inl letter
    · rw [digit] at other
      cases other
    · exact .inr line

theorem isWordChar_of_mem_word {c : Char} {cs : List Char} (first : c.isAlpha = true ∨ c = '_')
    (others : ∀ d ∈ cs, isWordChar d = true) : ∀ d ∈ c :: cs, isWordChar d = true := by
  intro d mem
  rcases List.mem_cons.1 mem with rfl | mem
  · exact (isAlpha_or_eq_iff.1 first).1
  · exact others d mem

theorem isWordChar_of_mem_keyword : ∀ c ∈ Lexeme.keyword, isWordChar c = true :=
  List.all_eq_true.1 rfl

theorem isWordChar_eq_false_of_mem_symbols {c : Char} {kind : Kind} (mem : (c, kind) ∈ symbols) :
    isWordChar c = false := by
  have all : ∀ item ∈ symbols, isWordChar item.1 = false := by decide
  exact all _ mem

theorem RunEnds.append {p : Char → Bool} {rest tail : List Char} (ended : RunEnds p rest)
    (behind : RunEnds p tail) : RunEnds p (rest ++ tail) := by
  cases rest with
  | nil => exact behind
  | cons c rest => exact ended

theorem RunEnds.of_append {p : Char → Bool} {rest tail : List Char}
    (ended : RunEnds p (rest ++ tail)) : RunEnds p rest := by
  cases rest with
  | nil => exact fun c mem => by cases mem
  | cons c rest => exact ended

theorem runEnds_dropWhile (p : Char → Bool) (cs : List Char) : RunEnds p (cs.dropWhile p) :=
  Lexeme.head?_dropWhile_eq_false

/-! ## The reader takes what fits -/

namespace Token

theorem readText_backtick {content : List Char} (inside : '`' ∉ content) (rest : List Char) :
    readText '`' (content ++ '`' :: rest) = (.backtick, '`' :: (content ++ ['`']), rest) := by
  rw [readText, Lexeme.backtick_eq_some_iff.2 ⟨rfl, inside⟩]

theorem readText_numeral {c : Char} (first : c.isDigit = true) (cs : List Char) :
    readText c cs = (.numeral, c :: cs.takeWhile isNumeralChar, cs.dropWhile isNumeralChar) := by
  have run := PlainTokens.ne_of_mem_run (.inl (isWordChar_of_isDigit first))
  rw [readText_of_ne run.1 run.2, if_pos first]

theorem readText_word {c : Char} (first : c.isAlpha = true ∨ c = '_') (cs : List Char) :
    readText c cs = (kindOfWord (c :: cs.takeWhile isWordChar), c :: cs.takeWhile isWordChar,
      cs.dropWhile isWordChar) := by
  obtain ⟨word, digit⟩ := isAlpha_or_eq_iff.1 first
  have run := PlainTokens.ne_of_mem_run (.inl word)
  rw [readText_of_ne run.1 run.2, if_neg (by simp [digit]), if_pos word]

end Token

/-- A word character begins a form: a numeral, a word or the keyword. -/
theorem beginsForm_of_isWordChar {c : Char} (word : isWordChar c = true) (cs : List Char) :
    BeginsForm (c :: cs) := by
  by_cases digit : c.isDigit = true
  · refine ⟨.numeral, c :: cs.takeWhile isNumeralChar, cs.dropWhile isNumeralChar, ?_,
      .numeral digit (List.all_eq_true.1 List.all_takeWhile) (runEnds_dropWhile _ cs)⟩
    rw [List.cons_append, List.takeWhile_append_dropWhile]
  · have first := isAlpha_or_eq_iff.2 ⟨word, by simpa using digit⟩
    have split : c :: cs = (c :: cs.takeWhile isWordChar) ++ cs.dropWhile isWordChar := by
      rw [List.cons_append, List.takeWhile_append_dropWhile]
    by_cases keyword : c :: cs.takeWhile isWordChar = Lexeme.keyword
    · rw [keyword] at split
      exact ⟨.call, _, _, split, .call (runEnds_dropWhile _ cs)⟩
    · exact ⟨.word, _, _, split, .word first (List.all_eq_true.1 List.all_takeWhile) keyword
        (runEnds_dropWhile _ cs)⟩

/-- A character that is the text of no symbol is read as any other. -/
theorem kindOfChar_eq_other {c : Char} (none : ∀ kind, (c, kind) ∉ symbols) :
    Token.kindOfChar c = .other := by
  simp only [symbols, List.mem_cons, Prod.mk.injEq, List.not_mem_nil, or_false] at none
  unfold Token.kindOfChar
  split
  all_goals simp_all

theorem Form.exists_readText {kind : Kind} {text rest : List Char} (form : Form kind text rest) :
    ∃ c cs, text = c :: cs ∧ isBlank c = false ∧
      Token.readText c (cs ++ rest) = (kind, text, rest) := by
  cases form with
  | call ended =>
    have word : ∀ d ∈ ['l', 'a', 's', 'h'], isWordChar d = true := fun d mem =>
      isWordChar_of_mem_keyword d (List.mem_cons_of_mem 'f' mem)
    obtain ⟨take, drop⟩ := Lexeme.takeWhile_append_of_stop word ended
    refine ⟨'f', ['l', 'a', 's', 'h'], rfl, by decide, ?_⟩
    rw [Token.readText_word (.inl (by decide)), take, drop]
    rfl
  | @word c cs _ first others ne ended =>
    obtain ⟨take, drop⟩ := Lexeme.takeWhile_append_of_stop others ended
    refine ⟨c, cs, rfl, isBlank_eq_false_of_isWordChar (isAlpha_or_eq_iff.1 first).1, ?_⟩
    rw [Token.readText_word first, take, drop, Token.kindOfWord, if_neg ne]
  | @numeral c cs _ first others ended =>
    obtain ⟨take, drop⟩ := Lexeme.takeWhile_append_of_stop others ended
    refine ⟨c, cs, rfl, isBlank_eq_false_of_isWordChar (isWordChar_of_isDigit first), ?_⟩
    rw [Token.readText_numeral first, take, drop]
  | @backtick content _ inside =>
    refine ⟨'`', content ++ ['`'], rfl, by decide, ?_⟩
    rw [List.append_assoc]
    exact Token.readText_backtick inside rest
  | @quoted content _ inside =>
    refine ⟨'"', content ++ ['"'], rfl, by decide, ?_⟩
    rw [List.append_assoc]
    exact Token.readText_quoted inside
  | @symbol c _ _ mem =>
    refine ⟨c, [], rfl, ?_⟩
    simp only [symbols, List.mem_cons, Prod.mk.injEq, List.not_mem_nil, or_false] at mem
    rcases mem with ⟨rfl, rfl⟩ | ⟨rfl, rfl⟩ | ⟨rfl, rfl⟩ | ⟨rfl, rfl⟩ | ⟨rfl, rfl⟩ | ⟨rfl, rfl⟩
    all_goals exact ⟨by decide, Token.readText_of_ne (by decide) (by decide) rest⟩

/-- Where no form begins, the character is a token of its own. -/
theorem readText_of_not_beginsForm {c : Char} {cs : List Char} (none : ¬ BeginsForm (c :: cs)) :
    Token.readText c cs = (.other, [c], cs) := by
  have noBacktick : Lexeme.backtick (c :: cs) = Option.none := by
    refine Option.eq_none_iff_forall_ne_some.2 fun found read => none ?_
    obtain ⟨split, inside⟩ := Lexeme.backtick_eq_some_iff.1 read
    exact ⟨.backtick, '`' :: (found.1 ++ ['`']), found.2, by rw [split]; simp, .backtick inside⟩
  have noQuoted : Lexeme.quoted (c :: cs) = Option.none := by
    refine Option.eq_none_iff_forall_ne_some.2 fun found read => none ?_
    obtain ⟨split, inside⟩ := Lexeme.quoted_eq_some_iff.1 read
    exact ⟨.quoted, '"' :: (found.1 ++ ['"']), found.2, by rw [split]; simp, .quoted inside⟩
  have word : ¬ isWordChar c = true := fun word => none (beginsForm_of_isWordChar word cs)
  have digit : ¬ c.isDigit = true := fun digit => word (isWordChar_of_isDigit digit)
  have symbol : ∀ kind, (c, kind) ∉ symbols := fun kind mem =>
    none ⟨kind, [c], cs, rfl, .symbol mem⟩
  rw [Token.readText, noBacktick, noQuoted]
  simp only
  rw [if_neg digit, if_neg word, kindOfChar_eq_other symbol]

/-- What fits at a place is what the reader takes there. -/
theorem Fits.exists_readText {kind : Kind} {text rest : List Char} (fits : Fits kind text rest) :
    ∃ c cs, text = c :: cs ∧ isBlank c = false ∧
      Token.readText c (cs ++ rest) = (kind, text, rest) := by
  cases fits with
  | form form => exact form.exists_readText
  | @other c _ solid none => exact ⟨c, [], rfl, solid, readText_of_not_beginsForm none⟩

/-- Something fits wherever the text goes on with no blank, and the reader takes it. -/
theorem fits_readText {c : Char} (solid : isBlank c = false) (cs : List Char) :
    Fits (Token.readText c cs).1 (Token.readText c cs).2.1 (Token.readText c cs).2.2 := by
  by_cases begins : BeginsForm (c :: cs)
  · obtain ⟨kind, text, rest, split, form⟩ := begins
    obtain ⟨d, ds, rfl, -, read⟩ := form.exists_readText
    rw [List.cons_append, List.cons.injEq] at split
    obtain ⟨rfl, rfl⟩ := split
    rw [read]
    exact .form form
  · rw [readText_of_not_beginsForm begins]
    exact .other solid begins

/-! ## Chains -/

/-- Every token but the last is followed by a token, so what fits in `front ++ back` fits in both,
and the other way round. -/
theorem chain_append_iff {rest : List Char} {front back : List Token} :
    Chain rest (front ++ back) ↔
      Chain (back.flatMap Token.spelling ++ rest) front ∧ Chain rest back := by
  induction front with
  | nil => exact ⟨fun chain => ⟨.nil, chain⟩, fun chains => chains.2⟩
  | cons token front ih =>
    rw [List.cons_append]
    apply Iff.intro
    · intro chain
      cases chain with
      | cons blanks fits others =>
        rw [List.flatMap_append, List.append_assoc] at fits
        obtain ⟨first, second⟩ := ih.1 others
        exact ⟨.cons blanks fits first, second⟩
    · intro chains
      obtain ⟨chain, second⟩ := chains
      cases chain with
      | cons blanks fits others =>
        refine .cons blanks ?_ (ih.2 ⟨others, second⟩)
        rw [List.flatMap_append, List.append_assoc]
        exact fits

/-- The first tokens of a text are the chain that it begins with. -/
theorem tokenize_flatMap_spelling_append {rest : List Char} {tokens : List Token}
    (chain : Chain rest tokens) :
    tokenize (tokens.flatMap Token.spelling ++ rest) = tokens ++ tokenize rest := by
  induction chain with
  | nil => rfl
  | @cons token tokens blanks fits others ih =>
    obtain ⟨c, cs, text, solid, read⟩ := fits.exists_readText
    have split : (token :: tokens).flatMap Token.spelling ++ rest =
        token.gap ++ c :: (cs ++ (tokens.flatMap Token.spelling ++ rest)) := by
      rw [List.flatMap_cons, Token.spelling, text]
      simp only [List.append_assoc, List.cons_append]
    rw [split, tokenize_append_cons blanks solid, read, ih, List.cons_append]

/-- The tokens that spell a text are a chain in front of what they leave of it. -/
theorem chain_of_spelling_append {cs tail : List Char}
    (spelled : cs = (tokenize cs).flatMap Token.spelling ++ tail) : Chain tail (tokenize cs) := by
  induction cs using tokenize_induction with
  | blanks => exact .nil
  | token gap c behind blanks solid ih =>
    rw [← Token.readText_append c behind, List.flatMap_cons, Token.spelling, List.append_assoc,
      List.append_assoc, List.append_cancel_left_eq, List.append_cancel_left_eq] at spelled
    have fits := fits_readText solid behind
    exact .cons blanks (spelled ▸ fits) (ih spelled)

/-- The tokens of a text are a chain. -/
theorem exists_chain_tokenize (cs : List Char) :
    ∃ tail, Blanks tail ∧ cs = (tokenize cs).flatMap Token.spelling ++ tail ∧
      Chain tail (tokenize cs) := by
  obtain ⟨tail, blanks, spelled⟩ := exists_spelling_append cs
  exact ⟨tail, blanks, spelled, chain_of_spelling_append spelled⟩

/-- The tokens of a text are the only chain that spells it, up to blanks at its end. -/
theorem tokenize_eq_iff_chain {cs : List Char} {tokens : List Token} :
    tokenize cs = tokens ↔
      ∃ tail, Blanks tail ∧ cs = tokens.flatMap Token.spelling ++ tail ∧ Chain tail tokens := by
  apply Iff.intro
  · intro eq
    rw [← eq]
    exact exists_chain_tokenize cs
  · intro found
    obtain ⟨tail, blanks, rfl, chain⟩ := found
    rw [tokenize_flatMap_spelling_append chain,
      tokenize_of_skipBlanks_eq_nil (skipBlanks_of_blanks blanks), List.append_nil]

/-! ## The characters that tokens cover -/

/-- The script has the token's text at its place, and the token fits there. -/
def Stands (script : List Char) (item : Nat × Token) : Prop :=
  ∃ before rest, script = before ++ (item.2.text ++ rest) ∧ Utf8.size before = item.1 ∧
    Fits item.2.kind item.2.text rest

/-- What begins behind the first `position` bytes is part of the token. -/
def Covers (item : Nat × Token) (position : Nat) : Prop :=
  item.1 ≤ position ∧ position < endOf item

theorem Fits.text_ne_nil {kind : Kind} {text rest : List Char} (fits : Fits kind text rest) :
    text ≠ [] := by
  obtain ⟨c, cs, rfl, -, -⟩ := fits.exists_readText
  exact List.cons_ne_nil c cs

theorem Stands.lt_endOf {script : List Char} {item : Nat × Token} (stands : Stands script item) :
    item.1 < endOf item := by
  obtain ⟨before, rest, -, -, fits⟩ := stands
  obtain ⟨c, cs, text, -, -⟩ := fits.exists_readText
  have width := c.utf8Size_pos
  rw [endOf, text, Utf8.size_cons]
  omega

theorem stands_of_mem_locate {tail : List Char} {tokens : List Token} (chain : Chain tail tokens)
    (front : List Char) {item : Nat × Token} (mem : item ∈ locate (Utf8.size front) tokens) :
    Stands (front ++ (tokens.flatMap Token.spelling ++ tail)) item := by
  induction chain generalizing front with
  | nil => cases mem
  | @cons token tokens blanks fits others ih =>
    rw [List.flatMap_cons, Token.spelling]
    rcases List.mem_cons.1 mem with rfl | later
    · exact ⟨front ++ token.gap, tokens.flatMap Token.spelling ++ tail, by simp,
        Utf8.size_append front token.gap, fits⟩
    · rw [← Utf8.size_append, ← Utf8.size_append] at later
      have behind := ih _ later
      simpa only [List.append_assoc] using behind

theorem le_of_mem_locate {position : Nat} {tokens : List Token} {item : Nat × Token}
    (mem : item ∈ locate position tokens) : position ≤ item.1 := by
  induction tokens generalizing position with
  | nil => cases mem
  | cons token tokens ih =>
    rcases List.mem_cons.1 mem with rfl | later
    · exact Nat.le_add_right position _
    · have behind := ih later
      omega

/-- No token begins before the end of an earlier one. -/
theorem pairwise_locate (position : Nat) (tokens : List Token) :
    (locate position tokens).Pairwise fun earlier later => endOf earlier ≤ later.1 := by
  induction tokens generalizing position with
  | nil => exact .nil
  | cons token tokens ih => exact .cons (fun item mem => le_of_mem_locate mem) (ih _)

/-- An item of two lists in a row is one of the first or one of the second. -/
theorem append_eq_append_cons {α : Type} {xs ys before after : List α} {x : α}
    (same : xs ++ ys = before ++ x :: after) :
    (∃ more, xs = before ++ x :: more) ∨ ∃ more, before = xs ++ more ∧ ys = more ++ x :: after := by
  rcases List.append_eq_append_iff.1 same with found | ⟨more, eq, rest⟩
  · exact .inr found
  · cases more with
    | nil =>
      rw [List.append_nil] at eq
      exact .inr ⟨[], by rw [eq, List.append_nil], rest.symm⟩
    | cons y more =>
      obtain ⟨rfl, -⟩ := List.cons.inj rest
      exact .inl ⟨more, eq⟩

theorem exists_covers {tail : List Char} (blanks : Blanks tail) {tokens : List Token}
    (chain : Chain tail tokens) {before after : List Char} {c : Char} (solid : isBlank c = false)
    (split : tokens.flatMap Token.spelling ++ tail = before ++ c :: after) (position : Nat) :
    ∃ item ∈ locate position tokens, Covers item (position + Utf8.size before) := by
  induction chain generalizing before position with
  | nil =>
    have mem : c ∈ tail := by
      rw [List.flatMap_nil, List.nil_append] at split
      simp [split]
    exact absurd mem (blanks.not_mem solid)
  | @cons token tokens gap fits others ih =>
    rw [List.flatMap_cons, Token.spelling, List.append_assoc, List.append_assoc] at split
    rcases append_eq_append_cons split with ⟨more, eq⟩ | ⟨behind, rfl, behind_gap⟩
    · exact absurd (by simp [eq]) (gap.not_mem solid)
    · rcases append_eq_append_cons behind_gap with ⟨more, eq⟩ | ⟨further, rfl, behind_text⟩
      · have width := c.utf8Size_pos
        refine ⟨_, List.mem_cons_self, ?_⟩
        simp only [Covers, endOf, eq, Utf8.size_append, Utf8.size_cons]
        omega
      · obtain ⟨item, mem, covers⟩ := ih behind_text (position + Utf8.size token.gap +
          Utf8.size token.text)
        refine ⟨item, List.mem_cons_of_mem _ mem, ?_⟩
        rwa [Utf8.size_append, Utf8.size_append, ← Nat.add_assoc, ← Nat.add_assoc]

/-- Of two tokens that cover a position, neither begins behind the other. -/
theorem eq_of_covers {items : List (Nat × Token)}
    (apart : items.Pairwise fun earlier later => endOf earlier ≤ later.1)
    {item item' : Nat × Token} (mem : item ∈ items) (mem' : item' ∈ items) {position : Nat}
    (covers : Covers item position) (covers' : Covers item' position) : item = item' := by
  obtain ⟨start, stop⟩ := covers
  obtain ⟨start', stop'⟩ := covers'
  induction apart with
  | nil => cases mem
  | cons first others ih =>
    rcases List.mem_cons.1 mem with rfl | later
    · rcases List.mem_cons.1 mem' with rfl | later'
      · rfl
      · have apart := first item' later'
        omega
    · rcases List.mem_cons.1 mem' with rfl | later'
      · have apart := first item later
        omega
      · exact ih later later'

/-- **The tokens of a text are its only decomposition.** They spell the text, each after blanks and
with blanks behind the last, and each is as long as its form allows where it stands: no form begins
at a character that is a token of its own, not even a literal that is closed far behind it. In bytes
the tokens follow one another inside the text, none of them empty, and every character that is no
blank belongs to exactly one. -/
theorem tokenize_eq_iff_chain_and_spans (script : List Char) :
    (∀ tokens, tokenize script = tokens ↔
      ∃ tail, Blanks tail ∧ script = tokens.flatMap Token.spelling ++ tail ∧ Chain tail tokens) ∧
    (∀ item ∈ locate 0 (tokenize script), item.1 < endOf item ∧ Stands script item) ∧
    ((locate 0 (tokenize script)).Pairwise fun earlier later => endOf earlier ≤ later.1) ∧
    ∀ before c after, script = before ++ c :: after → isBlank c = false →
      ∃! item, item ∈ locate 0 (tokenize script) ∧ Covers item (Utf8.size before) := by
  obtain ⟨tail, blanks, split, chain⟩ := exists_chain_tokenize script
  have apart := pairwise_locate 0 (tokenize script)
  refine ⟨fun tokens => tokenize_eq_iff_chain, fun item mem => ?_, apart,
    fun before c after eq solid => ?_⟩
  · have stands := stands_of_mem_locate chain [] mem
    rw [List.nil_append, ← split] at stands
    exact ⟨stands.lt_endOf, stands⟩
  · obtain ⟨item, mem, covers⟩ := exists_covers blanks chain solid (split.symm.trans eq) 0
    rw [Nat.zero_add] at covers
    refine ⟨item, ⟨mem, covers⟩, fun other found => ?_⟩
    exact eq_of_covers apart found.1 mem found.2 covers

end Flashdeck.Script
