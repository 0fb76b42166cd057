import Flashdeck.Script.Token
import Flashdeck.Proofs.Text.Blank

/-!
# Texts without braces as tokens

`PlainTokens front rest` says that the tokens of `front ++ rest` are tokens of `front`, none of them
a brace, and then those of `rest`. Nothing that is read inside `front` reaches into `rest`, so such
texts can be put together: `PlainTokens.append`. Runs of word characters, texts between double
quotes and separators are such texts.
-/

namespace Flashdeck.Script

open Flashdeck.Text

/-- `front` is made of tokens of which none is a brace, and the tokens of `rest` follow them. -/
def PlainTokens (front rest : List Char) : Prop :=
  ∃ tokens, tokenize (front ++ rest) = tokens ++ tokenize rest ∧
    tokens.flatMap Token.spelling = front ∧
      ∀ token ∈ tokens, token.kind ≠ .braceOpen ∧ token.kind ≠ .braceClose

/-- Behind blanks, the next token begins at the first character that is none. -/
theorem tokenize_append_cons {gap : List Char} (all : Blanks gap) {c : Char}
    (solid : isBlank c = false) (cs : List Char) :
    tokenize (gap ++ c :: cs) =
      ⟨gap, (Token.readText c cs).1, (Token.readText c cs).2.1⟩ ::
        tokenize (Token.readText c cs).2.2 := by
  have skip : Lexeme.skipBlanks (gap ++ c :: cs) = c :: cs :=
    skipBlanks_eq_iff.2 ⟨.cons solid cs, gap, all, rfl⟩
  have stop : ∀ d ∈ (c :: cs).head?, isBlank d = false := NoBlankFront.cons solid cs
  rw [tokenize_of_skipBlanks_eq_cons skip, (Lexeme.takeWhile_append_of_stop all stop).1]

namespace Token

theorem readText_of_ne {c : Char} (tick : c ≠ '`') (quote : c ≠ '"') (cs : List Char) :
    readText c cs =
      if c.isDigit then
        (.numeral, c :: cs.takeWhile isNumeralChar, cs.dropWhile isNumeralChar)
      else if isWordChar c then
        (kindOfWord (c :: cs.takeWhile isWordChar), c :: cs.takeWhile isWordChar,
          cs.dropWhile isWordChar)
      else (kindOfChar c, [c], cs) := by
  have noBacktick : Lexeme.backtick (c :: cs) = none := by
    simp [Lexeme.backtick, Lexeme.symbol, tick]
  have noQuoted : Lexeme.quoted (c :: cs) = none := by
    simp [Lexeme.quoted, Lexeme.symbol, quote]
  rw [readText, noBacktick, noQuoted]

theorem kindOfWord_ne (text : List Char) :
    kindOfWord text ≠ .braceOpen ∧ kindOfWord text ≠ .braceClose := by
  unfold kindOfWord
  split
  · decide
  · decide

theorem readText_quoted {content rest : List Char} (closed : Lexeme.IsQuotedContent content) :
    readText '"' (content ++ '"' :: rest) = (.quoted, '"' :: (content ++ ['"']), rest) := by
  have noBacktick : Lexeme.backtick ('"' :: (content ++ '"' :: rest)) = none := rfl
  rw [readText, noBacktick, Lexeme.quoted_eq_some_iff.2 ⟨rfl, closed⟩]

end Token

namespace PlainTokens

theorem nil (rest : List Char) : PlainTokens [] rest :=
  ⟨[], rfl, rfl, by simp⟩

theorem append {front mid rest : List Char} (first : PlainTokens front (mid ++ rest))
    (second : PlainTokens mid rest) : PlainTokens (front ++ mid) rest := by
  obtain ⟨tokens, split, spelled, plain⟩ := first
  obtain ⟨tokens', split', spelled', plain'⟩ := second
  refine ⟨tokens ++ tokens', ?_, ?_, ?_⟩
  · rw [List.append_assoc, split, split', List.append_assoc]
  · rw [List.flatMap_append, spelled, spelled']
  · intro token mem
    exact (List.mem_append.1 mem).elim (plain token) (plain' token)

theorem cons {gap : List Char} (all : Blanks gap) {c : Char} (solid : isBlank c = false)
    {cs text mid rest : List Char} {kind : Kind}
    (read : Token.readText c cs = (kind, text, mid ++ rest))
    (plain : kind ≠ .braceOpen ∧ kind ≠ .braceClose) (more : PlainTokens mid rest) :
    PlainTokens (gap ++ (text ++ mid)) rest := by
  obtain ⟨tokens, split, spelled, others⟩ := more
  have whole := Token.readText_append c cs
  have step := tokenize_append_cons all solid cs
  rw [read] at whole step
  refine ⟨⟨gap, kind, text⟩ :: tokens, ?_, ?_, ?_⟩
  · rw [List.append_assoc, List.append_assoc, whole, step, split, List.cons_append]
  · rw [List.flatMap_cons, spelled, Token.spelling, List.append_assoc]
  · intro token mem
    rcases List.mem_cons.1 mem with rfl | mem
    · exact plain
    · exact others token mem

theorem ne_of_mem_run {c : Char} (word : isWordChar c = true ∨ c = '.') : c ≠ '`' ∧ c ≠ '"' := by
  apply And.intro
  · intro same
    subst same
    exact absurd word (by decide)
  · intro same
    subst same
    exact absurd word (by decide)

/-- A run that ends before `rest` ends there whatever stands in front of it. -/
theorem takeWhile_append_of_head? {p : Char → Bool} (cs : List Char) {rest : List Char}
    (stop : ∀ c ∈ rest.head?, p c = false) :
    (cs ++ rest).takeWhile p = cs.takeWhile p ∧
      (cs ++ rest).dropWhile p = cs.dropWhile p ++ rest := by
  have ended : ∀ c ∈ (cs.dropWhile p ++ rest).head?, p c = false := by
    intro c mem
    cases left : cs.dropWhile p with
    | nil =>
      rw [left] at mem
      exact stop c mem
    | cons d tail =>
      rw [left] at mem
      exact Lexeme.head?_dropWhile_eq_false c (by rw [left]; exact mem)
  have taken : ∀ c ∈ cs.takeWhile p, p c = true := List.all_eq_true.1 List.all_takeWhile
  have split := Lexeme.takeWhile_append_of_stop taken ended
  rwa [← List.append_assoc, List.takeWhile_append_dropWhile] at split

/-- A token that takes a run of its class leaves what is behind the run. -/
theorem cons_run {gap : List Char} (all : Blanks gap) {c : Char} (solid : isBlank c = false)
    {p : Char → Bool} {cs rest : List Char} {kind : Kind}
    (read : Token.readText c (cs ++ rest) =
      (kind, c :: (cs ++ rest).takeWhile p, (cs ++ rest).dropWhile p))
    (plain : kind ≠ .braceOpen ∧ kind ≠ .braceClose) (stop : ∀ d ∈ rest.head?, p d = false)
    (more : PlainTokens (cs.dropWhile p) rest) : PlainTokens (gap ++ c :: cs) rest := by
  obtain ⟨take, drop⟩ := takeWhile_append_of_head? cs stop
  rw [take, drop] at read
  have joined := cons all solid read plain more
  rwa [List.cons_append, List.takeWhile_append_dropWhile] at joined

/-- Word characters and dots make words, numerals and dots, in whatever order they stand. -/
theorem run {gap : List Char} (all : Blanks gap) {cs rest : List Char} (ne : cs ≠ [])
    (word : ∀ c ∈ cs, isWordChar c = true ∨ c = '.')
    (stop : ∀ c ∈ rest.head?, isWordChar c = false ∧ isNumeralChar c = false) :
    PlainTokens (gap ++ cs) rest := by
  induction length : cs.length using Nat.strongRecOn generalizing gap cs with
  | ind n ih =>
    cases cs with
    | nil => exact (ne rfl).elim
    | cons c cs =>
      -- the first token takes some front of the run, and what it leaves is a shorter run
      have more : ∀ tail : List Char, tail <:+ cs → PlainTokens tail rest := by
        intro tail suffix
        by_cases empty : tail = []
        · rw [empty]
          exact .nil rest
        · refine ih tail.length ?_ .nil empty (fun d mem => ?_) rfl
          · rw [← length, List.length_cons]
            exact Nat.lt_succ_of_le suffix.length_le
          · exact word d (List.mem_cons_of_mem c (suffix.subset mem))
      have first := word c List.mem_cons_self
      have solid : isBlank c = false := by
        rcases first with letter | rfl
        · exact isBlank_eq_false_of_isWordChar letter
        · decide
      have read := Token.readText_of_ne (ne_of_mem_run first).1 (ne_of_mem_run first).2 (cs ++ rest)
      by_cases digit : c.isDigit = true
      · rw [if_pos digit] at read
        exact cons_run all solid read (by decide) (fun d mem => (stop d mem).2)
          (more _ (List.dropWhile_suffix _))
      · by_cases letter : isWordChar c = true
        · rw [if_neg digit, if_pos letter] at read
          exact cons_run all solid read (Token.kindOfWord_ne _) (fun d mem => (stop d mem).1)
            (more _ (List.dropWhile_suffix _))
        · obtain rfl : c = '.' := first.resolve_left letter
          rw [if_neg digit, if_neg letter] at read
          exact cons all solid read (by decide) (more cs (List.suffix_refl cs))

/-- A text between double quotes is one token. -/
theorem quoted {gap content : List Char} (all : Blanks gap)
    (closed : Lexeme.IsQuotedContent content) (rest : List Char) :
    PlainTokens (gap ++ '"' :: (content ++ ['"'])) rest := by
  have token := cons all (by decide) (Token.readText_quoted closed) (by decide) (nil rest)
  rwa [List.append_nil] at token

/-- A separator is one token. -/
theorem separator {c : Char} (separator : c = ',' ∨ c = ':') (rest : List Char) :
    PlainTokens [c] rest := by
  have solid : isBlank c = false := by rcases separator with rfl | rfl <;> decide
  have read : Token.readText c rest = (Token.kindOfChar c, [c], rest) := by
    rcases separator with rfl | rfl
    · exact Token.readText_of_ne (by decide) (by decide) rest
    · exact Token.readText_of_ne (by decide) (by decide) rest
  have plain : Token.kindOfChar c ≠ .braceOpen ∧ Token.kindOfChar c ≠ .braceClose := by
    rcases separator with rfl | rfl <;> decide
  exact cons .nil solid read plain (nil rest)

end PlainTokens

end Flashdeck.Script
