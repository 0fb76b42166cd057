import Flashdeck.Text.Class

/-!
# Lexemes

What a script is written in: words, numerals, and literals between backticks or double quotes. A
reader looks at the front of a text and gives back the content of the lexeme and what follows it,
or nothing at all: a literal that is not closed is no literal.

For each reader one lemma, `word_eq_some_iff` and its like, says exactly when it reads what.
-/

namespace Flashdeck.Script.Lexeme

open Flashdeck.Text

/-- The word that calls for a card. -/
def keyword : List Char := ['f', 'l', 'a', 's', 'h']

/-- The text without the blanks at its front. -/
def skipBlanks (cs : List Char) : List Char :=
  cs.dropWhile isBlank

/-- Reads one given character. -/
def symbol (expected : Char) : List Char → Option (List Char)
  | [] => none
  | c :: cs => if c = expected then some cs else none

/-- Reads a run of the class `p`, as long as there is and one character at the least. -/
def run (p : Char → Bool) (cs : List Char) : Option (List Char × List Char) :=
  if (cs.takeWhile p).isEmpty then none else some (cs.takeWhile p, cs.dropWhile p)

/-- Reads a word. -/
def word (cs : List Char) : Option (List Char × List Char) :=
  run isWordChar cs

/-- Reads a numeral: digits and dots, in any order. -/
def numeral (cs : List Char) : Option (List Char × List Char) :=
  run isNumeralChar cs

/-- Reads up to the next backtick, line ends and all. -/
def backtickContent : List Char → Option (List Char × List Char)
  | [] => none
  | c :: cs =>
    if c = '`' then some ([], cs)
    else (backtickContent cs).map fun (content, rest) => (c :: content, rest)

/-- Reads a literal between backticks. -/
def backtick (cs : List Char) : Option (List Char × List Char) :=
  (symbol '`' cs).bind backtickContent

/-- Reads up to the double quote that closes a literal. A backslash takes the character behind it
with it, but no line end. -/
def quotedContent : List Char → Option (List Char × List Char)
  | [] => none
  | '\\' :: [] => none
  | '\\' :: c :: cs =>
    if isLineEnd c then none
    else (quotedContent cs).map fun (content, rest) => ('\\' :: c :: content, rest)
  | c :: cs =>
    if c = '"' then some ([], cs)
    else (quotedContent cs).map fun (content, rest) => (c :: content, rest)

/-- Reads a literal between double quotes; its escapes stay as they are written. -/
def quoted (cs : List Char) : Option (List Char × List Char) :=
  (symbol '"' cs).bind quotedContent

/-- What may stand between double quotes: characters other than the quote and the backslash, and
backslashes with a character that ends no line. -/
inductive IsQuotedContent : List Char → Prop
  | nil : IsQuotedContent []
  | plain {c : Char} {cs : List Char} (quote : c ≠ '"') (slash : c ≠ '\\')
      (rest : IsQuotedContent cs) : IsQuotedContent (c :: cs)
  | pair {c : Char} {cs : List Char} (line : isLineEnd c = false)
      (rest : IsQuotedContent cs) : IsQuotedContent ('\\' :: c :: cs)

/-! ## What the readers read -/

theorem symbol_eq_some_iff {expected : Char} {cs rest : List Char} :
    symbol expected cs = some rest ↔ cs = expected :: rest := by
  cases cs with
  | nil => simp [symbol]
  | cons c cs =>
    rw [symbol]
    split
    · next eq => subst eq; simp
    · next ne => simp [ne]

theorem takeWhile_append_of_stop {p : Char → Bool} {taken rest : List Char}
    (all : ∀ c ∈ taken, p c = true) (stop : ∀ c ∈ rest.head?, p c = false) :
    (taken ++ rest).takeWhile p = taken ∧ (taken ++ rest).dropWhile p = rest := by
  induction taken with
  | nil =>
    cases rest with
    | nil => simp
    | cons c rest => simp [stop c (by simp)]
  | cons c taken ih =>
    have first : p c = true := all c (by simp)
    obtain ⟨take, drop⟩ := ih fun c mem => all c (List.mem_cons_of_mem _ mem)
    simp [first, take, drop]

theorem head?_dropWhile_eq_false {p : Char → Bool} {cs : List Char} :
    ∀ c ∈ (cs.dropWhile p).head?, p c = false := by
  intro c mem
  have first := List.head?_dropWhile_not p cs
  rw [Option.mem_def.1 mem] at first
  exact first

/-- A run is as long as its class allows. -/
theorem run_eq_some_iff {p : Char → Bool} {cs taken rest : List Char} :
    run p cs = some (taken, rest) ↔
      cs = taken ++ rest ∧ taken ≠ [] ∧ (∀ c ∈ taken, p c = true) ∧
        ∀ c ∈ rest.head?, p c = false := by
  unfold run
  apply Iff.intro
  · intro read
    split at read
    · cases read
    · next ne =>
      cases read
      exact ⟨List.takeWhile_append_dropWhile.symm, by simpa using ne,
        List.all_eq_true.1 List.all_takeWhile, head?_dropWhile_eq_false⟩
  · intro found
    rcases found with ⟨rfl, ne, all, stop⟩
    obtain ⟨take, drop⟩ := takeWhile_append_of_stop all stop
    simp [take, drop, ne]

theorem word_eq_some_iff {cs content rest : List Char} :
    word cs = some (content, rest) ↔
      cs = content ++ rest ∧ content ≠ [] ∧ (∀ c ∈ content, isWordChar c = true) ∧
        ∀ c ∈ rest.head?, isWordChar c = false :=
  run_eq_some_iff

theorem numeral_eq_some_iff {cs content rest : List Char} :
    numeral cs = some (content, rest) ↔
      cs = content ++ rest ∧ content ≠ [] ∧ (∀ c ∈ content, isNumeralChar c = true) ∧
        ∀ c ∈ rest.head?, isNumeralChar c = false :=
  run_eq_some_iff

theorem backtickContent_eq_some_iff {cs content rest : List Char} :
    backtickContent cs = some (content, rest) ↔ cs = content ++ '`' :: rest ∧ '`' ∉ content := by
  induction cs generalizing content with
  | nil => simp [backtickContent]
  | cons c cs ih =>
    rw [backtickContent]
    split
    · next eq =>
      subst eq
      apply Iff.intro
      · intro found
        cases found
        simp
      · intro found
        rcases found with ⟨split, mem⟩
        cases content with
        | nil => simpa using split
        | cons d content =>
          simp only [List.cons_append, List.cons.injEq] at split
          exact absurd (split.1 ▸ List.mem_cons_self) mem
    · next ne =>
      apply Iff.intro
      · intro mapped
        obtain ⟨⟨inner, left⟩, read, eq⟩ := Option.map_eq_some_iff.1 mapped
        cases eq
        obtain ⟨rfl, mem⟩ := ih.1 read
        exact ⟨rfl, by simpa [Ne.symm ne] using mem⟩
      · intro found
        rcases found with ⟨split, mem⟩
        cases content with
        | nil => simp_all
        | cons d content =>
          simp only [List.cons_append, List.cons.injEq] at split
          obtain ⟨rfl, rfl⟩ := split
          refine Option.map_eq_some_iff.2 ⟨(content, rest), ih.2 ⟨rfl, ?_⟩, rfl⟩
          exact fun inner => mem (List.mem_cons_of_mem _ inner)

/-- A backtick literal ends at the first backtick behind its front. -/
theorem backtick_eq_some_iff {cs content rest : List Char} :
    backtick cs = some (content, rest) ↔
      cs = '`' :: (content ++ '`' :: rest) ∧ '`' ∉ content := by
  unfold backtick
  apply Iff.intro
  · intro read
    obtain ⟨inner, opened, read⟩ := Option.bind_eq_some_iff.1 read
    rw [symbol_eq_some_iff] at opened
    rw [backtickContent_eq_some_iff] at read
    exact ⟨by rw [opened, read.1], read.2⟩
  · intro found
    rcases found with ⟨rfl, mem⟩
    exact Option.bind_eq_some_iff.2
      ⟨_, symbol_eq_some_iff.2 rfl, backtickContent_eq_some_iff.2 ⟨rfl, mem⟩⟩

theorem quotedContent_eq_some_iff {cs content rest : List Char} :
    quotedContent cs = some (content, rest) ↔
      cs = content ++ '"' :: rest ∧ IsQuotedContent content := by
  fun_induction quotedContent cs generalizing content with
  | case1 =>
    simp
  | case2 =>
    apply Iff.intro
    · simp
    · intro found
      rcases found with ⟨split, closed⟩
      cases closed with
      | nil => simp at split
      | plain quote slash =>
        simp only [List.cons_append, List.cons.injEq] at split
        exact absurd split.1.symm slash
      | pair => simp at split
  | case3 c cs line =>
    apply Iff.intro
    · simp
    · intro found
      rcases found with ⟨split, closed⟩
      cases closed with
      | nil => simp at split
      | plain quote slash =>
        simp only [List.cons_append, List.cons.injEq] at split
        exact absurd split.1.symm slash
      | pair ended => simp only [List.cons_append, List.cons.injEq] at split; simp_all
  | case4 c cs line ih =>
    apply Iff.intro
    · intro mapped
      obtain ⟨⟨inner, left⟩, read, eq⟩ := Option.map_eq_some_iff.1 mapped
      cases eq
      obtain ⟨rfl, closed⟩ := ih.1 read
      exact ⟨rfl, .pair (by simpa using line) closed⟩
    · intro found
      rcases found with ⟨split, closed⟩
      cases closed with
      | nil => simp at split
      | plain quote slash =>
        simp only [List.cons_append, List.cons.injEq] at split
        exact absurd split.1.symm slash
      | pair ended closed =>
        simp only [List.cons_append, List.cons.injEq, true_and] at split
        obtain ⟨rfl, rfl⟩ := split
        exact Option.map_eq_some_iff.2 ⟨_, ih.2 ⟨rfl, closed⟩, rfl⟩
  | case5 cs =>
    apply Iff.intro
    · intro found
      cases found
      exact ⟨rfl, .nil⟩
    · intro found
      rcases found with ⟨split, closed⟩
      cases closed with
      | nil => simpa using split
      | plain quote slash =>
        simp only [List.cons_append, List.cons.injEq] at split
        exact absurd split.1.symm quote
      | pair => simp at split
  | case6 c cs single pair quote ih =>
    have slash : c ≠ '\\' := by
      intro same
      subst same
      cases cs with
      | nil => exact single rfl rfl
      | cons d cs => exact pair d cs rfl rfl
    apply Iff.intro
    · intro mapped
      obtain ⟨⟨inner, left⟩, read, eq⟩ := Option.map_eq_some_iff.1 mapped
      cases eq
      obtain ⟨rfl, closed⟩ := ih.1 read
      exact ⟨rfl, .plain quote slash closed⟩
    · intro found
      rcases found with ⟨split, closed⟩
      cases closed with
      | nil => simp_all
      | plain _ _ closed =>
        simp only [List.cons_append, List.cons.injEq] at split
        obtain ⟨rfl, rfl⟩ := split
        exact Option.map_eq_some_iff.2 ⟨_, ih.2 ⟨rfl, closed⟩, rfl⟩
      | pair => simp only [List.cons_append, List.cons.injEq] at split; simp_all

/-- A quoted literal ends at the first quote that no backslash takes. -/
theorem quoted_eq_some_iff {cs content rest : List Char} :
    quoted cs = some (content, rest) ↔
      cs = '"' :: (content ++ '"' :: rest) ∧ IsQuotedContent content := by
  unfold quoted
  apply Iff.intro
  · intro read
    obtain ⟨inner, opened, read⟩ := Option.bind_eq_some_iff.1 read
    rw [symbol_eq_some_iff] at opened
    rw [quotedContent_eq_some_iff] at read
    exact ⟨by rw [opened, read.1], read.2⟩
  · intro found
    rcases found with ⟨rfl, closed⟩
    exact Option.bind_eq_some_iff.2
      ⟨_, symbol_eq_some_iff.2 rfl, quotedContent_eq_some_iff.2 ⟨rfl, closed⟩⟩

/-! ## What is left is shorter -/

theorem length_skipBlanks_le (cs : List Char) : (skipBlanks cs).length ≤ cs.length :=
  (List.dropWhile_suffix _).length_le

theorem length_lt_of_symbol {expected : Char} {cs rest : List Char}
    (read : symbol expected cs = some rest) : rest.length < cs.length := by
  rw [symbol_eq_some_iff] at read
  simp [read]

theorem length_lt_of_word {cs content rest : List Char} (read : word cs = some (content, rest)) :
    rest.length < cs.length := by
  obtain ⟨rfl, ne, -⟩ := word_eq_some_iff.1 read
  have pos := List.length_pos_iff.2 ne
  rw [List.length_append]
  omega

theorem length_lt_of_numeral {cs content rest : List Char}
    (read : numeral cs = some (content, rest)) : rest.length < cs.length := by
  obtain ⟨rfl, ne, -⟩ := numeral_eq_some_iff.1 read
  have pos := List.length_pos_iff.2 ne
  rw [List.length_append]
  omega

theorem length_lt_of_backtick {cs content rest : List Char}
    (read : backtick cs = some (content, rest)) : rest.length < cs.length := by
  obtain ⟨rfl, -⟩ := backtick_eq_some_iff.1 read
  simp only [List.length_cons, List.length_append]
  omega

theorem length_lt_of_quoted {cs content rest : List Char}
    (read : quoted cs = some (content, rest)) : rest.length < cs.length := by
  obtain ⟨rfl, -⟩ := quoted_eq_some_iff.1 read
  simp only [List.length_cons, List.length_append]
  omega

end Flashdeck.Script.Lexeme
