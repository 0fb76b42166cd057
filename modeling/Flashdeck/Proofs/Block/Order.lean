import Flashdeck.Proofs.Block.Writing
import Flashdeck.Proofs.Search.Parallel

/-!
# Blocks by tokens and blocks by text, counted

A block by text begins where a block by tokens begins, and ends no later, for some closing brace
that a closing parenthesis follows comes first. Blocks by text end in the order in which they
begin, and the search takes the first: by the time a number of blocks by tokens have ended, as
many by text have.

* `Compat.exists_read_append`: a block by text begins at a head that any closing brace closes.
* `Compat.endsInOrder_pattern`: blocks by text end in the order in which they begin.
* `length_blockBodies_balanced_le`: there are no more blocks by tokens than by text.
-/

namespace Flashdeck.Script.Block

open Flashdeck.Text

/-- What begins with an item that `front` lacks does not begin inside `front`. -/
theorem suffix_of_append_eq_append {α : Type} {before front xs rest : List α} {x : α}
    (split : before ++ x :: xs = front ++ rest) (absent : x ∉ front) : x :: xs <:+ rest := by
  rcases List.append_eq_append_iff.1 split with ⟨more, rfl, eq⟩ | ⟨more, -, eq⟩
  · cases more with
    | nil => exact ⟨[], eq⟩
    | cons y more =>
      obtain ⟨rfl, -⟩ := List.cons.inj eq
      exact (absent (by simp)).elim
  · exact ⟨more, eq.symm⟩

namespace Compat

theorem suffix_of_readTail {cs rest : List Char} (closed : readTail cs = some rest) :
    rest <:+ cs := by
  obtain ⟨blanks, -, rfl⟩ := readTail_eq_some_iff.1 closed
  exact ⟨blanks ++ [')'], by simp⟩

/-- A closing brace that a closing parenthesis follows ends the body, unless another one does so
before it. -/
theorem exists_readBody_append {tail rest : List Char} (closed : readTail tail = some rest)
    (before : List Char) :
    ∃ inside left, readBody (before ++ '}' :: tail) = some (inside, left) ∧ rest <:+ left := by
  induction before with
  | nil =>
    refine ⟨[], rest, ?_, List.suffix_refl rest⟩
    rw [List.nil_append, readBody, if_pos rfl, closed]
  | cons c before ih =>
    obtain ⟨inside, left, read, suffix⟩ := ih
    rw [List.cons_append, readBody]
    cases here : (if c = '}' then readTail (before ++ '}' :: tail) else none) with
    | none => exact ⟨c :: inside, left, by rw [read]; rfl, suffix⟩
    | some earlier =>
      split at here
      · refine ⟨[], earlier, rfl, ?_⟩
        obtain ⟨blanks, all, split⟩ := readTail_eq_some_iff.1 here
        have absent : '}' ∉ blanks ++ [')'] := by
          simpa using brace_not_mem_of_blanks all
        rw [List.append_cons blanks] at split
        have whole := suffix_of_append_eq_append split absent
        exact (suffix_of_readTail closed).trans ((List.suffix_cons _ tail).trans whole)
      · cases here

/-- A block begins at a head that a closing brace closes, and ends there or earlier. -/
theorem exists_read_append {beforeParen beforeBrace tail rest : List Char}
    (parenAll : Blanks beforeParen) (braceAll : Blanks beforeBrace)
    (closed : readTail tail = some rest) (between : List Char) :
    ∃ body left, read (head beforeParen beforeBrace (between ++ '}' :: tail)) = some (body, left) ∧
      rest <:+ left := by
  obtain ⟨inside, left, found, suffix⟩ :=
    exists_readBody_append closed (Lexeme.skipBlanks between)
  exact ⟨_, left, read_head parenAll braceAll found, suffix⟩

/-- A head that begins behind another one begins behind all of it: the keyword's first letter does
not occur in a head again. -/
theorem suffix_of_readHead {before start text text' : List Char}
    (first : readHead (before ++ start) = some text) (second : readHead start = some text') :
    text' <:+ text := by
  cases before with
  | nil =>
    rw [List.nil_append, second] at first
    cases first
    exact List.suffix_refl _
  | cons c before =>
    obtain ⟨-, paren, brace, blanks, parenAll, braceAll, blanksAll, split⟩ :=
      readHead_eq_some_iff.1 first
    obtain ⟨-, paren', brace', blanks', -, -, -, rfl⟩ := readHead_eq_some_iff.1 second
    have absent : 'f' ∉ 'l' :: 'a' :: 's' :: 'h' :: (paren ++ '(' :: (brace ++ '{' :: blanks)) := by
      have solid : isBlank 'f' = false := by decide
      simp [parenAll.not_mem solid, braceAll.not_mem solid, blanksAll.not_mem solid]
    have behind : before ++ 'f' :: ('l' :: 'a' :: 's' :: 'h' :: (paren' ++ '(' ::
        (brace' ++ '{' :: (blanks' ++ text')))) =
          'l' :: 'a' :: 's' :: 'h' :: (paren ++ '(' :: (brace ++ '{' :: blanks)) ++ text := by
      simpa [Lexeme.keyword] using (List.cons.inj split).2
    have whole := suffix_of_append_eq_append behind absent
    refine List.IsSuffix.trans ⟨Lexeme.keyword ++ (paren' ++ '(' :: (brace' ++ '{' :: blanks')), ?_⟩
      whole
    simp [Lexeme.keyword]

/-- Blocks by text end in the order in which they begin. -/
theorem endsInOrder_pattern : pattern.EndsInOrder := by
  intro before start rest rest' body body' first second
  obtain ⟨text, inside, head, found, rfl⟩ := read_eq_some_iff.1 first
  obtain ⟨text', inside', head', found', rfl⟩ := read_eq_some_iff.1 second
  obtain ⟨more, rfl⟩ := suffix_of_readHead head head'
  obtain ⟨tail, rfl, closed, -⟩ := readBody_eq_some_iff.1 found'
  obtain ⟨_, left, read, suffix⟩ := exists_readBody_append closed (more ++ inside')
  rw [List.append_assoc, found] at read
  cases read
  exact suffix

end Compat

/-! ## Counting blocks -/

theorem length_values_balanced_le (script : List Char) :
    (Balanced.pattern.values (tokenize script)).length ≤ (Compat.pattern.values script).length := by
  -- on what is left behind the first block by tokens; the search by text may be ahead of it there
  induction length : script.length using Nat.strongRecOn generalizing script with
  | ind n ih =>
    cases next : Balanced.pattern.findNext (tokenize script) with
    | none =>
      rw [Pattern.values_of_findNext_eq_none next]
      exact Nat.zero_le _
    | some found =>
      obtain ⟨cs, cut, ⟨writing⟩⟩ := Balanced.exists_writing_of_findNext next
      obtain ⟨body, rest, first, suffix⟩ := Compat.exists_read_append writing.paren_blanks
        writing.opening_blanks writing.readTail_eq found.value.between
      rw [← writing.inside_eq] at first
      have place : head writing.paren.gap writing.opening.gap writing.inside <:+ script :=
        ⟨_, (writing.script_eq cut).symm⟩
      have values : Compat.pattern.values (head writing.paren.gap writing.opening.gap
          writing.inside) = body :: Compat.pattern.values rest :=
        Pattern.values_of_read_eq_some first
      have shorter : writing.left.length < n := length ▸ writing.length_left_lt cut
      calc (Balanced.pattern.values (tokenize script)).length
          = (Balanced.pattern.values (tokenize writing.left)).length + 1 := by
            rw [Pattern.values_of_findNext_eq_some next, writing.left_tokens, List.length_cons]
        _ ≤ (Compat.pattern.values writing.left).length + 1 :=
            Nat.succ_le_succ (ih _ shorter writing.left rfl)
        _ ≤ (Compat.pattern.values rest).length + 1 := Nat.succ_le_succ
            (Pattern.length_values_le_of_suffix Compat.endsInOrder_pattern suffix)
        _ = (Compat.pattern.values (head writing.paren.gap writing.opening.gap
              writing.inside)).length := by
            rw [values, List.length_cons]
        _ ≤ (Compat.pattern.values script).length :=
            Pattern.length_values_le_of_suffix Compat.endsInOrder_pattern place

/-- **There are no more blocks by tokens than by text**, whatever the script. -/
theorem length_blockBodies_balanced_le (script : List Char) :
    (blockBodies .balanced script).length ≤ (blockBodies .compat script).length := by
  have count := length_values_balanced_le script
  rwa [← List.length_map] at count

end Flashdeck.Script.Block
