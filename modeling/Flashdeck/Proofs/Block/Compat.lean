import Flashdeck.Script.Block
import Flashdeck.Proofs.Search
import Flashdeck.Proofs.Text.Blank
import Flashdeck.Proofs.Text.Expression

/-!
# Blocks by text are the matches of an expression

Blocks by text stand for the expression `flash\s*\(\s*\{\s*(.*?)\s*\}\s*\)`, in which the gap is
lazy, takes line ends too, and is what the match captures. The reader of blocks looks for the
closing brace once and trims afterwards; the matcher grows the gap one character at a time and
starts over. Both come to the same match: `firstWay?_call`.

* `readHead_eq_some_iff`, `readBody_eq_some_iff`: what the two halves of the reader read.
* `firstWay?_lazy_closing`: the gap stops where the text before the first closing brace is trimmed.
* `blockBodies_compat_eq_iff_leftmost_calls`: the bodies of a script are the captures of the
  leftmost matches of the expression.
-/

namespace Flashdeck.Script.Block.Compat

open Flashdeck.Text

/-- The parts behind the body: `\s*\}\s*\)`. -/
def closing : Expression :=
  [.greedy isBlank, .exactly ['}'], .greedy isBlank, .exactly [')']]

/-- The expression of a call. -/
def call : Expression :=
  .exactly Lexeme.keyword :: .greedy isBlank :: .exactly ['('] :: .greedy isBlank ::
    .exactly ['{'] :: .greedy isBlank :: .lazy :: closing

/-! ## What the reader reads -/

theorem readTail_eq_some_iff {cs rest : List Char} :
    readTail cs = some rest ↔ ∃ blanks, Blanks blanks ∧ cs = blanks ++ ')' :: rest :=
  symbol_skipBlanks_eq_some_iff (by decide)

theorem readHead_eq_some_iff {cs inside : List Char} :
    readHead cs = some inside ↔ NoBlankFront inside ∧ ∃ beforeParen beforeBrace behindBrace,
      Blanks beforeParen ∧ Blanks beforeBrace ∧ Blanks behindBrace ∧
        cs = Lexeme.keyword ++
          (beforeParen ++ '(' :: (beforeBrace ++ '{' :: (behindBrace ++ inside))) := by
  apply Iff.intro
  · intro head
    obtain ⟨behindWord, word, read⟩ := Option.bind_eq_some_iff.1 head
    obtain ⟨behindParen, paren, read⟩ := Option.bind_eq_some_iff.1 read
    obtain ⟨behindBrace, brace, read⟩ := Option.bind_eq_some_iff.1 read
    obtain ⟨first, firstAll, paren_split⟩ := (symbol_skipBlanks_eq_some_iff (by decide)).1 paren
    obtain ⟨second, secondAll, brace_split⟩ := (symbol_skipBlanks_eq_some_iff (by decide)).1 brace
    obtain ⟨front, third, thirdAll, blank_split⟩ := skipBlanks_eq_iff.1 (Option.some.inj read)
    have whole := Part.isPrefixOf?_eq_some_iff.1 word
    rw [paren_split, brace_split, blank_split] at whole
    exact ⟨front, first, second, third, firstAll, secondAll, thirdAll, whole⟩
  · intro found
    rcases found with ⟨front, first, second, third, firstAll, secondAll, thirdAll, rfl⟩
    have word := Part.isPrefixOf?_eq_some_iff.2
      (rfl : Lexeme.keyword ++ (first ++ '(' :: (second ++ '{' :: (third ++ inside))) = _)
    have paren := symbol_skipBlanks_append (by decide : isBlank '(' = false) firstAll
      (second ++ '{' :: (third ++ inside))
    have brace := symbol_skipBlanks_append (by decide : isBlank '{' = false) secondAll
      (third ++ inside)
    simp only [readHead, word, paren, brace, Option.bind_eq_bind, Option.bind_some]
    rw [skipBlanks_append thirdAll, skipBlanks_of_noBlankFront front]

/-- The body ends at the first closing brace that a closing parenthesis follows. -/
theorem readBody_eq_some_iff {cs inside rest : List Char} :
    readBody cs = some (inside, rest) ↔
      ∃ tail, cs = inside ++ '}' :: tail ∧ readTail tail = some rest ∧
        ∀ before after, inside = before ++ '}' :: after →
          readTail (after ++ '}' :: tail) = none := by
  induction cs generalizing inside with
  | nil =>
    apply Iff.intro
    · intro read
      cases read
    · intro found
      rcases found with ⟨tail, split, -⟩
      exact absurd split.symm (by simp)
  | cons c cs ih =>
    rw [readBody]
    cases here : (if c = '}' then readTail cs else none) with
    | some left =>
      have brace : c = '}' := by
        by_cases brace : c = '}'
        · exact brace
        · rw [if_neg brace] at here
          cases here
      rw [if_pos brace] at here
      subst brace
      apply Iff.intro
      · intro read
        cases read
        refine ⟨cs, rfl, here, fun before after nil => ?_⟩
        exact absurd nil.symm (by simp)
      · intro found
        rcases found with ⟨tail, split, closed, minimal⟩
        cases inside with
        | nil =>
          simp only [List.nil_append, List.cons.injEq, true_and] at split
          subst split
          rw [here] at closed
          cases closed
          rfl
        | cons d inside =>
          simp only [List.cons_append, List.cons.injEq] at split
          obtain ⟨rfl, rfl⟩ := split
          rw [minimal [] inside rfl] at here
          cases here
    | none =>
      apply Iff.intro
      · intro mapped
        obtain ⟨⟨inner, left⟩, read, eq⟩ := Option.map_eq_some_iff.1 mapped
        cases eq
        obtain ⟨tail, rfl, closed, minimal⟩ := ih.1 read
        refine ⟨tail, rfl, closed, fun before after split => ?_⟩
        cases before with
        | nil =>
          simp only [List.nil_append, List.cons.injEq] at split
          obtain ⟨rfl, rfl⟩ := split
          rwa [if_pos rfl] at here
        | cons d before => exact minimal before after (List.cons.inj split).2
      · intro found
        rcases found with ⟨tail, split, closed, minimal⟩
        cases inside with
        | nil =>
          simp only [List.nil_append, List.cons.injEq] at split
          obtain ⟨rfl, rfl⟩ := split
          rw [if_pos rfl, closed] at here
          cases here
        | cons d inside =>
          simp only [List.cons_append, List.cons.injEq] at split
          obtain ⟨rfl, rfl⟩ := split
          have read := ih.2 ⟨tail, rfl, closed, fun before after split =>
            minimal (c :: before) after (congrArg (c :: ·) split)⟩
          exact Option.map_eq_some_iff.2 ⟨_, read, rfl⟩

theorem readBody_append_of_not_mem {front : List Char} (absent : '}' ∉ front) (cs : List Char) :
    readBody (front ++ cs) = (readBody cs).map fun read => (front ++ read.1, read.2) := by
  induction front with
  | nil => simp
  | cons c front ih =>
    have ne : c ≠ '}' := fun eq => absent (eq ▸ List.mem_cons_self)
    have behind : '}' ∉ front := fun mem => absent (List.mem_cons_of_mem _ mem)
    rw [List.cons_append, readBody, if_neg ne, ih behind, Option.map_map]
    rfl

theorem brace_not_mem_of_blanks {blanks : List Char} (all : Blanks blanks) : '}' ∉ blanks :=
  all.not_mem (by decide)

theorem read_eq_some_iff {cs body rest : List Char} :
    read cs = some (body, rest) ↔ ∃ text inside, readHead cs = some text ∧
      readBody text = some (inside, rest) ∧ body = trimEnd isBlank inside := by
  apply Iff.intro
  · intro found
    obtain ⟨text, head, found⟩ := Option.bind_eq_some_iff.1 found
    obtain ⟨⟨inside, left⟩, found_body, eq⟩ := Option.bind_eq_some_iff.1 found
    cases eq
    exact ⟨text, inside, head, found_body, rfl⟩
  · intro found
    rcases found with ⟨text, inside, head, found_body, rfl⟩
    exact Option.bind_eq_some_iff.2 ⟨text, head, Option.bind_eq_some_iff.2 ⟨_, found_body, rfl⟩⟩

/-! ## The matcher finds what the reader reads -/

/-- Reads blanks, the closing brace and the closing parenthesis. -/
def readClosing (cs : List Char) : Option (List Char) :=
  (Lexeme.symbol '}' (Lexeme.skipBlanks cs)).bind readTail

theorem readClosing_eq_some_iff {cs rest : List Char} :
    readClosing cs = some rest ↔
      ∃ blanks tail, Blanks blanks ∧ cs = blanks ++ '}' :: tail ∧ readTail tail = some rest := by
  apply Iff.intro
  · intro closed
    obtain ⟨tail, brace, closed⟩ := Option.bind_eq_some_iff.1 closed
    obtain ⟨blanks, all, split⟩ := (symbol_skipBlanks_eq_some_iff (by decide)).1 brace
    exact ⟨blanks, tail, all, split, closed⟩
  · intro found
    rcases found with ⟨blanks, tail, all, rfl, closed⟩
    exact Option.bind_eq_some_iff.2 ⟨tail, symbol_skipBlanks_append (by decide) all tail, closed⟩

theorem isPrefixOf?_singleton (c : Char) (cs : List Char) :
    [c].isPrefixOf? cs = Lexeme.symbol c cs := by
  apply Option.ext
  intro rest
  rw [Part.isPrefixOf?_eq_some_iff, Lexeme.symbol_eq_some_iff]
  rfl

theorem firstWay?_closing (cs : List Char) :
    Expression.firstWay? closing cs = (readClosing cs).map fun rest => ([], rest) := by
  rw [closing, Expression.firstWay?_greedy_exactly (by decide), Expression.firstWay?_exactly,
    isPrefixOf?_singleton, readClosing, Option.map_bind]
  congr 1
  funext tail
  rw [Expression.firstWay?_greedy_exactly (by decide), Expression.firstWay?_exactly,
    isPrefixOf?_singleton]
  show _ = (readTail tail).map _
  rw [Option.map_eq_bind]
  rfl

/-- The gap grows up to the blanks before the first closing brace that closes the call. -/
theorem firstWay?_lazy_closing (cs : List Char) :
    Expression.firstWay? (.lazy :: closing) cs =
      (readBody cs).map fun read => (trimEnd isBlank read.1, read.2) := by
  induction cs with
  | nil => rfl
  | cons c cs ih =>
    rw [Expression.firstWay?_lazy_cons, ih, firstWay?_closing]
    cases closed : readClosing (c :: cs) with
    | some rest =>
      -- only blanks stand before the brace, so the empty gap will do
      obtain ⟨blanks, tail, all, split, tail_closed⟩ := readClosing_eq_some_iff.1 closed
      have read : readBody (c :: cs) = some (blanks, rest) := by
        refine readBody_eq_some_iff.2 ⟨tail, split, tail_closed, fun before after inside => ?_⟩
        have mem : '}' ∈ blanks := by rw [inside]; simp
        exact absurd mem (brace_not_mem_of_blanks all)
      rw [read, Option.map_some, Option.map_some, trimEnd_eq_nil_iff.2 all]
      rfl
    | none =>
      -- the front character is part of the gap, and trimming keeps it
      have open_here : (if c = '}' then readTail cs else none) = none := by
        by_cases brace : c = '}'
        · subst brace
          cases tail : readTail cs with
          | none => rfl
          | some rest =>
            have closes : readClosing ('}' :: cs) = some rest :=
              readClosing_eq_some_iff.2 ⟨[], cs, Blanks.nil, rfl, tail⟩
            rw [closes] at closed
            cases closed
        · rw [if_neg brace]
      rw [readBody, open_here]
      cases read : readBody cs with
      | none => rfl
      | some pair =>
        obtain ⟨inside, rest⟩ := pair
        obtain ⟨tail, rfl, tail_closed, -⟩ := readBody_eq_some_iff.1 read
        have kept : ¬ (trimEnd isBlank inside = [] ∧ isBlank c = true) := by
          intro found
          rcases found with ⟨gone, blank⟩
          have all : Blanks (c :: inside) :=
            List.forall_mem_cons.2 ⟨blank, trimEnd_eq_nil_iff.1 gone⟩
          have closes : readClosing (c :: (inside ++ '}' :: tail)) = some rest :=
            readClosing_eq_some_iff.2 ⟨c :: inside, tail, all, rfl, tail_closed⟩
          rw [closes] at closed
          cases closed
        simp only [Option.map_some, Option.map_none, Option.none_or, trimEnd_cons, if_neg kept]

/-- Blanks in front of the gap are all taken by the run before it. -/
theorem firstWay?_greedy_lazy_closing (cs : List Char) :
    Expression.firstWay? (.greedy isBlank :: .lazy :: closing) cs =
      Expression.firstWay? (.lazy :: closing) (Lexeme.skipBlanks cs) := by
  induction cs with
  | nil => rfl
  | cons c cs ih =>
    by_cases blank : isBlank c = true
    · have skipped : Lexeme.skipBlanks (c :: cs) = Lexeme.skipBlanks cs :=
        List.dropWhile_cons_of_pos blank
      rw [Expression.firstWay?_greedy_cons blank, ih, skipped]
      cases found : Expression.firstWay? (.lazy :: closing) (Lexeme.skipBlanks cs) with
      | some way => rfl
      | none =>
        obtain ⟨blanks, all, split⟩ := exists_blanks_append_skipBlanks (c :: cs)
        rw [firstWay?_lazy_closing, Option.map_eq_none_iff] at found
        rw [Option.none_or, firstWay?_lazy_closing, split, skipped,
          readBody_append_of_not_mem (brace_not_mem_of_blanks all), found]
        rfl
    · have front : NoBlankFront (c :: cs) := .cons (by simpa using blank) cs
      rw [skipBlanks_of_noBlankFront front, Expression.firstWay?,
        Expression.ways_greedy_of_stop front, Expression.firstWay?]

/-- The match of the expression at a place is the block that the reader reads there. -/
theorem firstWay?_call (cs : List Char) : Expression.firstWay? call cs = read cs := by
  rw [call, Expression.firstWay?_exactly, read, readHead]
  simp only [Option.bind_eq_bind, Option.bind_assoc, Option.bind_some]
  congr 1
  funext behindWord
  rw [Expression.firstWay?_greedy_exactly (by decide), Expression.firstWay?_exactly,
    isPrefixOf?_singleton]
  show _ = (Lexeme.symbol '(' (Lexeme.skipBlanks behindWord)).bind _
  congr 1
  funext behindParen
  rw [Expression.firstWay?_greedy_exactly (by decide), Expression.firstWay?_exactly,
    isPrefixOf?_singleton]
  show _ = (Lexeme.symbol '{' (Lexeme.skipBlanks behindParen)).bind _
  congr 1
  funext behindBrace
  rw [firstWay?_greedy_lazy_closing, firstWay?_lazy_closing, Option.map_eq_bind]
  rfl

/-! ## Calls, as they are written -/

/-- `text` spells a call with `body` between its braces, and `rest` behind it. -/
def Spells (text beforeParen beforeBrace front body back behind rest : List Char) : Prop :=
  Blanks beforeParen ∧ Blanks beforeBrace ∧ Blanks front ∧ Blanks back ∧ Blanks behind ∧
    text = Lexeme.keyword ++ (beforeParen ++ '(' :: (beforeBrace ++ '{' ::
      (front ++ (body ++ (back ++ '}' :: (behind ++ ')' :: rest))))))

/-- Blanks and then a closing parenthesis: the brace before them closes a call. -/
def Closes (cs : List Char) : Prop :=
  ∃ blanks rest, Blanks blanks ∧ cs = blanks ++ ')' :: rest

theorem splits_call_iff {text body rest : List Char} :
    Expression.Splits call text body rest ↔ ∃ beforeParen beforeBrace front back behind,
      Spells text beforeParen beforeBrace front body back behind rest := by
  apply Iff.intro
  · intro split
    obtain ⟨_, rfl, behindWord⟩ := Expression.splits_exactly_iff.1 split
    obtain ⟨beforeParen, _, parenAll, rfl, atParen⟩ := Expression.splits_greedy_iff.1 behindWord
    obtain ⟨_, rfl, behindParen⟩ := Expression.splits_exactly_iff.1 atParen
    obtain ⟨beforeBrace, _, braceAll, rfl, atBrace⟩ := Expression.splits_greedy_iff.1 behindParen
    obtain ⟨_, rfl, behindBrace⟩ := Expression.splits_exactly_iff.1 atBrace
    obtain ⟨front, _, frontAll, rfl, atGap⟩ := Expression.splits_greedy_iff.1 behindBrace
    obtain ⟨gap, _, _, rfl, rfl, behindGap⟩ := Expression.splits_lazy_iff.1 atGap
    obtain ⟨back, _, backAll, rfl, atClose⟩ := Expression.splits_greedy_iff.1 behindGap
    obtain ⟨_, rfl, behindClose⟩ := Expression.splits_exactly_iff.1 atClose
    obtain ⟨behind, _, behindAll, rfl, atEnd⟩ := Expression.splits_greedy_iff.1 behindClose
    obtain ⟨_, rfl, behindEnd⟩ := Expression.splits_exactly_iff.1 atEnd
    obtain ⟨rfl, rfl⟩ := Expression.splits_nil_iff.1 behindEnd
    rw [List.append_nil]
    exact ⟨beforeParen, beforeBrace, front, back, behind, parenAll, braceAll, frontAll, backAll,
      behindAll, rfl⟩
  · intro spelled
    rcases spelled with ⟨beforeParen, beforeBrace, front, back, behind, parenAll, braceAll,
      frontAll, backAll, behindAll, rfl⟩
    have atClose : Expression.Splits closing (back ++ '}' :: (behind ++ ')' :: rest)) [] rest :=
      Expression.splits_greedy_iff.2 ⟨back, _, backAll, rfl,
        Expression.splits_exactly_iff.2 ⟨_, rfl,
          Expression.splits_greedy_iff.2 ⟨behind, _, behindAll, rfl,
            Expression.splits_exactly_iff.2 ⟨rest, rfl,
              Expression.splits_nil_iff.2 ⟨rfl, rfl⟩⟩⟩⟩⟩
    have atGap := Expression.splits_lazy_iff.2
      ⟨body, _, [], rfl, (List.append_nil body).symm, atClose⟩
    exact Expression.splits_exactly_iff.2 ⟨_, rfl,
      Expression.splits_greedy_iff.2 ⟨beforeParen, _, parenAll, rfl,
        Expression.splits_exactly_iff.2 ⟨_, rfl,
          Expression.splits_greedy_iff.2 ⟨beforeBrace, _, braceAll, rfl,
            Expression.splits_exactly_iff.2 ⟨_, rfl,
              Expression.splits_greedy_iff.2 ⟨front, _, frontAll, rfl, atGap⟩⟩⟩⟩⟩⟩

/-- A closing brace in a text that blanks follow stands before the blanks. -/
theorem exists_brace_split {body back before after : List Char} (blank : Blanks back)
    (split : body ++ back = before ++ '}' :: after) :
    ∃ between, body = before ++ '}' :: between ∧ after = between ++ back := by
  have absent := brace_not_mem_of_blanks blank
  rcases List.append_eq_append_iff.1 split with ⟨more, -, eq⟩ | ⟨more, eq, tail⟩
  · rw [eq] at absent
    exact (absent (by simp)).elim
  · cases more with
    | nil =>
      rw [List.nil_append] at tail
      rw [← tail] at absent
      exact (absent List.mem_cons_self).elim
    | cons c more =>
      simp only [List.cons_append, List.cons.injEq] at tail
      obtain ⟨rfl, rfl⟩ := tail
      exact ⟨more, eq, rfl⟩

theorem readTail_eq_none_iff {cs : List Char} : readTail cs = none ↔ ¬ Closes cs := by
  rw [Option.eq_none_iff_forall_ne_some]
  apply Iff.intro
  · intro opened closes
    obtain ⟨blanks, rest, all, split⟩ := closes
    exact opened rest (readTail_eq_some_iff.2 ⟨blanks, all, split⟩)
  · intro opened rest read
    obtain ⟨blanks, all, split⟩ := readTail_eq_some_iff.1 read
    exact opened ⟨blanks, rest, all, split⟩

/-- The match at a place, said without the matcher: between the braces stand the body and blanks
around it, and no brace before the last one closes the call. -/
theorem read_eq_some_iff_spells {text body rest : List Char} :
    read text = some (body, rest) ↔ NoBlankFront body ∧ NoBlankEnd body ∧
      ∃ beforeParen beforeBrace front back behind,
        Spells text beforeParen beforeBrace front body back behind rest ∧
          ∀ before after, body = before ++ '}' :: after →
            ¬ Closes (after ++ (back ++ '}' :: (behind ++ ')' :: rest))) := by
  rw [read_eq_some_iff]
  apply Iff.intro
  · intro found
    obtain ⟨inside, between, head, read, rfl⟩ := found
    obtain ⟨solid, beforeParen, beforeBrace, front, parenAll, braceAll, frontAll, rfl⟩ :=
      readHead_eq_some_iff.1 head
    obtain ⟨tail, rfl, closed, minimal⟩ := readBody_eq_some_iff.1 read
    obtain ⟨behind, behindAll, rfl⟩ := readTail_eq_some_iff.1 closed
    obtain ⟨back, backAll, split⟩ := exists_append_trimEnd isBlank between
    have whole : between ++ '}' :: (behind ++ ')' :: rest) = trimEnd isBlank between ++
        (back ++ '}' :: (behind ++ ')' :: rest)) := by
      rw [← List.append_assoc, ← split]
    refine ⟨NoBlankFront.of_append (whole ▸ solid), noBlankEnd_trimEnd between, beforeParen,
      beforeBrace, front, back, behind,
      ⟨parenAll, braceAll, frontAll, backAll, behindAll, by rw [whole]⟩, ?_⟩
    intro before after eq
    rw [eq, List.append_assoc, List.cons_append] at split
    have earlier := minimal before (after ++ back) split
    rw [List.append_assoc] at earlier
    exact readTail_eq_none_iff.1 earlier
  · intro spelled
    obtain ⟨solidFront, solidEnd, beforeParen, beforeBrace, front, back, behind,
      ⟨parenAll, braceAll, frontAll, backAll, behindAll, rfl⟩, minimal⟩ := spelled
    have closed : readTail (behind ++ ')' :: rest) = some rest :=
      readTail_eq_some_iff.2 ⟨behind, behindAll, rfl⟩
    by_cases empty : body = []
    · -- the blanks around an empty body all belong to its front
      subst empty
      refine ⟨'}' :: (behind ++ ')' :: rest), [], readHead_eq_some_iff.2 ⟨.cons (by decide) _,
        beforeParen, beforeBrace, front ++ back, parenAll, braceAll, frontAll.append backAll, ?_⟩,
        readBody_eq_some_iff.2 ⟨_, rfl, closed, ?_⟩, rfl⟩
      · simp
      · intro before after nil
        exact absurd nil.symm (by simp)
    · refine ⟨body ++ (back ++ '}' :: (behind ++ ')' :: rest)), body ++ back,
        readHead_eq_some_iff.2 ⟨solidFront.append empty, beforeParen, beforeBrace, front, parenAll,
          braceAll, frontAll, rfl⟩,
        readBody_eq_some_iff.2 ⟨_, (List.append_assoc _ _ _).symm, closed, ?_⟩, ?_⟩
      · intro before after split
        obtain ⟨between, eq, rfl⟩ := exists_brace_split backAll split
        rw [List.append_assoc, readTail_eq_none_iff]
        exact minimal before between eq
      · rw [trimEnd_append_of_forall backAll, trimEnd_of_noBlankEnd solidEnd]

/-! ## The blocks of a script -/

/-- No block begins at a blank. -/
theorem values_append_of_blanks {gap : List Char} (all : Blanks gap) (cs : List Char) :
    pattern.values (gap ++ cs) = pattern.values cs := by
  induction gap with
  | nil => rfl
  | cons c gap ih =>
    have ne : c ≠ 'f' := by
      intro same
      subst same
      exact absurd (all _ List.mem_cons_self) (by decide)
    have noWord : Lexeme.keyword.isPrefixOf? (c :: (gap ++ cs)) = none := by
      simp [Lexeme.keyword, List.isPrefixOf?, Ne.symm ne]
    have none : pattern.read (c :: (gap ++ cs)) = none := by
      change read (c :: (gap ++ cs)) = none
      rw [read, readHead, noWord]
      rfl
    rw [List.cons_append, Pattern.values_cons_of_read_eq_none none,
      ih fun d mem => all d (List.mem_cons_of_mem c mem)]

/-- **Blocks by text are the leftmost matches of the expression.** The expression matches at a place
exactly where the text there splits among its parts in any way. Its match there is the split whose
body has no blank at either end and whose closing brace is the first one that closes the call; the
search goes on behind the parenthesis. -/
theorem blockBodies_compat_eq_iff_leftmost_calls (script : List Char) (bodies : List (List Char)) :
    (blockBodies .compat script = bodies ↔
      Leftmost (fun text body rest => call.firstWay? text = some (body, rest)) script bodies) ∧
    ∀ text : List Char,
      ((∃ body rest, call.firstWay? text = some (body, rest)) ↔
        ∃ beforeParen beforeBrace front body back behind rest,
          Spells text beforeParen beforeBrace front body back behind rest) ∧
      ∀ body rest : List Char, call.firstWay? text = some (body, rest) ↔
        NoBlankFront body ∧ NoBlankEnd body ∧ ∃ beforeParen beforeBrace front back behind,
          Spells text beforeParen beforeBrace front body back behind rest ∧
            ∀ before after, body = before ++ '}' :: after →
              ¬ Closes (after ++ (back ++ '}' :: (behind ++ ')' :: rest))) := by
  refine ⟨?_, fun text => ⟨?_, fun body rest => ?_⟩⟩
  · apply pattern.values_eq_iff_leftmost
    intro start body rest
    rw [firstWay?_call]
    exact Iff.rfl
  · rw [Expression.exists_firstWay?_iff]
    apply Iff.intro
    · intro split
      obtain ⟨body, rest, split⟩ := split
      obtain ⟨beforeParen, beforeBrace, front, back, behind, spelled⟩ := splits_call_iff.1 split
      exact ⟨beforeParen, beforeBrace, front, body, back, behind, rest, spelled⟩
    · intro spelled
      obtain ⟨beforeParen, beforeBrace, front, body, back, behind, rest, spelled⟩ := spelled
      exact ⟨body, rest, splits_call_iff.2
        ⟨beforeParen, beforeBrace, front, back, behind, spelled⟩⟩
  · rw [firstWay?_call]
    exact read_eq_some_iff_spells

end Flashdeck.Script.Block.Compat
