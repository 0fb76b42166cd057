import Flashdeck.Proofs.Cursor.Place
import Flashdeck.Proofs.Text.Offset

/-!
# Cursors, character by character

The operations of a cursor as a machine performs them: by looking at the next character and moving
behind it, over and over. A literal is passed like this too, and where it turns out that nothing
closes it, the cursor is put back to where it began. `perform_eq_apply` says that, from any position,
this comes to the same as reading the text behind the cursor at once.

* `bumpWhile_eq`, `bumpToQuote_of_isQuotedContent`, `exists_of_bumpToQuote`: how far the loops go.
* `perform_eq_apply`, `run_eq`: the operations, one and many.
-/

namespace Flashdeck.Script.Cursor.Stepwise

open Flashdeck.Text

/-! ## The next character -/

/-- The cursor a number of bytes further on. -/
def skip (cursor : Cursor) (bytes : Nat) : Cursor :=
  { cursor with position := cursor.position + bytes }

/-- The next character. -/
def peek (cursor : Cursor) : Option Char :=
  cursor.rest.head?

/-- The next character, and the cursor behind it. -/
def bump (cursor : Cursor) : Option Char × Cursor :=
  match peek cursor with
  | some c => (some c, skip cursor c.utf8Size)
  | none => (none, cursor)

/-- Moves behind the given character if it is the next one. -/
def eat (expected : Char) (cursor : Cursor) : Bool × Cursor :=
  if peek cursor = some expected then (true, skip cursor expected.utf8Size) else (false, cursor)

variable {cursor : Cursor} {taken behind : List Char} {c : Char}

theorem onBoundary_of_rest_ne_nil (ne : cursor.rest ≠ []) : cursor.OnBoundary :=
  Classical.byContradiction fun inside => ne (rest_eq_nil_of_not_onBoundary inside)

/-- What is behind the cursor, with a part of the text in front of it. -/
theorem exists_standsBetween (split : cursor.rest = c :: behind) :
    ∃ before, cursor.StandsBetween before (c :: behind) := by
  obtain ⟨before, rest, stands⟩ :=
    onBoundary_of_rest_ne_nil (split ▸ List.cons_ne_nil c behind)
  rw [stands.rest_eq] at split
  exact ⟨before, split ▸ stands⟩

theorem rest_moveOver (taken : List Char) (split : cursor.rest = taken ++ behind) :
    (cursor.moveOver taken).rest = behind := by
  cases taken with
  | nil => exact split
  | cons c taken =>
    obtain ⟨before, stands⟩ := exists_standsBetween split
    have front : cursor.StandsBetween before ((c :: taken) ++ behind) := stands
    exact front.moveOver.rest_eq

theorem moveOver_append (cursor : Cursor) (front back : List Char) :
    (cursor.moveOver front).moveOver back = cursor.moveOver (front ++ back) := by
  rw [moveOver, moveOver, moveOver, Utf8.size_append, Nat.add_assoc]

theorem advanceTo_eq_moveOver (taken : List Char) (split : cursor.rest = taken ++ behind) :
    cursor.advanceTo behind = cursor.moveOver taken := by
  rw [advanceTo, split, Utf8.size_append, Nat.add_sub_cancel, moveOver]

theorem peek_of_rest_eq_cons (split : cursor.rest = c :: behind) : peek cursor = some c := by
  rw [peek, split, List.head?_cons]

theorem peek_of_rest_eq_nil (nothing : cursor.rest = []) : peek cursor = none := by
  rw [peek, nothing, List.head?_nil]

theorem bump_of_rest_eq_cons (split : cursor.rest = c :: behind) :
    bump cursor = (some c, cursor.moveOver [c]) := by
  rw [bump, peek_of_rest_eq_cons split]
  rfl

theorem bump_of_rest_eq_nil (nothing : cursor.rest = []) : bump cursor = (none, cursor) := by
  rw [bump, peek_of_rest_eq_nil nothing]

theorem bump_cases (cursor : Cursor) :
    cursor.rest = [] ∧ bump cursor = (none, cursor) ∨
      ∃ c behind, cursor.rest = c :: behind ∧ bump cursor = (some c, cursor.moveOver [c]) := by
  cases split : cursor.rest with
  | nil => exact .inl ⟨rfl, bump_of_rest_eq_nil split⟩
  | cons c behind => exact .inr ⟨c, behind, rfl, bump_of_rest_eq_cons split⟩

theorem source_of_bump_eq {found : Option Char} {next : Cursor}
    (bumped : bump cursor = (found, next)) : next.source = cursor.source := by
  rcases bump_cases cursor with ⟨-, stays⟩ | ⟨c, behind, -, moves⟩
  · rw [stays] at bumped
    cases bumped
    rfl
  · rw [moves] at bumped
    cases bumped
    rfl

theorem rest_eq_cons_of_bump_eq {next : Cursor} (bumped : bump cursor = (some c, next)) :
    cursor.rest = c :: next.rest := by
  rcases bump_cases cursor with ⟨-, stays⟩ | ⟨d, behind, split, moves⟩
  · rw [stays] at bumped
    cases bumped
  · rw [moves] at bumped
    cases bumped
    rw [split, rest_moveOver [c] split]

/-- Behind a character, less of the text is left. -/
theorem left_lt_of_bump_eq {next : Cursor} (bumped : bump cursor = (some c, next)) :
    Utf8.size next.source - next.position < Utf8.size cursor.source - cursor.position := by
  rcases bump_cases cursor with ⟨-, stays⟩ | ⟨d, behind, split, moves⟩
  · rw [stays] at bumped
    cases bumped
  · rw [moves] at bumped
    cases bumped
    obtain ⟨before, stands⟩ := exists_standsBetween split
    have front : cursor.StandsBetween before ([c] ++ behind) := stands
    have within := front.moveOver.position_le
    have longer := c.utf8Size_pos
    simp only [source_moveOver, position_moveOver, Utf8.size_cons, Utf8.size_nil] at within ⊢
    omega

/-! ## Loops -/

/-- Moves behind the next character as long as it is accepted. -/
def bumpWhile (accepts : Char → Bool) (cursor : Cursor) : Cursor :=
  match _bumped : bump cursor with
  | (some c, next) => if accepts c then bumpWhile accepts next else cursor
  | (none, _) => cursor
termination_by Utf8.size cursor.source - cursor.position
decreasing_by exact left_lt_of_bump_eq _bumped

/-- Moves behind the quote that closes a literal, and says whether there is one. A backslash takes the
character behind it with it, but the end of a line or of the text ends the search. -/
def bumpToQuote (cursor : Cursor) : Bool × Cursor :=
  match _bumped : bump cursor with
  | (none, next) => (false, next)
  | (some c, next) =>
    if c = '"' then (true, next)
    else if c = '\\' then
      match _escaped : bump next with
      | (some d, after) => if isLineEnd d then (false, after) else bumpToQuote after
      | (none, after) => (false, after)
    else bumpToQuote next
termination_by Utf8.size cursor.source - cursor.position
decreasing_by
  · exact Nat.lt_trans (left_lt_of_bump_eq _escaped) (left_lt_of_bump_eq _bumped)
  · exact left_lt_of_bump_eq _bumped

theorem bumpWhile_of_rest_eq_nil {accepts : Char → Bool} (nothing : cursor.rest = []) :
    bumpWhile accepts cursor = cursor := by
  rw [bumpWhile]
  split
  · next bumped =>
    rw [bump_of_rest_eq_nil nothing] at bumped
    cases bumped
  · rfl

theorem bumpWhile_of_rest_eq_cons {accepts : Char → Bool} (split : cursor.rest = c :: behind) :
    bumpWhile accepts cursor =
      if accepts c then bumpWhile accepts (cursor.moveOver [c]) else cursor := by
  rw [bumpWhile]
  split
  · next bumped =>
    rw [bump_of_rest_eq_cons split] at bumped
    cases bumped
    rfl
  · next bumped =>
    rw [bump_of_rest_eq_cons split] at bumped
    cases bumped

/-- The cursor goes as far as the characters are accepted. -/
theorem bumpWhile_eq (accepts : Char → Bool) (cursor : Cursor) :
    bumpWhile accepts cursor = cursor.moveOver (cursor.rest.takeWhile accepts) := by
  generalize split : cursor.rest = cs
  induction cs generalizing cursor with
  | nil => exact bumpWhile_of_rest_eq_nil split
  | cons c behind ih =>
    rw [bumpWhile_of_rest_eq_cons split, List.takeWhile_cons]
    split
    · rw [ih _ (rest_moveOver [c] split), moveOver_append]
      rfl
    · rfl

/-- The search for the closing quote leaves the text as it is. -/
theorem source_bumpToQuote (cursor : Cursor) : (bumpToQuote cursor).2.source = cursor.source := by
  fun_induction bumpToQuote cursor with
  | case1 cursor next bumped => exact source_of_bump_eq bumped
  | case2 cursor next bumped => exact source_of_bump_eq bumped
  | case3 cursor next d after escaped line bumped =>
    exact (source_of_bump_eq escaped).trans (source_of_bump_eq bumped)
  | case4 cursor next d after escaped line bumped _ ih =>
    exact ih.trans ((source_of_bump_eq escaped).trans (source_of_bump_eq bumped))
  | case5 cursor next after escaped bumped =>
    exact (source_of_bump_eq escaped).trans (source_of_bump_eq bumped)
  | case6 cursor c next bumped quote slash ih => exact ih.trans (source_of_bump_eq bumped)

/-- What the search does with the next character. -/
theorem bumpToQuote_of_bump_eq {next : Cursor} (bumped : bump cursor = (some c, next)) :
    bumpToQuote cursor =
      if c = '"' then (true, next)
      else if c = '\\' then
        match bump next with
        | (some d, after) => if isLineEnd d then (false, after) else bumpToQuote after
        | (none, after) => (false, after)
      else bumpToQuote next := by
  rw [bumpToQuote]
  split
  · next none => rw [none] at bumped; cases bumped
  · next found =>
    rw [found] at bumped
    cases bumped
    split
    · rfl
    · split
      · split <;> simp_all
      · rfl

/-- A quote that closes a literal is found, and the cursor is behind it. -/
theorem bumpToQuote_of_isQuotedContent {content : List Char}
    (inside : Lexeme.IsQuotedContent content) (split : cursor.rest = content ++ '"' :: behind) :
    bumpToQuote cursor = (true, cursor.moveOver (content ++ ['"'])) := by
  induction inside generalizing cursor with
  | nil =>
    rw [bumpToQuote_of_bump_eq (bump_of_rest_eq_cons split), if_pos rfl]
    rfl
  | @plain c content quote slash rest ih =>
    have bumped := bump_of_rest_eq_cons split
    rw [bumpToQuote_of_bump_eq bumped, if_neg quote, if_neg slash,
      ih (rest_moveOver [c] split), moveOver_append]
    rfl
  | @pair c content line rest ih =>
    have bumped := bump_of_rest_eq_cons split
    have escaped := bump_of_rest_eq_cons (rest_moveOver ['\\'] split)
    rw [moveOver_append, List.singleton_append] at escaped
    rw [bumpToQuote_of_bump_eq bumped, if_neg (by decide), if_pos rfl, escaped]
    simp only [line, Bool.false_eq_true, if_false]
    rw [ih (rest_moveOver ['\\', c] split), moveOver_append]
    rfl

/-- A quote that is found closes a literal. -/
theorem exists_of_bumpToQuote (found : (bumpToQuote cursor).1 = true) :
    ∃ content behind, cursor.rest = content ++ '"' :: behind ∧ Lexeme.IsQuotedContent content := by
  fun_induction bumpToQuote cursor with
  | case1 cursor next bumped => cases found
  | case2 cursor next bumped => exact ⟨[], next.rest, rest_eq_cons_of_bump_eq bumped, .nil⟩
  | case3 cursor next d after escaped line bumped => cases found
  | case4 cursor next d after escaped line bumped _ ih =>
    obtain ⟨content, behind, split, inside⟩ := ih found
    refine ⟨'\\' :: d :: content, behind, ?_, .pair (by simpa using line) inside⟩
    rw [rest_eq_cons_of_bump_eq bumped, rest_eq_cons_of_bump_eq escaped, split]
    rfl
  | case5 cursor next after escaped bumped => cases found
  | case6 cursor c next bumped quote slash ih =>
    obtain ⟨content, behind, split, inside⟩ := ih found
    refine ⟨c :: content, behind, ?_, .plain quote slash inside⟩
    rw [rest_eq_cons_of_bump_eq bumped, split]
    rfl

/-! ## Lexemes -/

/-- The part of a text between two offsets, as a span. -/
def spanOf (source : List Char) (start stop : Nat) : Span :=
  ⟨start, (Utf8.part? source start stop).getD []⟩

/-- Reads the characters that are accepted, one at the least. -/
def takeWhile (accepts : Char → Bool) (cursor : Cursor) : Option Span × Cursor :=
  let start := cursor.position
  let next := bumpWhile accepts cursor
  (if start < next.position then some (spanOf next.source start next.position) else none, next)

/-- Reads a literal between backticks. Where no second one follows, the cursor is put back. -/
def backtick (cursor : Cursor) : Option Span × Cursor :=
  let start := cursor.position
  match eat '`' cursor with
  | (false, next) => (none, next)
  | (true, next) =>
    match Utf8.offsetOf? ['`'] next.rest with
    | none => (none, { next with position := start })
    | some length =>
      (some (spanOf next.source next.position (next.position + length)), skip next (length + 1))

/-- Reads a literal between double quotes. Where nothing closes it, the cursor is put back. -/
def quoted (cursor : Cursor) : Option Span × Cursor :=
  let start := cursor.position
  match eat '"' cursor with
  | (false, next) => (none, next)
  | (true, next) =>
    match bumpToQuote next with
    | (true, after) => (some (spanOf after.source next.position (after.position - 1)), after)
    | (false, after) => (none, { after with position := start })

/-- Performs one operation. -/
def perform (cursor : Cursor) : Operation → Reply × Cursor
  | .peek => (.char (peek cursor), cursor)
  | .bump => ((bump cursor).map Reply.char id)
  | .eat expected => (eat expected cursor).map Reply.eaten id
  | .skipBlanks => (.moved, bumpWhile isBlank cursor)
  | .seek position => (.moved, cursor.seek position)
  | .word => (takeWhile isWordChar cursor).map Reply.span id
  | .numeral => (takeWhile isNumeralChar cursor).map Reply.span id
  | .backtick => (backtick cursor).map Reply.span id
  | .quoted => (quoted cursor).map Reply.span id
  | .rest => (.text cursor.rest, cursor)
  | .source => (.text cursor.source, cursor)

/-! ## The same as reading at once -/

theorem eat_eq (expected : Char) (cursor : Cursor) :
    eat expected cursor =
      match Lexeme.symbol expected cursor.rest with
      | some _ => (true, cursor.moveOver [expected])
      | none => (false, cursor) := by
  cases split : cursor.rest with
  | nil =>
    rw [eat, peek_of_rest_eq_nil split, if_neg nofun]
    rfl
  | cons c behind =>
    rw [eat, peek_of_rest_eq_cons split, Lexeme.symbol]
    by_cases same : c = expected
    · subst same
      rw [if_pos rfl, if_pos rfl]
      rfl
    · rw [if_neg (by simpa using same), if_neg same]

/-- A part of the text behind the cursor is cut out by its offsets. -/
theorem spanOf_eq (front content : List Char) (split : cursor.rest = front ++ (content ++ behind))
    (ne : cursor.rest ≠ []) :
    spanOf cursor.source (cursor.position + Utf8.size front)
        (cursor.position + Utf8.size front + Utf8.size content) =
      ⟨cursor.position + Utf8.size front, content⟩ := by
  obtain ⟨before, rest, stands⟩ := onBoundary_of_rest_ne_nil ne
  have cut : Utf8.part? cursor.source (cursor.position + Utf8.size front)
      (cursor.position + Utf8.size front + Utf8.size content) = some content := by
    refine Utf8.part?_eq_some_iff.2 ⟨before ++ front, behind, ?_, ?_, ?_⟩
    · rw [stands.source_eq, ← stands.rest_eq, split, List.append_assoc]
    · rw [Utf8.size_append, stands.position_eq]
    · rw [Utf8.size_append, stands.position_eq]
  rw [spanOf, cut, Option.getD_some]

theorem takeWhile_eq (accepts : Char → Bool) (cursor : Cursor) :
    (takeWhile accepts cursor).map Reply.span id = cursor.scan (Lexeme.run accepts) 0 := by
  have split : cursor.rest.takeWhile accepts ++ cursor.rest.dropWhile accepts = cursor.rest :=
    List.takeWhile_append_dropWhile
  rw [takeWhile, bumpWhile_eq, scan, Lexeme.run, position_moveOver, source_moveOver]
  generalize cursor.rest.takeWhile accepts = content at split ⊢
  cases content with
  | nil =>
    rw [Utf8.size_nil, Nat.add_zero, if_neg (Nat.lt_irrefl _)]
    rfl
  | cons c content =>
    have longer : 0 < Utf8.size (c :: content) := Utf8.size_pos (List.cons_ne_nil c content)
    have cut := spanOf_eq [] (c :: content) split.symm (by rw [← split]; exact List.cons_ne_nil c _)
    rw [if_pos (Nat.lt_add_of_pos_right longer), List.isEmpty_cons]
    simp only [Bool.false_eq_true, if_false]
    rw [advanceTo_eq_moveOver _ split.symm]
    exact congrArg (fun span => (Reply.span (some span), cursor.moveOver (c :: content))) cut

/-- A literal between backticks is read, or the cursor is where it was. -/
theorem backtick_eq (cursor : Cursor) :
    (backtick cursor).map Reply.span id = cursor.scan Lexeme.backtick 1 := by
  rw [backtick, eat_eq, scan]
  cases opened : Lexeme.symbol '`' cursor.rest with
  | none =>
    rw [Lexeme.backtick, opened]
    rfl
  | some inside =>
    have front := Lexeme.symbol_eq_some_iff.1 opened
    have behind : (cursor.moveOver ['`']).rest = inside := rest_moveOver ['`'] front
    simp only [behind]
    cases closed : Utf8.offsetOf? ['`'] inside with
    | none =>
      have read : Lexeme.backtick cursor.rest = none := by
        refine Option.eq_none_iff_forall_ne_some.2 fun found read => ?_
        obtain ⟨split, -⟩ := Lexeme.backtick_eq_some_iff.1 read
        rw [front] at split
        have mem : '`' ∈ inside := by simp [(List.cons.inj split).2]
        exact Utf8.not_mem_of_offsetOf?_eq_none closed mem
      rw [read]
      rfl
    | some length =>
      obtain ⟨content, rest, rfl, rfl, first⟩ := Utf8.exists_not_mem_of_offsetOf?_eq_some closed
      have read : Lexeme.backtick cursor.rest = some (content, rest) :=
        Lexeme.backtick_eq_some_iff.2 ⟨front, first⟩
      have cut := spanOf_eq ['`'] content front
        (by rw [front]; exact List.cons_ne_nil _ _)
      have moved := advanceTo_eq_moveOver ('`' :: (content ++ ['`']))
        (by rw [front]; simp : cursor.rest = '`' :: (content ++ ['`']) ++ rest)
      have passed : skip (cursor.moveOver ['`']) (Utf8.size content + 1) =
          cursor.moveOver ('`' :: (content ++ ['`'])) := by
        have whole := moveOver_append cursor ['`'] (content ++ ['`'])
        rw [List.singleton_append] at whole
        rw [← whole, moveOver, moveOver, Utf8.size_append]
        rfl
      rw [read]
      simp only
      rw [moved, ← passed]
      exact congrArg (fun span => (Reply.span (some span), _)) cut

/-- A literal between double quotes is read, or the cursor is where it was. -/
theorem quoted_eq (cursor : Cursor) :
    (quoted cursor).map Reply.span id = cursor.scan Lexeme.quoted 1 := by
  rw [quoted, eat_eq, scan]
  cases opened : Lexeme.symbol '"' cursor.rest with
  | none =>
    rw [Lexeme.quoted, opened]
    rfl
  | some inside =>
    have front := Lexeme.symbol_eq_some_iff.1 opened
    have behind : (cursor.moveOver ['"']).rest = inside := rest_moveOver ['"'] front
    cases read : Lexeme.quoted cursor.rest with
    | some found =>
      obtain ⟨content, rest⟩ := found
      obtain ⟨split, closed⟩ := Lexeme.quoted_eq_some_iff.1 read
      obtain rfl := (List.cons.inj (front.symm.trans split)).2
      have found := bumpToQuote_of_isQuotedContent closed behind
      have cut := spanOf_eq ['"'] content front (by rw [front]; exact List.cons_ne_nil _ _)
      have moved := advanceTo_eq_moveOver ('"' :: (content ++ ['"']))
        (by rw [front]; simp : cursor.rest = '"' :: (content ++ ['"']) ++ rest)
      have stop : ((cursor.moveOver ['"']).moveOver (content ++ ['"'])).position - 1 =
          cursor.position + Utf8.size ['"'] + Utf8.size content := by
        rw [position_moveOver, position_moveOver, Utf8.size_append, ← Nat.add_assoc]
        rfl
      simp only [found]
      rw [moved, stop, moveOver_append]
      exact congrArg (fun span => (Reply.span (some span), _)) cut
    | none =>
      cases found : bumpToQuote (cursor.moveOver ['"']) with
      | mk closed after =>
        cases closed with
        | true =>
          obtain ⟨content, rest, split, inner⟩ := exists_of_bumpToQuote (congrArg Prod.fst found)
          rw [behind] at split
          rw [Lexeme.quoted_eq_some_iff.2 ⟨split ▸ front, inner⟩] at read
          cases read
        | false =>
          have source : after.source = cursor.source := by
            have kept := source_bumpToQuote (cursor.moveOver ['"'])
            rwa [found, source_moveOver] at kept
          simp only [found, source]
          rfl

/-- **Character by character, an operation does what it does at once**, wherever the cursor stands. -/
theorem perform_eq_apply (cursor : Cursor) (operation : Operation) :
    perform cursor operation = cursor.apply operation := by
  cases operation with
  | peek => rfl
  | bump =>
    rcases bump_cases cursor with ⟨nothing, stays⟩ | ⟨c, behind, split, moves⟩
    · rw [perform, stays, apply, nothing]
      rfl
    · rw [perform, moves, apply, split]
      exact congrArg (Reply.char (some c), ·) (advanceTo_eq_moveOver [c] split).symm
  | eat expected =>
    rw [perform, eat_eq, apply]
    cases read : Lexeme.symbol expected cursor.rest with
    | none => rfl
    | some rest =>
      have split := Lexeme.symbol_eq_some_iff.1 read
      exact congrArg (Reply.eaten true, ·)
        (advanceTo_eq_moveOver [expected] split).symm
  | skipBlanks =>
    have split : cursor.rest.takeWhile isBlank ++ Lexeme.skipBlanks cursor.rest = cursor.rest :=
      List.takeWhile_append_dropWhile
    rw [perform, bumpWhile_eq, apply, advanceTo_eq_moveOver _ split.symm]
  | seek position => rfl
  | word => exact takeWhile_eq isWordChar cursor
  | numeral => exact takeWhile_eq isNumeralChar cursor
  | backtick => exact backtick_eq cursor
  | quoted => exact quoted_eq cursor
  | rest => rfl
  | source => rfl

/-- Performs operations one after the other: each one's reply, with the cursor after it. -/
def run (cursor : Cursor) : List Operation → List (Reply × Cursor)
  | [] => []
  | operation :: operations =>
    let step := perform cursor operation
    step :: run step.2 operations

/-- A run of a cursor is the same character by character. -/
theorem run_eq (cursor : Cursor) (operations : List Operation) :
    run cursor operations = cursor.run operations := by
  induction operations generalizing cursor with
  | nil => rfl
  | cons operation operations ih => rw [run, Cursor.run, perform_eq_apply, ih]

end Flashdeck.Script.Cursor.Stepwise
