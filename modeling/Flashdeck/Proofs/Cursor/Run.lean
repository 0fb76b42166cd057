import Flashdeck.Proofs.Cursor.Place
import Flashdeck.Proofs.Token.Form

/-!
# Runs of a cursor

What the operations of a cursor do, said by the text on both sides of it. `Performs` is the rule book:
where the cursor stands between characters, each operation reads what is there and moves behind it,
or there is nothing of the kind and the cursor stays; inside a character nothing is read at all. The
operations do what it says and nothing else, and whatever operations are performed, from whatever
position, each step is `Safe`.

* `IsLexeme`: the texts that can be scanned, with their delimiters.
* `apply_eq_iff_performs`: one operation follows the rules.
* `Performs.safe`: what the rules guarantee.
* `run_ofPosition_safe`: a run from any position.
-/

namespace Flashdeck.Script.Cursor

open Flashdeck.Text Lexeme

/-! ## The rules -/

/-- The content stands between the delimiters that the operation looks for, in front of `rest`: a run
that goes on as long as it can, or a literal that the first delimiter closes which can. -/
inductive IsLexeme : Operation → (delimiter content rest : List Char) → Prop
  | word {content rest : List Char} (ne : content ≠ [])
      (all : ∀ c ∈ content, isWordChar c = true) (ended : RunEnds isWordChar rest) :
      IsLexeme .word [] content rest
  | numeral {content rest : List Char} (ne : content ≠ [])
      (all : ∀ c ∈ content, isNumeralChar c = true) (ended : RunEnds isNumeralChar rest) :
      IsLexeme .numeral [] content rest
  | backtick {content rest : List Char} (inside : '`' ∉ content) :
      IsLexeme .backtick ['`'] content rest
  | quoted {content rest : List Char} (inside : IsQuotedContent content)
      (first : ∀ front back, content = front ++ '"' :: back → ¬ IsQuotedContent front) :
      IsLexeme .quoted ['"'] content rest

namespace Operation

/-- The operation goes to a position that it is given. -/
def Seeks (operation : Operation) : Prop :=
  ∃ position, operation = .seek position

/-- What the operation answers where nothing is behind the cursor. -/
def nothing (source : List Char) : Operation → Reply
  | .peek | .bump => .char none
  | .eat _ => .eaten false
  | .skipBlanks | .seek _ => .moved
  | .word | .numeral | .backtick | .quoted => .span none
  | .rest => .text []
  | .source => .text source

/-- The operation scans a lexeme. -/
inductive Scans : Operation → Prop
  | word : Scans .word
  | numeral : Scans .numeral
  | backtick : Scans .backtick
  | quoted : Scans .quoted

end Operation

/-- What an operation answers, and where the cursor is after it. -/
inductive Performs (cursor : Cursor) : Operation → Reply → Cursor → Prop
  | seek (position : Nat) : Performs cursor (.seek position) .moved
      { cursor with position := min position (Utf8.size cursor.source) }
  | source : Performs cursor .source (.text cursor.source) cursor
  | rest {before behind : List Char} (stands : cursor.StandsBetween before behind) :
      Performs cursor .rest (.text behind) cursor
  | peek {before behind : List Char} (stands : cursor.StandsBetween before behind) :
      Performs cursor .peek (.char behind.head?) cursor
  | bump {before behind : List Char} {c : Char}
      (stands : cursor.StandsBetween before (c :: behind)) :
      Performs cursor .bump (.char (some c)) (cursor.moveOver [c])
  | bumpEnd {before : List Char} (stands : cursor.StandsBetween before []) :
      Performs cursor .bump (.char none) cursor
  | eat {before behind : List Char} {expected : Char}
      (stands : cursor.StandsBetween before (expected :: behind)) :
      Performs cursor (.eat expected) (.eaten true) (cursor.moveOver [expected])
  | eatOther {before behind : List Char} {expected : Char}
      (stands : cursor.StandsBetween before behind) (other : behind.head? ≠ some expected) :
      Performs cursor (.eat expected) (.eaten false) cursor
  | skipBlanks {before blanks behind : List Char} (all : Blanks blanks)
      (front : NoBlankFront behind) (stands : cursor.StandsBetween before (blanks ++ behind)) :
      Performs cursor .skipBlanks .moved (cursor.moveOver blanks)
  | scan {operation : Operation} {before delimiter content rest : List Char}
      (lexeme : IsLexeme operation delimiter content rest)
      (stands : cursor.StandsBetween before
        ((delimiter ++ (content ++ delimiter)) ++ rest)) :
      Performs cursor operation (.span (some ⟨cursor.position + Utf8.size delimiter, content⟩))
        (cursor.moveOver (delimiter ++ (content ++ delimiter)))
  | scanNothing {operation : Operation} {before behind : List Char} (scans : operation.Scans)
      (stands : cursor.StandsBetween before behind)
      (absent : ∀ delimiter content rest, behind = (delimiter ++ (content ++ delimiter)) ++ rest →
        ¬ IsLexeme operation delimiter content rest) :
      Performs cursor operation (.span none) cursor
  | inside {operation : Operation} (still : ¬ operation.Seeks) (inside : ¬ cursor.OnBoundary) :
      Performs cursor operation (operation.nothing cursor.source) cursor

/-! ## Scanning -/

/-- No earlier quote closes a quoted literal: the quote that closes it is the first that can. -/
theorem not_isQuotedContent_of_append {front back : List Char}
    (whole : IsQuotedContent (front ++ '"' :: back)) : ¬ IsQuotedContent front := by
  intro earlier
  have longer : quotedContent ((front ++ '"' :: back) ++ '"' :: []) =
      some (front ++ '"' :: back, []) := quotedContent_eq_some_iff.2 ⟨rfl, whole⟩
  have shorter : quotedContent ((front ++ '"' :: back) ++ '"' :: []) =
      some (front, back ++ '"' :: []) :=
    quotedContent_eq_some_iff.2 ⟨by rw [List.append_assoc, List.cons_append], earlier⟩
  have length := congrArg (fun read => read.map fun found => found.1.length)
    (longer.symm.trans shorter)
  simp at length

/-- The operation scans by a reader, the content behind the delimiter. -/
structure ScansBy (operation : Operation) (reader : List Char → Option (List Char × List Char))
    (delimiter : List Char) : Prop where
  apply_eq : ∀ cursor : Cursor, cursor.apply operation = cursor.scan reader (Utf8.size delimiter)
  only : ∀ {other content rest : List Char}, IsLexeme operation other content rest →
    other = delimiter
  read_iff : ∀ {cs content rest : List Char}, reader cs = some (content, rest) ↔
    cs = (delimiter ++ (content ++ delimiter)) ++ rest ∧
      IsLexeme operation delimiter content rest

theorem scansBy_word : ScansBy .word Lexeme.word [] where
  apply_eq _ := rfl
  only lexeme := by cases lexeme; rfl
  read_iff {cs content rest} := by
    rw [word_eq_some_iff, List.nil_append, List.append_nil]
    apply Iff.intro
    · rintro ⟨split, ne, all, ended⟩
      exact ⟨split, .word ne all ended⟩
    · rintro ⟨split, lexeme⟩
      cases lexeme with
      | word ne all ended => exact ⟨split, ne, all, ended⟩

theorem scansBy_numeral : ScansBy .numeral Lexeme.numeral [] where
  apply_eq _ := rfl
  only lexeme := by cases lexeme; rfl
  read_iff {cs content rest} := by
    rw [numeral_eq_some_iff, List.nil_append, List.append_nil]
    apply Iff.intro
    · rintro ⟨split, ne, all, ended⟩
      exact ⟨split, .numeral ne all ended⟩
    · rintro ⟨split, lexeme⟩
      cases lexeme with
      | numeral ne all ended => exact ⟨split, ne, all, ended⟩

theorem scansBy_backtick : ScansBy .backtick Lexeme.backtick ['`'] where
  apply_eq _ := rfl
  only lexeme := by cases lexeme; rfl
  read_iff {cs content rest} := by
    rw [backtick_eq_some_iff, List.append_assoc, List.append_assoc]
    apply Iff.intro
    · rintro ⟨split, inside⟩
      exact ⟨split, .backtick inside⟩
    · rintro ⟨split, lexeme⟩
      cases lexeme with
      | backtick inside => exact ⟨split, inside⟩

theorem scansBy_quoted : ScansBy .quoted Lexeme.quoted ['"'] where
  apply_eq _ := rfl
  only lexeme := by cases lexeme; rfl
  read_iff {cs content rest} := by
    rw [quoted_eq_some_iff, List.append_assoc, List.append_assoc]
    apply Iff.intro
    · rintro ⟨split, inside⟩
      exact ⟨split, .quoted inside fun front back eq =>
        not_isQuotedContent_of_append (eq ▸ inside)⟩
    · rintro ⟨split, lexeme⟩
      cases lexeme with
      | quoted inside first => exact ⟨split, inside⟩

theorem Operation.Scans.exists_scansBy {operation : Operation} (scans : operation.Scans) :
    ∃ reader delimiter, ScansBy operation reader delimiter := by
  cases scans with
  | word => exact ⟨_, _, scansBy_word⟩
  | numeral => exact ⟨_, _, scansBy_numeral⟩
  | backtick => exact ⟨_, _, scansBy_backtick⟩
  | quoted => exact ⟨_, _, scansBy_quoted⟩

theorem IsLexeme.scans {operation : Operation} {delimiter content rest : List Char}
    (lexeme : IsLexeme operation delimiter content rest) : operation.Scans := by
  cases lexeme with
  | word => exact .word
  | numeral => exact .numeral
  | backtick => exact .backtick
  | quoted => exact .quoted

theorem Operation.Scans.nothing_eq {operation : Operation} (scans : operation.Scans)
    (source : List Char) : operation.nothing source = .span none := by
  cases scans <;> rfl

variable {cursor next : Cursor} {operation : Operation} {reply : Reply}
variable {reader : List Char → Option (List Char × List Char)}
variable {before behind delimiter content rest : List Char}

/-- The lexeme in front of the cursor is read, and the cursor is behind it. -/
theorem ScansBy.apply_of_isLexeme (by_reader : ScansBy operation reader delimiter)
    (lexeme : IsLexeme operation delimiter content rest)
    (stands : cursor.StandsBetween before ((delimiter ++ (content ++ delimiter)) ++ rest)) :
    cursor.apply operation =
      (.span (some ⟨cursor.position + Utf8.size delimiter, content⟩),
        cursor.moveOver (delimiter ++ (content ++ delimiter))) := by
  have read : reader cursor.rest = some (content, rest) :=
    by_reader.read_iff.2 ⟨stands.rest_eq, lexeme⟩
  rw [by_reader.apply_eq, scan, read, ← stands.advanceTo_eq]

theorem ScansBy.apply_of_absent (by_reader : ScansBy operation reader delimiter)
    (absent : ∀ content rest, cursor.rest = (delimiter ++ (content ++ delimiter)) ++ rest →
      ¬ IsLexeme operation delimiter content rest) :
    cursor.apply operation = (.span none, cursor) := by
  have read : reader cursor.rest = none := by
    refine Option.eq_none_iff_forall_ne_some.2 fun found read => ?_
    obtain ⟨split, lexeme⟩ := by_reader.read_iff.1 read
    exact absent _ _ split lexeme
  rw [by_reader.apply_eq, scan, read]

/-- Where nothing is behind the cursor, no lexeme is. -/
theorem IsLexeme.ne_nil (lexeme : IsLexeme operation delimiter content rest) (behind : List Char) :
    (delimiter ++ (content ++ delimiter)) ++ behind ≠ [] := by
  cases lexeme with
  | word ne => simp [ne]
  | numeral ne => simp [ne]
  | backtick => simp
  | quoted => simp

/-! ## The operations follow the rules -/

/-- Inside a character nothing is found. -/
theorem apply_of_not_onBoundary (still : ¬ operation.Seeks) (inside : ¬ cursor.OnBoundary) :
    cursor.apply operation = (operation.nothing cursor.source, cursor) := by
  have nothing := rest_eq_nil_of_not_onBoundary inside
  have scans_nothing : operation.Scans →
      cursor.apply operation = (operation.nothing cursor.source, cursor) := by
    intro scans
    obtain ⟨reader, delimiter, by_reader⟩ := scans.exists_scansBy
    rw [scans.nothing_eq]
    refine by_reader.apply_of_absent fun content rest split lexeme => ?_
    exact lexeme.ne_nil rest (split.symm.trans nothing)
  cases operation with
  | peek => rw [apply, nothing]; rfl
  | bump => rw [apply, nothing]; rfl
  | eat expected => rw [apply, nothing]; rfl
  | skipBlanks => rw [apply, advanceTo, nothing]; rfl
  | seek position => exact absurd ⟨position, rfl⟩ still
  | word => exact scans_nothing .word
  | numeral => exact scans_nothing .numeral
  | backtick => exact scans_nothing .backtick
  | quoted => exact scans_nothing .quoted
  | rest => rw [apply, nothing]; rfl
  | source => rfl

/-- No operation does anything but what the rules say. -/
theorem apply_eq_of_performs (performs : Performs cursor operation reply next) :
    cursor.apply operation = (reply, next) := by
  cases performs with
  | seek position => rfl
  | source => rfl
  | rest stands => rw [apply, stands.rest_eq]
  | peek stands => rw [apply, stands.rest_eq]
  | @bump _ behind c stands =>
    have moved : cursor.advanceTo behind = cursor.moveOver [c] := stands.advanceTo_eq
    rw [apply, stands.rest_eq, ← moved]
  | bumpEnd stands => rw [apply, stands.rest_eq]
  | @eat _ behind expected stands =>
    have moved : cursor.advanceTo behind = cursor.moveOver [expected] := stands.advanceTo_eq
    rw [apply, stands.rest_eq, symbol_eq_some_iff.2 rfl, ← moved]
  | @eatOther _ behind expected stands other =>
    have read : symbol expected behind = none := by
      refine Option.eq_none_iff_forall_ne_some.2 fun rest read => other ?_
      rw [symbol_eq_some_iff.1 read, List.head?_cons]
    rw [apply, stands.rest_eq, read]
  | skipBlanks all front stands =>
    rw [apply, stands.rest_eq, skipBlanks_append all, skipBlanks_of_noBlankFront front,
      stands.advanceTo_eq]
  | scan lexeme stands =>
    obtain ⟨reader, found, by_reader⟩ := lexeme.scans.exists_scansBy
    obtain rfl := by_reader.only lexeme
    exact by_reader.apply_of_isLexeme lexeme stands
  | scanNothing scans stands absent =>
    obtain ⟨reader, delimiter, by_reader⟩ := scans.exists_scansBy
    rw [← stands.rest_eq] at absent
    exact by_reader.apply_of_absent (absent delimiter)
  | inside still inside => exact apply_of_not_onBoundary still inside

/-- A scan that succeeds takes a lexeme, and one that fails has none in front of it. -/
theorem ScansBy.exists_performs (by_reader : ScansBy operation reader delimiter)
    (scans : operation.Scans) (stands : cursor.StandsBetween before behind) :
    ∃ reply next, Performs cursor operation reply next := by
  cases read : reader behind with
  | none =>
    refine ⟨_, _, .scanNothing scans stands fun other content rest split lexeme => ?_⟩
    obtain rfl := by_reader.only lexeme
    rw [by_reader.read_iff.2 ⟨split, lexeme⟩] at read
    cases read
  | some found =>
    obtain ⟨split, lexeme⟩ := by_reader.read_iff.1 read
    rw [split] at stands
    exact ⟨_, _, .scan lexeme stands⟩

/-- The rules leave no operation out. -/
theorem exists_performs (cursor : Cursor) (operation : Operation) :
    ∃ reply next, Performs cursor operation reply next := by
  by_cases seeks : operation.Seeks
  · obtain ⟨position, rfl⟩ := seeks
    exact ⟨_, _, .seek position⟩
  by_cases boundary : cursor.OnBoundary
  · obtain ⟨before, behind, stands⟩ := boundary
    have scanned : operation.Scans → ∃ reply next, Performs cursor operation reply next := by
      intro scans
      obtain ⟨reader, delimiter, by_reader⟩ := scans.exists_scansBy
      exact by_reader.exists_performs scans stands
    cases operation with
    | peek => exact ⟨_, _, .peek stands⟩
    | bump =>
      cases behind with
      | nil => exact ⟨_, _, .bumpEnd stands⟩
      | cons c behind => exact ⟨_, _, .bump stands⟩
    | eat expected =>
      by_cases first : behind.head? = some expected
      · obtain ⟨rest, rfl⟩ := List.head?_eq_some_iff.1 first
        exact ⟨_, _, .eat stands⟩
      · exact ⟨_, _, .eatOther stands first⟩
    | skipBlanks =>
      obtain ⟨blanks, all, split⟩ := exists_blanks_append_skipBlanks behind
      rw [split] at stands
      exact ⟨_, _, .skipBlanks all (noBlankFront_skipBlanks behind) stands⟩
    | seek position => exact ⟨_, _, .seek position⟩
    | word => exact scanned .word
    | numeral => exact scanned .numeral
    | backtick => exact scanned .backtick
    | quoted => exact scanned .quoted
    | rest => exact ⟨_, _, .rest stands⟩
    | source => exact ⟨_, _, .source⟩
  · exact ⟨_, _, .inside seeks boundary⟩

/-- An operation does what the rules say, and nothing else. -/
theorem apply_eq_iff_performs :
    cursor.apply operation = (reply, next) ↔ Performs cursor operation reply next := by
  apply Iff.intro
  · intro applied
    obtain ⟨reply', next', performs⟩ := exists_performs cursor operation
    cases (apply_eq_of_performs performs).symm.trans applied
    exact performs
  · exact apply_eq_of_performs

/-! ## What the rules guarantee -/

/-- The answer says that what was asked for is not there. -/
def Reply.Fails (reply : Reply) : Prop :=
  reply = .char none ∨ reply = .eaten false ∨ reply = .span none

/-- What holds of a step, wherever the cursor stands in its text. -/
structure Safe (cursor : Cursor) (operation : Operation) (reply : Reply) (next : Cursor) :
    Prop where
  /-- The text stays the same. -/
  source_eq : next.source = cursor.source
  /-- The cursor never leaves the text. -/
  inText : next.position ≤ Utf8.size next.source
  /-- An operation that fails leaves the cursor where it was. -/
  failed : reply.Fails → next = cursor
  /-- Only `seek` moves backwards. -/
  forward : ¬ operation.Seeks → cursor.position ≤ next.position
  /-- A scan that succeeds has passed the content and the delimiters just outside of it, and
  nothing else. -/
  scanned : ∀ span, reply = .span (some span) → ∃ before delimiter rest,
    cursor.source = before ++ ((delimiter ++ (span.content ++ delimiter)) ++ rest) ∧
    cursor.position = Utf8.size before ∧
    span.start = cursor.position + Utf8.size delimiter ∧
    next.position = span.stop + Utf8.size delimiter ∧
    IsLexeme operation delimiter span.content rest
  /-- Between characters the cursor stays between characters, whatever it is asked but `seek`. -/
  boundary : ¬ operation.Seeks → cursor.OnBoundary → next.OnBoundary
  /-- Inside a character nothing moves the cursor but `seek`, and nothing is found there. -/
  inside : ¬ operation.Seeks → ¬ cursor.OnBoundary →
    next = cursor ∧ reply = operation.nothing cursor.source

/-- A step that stays where it is and scans nothing is safe, if it finds nothing inside a
character. -/
theorem Safe.of_stay (inText : cursor.position ≤ Utf8.size cursor.source)
    (unscanned : ∀ span, reply ≠ .span (some span))
    (inside : ¬ cursor.OnBoundary → reply = operation.nothing cursor.source) :
    Safe cursor operation reply cursor where
  source_eq := rfl
  inText := inText
  failed _ := rfl
  forward _ := Nat.le_refl _
  scanned span found := absurd found (unscanned span)
  boundary _ boundary := boundary
  inside _ within := ⟨rfl, inside within⟩

/-- A step over a text behind the cursor is safe, if it does not fail and what it scans is the
text. -/
theorem Safe.of_moveOver {taken : List Char}
    (stands : cursor.StandsBetween before (taken ++ behind)) (found : ¬ reply.Fails)
    (scanned : ∀ span, reply = .span (some span) → ∃ delimiter,
      taken = delimiter ++ (span.content ++ delimiter) ∧
      span.start = cursor.position + Utf8.size delimiter ∧
      IsLexeme operation delimiter span.content behind) :
    Safe cursor operation reply (cursor.moveOver taken) where
  source_eq := rfl
  inText := stands.moveOver.position_le
  failed fails := absurd fails found
  forward _ := Nat.le_add_right _ _
  scanned span eq := by
    obtain ⟨delimiter, rfl, start, lexeme⟩ := scanned span eq
    refine ⟨before, delimiter, behind, stands.source_eq, stands.position_eq, start, ?_, lexeme⟩
    rw [Span.stop, start, position_moveOver, Utf8.size_append, Utf8.size_append]
    omega
  boundary _ _ := stands.moveOver.onBoundary
  inside _ within := absurd stands.onBoundary within

/-- **One step.** What the rules allow is safe. -/
theorem Performs.safe (performs : Performs cursor operation reply next)
    (inText : cursor.position ≤ Utf8.size cursor.source) : Safe cursor operation reply next := by
  cases performs with
  | seek position =>
    exact
      { source_eq := rfl
        inText := Nat.min_le_right _ _
        failed := fun fails => by rcases fails with eq | eq | eq <;> cases eq
        forward := fun still => absurd ⟨position, rfl⟩ still
        scanned := fun span eq => by cases eq
        boundary := fun still => absurd ⟨position, rfl⟩ still
        inside := fun still => absurd ⟨position, rfl⟩ still }
  | source => exact .of_stay inText (fun _ eq => by cases eq) fun _ => rfl
  | rest stands => exact .of_stay inText (fun _ eq => by cases eq) (absurd stands.onBoundary)
  | peek stands => exact .of_stay inText (fun _ eq => by cases eq) (absurd stands.onBoundary)
  | bump stands =>
    exact Safe.of_moveOver stands (by simp [Reply.Fails]) fun _ eq => by cases eq
  | bumpEnd stands => exact .of_stay inText (fun _ eq => by cases eq) (absurd stands.onBoundary)
  | eat stands =>
    exact Safe.of_moveOver stands (by simp [Reply.Fails]) fun _ eq => by cases eq
  | eatOther stands => exact .of_stay inText (fun _ eq => by cases eq) (absurd stands.onBoundary)
  | skipBlanks all front stands =>
    exact .of_moveOver stands (by simp [Reply.Fails]) fun _ eq => by cases eq
  | @scan _ _ delimiter content rest lexeme stands =>
    refine .of_moveOver stands (by simp [Reply.Fails]) fun span eq => ?_
    cases eq
    exact ⟨delimiter, rfl, rfl, lexeme⟩
  | scanNothing scans stands =>
    exact .of_stay inText (fun _ eq => by cases eq) (absurd stands.onBoundary)
  | inside still inside =>
    refine .of_stay inText (fun span eq => ?_) fun _ => rfl
    cases operation <;> cases eq

/-! ## Runs -/

/-- Each operation takes a step to its result, from where the one before it left the cursor. -/
inductive Traces (Step : Cursor → Operation → Reply → Cursor → Prop) :
    Cursor → List Operation → List (Reply × Cursor) → Prop
  | nil {cursor : Cursor} : Traces Step cursor [] []
  | cons {cursor next : Cursor} {operation : Operation} {operations : List Operation}
      {reply : Reply} {results : List (Reply × Cursor)} (step : Step cursor operation reply next)
      (others : Traces Step next operations results) :
      Traces Step cursor (operation :: operations) ((reply, next) :: results)

/-- A run follows the rules from step to step. -/
theorem run_eq_iff_traces {cursor : Cursor} {operations : List Operation}
    {results : List (Reply × Cursor)} :
    cursor.run operations = results ↔ Traces Performs cursor operations results := by
  induction operations generalizing cursor results with
  | nil =>
    apply Iff.intro
    · rintro rfl
      exact .nil
    · rintro ⟨⟩
      rfl
  | cons operation operations ih =>
    apply Iff.intro
    · rintro rfl
      exact .cons (apply_eq_iff_performs.1 rfl) (ih.1 rfl)
    · intro traces
      cases traces with
      | cons step others => rw [run, apply_eq_iff_performs.2 step, ih.2 others]

/-- The cursor is in its text at each step, so each is safe. -/
theorem Traces.safe {operations : List Operation} {results : List (Reply × Cursor)}
    (traces : Traces Performs cursor operations results)
    (inText : cursor.position ≤ Utf8.size cursor.source) :
    Traces Safe cursor operations results := by
  induction traces with
  | nil => exact .nil
  | cons step others ih =>
    have safe := step.safe inText
    exact .cons safe (ih safe.inText)

/-- **A cursor is safe from any position.** A cursor that is made at a position is there, or at the
end of the text if that comes first. Whatever operations it performs, their results are the ones that
the rules give, and each step is safe: it stays in the text, it fails without moving, only `seek`
moves it backwards or off the boundaries of characters, and inside a character only `seek` does
anything. -/
theorem run_ofPosition_safe (source : List Char) (position : Nat) (operations : List Operation) :
    (ofPosition source position).source = source ∧
    (ofPosition source position).position = min position (Utf8.size source) ∧
    (∀ results, (ofPosition source position).run operations = results ↔
      Traces Performs (ofPosition source position) operations results) ∧
    Traces Safe (ofPosition source position) operations
      ((ofPosition source position).run operations) := by
  have inText : (ofPosition source position).position ≤ Utf8.size source := Nat.min_le_right _ _
  exact ⟨rfl, rfl, fun results => run_eq_iff_traces, (run_eq_iff_traces.1 rfl).safe inText⟩

/-- Inside the first character no word begins; behind it one does. -/
example : (ofPosition ['é', 'a'] 1).run [.word, .seek 2, .word] =
    [(.span none, ⟨['é', 'a'], 1⟩), (.moved, ⟨['é', 'a'], 2⟩),
      (.span (some ⟨2, ['a']⟩), ⟨['é', 'a'], 3⟩)] := by
  decide

end Flashdeck.Script.Cursor
