import Flashdeck.Proofs.Checked.Cut

/-!
# Checked tokens

The tokens of a text, read by a cursor as offsets. `tokens_eq` says that these are the places of the
tokens that the text is taken apart into: a word is found wherever one begins, and the cursor is
further with each token.
-/

namespace Flashdeck.Checked

open Flashdeck.Text Flashdeck.Script Flashdeck.Script.Cursor

/-- A token as two offsets. -/
structure Mark where
  kind : Kind
  start : Nat
  stop : Nat
deriving DecidableEq, Repr

/-- The offsets of a token at its place. -/
def Mark.of (item : Nat × Token) : Mark :=
  ⟨item.2.kind, item.1, endOf item⟩

@[simp] theorem Mark.kind_of (item : Nat × Token) : (Mark.of item).kind = item.2.kind := rfl

@[simp] theorem Mark.stop_of (item : Nat × Token) : (Mark.of item).stop = endOf item := rfl

/-- The kind of a literal that may not be closed, and the cursor behind it: its first character is a
token of its own if it is not. -/
def readLiteral (operation : Operation) (kind : Kind) (cursor : Cursor) :
    Attempt (Kind × Cursor) := do
  match ← scan operation cursor with
  | some (_, next) => return (kind, next)
  | none => return (.other, ← bump cursor)

/-- The kind of the token that begins with `c`, the next character, and the cursor behind it. -/
def readToken (c : Char) (cursor : Cursor) : Attempt (Kind × Cursor) := do
  if c = '`' then readLiteral .backtick .backtick cursor
  else if c = '"' then readLiteral .quoted .quoted cursor
  else if c.isDigit then return (.numeral, (← ask cursor .numeral).2)
  else if c.isAlpha || c = '_' then
    let (text, next) ← require .missingWord (← scanText .word cursor)
    return (Token.kindOfWord text, next)
  else return (Token.kindOfChar c, ← bump cursor)

/-- Reads one token onto those before it. -/
def tokenPass (state : Cursor × List Mark) : Attempt (List Mark ⊕ Cursor × List Mark) := do
  let cursor ← skipBlanks state.1
  match ← peek cursor with
  | none => return .inl state.2
  | some c =>
    let (kind, next) ← readToken c cursor
    return .inr (next, state.2 ++ [⟨kind, cursor.position, next.position⟩])

/-- The tokens of a text. -/
def tokens (source : List Char) : Attempt (List Mark) :=
  loop (fun state => state.1.position) (Utf8.size source) tokenPass (⟨source, 0⟩, [])

variable {source behind cs : List Char} {c : Char}

/-! ## One token -/

theorem readLiteral_inFrontOf {operation : Operation} {kind : Kind} {delimiter : List Char}
    {reader : List Char → Option (List Char × List Char)}
    (by_reader : ScansBy operation reader delimiter) (rear : c :: cs <:+ source) :
    readLiteral operation kind (inFrontOf source (c :: cs)) =
      .ok (match reader (c :: cs) with
        | some (_, rest) => (kind, inFrontOf source rest)
        | none => (.other, inFrontOf source cs)) := by
  rw [readLiteral, scan_inFrontOf by_reader rear, bump_inFrontOf rear]
  cases reader (c :: cs) <;> rfl

/-- A token is read as from the text behind the cursor. -/
theorem readToken_inFrontOf (rear : c :: cs <:+ source) :
    readToken c (inFrontOf source (c :: cs)) =
      .ok ((Token.readText c cs).1, inFrontOf source (Token.readText c cs).2.2) := by
  by_cases tick : c = '`'
  · subst tick
    have noQuoted : Lexeme.quoted ('`' :: cs) = none := rfl
    rw [readToken, if_pos rfl, readLiteral_inFrontOf scansBy_backtick rear, Token.readText, noQuoted]
    cases Lexeme.backtick ('`' :: cs) <;> rfl
  by_cases quote : c = '"'
  · subst quote
    have noBacktick : Lexeme.backtick ('"' :: cs) = none := rfl
    rw [readToken, if_neg tick, if_pos rfl, readLiteral_inFrontOf scansBy_quoted rear,
      Token.readText, noBacktick]
    cases Lexeme.quoted ('"' :: cs) <;> rfl
  rw [readToken, if_neg tick, if_neg quote, Token.readText_of_ne tick quote]
  by_cases digit : c.isDigit = true
  · have number : isNumeralChar c = true := by rw [isNumeralChar, digit, Bool.true_or]
    have read : Lexeme.numeral (c :: cs) =
        some (c :: cs.takeWhile isNumeralChar, cs.dropWhile isNumeralChar) := by
      rw [Lexeme.numeral, Lexeme.run, List.takeWhile_cons_of_pos number,
        List.dropWhile_cons_of_pos number]
      rfl
    have rest_rear : cs.dropWhile isNumeralChar <:+ c :: cs :=
      (List.dropWhile_suffix _).trans (List.suffix_cons c cs)
    rw [if_pos digit, if_pos digit, ask_inFrontOf rear, scansBy_numeral.apply_eq, Cursor.scan,
      rest_inFrontOf rear, read]
    simp only
    rw [advanceTo_inFrontOf rear rest_rear]
    rfl
  rw [if_neg digit, if_neg digit]
  by_cases word : isWordChar c = true
  · have first : (c.isAlpha || c = '_') = true := by
      simpa using isAlpha_or_eq_iff.2 ⟨word, by simpa using digit⟩
    have read : Lexeme.word (c :: cs) =
        some (c :: cs.takeWhile isWordChar, cs.dropWhile isWordChar) := by
      rw [Lexeme.word, Lexeme.run, List.takeWhile_cons_of_pos word,
        List.dropWhile_cons_of_pos word]
      rfl
    rw [if_pos first, if_pos word, scanText_inFrontOf scansBy_word rear, read]
    rfl
  · have not_first : ¬ (c.isAlpha || c = '_') = true := by
      intro first
      exact word (isAlpha_or_eq_iff.1 (by simpa using first)).1
    rw [if_neg not_first, if_neg word, bump_inFrontOf rear]
    rfl

/-! ## All tokens -/

/-- The state in front of `behind` is promised the tokens of `behind`, behind those read. -/
def PromisesTokens (source : List Char) (state : Cursor × List Mark) (out : List Mark) : Prop :=
  ∃ behind, behind <:+ source ∧ state.1 = inFrontOf source behind ∧
    out = state.2 ++ (locate state.1.position (tokenize behind)).map Mark.of

theorem tokenPass_keeps (state : Cursor × List Mark) (out : List Mark)
    (promised : PromisesTokens source state out) :
    tokenPass state = .ok (.inl out) ∨ ∃ next, tokenPass state = .ok (.inr next) ∧
      state.1.position < next.1.position ∧ next.1.position ≤ Utf8.size source ∧
      PromisesTokens source next out := by
  obtain ⟨cursor, marks⟩ := state
  obtain ⟨behind, rear, eq, rfl⟩ := promised
  dsimp only at eq
  subst eq
  have split : behind.takeWhile isBlank ++ Lexeme.skipBlanks behind = behind :=
    List.takeWhile_append_dropWhile
  have skip_rear : Lexeme.skipBlanks behind <:+ source := (Lexeme.skipBlanks_suffix _).trans rear
  cases skip : Lexeme.skipBlanks behind with
  | nil =>
    left
    rw [tokenPass, skipBlanks_inFrontOf rear, ok_bind, peek_inFrontOf skip_rear, skip,
      tokenize_of_skipBlanks_eq_nil skip, locate, List.map_nil, List.append_nil]
    rfl
  | cons c cs =>
    right
    rw [skip] at split skip_rear
    have spelled := Token.readText_append c cs
    have start := position_inFrontOf_add rear split
    have stop := position_inFrontOf_add skip_rear spelled
    have longer : 0 < Utf8.size (Token.readText c cs).2.1 :=
      Utf8.size_pos (Token.readText_ne_nil c cs)
    have rest_rear : (Token.readText c cs).2.2 <:+ c :: cs := ⟨_, spelled⟩
    refine ⟨(inFrontOf source (Token.readText c cs).2.2, marks ++ [⟨(Token.readText c cs).1,
      (inFrontOf source (c :: cs)).position,
      (inFrontOf source (Token.readText c cs).2.2).position⟩]), ?_, ?_, position_inFrontOf_le,
      _, rest_rear.trans skip_rear, rfl, ?_⟩
    · rw [tokenPass, skipBlanks_inFrontOf rear, ok_bind, skip, peek_inFrontOf skip_rear, ok_bind,
        List.head?_cons]
      simp only [readToken_inFrontOf skip_rear, ok_bind]
      rfl
    · dsimp only
      omega
    · rw [tokenize_of_skipBlanks_eq_cons skip, locate, List.map_cons]
      simp only [start, stop, Mark.of, endOf, List.append_assoc, List.singleton_append]

/-- The tokens of a text are found at their places, with nothing that they can fail at. -/
theorem tokens_eq (source : List Char) :
    tokens source = .ok ((locate 0 (tokenize source)).map Mark.of) := by
  refine loop_eq_ok tokenPass_keeps ⟨source, List.suffix_refl source, ?_, ?_⟩
  · rw [inFrontOf_self]
  · rfl

end Flashdeck.Checked
