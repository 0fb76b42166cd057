import Mathlib.Data.List.Infix
import Flashdeck.Proofs.Block.Writing
import Flashdeck.Proofs.Search.Parallel

/-!
# Where the two rules agree

The search by text and the search by tokens part where the text shows a call that the tokens do
not: the keyword at the end of a longer word, a brace inside a literal, a head that no brace
closes, a call that closes inside another one. In a script without any of these, `Aligned`, they
find the same blocks.

Both searches go on from block to block, and what is left of an aligned script behind its first
block is aligned. Before that block the search by text reads nothing, for a call that opens there
would have its head among the tokens, and every head is in some block, none of which begins
earlier. And it reads this block to its end, for the first brace that a closing parenthesis
follows is the one that matches.

* `Aligned.behind`: what is left behind the first block is aligned.
* `Aligned.length_place_le`: no call opens before the first block.
* `Aligned.read_head`: the search by text reads the first block as it is.
* `blockBodies_compat_eq_balanced`: the two rules find the same bodies in an aligned script.
-/

namespace Flashdeck.Script.Block

open Flashdeck.Text

/-- The keyword, an opening parenthesis and an opening brace, with blanks between them. -/
def OpensCall (text : List Char) : Prop :=
  ∃ beforeParen beforeBrace inside, Blanks beforeParen ∧ Blanks beforeBrace ∧
    text = head beforeParen beforeBrace inside

/-- A closing brace and a closing parenthesis, with blanks between them. -/
def ClosesCall (text : List Char) : Prop :=
  ∃ tail, text = '}' :: tail ∧ Compat.Closes tail

/-- The number of tokens that a block takes up. -/
def Balanced.size (block : Balanced) : Nat :=
  block.inside.length + 5

/-- The head at the front of `tokens` belongs to the block that was found, the places of both being
counted from the end of the script. -/
def HoldsHead (found : Pattern.Match Token Balanced) (tokens : List Token) : Prop :=
  found.rest.length + 3 ≤ tokens.length ∧ tokens.length ≤ found.value.size + found.rest.length

/-- A script whose text shows no calls but those of its blocks. -/
@[mk_iff]
structure Aligned (script : List Char) : Prop where
  /-- What opens a call begins with the keyword as a word. -/
  opens : ∀ before after, script = before ++ after → OpensCall after → TokenAt script before .call
  /-- What closes a call begins with a brace that no literal holds. -/
  closes : ∀ before after, script = before ++ after → ClosesCall after →
    TokenAt script before .braceClose
  /-- The head of a call is that of a block, or inside one. -/
  heads : ∀ before after, tokenize script = before ++ after →
    [.call, .parenOpen, .braceOpen] <+: after.map Token.kind →
      ∃ found ∈ Balanced.pattern.findAll (tokenize script), HoldsHead found after
  /-- No brace inside a block has the end of a call behind it. -/
  inner : ∀ found ∈ Balanced.pattern.findAll (tokenize script),
    ¬ [.braceClose, .parenClose] <:+: found.value.inside.map Token.kind

/-! ## Blocks and their size -/

theorem Balanced.length_eq_of_read {tokens rest : List Token} {block : Balanced}
    (found : Balanced.read tokens = some (block, rest)) :
    tokens.length = block.size + rest.length := by
  obtain ⟨call, paren, opening, ending, rfl, -⟩ := Balanced.read_eq_some_iff.1 found
  simp only [List.length_cons, List.length_append, Balanced.size]
  omega

/-- No block begins before the first one. -/
theorem size_add_length_rest_le {tokens : List Token} {first found : Pattern.Match Token Balanced}
    (next : Balanced.pattern.findNext tokens = some first)
    (mem : found ∈ Balanced.pattern.findAll tokens) :
    found.value.size + found.rest.length ≤ first.value.size + first.rest.length := by
  rw [Pattern.findAll_of_findNext_eq_some next] at mem
  rcases List.mem_cons.1 mem with rfl | later
  · exact Nat.le_refl _
  · obtain ⟨start, le, read⟩ := Pattern.exists_read_of_mem_findAll later
    rw [Balanced.length_eq_of_read read] at le
    exact Nat.le_trans le (Nat.le_add_left _ _)

/-! ## Calls in the text and among the tokens -/

theorem opensCall_iff {text : List Char} : OpensCall text ↔ (Compat.readHead text).isSome := by
  apply Iff.intro
  · intro opens
    obtain ⟨beforeParen, beforeBrace, inside, parenAll, braceAll, rfl⟩ := opens
    rw [Compat.readHead_head parenAll braceAll]
    rfl
  · intro read
    obtain ⟨_, head⟩ := Option.isSome_iff_exists.1 read
    obtain ⟨-, beforeParen, beforeBrace, blanks, parenAll, braceAll, -, split⟩ :=
      Compat.readHead_eq_some_iff.1 head
    exact ⟨beforeParen, beforeBrace, _, parenAll, braceAll, split⟩

theorem closesCall_iff {text : List Char} :
    ClosesCall text ↔ ((Lexeme.symbol '}' text).bind Compat.readTail).isSome := by
  apply Iff.intro
  · intro closes
    obtain ⟨tail, rfl, blanks, rest, all, rfl⟩ := closes
    rw [Lexeme.symbol_eq_some_iff.2 rfl, Option.bind_some,
      Compat.readTail_eq_some_iff.2 ⟨blanks, all, rfl⟩]
    rfl
  · intro read
    obtain ⟨rest, read⟩ := Option.isSome_iff_exists.1 read
    obtain ⟨tail, brace, closed⟩ := Option.bind_eq_some_iff.1 read
    obtain ⟨blanks, all, split⟩ := Compat.readTail_eq_some_iff.1 closed
    exact ⟨tail, Lexeme.symbol_eq_some_iff.1 brace, blanks, rest, all, split⟩

theorem opensCall_of_read {text body rest : List Char}
    (found : Compat.read text = some (body, rest)) : OpensCall text := by
  obtain ⟨_, _, head, -, -⟩ := Compat.read_eq_some_iff.1 found
  exact opensCall_iff.2 (by rw [head]; rfl)

/-- A call that opens at a token has its head among the tokens. -/
theorem exists_tokens_of_opensCall {script before after : List Char}
    (place : TokenAt script before .call) (split : script = before ++ after)
    (opens : OpensCall after) :
    ∃ front call back, tokenize script = front ++ call :: back ∧
      before = front.flatMap Token.spelling ++ call.gap ∧
      [.call, .parenOpen, .braceOpen] <+: (call :: back).map Token.kind := by
  obtain ⟨front, call, rest, tokens, kind, begins, after_eq⟩ := place.exists_behind split rfl
  obtain ⟨beforeParen, beforeBrace, inside, parenAll, braceAll, rfl⟩ := opens
  have behind : rest = beforeParen ++ '(' :: (beforeBrace ++ '{' :: inside) :=
    (List.append_cancel_left after_eq).symm
  refine ⟨front, call, tokenize rest, tokens, begins, (tokenize inside).map Token.kind, ?_⟩
  rw [behind, tokenize_append_symbol parenAll (by simp), tokenize_append_symbol braceAll (by simp),
    List.map_cons, kind]
  rfl

/-- A call that closes at a token has its end among the tokens. -/
theorem exists_tokens_of_closesCall {script before after : List Char}
    (place : TokenAt script before .braceClose) (split : script = before ++ after)
    (closes : ClosesCall after) :
    ∃ front close back, tokenize script = front ++ close :: back ∧
      before = front.flatMap Token.spelling ++ close.gap ∧
      [.braceClose, .parenClose] <+: (close :: back).map Token.kind := by
  obtain ⟨front, close, rest, tokens, kind, begins, after_eq⟩ := place.exists_behind split rfl
  obtain ⟨_, rfl, beforeEnd, left, endAll, rfl⟩ := closes
  have behind : rest = beforeEnd ++ ')' :: left := (List.cons.inj after_eq).2.symm
  refine ⟨front, close, tokenize rest, tokens, begins, (tokenize left).map Token.kind, ?_⟩
  rw [behind, tokenize_append_symbol endAll (by simp), List.map_cons, kind]
  rfl

/-- What ends a call begins among the tokens inside a block and does not reach beyond them, for the
brace that closes the block is no parenthesis. -/
theorem end_isInfix_inside {front after inside rest : List Kind}
    (split : front ++ after = inside ++ .braceClose :: rest)
    (earlier : front.length < inside.length) (ends : [.braceClose, .parenClose] <+: after) :
    [.braceClose, .parenClose] <:+: inside := by
  obtain ⟨behind, rfl⟩ := ends
  rcases List.append_eq_append_iff.1 split with ⟨more, rfl, eq⟩ | ⟨more, rfl, -⟩
  · match more with
    | [] => simp at earlier
    | [kind] => simp at eq
    | kind :: next :: more =>
      simp only [List.cons_append, List.cons.injEq] at eq
      obtain ⟨rfl, rfl, -⟩ := eq
      exact ⟨front, more, by simp⟩
  · rw [List.length_append] at earlier
    omega

/-! ## Whether a script is aligned can be computed -/

section Decide

variable {α : Type} {P : List α → List α → Prop}

theorem forall_append_nil_iff :
    (∀ before after, [] = before ++ after → P before after) ↔ P [] [] := by
  apply Iff.intro
  · intro every
    exact every [] [] rfl
  · intro here before after split
    obtain ⟨rfl, rfl⟩ := List.append_eq_nil_iff.1 split.symm
    exact here

theorem forall_append_cons_iff {x : α} {xs : List α} :
    (∀ before after, x :: xs = before ++ after → P before after) ↔
      P [] (x :: xs) ∧ ∀ before after, xs = before ++ after → P (x :: before) after := by
  apply Iff.intro
  · intro every
    exact ⟨every [] _ rfl, fun before after split => every _ _ (by rw [split]; rfl)⟩
  · intro both before after split
    cases before with
    | nil =>
      rw [List.nil_append] at split
      exact split ▸ both.1
    | cons y before =>
      obtain ⟨rfl, behind⟩ := List.cons.inj split
      exact both.2 before after behind

/-- A list can be cut in two in no more ways than it has items, and one. -/
instance decidableForallAppend (P : List α → List α → Prop)
    [∀ before after, Decidable (P before after)] :
    (xs : List α) → Decidable (∀ before after, xs = before ++ after → P before after)
  | [] => decidable_of_iff _ forall_append_nil_iff.symm
  | x :: xs =>
    have := decidableForallAppend (fun before after => P (x :: before) after) xs
    decidable_of_iff _ forall_append_cons_iff.symm

end Decide

theorem tokenAt_iff {cs before : List Char} {kind : Kind} :
    TokenAt cs before kind ↔ ¬ ∀ front rest, tokenize cs = front ++ rest →
      ∀ token ∈ rest.head?, ¬ (token.kind = kind ∧
        before = front.flatMap Token.spelling ++ token.gap) := by
  apply Iff.intro
  · intro place none
    obtain ⟨front, token, back, split, same, begins⟩ := place
    exact none _ _ split token rfl ⟨same, begins⟩
  · intro some
    simp only [not_forall, not_not] at some
    obtain ⟨front, rest, split, token, mem, same, begins⟩ := some
    obtain ⟨back, rfl⟩ := List.head?_eq_some_iff.1 mem
    exact ⟨front, token, back, split, same, begins⟩

instance {cs before : List Char} {kind : Kind} : Decidable (TokenAt cs before kind) :=
  decidable_of_iff _ tokenAt_iff.symm

instance {text : List Char} : Decidable (OpensCall text) :=
  decidable_of_iff _ opensCall_iff.symm

instance {text : List Char} : Decidable (ClosesCall text) :=
  decidable_of_iff _ closesCall_iff.symm

instance {found : Pattern.Match Token Balanced} {tokens : List Token} :
    Decidable (HoldsHead found tokens) :=
  inferInstanceAs (Decidable (_ ∧ _))

instance {script : List Char} : Decidable (Aligned script) :=
  decidable_of_iff _ (aligned_iff script).symm

/-! ## The first block of an aligned script -/

namespace Aligned

variable {script : List Char}

/-- A call that opens in an aligned script has its head in a block. -/
theorem exists_found_of_opensCall (aligned : Aligned script) {before after : List Char}
    (split : script = before ++ after) (opens : OpensCall after) :
    ∃ front call back, tokenize script = front ++ call :: back ∧
      before = front.flatMap Token.spelling ++ call.gap ∧
      ∃ found ∈ Balanced.pattern.findAll (tokenize script), HoldsHead found (call :: back) := by
  obtain ⟨front, call, back, tokens, begins, kinds⟩ :=
    exists_tokens_of_opensCall (aligned.opens _ _ split opens) split opens
  exact ⟨front, call, back, tokens, begins, aligned.heads _ _ tokens kinds⟩

/-- A script without blocks by tokens has none by text. -/
theorem findNext_eq_none (aligned : Aligned script)
    (next : Balanced.pattern.findNext (tokenize script) = none) :
    Compat.pattern.findNext script = none := by
  refine Pattern.findNext_eq_none_iff.2 fun before after split => ?_
  cases read : Compat.pattern.read after with
  | none => rfl
  | some found =>
    obtain ⟨_, _, _, -, -, found, mem, -⟩ :=
      aligned.exists_found_of_opensCall split (opensCall_of_read read)
    rw [Pattern.findAll_of_findNext_eq_none next] at mem
    cases mem

variable {found : Pattern.Match Token Balanced}

/-- What is left behind the first block is aligned. -/
theorem behind (aligned : Aligned script)
    (next : Balanced.pattern.findNext (tokenize script) = some found) {front : List Token}
    {left : List Char} (cut : Cut script front left) (left_tokens : tokenize left = found.rest) :
    Aligned left where
  opens := by
    intro before after split opens
    have whole : script = (front.flatMap Token.spelling ++ before) ++ after := by
      rw [cut.split, split, List.append_assoc]
    exact (aligned.opens _ _ whole opens).of_cut cut
  closes := by
    intro before after split closes
    have whole : script = (front.flatMap Token.spelling ++ before) ++ after := by
      rw [cut.split, split, List.append_assoc]
    exact (aligned.closes _ _ whole closes).of_cut cut
  heads := by
    intro before after split kinds
    have whole : tokenize script = (front ++ before) ++ after := by
      rw [cut.tokens, split, List.append_assoc]
    obtain ⟨other, mem, holds⟩ := aligned.heads _ _ whole kinds
    rw [Pattern.findAll_of_findNext_eq_some next, ← left_tokens] at mem
    rcases List.mem_cons.1 mem with rfl | later
    · -- the tokens stand behind that block
      have after_le := congrArg List.length split
      rw [left_tokens, List.length_append] at after_le
      have apart := holds.1
      omega
    · exact ⟨other, later, holds⟩
  inner := by
    intro other mem
    rw [left_tokens] at mem
    refine aligned.inner other ?_
    rw [Pattern.findAll_of_findNext_eq_some next]
    exact List.mem_cons_of_mem found mem

/-- No call opens before the first block. -/
theorem length_place_le (aligned : Aligned script)
    (next : Balanced.pattern.findNext (tokenize script) = some found) {cs : List Char}
    (cut : Cut script found.skipped cs) (writing : Balanced.Writing cs found.value found.rest)
    {before after : List Char} (split : script = before ++ after) (opens : OpensCall after) :
    (found.skipped.flatMap Token.spelling ++ writing.call.gap).length ≤ before.length := by
  obtain ⟨front', call', back', tokens', rfl, other, mem, holds⟩ :=
    aligned.exists_found_of_opensCall split opens
  have tokens := cut.tokens
  rw [writing.cut_inside.tokens] at tokens
  refine Script.length_place_le tokens tokens' ?_
  have size : found.value.size = found.value.inside.length + 5 := rfl
  have first := size_add_length_rest_le next mem
  have inside := holds.2
  have length := congrArg List.length (tokens.symm.trans tokens')
  rw [writing.inside_tokens] at length
  simp only [List.length_append, List.length_cons, List.length_nil] at length inside
  omega

/-- Nothing is read by text before the first block. -/
theorem read_eq_none (aligned : Aligned script)
    (next : Balanced.pattern.findNext (tokenize script) = some found) {cs : List Char}
    (cut : Cut script found.skipped cs) (writing : Balanced.Writing cs found.value found.rest)
    {before after : List Char}
    (split : found.skipped.flatMap Token.spelling ++ writing.call.gap = before ++ after)
    (ne : after ≠ []) :
    Compat.read (after ++ head writing.paren.gap writing.opening.gap writing.inside) = none := by
  cases read : Compat.read (after ++ head writing.paren.gap writing.opening.gap writing.inside) with
  | none => rfl
  | some pair =>
    have whole : script =
        before ++ (after ++ head writing.paren.gap writing.opening.gap writing.inside) := by
      rw [← List.append_assoc, ← split, ← writing.script_eq cut]
    have le := aligned.length_place_le next cut writing whole (opensCall_of_read read)
    have pos := List.length_pos_iff.2 ne
    rw [split, List.length_append] at le
    omega

/-- No call closes inside the first block. -/
theorem not_closesCall (aligned : Aligned script)
    (mem : found ∈ Balanced.pattern.findAll (tokenize script)) {cs : List Char} {front : List Token}
    (cut : Cut script front cs) (writing : Balanced.Writing cs found.value found.rest)
    {before after : List Char} (split : found.value.between = before ++ after) (ne : after ≠ []) :
    ¬ ClosesCall (after ++ '}' :: (writing.ending.gap ++ ')' :: writing.left)) := by
  intro closes
  have inside_split := writing.inside_eq
  rw [split, List.append_assoc] at inside_split
  have place : TokenAt writing.inside before .braceClose := by
    have whole := cut.trans writing.cut_inside
    refine TokenAt.of_cut whole (aligned.closes _ _ ?_ closes)
    rw [List.append_assoc, ← inside_split, ← whole.split]
  obtain ⟨front', close, back, tokens, begins, kinds⟩ :=
    exists_tokens_of_closesCall place inside_split closes
  -- the brace comes before the one that closes the block
  have earlier : front'.length < found.value.inside.length := by
    by_contra later
    have le := Script.length_place_le writing.inside_tokens tokens (Nat.not_lt.1 later)
    have length : found.value.between.length = before.length + after.length := by
      rw [split, List.length_append]
    have pos := List.length_pos_iff.2 ne
    rw [← begins, ← Balanced.between] at le
    omega
  have same := congrArg (List.map Token.kind) (tokens.symm.trans writing.inside_tokens)
  rw [List.map_append, List.map_append, List.map_cons (a := found.value.close),
    writing.close_kind] at same
  refine aligned.inner found mem (end_isInfix_inside same ?_ kinds)
  simpa using earlier

/-- The search by text reads the first block as it is. -/
theorem read_head (aligned : Aligned script)
    (mem : found ∈ Balanced.pattern.findAll (tokenize script)) {cs : List Char} {front : List Token}
    (cut : Cut script front cs) (writing : Balanced.Writing cs found.value found.rest) :
    Compat.read (head writing.paren.gap writing.opening.gap writing.inside) =
      some (found.value.body, writing.left) := by
  obtain ⟨blanks, -, between_split⟩ := exists_blanks_append_skipBlanks found.value.between
  have whole : Compat.readBody (Lexeme.skipBlanks found.value.between ++
      '}' :: (writing.ending.gap ++ ')' :: writing.left)) =
        some (Lexeme.skipBlanks found.value.between, writing.left) := by
    refine Compat.readBody_eq_some_iff.2 ⟨_, rfl, writing.readTail_eq, fun before after split => ?_⟩
    rw [Compat.readTail_eq_none_iff]
    intro closes
    rw [split, ← List.append_assoc] at between_split
    exact aligned.not_closesCall mem cut writing between_split (List.cons_ne_nil '}' after)
      ⟨_, List.cons_append, closes⟩
  rw [writing.inside_eq]
  exact Compat.read_head writing.paren_blanks writing.opening_blanks whole

end Aligned

/-! ## The bodies of an aligned script -/

theorem values_compat_eq {script : List Char} (aligned : Aligned script) :
    Compat.pattern.values script =
      (Balanced.pattern.values (tokenize script)).map Balanced.body := by
  -- on what is left behind the first block; both searches go on from there
  induction length : script.length using Nat.strongRecOn generalizing script with
  | ind n ih =>
    cases next : Balanced.pattern.findNext (tokenize script) with
    | none =>
      rw [Pattern.values_of_findNext_eq_none next,
        Pattern.values_of_findNext_eq_none (aligned.findNext_eq_none next)]
      rfl
    | some found =>
      obtain ⟨cs, cut, ⟨writing⟩⟩ := Balanced.exists_writing_of_findNext next
      have mem : found ∈ Balanced.pattern.findAll (tokenize script) := by
        rw [Pattern.findAll_of_findNext_eq_some next]
        exact List.mem_cons_self
      have values : Compat.pattern.values script =
          found.value.body :: Compat.pattern.values writing.left := by
        rw [writing.script_eq cut, Pattern.values_append_of_forall_none,
          Pattern.values_of_read_eq_some (aligned.read_head mem cut writing)]
        intro before after front_eq ne
        exact aligned.read_eq_none next cut writing front_eq ne
      have shorter : writing.left.length < n := length ▸ writing.length_left_lt cut
      have left_aligned : Aligned writing.left :=
        aligned.behind next (cut.trans (writing.cut_inside.trans writing.cut_left))
          writing.left_tokens
      rw [values, Pattern.values_of_findNext_eq_some next, List.map_cons,
        ih _ shorter left_aligned rfl, writing.left_tokens]

/-- **In an aligned script the two rules find the same bodies.** -/
theorem blockBodies_compat_eq_balanced {script : List Char} (aligned : Aligned script) :
    blockBodies .compat script = blockBodies .balanced script :=
  values_compat_eq aligned

/-- A script with braces inside a block and in a literal, and with a head inside a block that calls
nothing: `see flash({ a: "}", b: {1} }) and flash ( { flash({ } x ) })`. -/
def nestedCalls : List Char :=
  "see flash(\x7b a: \"\x7d\", b: \x7b1\x7d \x7d) and flash ( \x7b flash(\x7b \x7d x ) \x7d)".toList

theorem blockBodies_nestedCalls : Aligned nestedCalls ∧
    blockBodies .compat nestedCalls = blockBodies .balanced nestedCalls ∧
    (blockBodies .balanced nestedCalls).length = 2 :=
  ⟨by decide +kernel, blockBodies_compat_eq_balanced (by decide +kernel), by decide +kernel⟩

end Flashdeck.Script.Block
