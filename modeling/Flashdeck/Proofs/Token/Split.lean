import Flashdeck.Proofs.Token.Plain

/-!
# Tokens and the text behind them

Every place between two tokens of a text is a place in the text, and the tokens behind it are
those of the text that is left there. A keyword, a parenthesis and a brace are written in one way
only, so such tokens show where the text has them.

* `Token.WellSpelled`, `wellSpelled_of_mem_tokenize`: how a token of a text is written.
* `Cut`, `exists_of_tokenize_eq_append`: a text splits where its tokens split.
* `tokenize_append_symbol`, `tokenize_head`: the token of a symbol behind blanks, and those of the
  head of a block.
* `TokenAt.exists_behind`: a token of a given kind, seen in the text at its place.
* `TokenAt.of_cut`: a token that begins behind a cut is one of what is left there.
-/

namespace Flashdeck.Script

open Flashdeck.Text

/-- How a token of the kind is written, where that leaves no choice. -/
def Kind.text? : Kind → Option (List Char)
  | .call => some Lexeme.keyword
  | .parenOpen => some ['(']
  | .parenClose => some [')']
  | .braceOpen => some ['{']
  | .braceClose => some ['}']
  | .colon => some [':']
  | .comma => some [',']
  | _ => none

namespace Token

theorem text?_kindOfChar {c : Char} {text : List Char} (mem : text ∈ (kindOfChar c).text?) :
    text = [c] := by
  unfold kindOfChar at mem
  split at mem
  all_goals cases mem
  all_goals rfl

theorem readText_text_eq {c : Char} {cs text : List Char}
    (mem : text ∈ (readText c cs).1.text?) : (readText c cs).2.1 = text := by
  unfold readText at mem ⊢
  split at mem
  · cases mem
  · split at mem
    · cases mem
    · split at mem
      · cases mem
      · next digit =>
        split at mem
        · next word =>
          rw [if_neg digit, if_pos word]
          unfold kindOfWord at mem
          split at mem
          · next keyword =>
            cases mem
            exact keyword
          · cases mem
        · next word =>
          rw [if_neg digit, if_neg word]
          exact (text?_kindOfChar mem).symm

end Token

/-- Blanks and then a text, the only one of its kind where there is only one. -/
structure Token.WellSpelled (token : Token) : Prop where
  blanks : Blanks token.gap
  text_ne : token.text ≠ []
  text_eq : ∀ text ∈ token.kind.text?, token.text = text

/-- A text cut between two of its tokens: `front` comes before the cut, and the tokens of `rest`
behind it. -/
structure Cut (cs : List Char) (front : List Token) (rest : List Char) : Prop where
  split : cs = front.flatMap Token.spelling ++ rest
  tokens : tokenize cs = front ++ tokenize rest

section Cut

variable {cs mid rest : List Char} {front front' : List Token}

theorem Cut.refl (cs : List Char) : Cut cs [] cs :=
  ⟨rfl, rfl⟩

theorem Cut.trans (first : Cut cs front mid) (second : Cut mid front' rest) :
    Cut cs (front ++ front') rest where
  split := by rw [first.split, second.split, List.flatMap_append, List.append_assoc]
  tokens := by rw [first.tokens, second.tokens, List.append_assoc]

end Cut

/-- The first token of a text, and what is left of the text behind it. -/
theorem exists_of_tokenize_eq_cons {cs : List Char} {token : Token} {tokens : List Token}
    (split : tokenize cs = token :: tokens) :
    token.WellSpelled ∧ ∃ rest, Cut cs [token] rest ∧ tokenize rest = tokens := by
  cases skip : Lexeme.skipBlanks cs with
  | nil =>
    rw [tokenize_of_skipBlanks_eq_nil skip] at split
    cases split
  | cons c behind =>
    have first := tokenize_of_skipBlanks_eq_cons skip
    rw [first] at split
    cases split
    have blanks : Blanks (cs.takeWhile isBlank) := List.all_eq_true.1 List.all_takeWhile
    refine ⟨⟨blanks, Token.readText_ne_nil c behind, fun text mem => Token.readText_text_eq mem⟩,
      (Token.readText c behind).2.2, ⟨?_, first⟩, rfl⟩
    rw [List.flatMap_singleton, Token.spelling, List.append_assoc, Token.readText_append, ← skip]
    exact List.takeWhile_append_dropWhile.symm

theorem wellSpelled_of_mem_tokenize {cs : List Char} {token : Token} (mem : token ∈ tokenize cs) :
    token.WellSpelled := by
  generalize split : tokenize cs = tokens at mem
  induction tokens generalizing cs with
  | nil => cases mem
  | cons first tokens ih =>
    obtain ⟨spelled, rest, -, rest_tokens⟩ := exists_of_tokenize_eq_cons split
    rcases List.mem_cons.1 mem with rfl | later
    · exact spelled
    · exact ih rest_tokens later

/-- The text splits where its tokens split. -/
theorem exists_of_tokenize_eq_append {cs : List Char} {before after : List Token}
    (split : tokenize cs = before ++ after) :
    ∃ rest, Cut cs before rest ∧ tokenize rest = after := by
  induction before generalizing cs with
  | nil => exact ⟨cs, .refl cs, split⟩
  | cons token before ih =>
    obtain ⟨-, behind, first, tokens⟩ := exists_of_tokenize_eq_cons split
    obtain ⟨rest, cut, rest_tokens⟩ := ih tokens
    exact ⟨rest, first.trans cut, rest_tokens⟩

/-- A symbol behind blanks is the first token, whatever follows it. -/
theorem tokenize_append_symbol {gap : List Char} (all : Blanks gap) {c : Char}
    (symbol : c = '(' ∨ c = ')' ∨ c = '{' ∨ c = '}') (rest : List Char) :
    tokenize (gap ++ c :: rest) = ⟨gap, Token.kindOfChar c, [c]⟩ :: tokenize rest := by
  rcases symbol with rfl | rfl | rfl | rfl
  · exact tokenize_append_cons all (by decide) rest
  · exact tokenize_append_cons all (by decide) rest
  · exact tokenize_append_cons all (by decide) rest
  · exact tokenize_append_cons all (by decide) rest

/-- The head of a block behind blanks is three tokens. -/
theorem tokenize_head {gap : List Char} (all : Blanks gap) (cs : List Char) :
    tokenize (gap ++ (Lexeme.keyword ++ '(' :: '{' :: cs)) =
      ⟨gap, .call, Lexeme.keyword⟩ :: ⟨[], .parenOpen, ['(']⟩ :: ⟨[], .braceOpen, ['{']⟩ ::
        tokenize cs := by
  have call := tokenize_append_cons all (by decide : isBlank 'f' = false)
    ('l' :: 'a' :: 's' :: 'h' :: '(' :: '{' :: cs)
  have paren := tokenize_append_cons .nil (by decide : isBlank '(' = false) ('{' :: cs)
  have brace := tokenize_append_cons .nil (by decide : isBlank '{' = false) cs
  exact call.trans (congrArg (_ :: ·) (paren.trans (congrArg (_ :: ·) brace)))

/-! ## The places of tokens -/

/-- A token of the kind begins in the text where `before` ends. -/
def TokenAt (cs before : List Char) (kind : Kind) : Prop :=
  ∃ front token back, tokenize cs = front ++ token :: back ∧ token.kind = kind ∧
    before = front.flatMap Token.spelling ++ token.gap

/-- What a token of the kind is written as begins the text at its place, and the tokens behind it
are those of what follows. -/
theorem TokenAt.exists_behind {cs before after text : List Char} {kind : Kind}
    (place : TokenAt cs before kind) (split : cs = before ++ after) (mem : text ∈ kind.text?) :
    ∃ front token rest, tokenize cs = front ++ token :: tokenize rest ∧ token.kind = kind ∧
      before = front.flatMap Token.spelling ++ token.gap ∧ after = text ++ rest := by
  obtain ⟨front, token, back, tokens, rfl, rfl⟩ := place
  have mem_tokens : token ∈ tokenize cs := by simp [tokens]
  have spelled := wellSpelled_of_mem_tokenize mem_tokens
  rw [List.append_cons] at tokens
  obtain ⟨rest, cut, rfl⟩ := exists_of_tokenize_eq_append tokens
  rw [← List.append_cons] at tokens
  refine ⟨front, token, rest, tokens, rfl, rfl, ?_⟩
  have whole := split.symm.trans cut.split
  rw [List.flatMap_append, List.flatMap_singleton, Token.spelling, spelled.text_eq text mem,
    ← List.append_assoc, List.append_assoc _ text] at whole
  exact List.append_cancel_left whole

/-- Of two tokens, the one that comes later begins later. -/
theorem length_place_le {tokens front front' back back' : List Token} {token token' : Token}
    (split : tokens = front ++ token :: back) (split' : tokens = front' ++ token' :: back')
    (le : front.length ≤ front'.length) :
    (front.flatMap Token.spelling ++ token.gap).length ≤
      (front'.flatMap Token.spelling ++ token'.gap).length := by
  rw [split] at split'
  rcases List.append_eq_append_iff.1 split' with ⟨more, rfl, eq⟩ | ⟨more, rfl, eq⟩
  · cases more with
    | nil =>
      obtain ⟨rfl, -⟩ := List.cons.inj eq
      simp
    | cons first more =>
      obtain ⟨rfl, -⟩ := List.cons.inj eq
      simp only [List.flatMap_append, List.flatMap_cons, Token.spelling, List.length_append]
      omega
  · have empty : more = [] := by
      rw [List.length_append] at le
      exact List.length_eq_zero_iff.1 (by omega)
    subst empty
    obtain ⟨rfl, -⟩ := List.cons.inj eq
    simp

/-- A token that begins behind a cut is a token of what is left there. -/
theorem TokenAt.of_cut {cs rest before : List Char} {front : List Token} {kind : Kind}
    (cut : Cut cs front rest) (place : TokenAt cs (front.flatMap Token.spelling ++ before) kind) :
    TokenAt rest before kind := by
  obtain ⟨first, token, back, split, same, begins⟩ := place
  have mem : token ∈ tokenize cs := by simp [split]
  have spelled := wellSpelled_of_mem_tokenize mem
  rcases List.append_eq_append_iff.1 (split.symm.trans cut.tokens) with
    ⟨more, rfl, eq⟩ | ⟨more, rfl, eq⟩
  · cases more with
    | nil =>
      rw [List.append_nil, List.append_cancel_left_eq] at begins
      exact ⟨[], token, back, eq.symm, same, begins⟩
    | cons other more =>
      -- the token would have to end before the cut and begin behind it
      obtain ⟨rfl, -⟩ := List.cons.inj eq
      have text_pos := List.length_pos_iff.2 spelled.text_ne
      have length := congrArg List.length begins
      simp only [List.flatMap_append, List.flatMap_cons, Token.spelling,
        List.length_append] at length
      omega
  · rw [List.flatMap_append, List.append_assoc, List.append_cancel_left_eq] at begins
    exact ⟨more, token, back, eq, same, begins⟩

end Flashdeck.Script
