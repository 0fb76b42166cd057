import Flashdeck.Script.Token

/-!
# Tokens and their places

`locate` puts every token at its place in the script, in bytes. What stands in the script between
two tokens is therefore found in two ways: cut out of the script by the places, or spelled by the
tokens in between. `Locates.standsAt` says that both give the same text.

* `locate_append`, `exists_of_locate_eq_append`: places of the tokens behind others.
* `locates_tokenize`: the tokens of a script are located in it.
-/

namespace Flashdeck.Script

open Flashdeck.Text

/-- The text of `script` between two places. -/
def StandsAt (script : List Char) (start stop : Nat) (between : List Char) : Prop :=
  ∃ front back, script = front ++ (between ++ back) ∧ Utf8.size front = start ∧
    Utf8.size front + Utf8.size between = stop

/-- Between two places stands one text only. -/
theorem StandsAt.unique {script between between' : List Char} {start stop : Nat}
    (left : StandsAt script start stop between) (right : StandsAt script start stop between') :
    between = between' := by
  obtain ⟨front, back, split, starts, stops⟩ := left
  obtain ⟨front', back', split', starts', stops'⟩ := right
  have behind : between ++ back = between' ++ back' := by
    have cut := Utf8.dropBytes_size_append front (between ++ back)
    have cut' := Utf8.dropBytes_size_append front' (between' ++ back')
    rw [← split, starts] at cut
    rw [← split', starts', cut] at cut'
    exact Option.some.inj cut'
  have rest : back = back' := by
    have cut := Utf8.dropBytes_size_append between back
    have cut' := Utf8.dropBytes_size_append between' back'
    have same : Utf8.size between = Utf8.size between' := by omega
    rw [← behind, ← same, cut] at cut'
    exact Option.some.inj cut'
  rw [rest] at behind
  exact List.append_cancel_right behind

/-- The number of bytes before the end of a token at its place. -/
def endOf (item : Nat × Token) : Nat :=
  item.1 + Utf8.size item.2.text

theorem map_snd_locate (position : Nat) (tokens : List Token) :
    (locate position tokens).map Prod.snd = tokens := by
  induction tokens generalizing position with
  | nil => rfl
  | cons token tokens ih => rw [locate, List.map_cons, ih]

theorem locate_append (position : Nat) (before after : List Token) :
    locate position (before ++ after) = locate position before ++
      locate (position + Utf8.size (before.flatMap Token.spelling)) after := by
  induction before generalizing position with
  | nil => rfl
  | cons token before ih =>
    rw [List.cons_append, locate, locate, ih, List.flatMap_cons, Utf8.size_append, Token.spelling,
      Utf8.size_append, List.cons_append]
    simp only [Nat.add_assoc]

/-- Located tokens that split have split before they were located. -/
theorem eq_locate_of_locate_eq_append {position : Nat} {tokens : List Token}
    {front back : List (Nat × Token)} (split : locate position tokens = front ++ back) :
    tokens = front.map Prod.snd ++ back.map Prod.snd ∧
      front = locate position (front.map Prod.snd) ∧
        back = locate (position + Utf8.size ((front.map Prod.snd).flatMap Token.spelling))
          (back.map Prod.snd) := by
  have tokens_split : tokens = front.map Prod.snd ++ back.map Prod.snd := by
    rw [← List.map_append, ← split, map_snd_locate]
  have length : (locate position (front.map Prod.snd)).length = front.length := by
    have mapped := congrArg List.length (map_snd_locate position (front.map Prod.snd))
    simpa using mapped
  rw [tokens_split, locate_append] at split
  obtain ⟨first, second⟩ := List.append_inj split length
  exact ⟨tokens_split, first.symm, second.symm⟩

theorem exists_of_locate_eq_append {position : Nat} {tokens : List Token}
    {front back : List (Nat × Token)} (split : locate position tokens = front ++ back) :
    ∃ before after, tokens = before ++ after ∧
      back = locate (position + Utf8.size (before.flatMap Token.spelling)) after := by
  obtain ⟨tokens_split, -, located⟩ := eq_locate_of_locate_eq_append split
  exact ⟨_, _, tokens_split, located⟩

/-- The tokens follow each other in the script from `position` on. -/
def Locates (script : List Char) (position : Nat) (tokens : List Token) : Prop :=
  ∃ front tail, script = front ++ (tokens.flatMap Token.spelling ++ tail) ∧
    Utf8.size front = position

theorem locates_tokenize (script : List Char) : Locates script 0 (tokenize script) := by
  obtain ⟨tail, -, spelled⟩ := exists_spelling_append script
  exact ⟨[], tail, spelled, rfl⟩

theorem Locates.of_append {script : List Char} {position : Nat} {before after : List Token}
    (located : Locates script position (before ++ after)) :
    Locates script (position + Utf8.size (before.flatMap Token.spelling)) after := by
  obtain ⟨front, tail, split, starts⟩ := located
  refine ⟨front ++ before.flatMap Token.spelling, tail, ?_, ?_⟩
  · rw [split, List.flatMap_append, List.append_assoc, List.append_assoc]
  · rw [Utf8.size_append, starts]

theorem Locates.of_cons {script : List Char} {position : Nat} {token : Token} {tokens : List Token}
    (located : Locates script position (token :: tokens)) :
    Locates script (position + Utf8.size token.gap + Utf8.size token.text) tokens := by
  have split : Locates script position ([token] ++ tokens) := located
  have behind := split.of_append
  rwa [List.flatMap_singleton, Token.spelling, Utf8.size_append, ← Nat.add_assoc] at behind

/-- What stands between a token and a later one is what the tokens in between were written as, and
the blanks before the later one. -/
theorem Locates.standsAt {script : List Char} {position : Nat} {inside rest : List Token}
    {close : Token} (located : Locates script position (inside ++ close :: rest)) :
    StandsAt script position
      (position + Utf8.size (inside.flatMap Token.spelling) + Utf8.size close.gap)
      (inside.flatMap Token.spelling ++ close.gap) := by
  obtain ⟨front, tail, split, starts⟩ := located
  refine ⟨front, close.text ++ (rest.flatMap Token.spelling ++ tail), ?_, starts, ?_⟩
  · rw [split, List.flatMap_append, List.flatMap_cons, Token.spelling]
    simp only [List.append_assoc]
  · rw [Utf8.size_append, starts, Nat.add_assoc]

end Flashdeck.Script
