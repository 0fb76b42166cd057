import Flashdeck.Text.Class
import Flashdeck.Text.Escape

/-!
# Backslashes and what they take

A text falls into characters and pairs: a backslash takes the character behind it. The decoder goes
by escapes, and an escape may be longer than a pair. It still never takes a backslash apart from its
character: behind the pair an escape takes digits alone, save for a high surrogate, which takes the
pair of the low one and its digits. So the decoder keeps in step with the pairs.

* `Pairs`: texts that fall into characters and pairs, and the laws of cutting them.
* `Reaches.exists_append`: the decoder comes to no place inside a pair.
* `Takes.of_whole`: the decoder takes every pair, or takes it with the high surrogate before it.
-/

namespace Flashdeck.Text.Escape

/-- Characters other than the backslash, and backslashes that each take a character of a class. -/
inductive Pairs (p : Char → Prop) : List Char → Prop
  | nil : Pairs p []
  | plain {c : Char} {cs : List Char} (slash : c ≠ '\\') (rest : Pairs p cs) : Pairs p (c :: cs)
  | pair {c : Char} {cs : List Char} (taken : p c) (rest : Pairs p cs) : Pairs p ('\\' :: c :: cs)

/-- Every backslash takes a character. -/
abbrev Whole : List Char → Prop :=
  Pairs fun _ => True

/-- Every backslash takes a character that ends no line. -/
abbrev Paired : List Char → Prop :=
  Pairs fun c => isLineEnd c = false

/-- The decoder comes, character by character and escape by escape, from a text to the rest of
it. -/
inductive Reaches : List Char → List Char → Prop
  | here (cs : List Char) : Reaches cs cs
  | plain {c : Char} {cs rest : List Char} (slash : c ≠ '\\') (on : Reaches cs rest) :
      Reaches (c :: cs) rest
  | escape {cs rest : List Char} (on : Reaches (readEscape cs).2 rest) : Reaches ('\\' :: cs) rest

/-- The decoder takes an escape of the text, by itself or as the lower half of a pair of surrogates
whose upper half is the escape right before it. -/
inductive Takes (cs escape : List Char) : Prop
  | own (on : Reaches cs escape)
  | lower {digits : List Char} {unit : Nat} (on : Reaches cs ('\\' :: 'u' :: (digits ++ escape)))
      (read : readHex 0 4 (digits ++ escape) = some (unit, escape)) (high : IsHighSurrogate unit)
      (low : (readLowSurrogate escape).isSome = true)

/-! ## Cutting pairs -/

namespace Pairs

variable {p q : Char → Prop} {front behind : List Char}

theorem of_forall_ne {cs : List Char} (plain : ∀ c ∈ cs, c ≠ '\\') : Pairs p cs := by
  induction cs with
  | nil => exact .nil
  | cons c cs ih =>
    exact .plain (plain c List.mem_cons_self) (ih fun d mem => plain d (List.mem_cons_of_mem c mem))

theorem whole {cs : List Char} (pairs : Pairs p cs) : Whole cs := by
  induction pairs with
  | nil => exact .nil
  | plain slash _ ih => exact .plain slash ih
  | pair _ _ ih => exact .pair trivial ih

theorem cons_iff {c : Char} (slash : c ≠ '\\') (cs : List Char) :
    Pairs p (c :: cs) ↔ Pairs p cs := by
  apply Iff.intro
  · intro pairs
    cases pairs with
    | plain _ rest => exact rest
    | pair => exact (slash rfl).elim
  · exact .plain slash

theorem pair_iff (c : Char) (cs : List Char) : Pairs p ('\\' :: c :: cs) ↔ p c ∧ Pairs p cs := by
  apply Iff.intro
  · intro pairs
    cases pairs with
    | plain slash => exact (slash rfl).elim
    | pair taken rest => exact ⟨taken, rest⟩
  · intro both
    exact .pair both.1 both.2

theorem not_slash : ¬ Pairs p ['\\'] := by
  intro pairs
  cases pairs with
  | plain slash => exact slash rfl

/-- Behind whole pairs, a text has its pairs to itself. -/
theorem append_iff (first : Pairs q front) :
    Pairs p (front ++ behind) ↔ Pairs p front ∧ Pairs p behind := by
  induction first with
  | nil => exact ⟨fun rest => ⟨.nil, rest⟩, And.right⟩
  | plain slash _ ih => rw [List.cons_append, cons_iff slash, cons_iff slash, ih]
  | pair _ _ ih => rw [List.cons_append, List.cons_append, pair_iff, pair_iff, ih, and_assoc]

theorem append (first : Pairs p front) (second : Pairs p behind) : Pairs p (front ++ behind) :=
  (append_iff first).2 ⟨first, second⟩

/-- A cut leaves the pairs in front of it whole, or it parts a backslash from its character. -/
theorem cut (both : Pairs p (front ++ behind)) :
    Pairs p front ∨ ∃ core c rest, Pairs p core ∧ front = core ++ ['\\'] ∧ behind = c :: rest := by
  generalize split : front ++ behind = cs at both
  induction both generalizing front with
  | nil =>
    rw [(List.append_eq_nil_iff.1 split).1]
    exact .inl .nil
  | @plain c cs slash _ ih =>
    rcases List.append_eq_cons_iff.1 split with ⟨rfl, -⟩ | ⟨more, rfl, rfl⟩
    · exact .inl .nil
    · rcases ih rfl with whole | ⟨core, d, rest, pairs, rfl, rfl⟩
      · exact .inl (.plain slash whole)
      · exact .inr ⟨c :: core, d, rest, .plain slash pairs, rfl, rfl⟩
  | @pair c cs taken _ ih =>
    rcases List.append_eq_cons_iff.1 split with ⟨rfl, -⟩ | ⟨more, rfl, inner⟩
    · exact .inl .nil
    rcases List.append_eq_cons_iff.1 inner.symm with ⟨rfl, rfl⟩ | ⟨more, rfl, rfl⟩
    · exact .inr ⟨[], c, cs, .nil, rfl, rfl⟩
    · rcases ih rfl with whole | ⟨core, d, rest, pairs, rfl, rfl⟩
      · exact .inl (.pair taken whole)
      · exact .inr ⟨'\\' :: c :: core, d, rest, .pair taken pairs, rfl, rfl⟩

end Pairs

/-! ## What the decoder takes -/

theorem hexValue?_slash : hexValue? '\\' = none := by
  decide

theorem exists_of_readHex_eq_some {value n out : Nat} {cs rest : List Char}
    (read : readHex value n cs = some (out, rest)) :
    ∃ digits, cs = digits ++ rest ∧ ∀ c ∈ digits, c ≠ '\\' := by
  induction n generalizing value cs with
  | zero =>
    cases read
    exact ⟨[], rfl, by simp⟩
  | succ n ih =>
    cases cs with
    | nil => cases read
    | cons c cs =>
      obtain ⟨digit, value, read⟩ := Option.bind_eq_some_iff.1 read
      obtain ⟨digits, rfl, plain⟩ := ih read
      refine ⟨c :: digits, rfl, List.forall_mem_cons.2 ⟨?_, plain⟩⟩
      rintro rfl
      rw [hexValue?_slash] at value
      cases value

theorem exists_of_readLowSurrogate_eq_some {unit : Nat} {cs rest : List Char}
    (read : readLowSurrogate cs = some (unit, rest)) :
    ∃ digits, cs = '\\' :: 'u' :: (digits ++ rest) ∧ ∀ c ∈ digits, c ≠ '\\' := by
  unfold readLowSurrogate at read
  split at read
  · obtain ⟨digits, rfl, plain⟩ :=
      exists_of_readHex_eq_some (Option.filter_eq_some_iff.1 read).1
    exact ⟨digits, rfl, plain⟩
  · cases read

/-- A code unit takes nothing, or the escape of its lower half. -/
theorem readUnit_cases (unit : Nat) (cs : List Char) :
    (readUnit unit cs).2 = cs ∨ IsHighSurrogate unit ∧
      ∃ low, readLowSurrogate cs = some (low, (readUnit unit cs).2) := by
  unfold readUnit
  split
  · next high =>
    split
    · next low rest read => exact .inr ⟨high, low, read⟩
    · exact .inl rfl
  · exact .inl rfl

/-- Behind its first character, an escape takes digits, and at most one more escape. -/
theorem readEscape_cons_cases (c : Char) (cs : List Char) :
    ∃ digits rest, cs = digits ++ rest ∧ (∀ d ∈ digits, d ≠ '\\') ∧
      ((readEscape (c :: cs)).2 = rest ∨ c = 'u' ∧ ∃ unit low,
        readHex 0 4 cs = some (unit, rest) ∧ IsHighSurrogate unit ∧
        readLowSurrogate rest = some (low, (readEscape (c :: cs)).2)) := by
  unfold readEscape
  split
  · next eq => cases eq
  · next eq =>
    cases eq
    split
    · next read =>
      obtain ⟨digits, split, plain⟩ := exists_of_readHex_eq_some read
      exact ⟨digits, _, split, plain, .inl rfl⟩
    · exact ⟨[], cs, rfl, by simp, .inl rfl⟩
  · next eq =>
    cases eq
    split
    · next unit rest read =>
      obtain ⟨digits, split, plain⟩ := exists_of_readHex_eq_some read
      refine ⟨digits, rest, split, plain, ?_⟩
      rcases readUnit_cases unit rest with alone | ⟨high, low, joined⟩
      · exact .inl alone
      · exact .inr ⟨rfl, unit, low, read, high, joined⟩
    · exact ⟨[], cs, rfl, by simp, .inl rfl⟩
  · next eq =>
    cases eq
    exact ⟨[], cs, rfl, by simp, .inl rfl⟩

/-! ## In step -/

namespace Reaches

variable {cs rest : List Char}

/-- What the decoder makes of the rest is the end of what it makes of the text. -/
theorem exists_decode_eq (reaches : Reaches cs rest) :
    ∃ front, decode cs = front ++ decode rest := by
  induction reaches with
  | here => exact ⟨[], rfl⟩
  | @plain c _ _ slash _ ih =>
    obtain ⟨front, eq⟩ := ih
    exact ⟨c :: front, by rw [decode_cons_of_ne slash, eq, List.cons_append]⟩
  | @escape cs _ _ ih =>
    obtain ⟨front, eq⟩ := ih
    exact ⟨(readEscape cs).1 :: front, by rw [decode_backslash, eq, List.cons_append]⟩

/-- An escape takes whole pairs. -/
theorem exists_append_readEscape (c : Char) (cs : List Char) :
    ∃ front, Whole front ∧ '\\' :: c :: cs = front ++ (readEscape (c :: cs)).2 := by
  obtain ⟨digits, rest, rfl, plain, alone | ⟨-, -, low, -, -, joined⟩⟩ :=
    readEscape_cons_cases c cs
  · exact ⟨'\\' :: c :: digits, .pair trivial (.of_forall_ne plain), by rw [alone]; rfl⟩
  · obtain ⟨lower, split, plainLower⟩ := exists_of_readLowSurrogate_eq_some joined
    refine ⟨'\\' :: c :: (digits ++ '\\' :: 'u' :: lower), .pair trivial ?_, ?_⟩
    · exact (Pairs.of_forall_ne plain).append (.pair trivial (.of_forall_ne plainLower))
    · rw [List.cons_append, List.cons_append, List.append_assoc, List.cons_append,
        List.cons_append, ← split]

/-- The decoder comes to no place inside a pair. -/
theorem exists_append (reaches : Reaches cs rest) (ne : rest ≠ []) :
    ∃ front, Whole front ∧ cs = front ++ rest := by
  induction reaches with
  | here => exact ⟨[], .nil, rfl⟩
  | @plain c _ _ slash _ ih =>
    obtain ⟨front, whole, rfl⟩ := ih ne
    exact ⟨c :: front, .plain slash whole, rfl⟩
  | @escape cs _ _ ih =>
    obtain ⟨front, whole, eq⟩ := ih ne
    cases cs with
    | nil =>
      -- A backslash with nothing behind it is the end of the text.
      rw [readEscape, eq_comm, List.append_eq_nil_iff] at eq
      exact (ne eq.2).elim
    | cons c cs =>
      obtain ⟨taken, wholeTaken, split⟩ := exists_append_readEscape c cs
      exact ⟨taken ++ front, wholeTaken.append whole, by rw [split, eq, List.append_assoc]⟩

end Reaches

/-- Digits at the front of a text end before the first backslash. -/
theorem exists_of_digits_append {digits rest front behind : List Char}
    (plain : ∀ c ∈ digits, c ≠ '\\') (whole : Whole front)
    (split : front ++ '\\' :: behind = digits ++ rest) :
    ∃ more, Whole more ∧ front = digits ++ more ∧ rest = more ++ '\\' :: behind := by
  have wholeDigits : Whole digits := .of_forall_ne plain
  rcases List.append_eq_append_iff.1 split with ⟨more, rfl, eq⟩ | ⟨more, rfl, eq⟩
  · cases more with
    | nil => exact ⟨[], .nil, by simp, eq.symm⟩
    | cons c more =>
      cases eq
      exact (plain '\\' (by simp) rfl).elim
  · exact ⟨more, ((Pairs.append_iff wholeDigits).1 whole).2, rfl, eq⟩

/-- With whole pairs and a backslash behind it, an escape leaves whole pairs and the backslash, or
it is the upper half of a pair of surrogates and takes the backslash with the lower. -/
theorem readEscape_whole (c : Char) {front : List Char} (whole : Whole front)
    (behind : List Char) :
    (∃ more, Whole more ∧ more.length ≤ front.length ∧
      (readEscape (c :: (front ++ '\\' :: behind))).2 = more ++ '\\' :: behind) ∨
    (c = 'u' ∧ ∃ unit, readHex 0 4 (front ++ '\\' :: behind) = some (unit, '\\' :: behind) ∧
      IsHighSurrogate unit ∧ (readLowSurrogate ('\\' :: behind)).isSome = true) := by
  obtain ⟨digits, rest, split, plain, taken⟩ := readEscape_cons_cases c (front ++ '\\' :: behind)
  obtain ⟨more, wholeMore, rfl, rfl⟩ := exists_of_digits_append plain whole split
  rcases taken with alone | ⟨rfl, unit, low, read, high, joined⟩
  · exact .inl ⟨more, wholeMore, by simp, alone⟩
  cases wholeMore with
  | nil => exact .inr ⟨rfl, unit, read, high, Option.isSome_of_eq_some joined⟩
  | plain slash =>
    obtain ⟨lower, eq, -⟩ := exists_of_readLowSurrogate_eq_some joined
    exact (slash (List.cons.inj eq).1).elim
  | @pair d more _ wholeMore =>
    obtain ⟨lower, eq, plainLower⟩ := exists_of_readLowSurrogate_eq_some joined
    have split := (List.cons.inj (List.cons.inj eq).2).2
    obtain ⟨last, wholeLast, rfl, left⟩ := exists_of_digits_append plainLower wholeMore split
    refine .inl ⟨last, wholeLast, ?_, left⟩
    simp only [List.length_append, List.length_cons]
    omega

namespace Takes

variable {cs escape : List Char}

theorem plain {c : Char} (slash : c ≠ '\\') (takes : Takes cs escape) : Takes (c :: cs) escape := by
  cases takes with
  | own on => exact .own (.plain slash on)
  | lower on read high low => exact .lower (.plain slash on) read high low

theorem escape_cons (takes : Takes (readEscape cs).2 escape) : Takes ('\\' :: cs) escape := by
  cases takes with
  | own on => exact .own (.escape on)
  | lower on read high low => exact .lower (.escape on) read high low

/-- **The decoder keeps in step with the pairs.** A backslash behind whole pairs is taken as an
escape of its own, or as the lower half of a pair of surrogates. -/
theorem of_whole {front : List Char} (whole : Whole front) (behind : List Char) :
    Takes (front ++ '\\' :: behind) ('\\' :: behind) := by
  cases whole with
  | nil => exact .own (.here _)
  | plain slash rest => exact (of_whole rest behind).plain slash
  | @pair c front _ rest =>
    rcases readEscape_whole c rest behind with ⟨more, wholeMore, shorter, left⟩ |
      ⟨rfl, unit, read, high, low⟩
    · have on := of_whole wholeMore behind
      rw [← left] at on
      exact on.escape_cons
    · exact .lower (.here _) read high low
termination_by front.length
decreasing_by
  all_goals (simp only [List.length_cons]; omega)

end Takes

end Flashdeck.Text.Escape
