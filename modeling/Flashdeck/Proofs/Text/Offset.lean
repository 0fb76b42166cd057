import Flashdeck.Proofs.Token.Location

/-!
# Offsets

A text is cut, and a text is looked for in another one, by offsets in bytes.

* `part?_eq_some_iff`: what a cut between two offsets gives.
* `offsetOf?`: the first place of a text, and what stands before it.
-/

namespace Flashdeck.Text.Utf8

open Flashdeck.Script

/-! ## Cuts -/

theorem size_le_of_suffix {behind cs : List Char} (rear : behind <:+ cs) :
    size behind ≤ size cs := by
  obtain ⟨before, rfl⟩ := rear
  rw [size_append]
  exact Nat.le_add_left _ _

theorem size_pos {cs : List Char} (ne : cs ≠ []) : 0 < size cs := by
  cases cs with
  | nil => exact absurd rfl ne
  | cons c cs => exact Nat.lt_of_lt_of_le c.utf8Size_pos (Nat.le_add_right _ _)

/-- The text between two offsets; none where they are not in order, not within the text or not
between characters. -/
def part? (cs : List Char) (start stop : Nat) : Option (List Char) :=
  if start ≤ stop then do
    let rest ← dropBytes start cs
    let behind ← dropBytes stop cs
    some (rest.take (rest.length - behind.length))
  else none

theorem part?_eq_some_iff {cs part : List Char} {start stop : Nat} :
    part? cs start stop = some part ↔ StandsAt cs start stop part := by
  apply Iff.intro
  · intro found
    rw [part?] at found
    split at found
    · next order =>
      obtain ⟨rest, cut, found⟩ := Option.bind_eq_some_iff.1 found
      obtain ⟨behind, cut', found⟩ := Option.bind_eq_some_iff.1 found
      obtain ⟨front, split, starts⟩ := eq_append_of_dropBytes cut
      obtain ⟨front', split', stops⟩ := eq_append_of_dropBytes cut'
      obtain ⟨more, rfl, rfl⟩ : ∃ more, front' = front ++ more ∧ rest = more ++ behind := by
        rcases List.append_eq_append_iff.1 (split.symm.trans split') with found | found
        · exact found
        · obtain ⟨more, rfl, rfl⟩ := found
          rw [size_append] at starts
          have empty : ¬ 0 < size more := by omega
          obtain rfl := Decidable.not_not.1 fun ne => empty (size_pos ne)
          exact ⟨[], by simp, by simp⟩
      rw [List.length_append, Nat.add_sub_cancel, List.take_left] at found
      cases found
      exact ⟨front, behind, split, starts, by rw [← size_append, stops]⟩
    · cases found
  · rintro ⟨front, behind, split, starts, stops⟩
    have cut : dropBytes start cs = some (part ++ behind) := by
      rw [split, ← starts, dropBytes_size_append]
    have cut' : dropBytes stop cs = some behind := by
      rw [split, ← stops, ← size_append, ← List.append_assoc, dropBytes_size_append]
    rw [part?, if_pos (by omega), cut, cut']
    simp

/-- A cut from the beginning on gives a front of the text. -/
theorem part?_zero_eq_some_iff {cs part : List Char} {stop : Nat} :
    part? cs 0 stop = some part ↔ ∃ behind, cs = part ++ behind ∧ size part = stop := by
  rw [part?_eq_some_iff]
  apply Iff.intro
  · rintro ⟨front, behind, split, starts, stops⟩
    have empty : ¬ 0 < size front := by omega
    obtain rfl := Decidable.not_not.1 fun ne => empty (size_pos ne)
    exact ⟨behind, split, by simpa using stops⟩
  · rintro ⟨behind, split, rfl⟩
    exact ⟨[], behind, split, rfl, Nat.zero_add _⟩

/-! ## Where a text stands -/

/-- The number of bytes before the first place where `part` stands. -/
def offsetOf? (part : List Char) : List Char → Option Nat
  | [] => if part = [] then some 0 else none
  | c :: cs =>
    if part.isPrefixOf (c :: cs) then some 0 else (offsetOf? part cs).map (c.utf8Size + ·)

theorem not_prefix_of_offsetOf?_eq_none {part cs : List Char} (nowhere : offsetOf? part cs = none)
    {before after : List Char} (split : cs = before ++ after) : ¬ part <+: after := by
  induction cs generalizing before with
  | nil =>
    obtain ⟨-, rfl⟩ := List.append_eq_nil_iff.1 split.symm
    rw [List.prefix_nil]
    rintro rfl
    cases nowhere
  | cons c cs ih =>
    rw [offsetOf?] at nowhere
    split at nowhere
    · cases nowhere
    · next here =>
      cases before with
      | nil =>
        rw [List.isPrefixOf_iff_prefix] at here
        rwa [← List.nil_append after, ← split]
      | cons d before => exact ih (Option.map_eq_none_iff.1 nowhere) (List.cons.inj split).2

theorem exists_of_offsetOf?_eq_some {part cs : List Char} {offset : Nat}
    (first : offsetOf? part cs = some offset) :
    ∃ skipped rest, cs = skipped ++ (part ++ rest) ∧ size skipped = offset ∧
      ∀ before after, skipped = before ++ after → after ≠ [] →
        ¬ part <+: after ++ (part ++ rest) := by
  induction cs generalizing offset with
  | nil =>
    rw [offsetOf?] at first
    split at first
    · next empty =>
      cases first
      exact ⟨[], [], by rw [empty]; rfl, rfl, fun before after nil ne =>
        absurd (List.append_eq_nil_iff.1 nil.symm).2 ne⟩
    · cases first
  | cons c cs ih =>
    rw [offsetOf?] at first
    split at first
    · next here =>
      cases first
      obtain ⟨rest, split⟩ := List.isPrefixOf_iff_prefix.1 here
      exact ⟨[], rest, split.symm, rfl, fun before after nil ne =>
        absurd (List.append_eq_nil_iff.1 nil.symm).2 ne⟩
    · next other =>
      obtain ⟨further, later, rfl⟩ := Option.map_eq_some_iff.1 first
      obtain ⟨skipped, rest, rfl, rfl, earliest⟩ := ih later
      refine ⟨c :: skipped, rest, rfl, rfl, fun before after split ne => ?_⟩
      cases before with
      | nil =>
        rw [List.isPrefixOf_iff_prefix] at other
        rwa [← List.nil_append after, ← split]
      | cons d before => exact earliest before after (List.cons.inj split).2 ne

theorem not_mem_of_offsetOf?_eq_none {c : Char} {cs : List Char}
    (nowhere : offsetOf? [c] cs = none) : c ∉ cs := by
  intro mem
  obtain ⟨before, after, split⟩ := List.append_of_mem mem
  exact not_prefix_of_offsetOf?_eq_none nowhere split ⟨after, rfl⟩

theorem exists_not_mem_of_offsetOf?_eq_some {c : Char} {cs : List Char} {offset : Nat}
    (first : offsetOf? [c] cs = some offset) :
    ∃ skipped rest, cs = skipped ++ c :: rest ∧ size skipped = offset ∧ c ∉ skipped := by
  obtain ⟨skipped, rest, split, measure, earliest⟩ := exists_of_offsetOf?_eq_some first
  refine ⟨skipped, rest, split, measure, fun mem => ?_⟩
  obtain ⟨before, after, rfl⟩ := List.append_of_mem mem
  exact earliest before (c :: after) rfl (List.cons_ne_nil c after) ⟨_, rfl⟩

end Flashdeck.Text.Utf8
