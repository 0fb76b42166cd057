import Mathlib.Data.List.Forall2
import Flashdeck.Proofs.Text.Blank

/-!
# Line ends

Some systems end a line with a line feed, others with a carriage return and a line feed.
`withReturns` turns a text of the first kind into one of the second. A carriage return is a blank
and belongs to no other class that a line feed does not belong to, so cutting runs off a text and
adding returns to it can be done in either order, and a tidy text has no returns at all.

* `takeWhile_withReturns`, `dropWhile_withReturns`, `trim_withReturns`: runs of a class that does
  not tell a return from a feed.
* `tidy_withReturns`: the normal form of a text does not depend on its line ends.
-/

namespace Flashdeck.Text

/-- A character, and in front of a line feed a carriage return. -/
def withReturn (c : Char) : List Char :=
  if c = '\n' then ['\r', '\n'] else [c]

/-- A text with a carriage return in front of each line feed. -/
def withReturns (cs : List Char) : List Char :=
  cs.flatMap withReturn

@[simp] theorem withReturns_nil : withReturns [] = [] := rfl

theorem withReturns_feed (cs : List Char) :
    withReturns ('\n' :: cs) = '\r' :: '\n' :: withReturns cs := rfl

theorem withReturns_cons_of_ne {c : Char} (ne : c ≠ '\n') (cs : List Char) :
    withReturns (c :: cs) = c :: withReturns cs := by
  rw [withReturns, List.flatMap_cons, withReturn, if_neg ne]
  rfl

theorem withReturns_append (left right : List Char) :
    withReturns (left ++ right) = withReturns left ++ withReturns right :=
  List.flatMap_append

theorem withReturns_of_forall_ne {cs : List Char} (single : ∀ c ∈ cs, c ≠ '\n') :
    withReturns cs = cs := by
  induction cs with
  | nil => rfl
  | cons c cs ih =>
    rw [withReturns_cons_of_ne (single c List.mem_cons_self),
      ih fun d mem => single d (List.mem_cons_of_mem c mem)]

/-- Only a line feed is written as two characters, and it is the second of them. -/
theorem eq_feed_of_withReturn_eq_append {c : Char} {before after : List Char}
    (split : withReturn c = before ++ after) (before_ne : before ≠ []) (after_ne : after ≠ []) :
    after = ['\n'] := by
  cases before with
  | nil => exact (before_ne rfl).elim
  | cons d before =>
    unfold withReturn at split
    split at split
    · rw [List.cons_append, List.cons.injEq] at split
      rcases List.singleton_eq_append_iff.1 split.2 with ⟨-, eq⟩ | ⟨-, eq⟩
      · exact eq
      · exact (after_ne eq).elim
    · rw [List.cons_append, List.cons.injEq] at split
      exact (after_ne (List.append_eq_nil_iff.1 split.2.symm).2).elim

/-! ## Runs and trimming -/

section Runs

variable {p : Char → Bool} (same : p '\r' = p '\n')

include same

theorem takeWhile_withReturns (cs : List Char) :
    (withReturns cs).takeWhile p = withReturns (cs.takeWhile p) := by
  induction cs with
  | nil => rfl
  | cons c cs ih =>
    by_cases feed : c = '\n'
    · subst feed
      cases member : p '\n' with
      | false => simp [withReturns_feed, same, member]
      | true => simp [withReturns_feed, same, member, ih]
    · cases member : p c with
      | false => simp [withReturns_cons_of_ne feed, member]
      | true => simp [withReturns_cons_of_ne feed, member, ih]

/-- What stands for a character is in a run of the class as the character is, at both of its ends.
-/
theorem withReturn_inside {c : Char} (member : p c = true) : ∀ d ∈ withReturn c, p d = true := by
  unfold withReturn
  split
  · next feed =>
    subst feed
    simp [same, member]
  · simpa using member

theorem dropWhile_withReturns (cs : List Char) :
    (withReturns cs).dropWhile p = withReturns (cs.dropWhile p) := by
  refine dropWhile_flatMap (fun _ => withReturn_inside same) (fun c solid => ?_) cs
  by_cases feed : c = '\n'
  · subst feed
    exact ⟨'\r', ['\n'], rfl, same.trans solid⟩
  · exact ⟨c, [], if_neg feed, solid⟩

theorem trimEnd_withReturns (cs : List Char) :
    trimEnd p (withReturns cs) = withReturns (trimEnd p cs) := by
  refine trimEnd_flatMap (fun _ => withReturn_inside same) (fun c solid => ?_) cs
  by_cases feed : c = '\n'
  · subst feed
    exact ⟨['\r'], '\n', rfl, solid⟩
  · exact ⟨[], c, if_neg feed, solid⟩

theorem trim_withReturns (cs : List Char) :
    trim p (withReturns cs) = withReturns (trim p cs) := by
  rw [trim, dropWhile_withReturns same, trimEnd_withReturns same, trim]

end Runs

/-- A run of a class without line ends is the same one in both texts. -/
theorem takeWhile_withReturns_of_eq_false {p : Char → Bool} (feed : p '\n' = false)
    (back : p '\r' = false) (cs : List Char) :
    (withReturns cs).takeWhile p = cs.takeWhile p := by
  rw [takeWhile_withReturns (back.trans feed.symm)]
  apply withReturns_of_forall_ne
  intro c mem same
  subst same
  have member : p '\n' = true := List.all_eq_true.1 List.all_takeWhile _ mem
  rw [feed] at member
  cases member

/-! ## Lines -/

/-- A line as it is, or with a carriage return behind it. -/
def LineOrReturned (line line' : List Char) : Prop :=
  line' = line ∨ line' = line ++ ['\r']

theorem LineOrReturned.cons {line line' : List Char} (c : Char)
    (alike : LineOrReturned line line') : LineOrReturned (c :: line) (c :: line') := by
  rcases alike with rfl | rfl
  · exact .inl rfl
  · exact .inr rfl

/-- A return at the end of a line is trimmed off. -/
theorem LineOrReturned.trim_eq {line line' : List Char} (alike : LineOrReturned line line') :
    trim isBlank line' = trim isBlank line := by
  rcases alike with rfl | rfl
  · rfl
  · have blank : ∀ c ∈ ['\r'], isBlank c = true :=
      List.forall_mem_singleton.2 (by decide)
    by_cases gone : (line.dropWhile isBlank).isEmpty = true
    · have empty : line.dropWhile isBlank = [] := List.isEmpty_iff.1 gone
      rw [trim, List.dropWhile_append, if_pos gone, trim, empty]
      rfl
    · rw [trim, List.dropWhile_append, if_neg gone, trimEnd_append_of_forall blank, trim]

/-- The lines of a text with returns, one by one. -/
theorem forall₂_splitLines_withReturns (cs : List Char) :
    List.Forall₂ LineOrReturned (splitLines cs) (splitLines (withReturns cs)) := by
  induction cs with
  | nil => exact .cons (.inl rfl) .nil
  | cons c cs ih =>
    by_cases feed : c = '\n'
    · subst feed
      have returned : splitLines (withReturns ('\n' :: cs)) =
          ['\r'] :: splitLines (withReturns cs) := by
        simp [withReturns_feed, splitLines]
      rw [returned, splitLines, if_pos rfl]
      exact .cons (.inr rfl) ih
    · rw [withReturns_cons_of_ne feed, splitLines, splitLines, if_neg feed, if_neg feed]
      cases lines : splitLines cs with
      | nil => exact absurd lines (splitLines_ne_nil cs)
      | cons line others =>
        rw [lines] at ih
        cases lines' : splitLines (withReturns cs) with
        | nil => exact absurd lines' (splitLines_ne_nil _)
        | cons line' others' =>
          rw [lines'] at ih
          cases ih with
          | cons alike behind => exact .cons (alike.cons c) behind

/-- **A tidy text has no trace of its line ends.** -/
theorem tidy_withReturns (cs : List Char) : tidy (withReturns cs) = tidy cs := by
  have trimmed : (splitLines (withReturns cs)).map (trim isBlank) =
      (splitLines cs).map (trim isBlank) := by
    generalize splitLines cs = lines, splitLines (withReturns cs) = lines',
      forall₂_splitLines_withReturns cs = alike
    induction alike with
    | nil => rfl
    | cons here behind ih => rw [List.map_cons, List.map_cons, here.trim_eq, ih]
  rw [tidy, tidyLines, trimmed, tidy, tidyLines]

end Flashdeck.Text
