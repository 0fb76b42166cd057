/-!
# Trimming

Removing the characters of a class from one or both ends of a text. What is removed is always a
whole run: what is left is empty or begins (and ends) outside the class.
-/

namespace Flashdeck.Text

/-- The text without the run of class `p` at its end. -/
def trimEnd (p : Char → Bool) (cs : List Char) : List Char :=
  (cs.reverse.dropWhile p).reverse

/-- The text without the runs of class `p` at its two ends. -/
def trim (p : Char → Bool) (cs : List Char) : List Char :=
  trimEnd p (cs.dropWhile p)

@[simp] theorem trimEnd_nil (p : Char → Bool) : trimEnd p [] = [] := rfl

@[simp] theorem trim_nil (p : Char → Bool) : trim p [] = [] := rfl

/-- What is trimmed off the end belongs to the class. -/
theorem exists_append_trimEnd (p : Char → Bool) (cs : List Char) :
    ∃ run : List Char, (∀ c ∈ run, p c = true) ∧ cs = trimEnd p cs ++ run := by
  refine ⟨(cs.reverse.takeWhile p).reverse, ?_, ?_⟩
  · intro c mem
    have all : (cs.reverse.takeWhile p).all p = true := List.all_takeWhile
    exact List.all_eq_true.1 all c (List.mem_reverse.1 mem)
  · rw [trimEnd, ← List.reverse_append, List.takeWhile_append_dropWhile, List.reverse_reverse]

end Flashdeck.Text
