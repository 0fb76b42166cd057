import Flashdeck.Number.Format

/-!
# What numbers are written with

A written number is made of digits, the point, signs and the letter of an exponent, and of the words
that its format has for what is no finite number. So a reader of reports or of JSON can pass over a
number without reading it: no quote, brace or line end is in it.

* `Format.writes_of_mem_write`: the characters of a written number.
-/

namespace Flashdeck.Number

/-- A digit or a mark of a written number. -/
def isNumberChar (c : Char) : Bool :=
  c.isDigit || ['.', '-', '+', 'e'].contains c

namespace Format

/-- The words of a format. -/
def words (format : Format) : List Char :=
  format.whole.toList ++ format.notANumber.toList ++ format.infinity.toList ++
    format.negativeInfinity.toList

/-- A character that a format has a use for. -/
def Writes (format : Format) (c : Char) : Prop :=
  isNumberChar c = true ∨ c ∈ format.words

instance (format : Format) (c : Char) : Decidable (format.Writes c) :=
  inferInstanceAs (Decidable (_ ∨ _))

variable {format : Format} {c : Char}

theorem writes_of_mem_toDigits {n : Nat} (mem : c ∈ Nat.toDigits 10 n) : format.Writes c := by
  have digit := Nat.isDigit_of_mem_toDigits (by decide) (Nat.le_refl 10) mem
  exact .inl (by rw [isNumberChar, digit, Bool.true_or])

theorem writes_of_mem_whole (mem : c ∈ format.whole.toList) : format.Writes c :=
  .inr (by simp [words, mem])

theorem writes_of_mem_layoutPositional {digits : List Char} {point : Int}
    (all : ∀ d ∈ digits, format.Writes d) (mem : c ∈ format.layoutPositional digits point) :
    format.Writes c := by
  have zero : format.Writes '0' := .inl (by decide)
  have dot : format.Writes '.' := .inl (by decide)
  unfold layoutPositional at mem
  split at mem
  · simp only [List.mem_cons, List.mem_append] at mem
    rcases mem with rfl | rfl | zeros | digit
    · exact zero
    · exact dot
    · exact List.eq_of_mem_replicate zeros ▸ zero
    · exact all c digit
  · split at mem
    · rcases List.mem_append.1 mem with front | whole
      · rcases List.mem_append.1 front with digit | zeros
        · exact all c digit
        · exact List.eq_of_mem_replicate zeros ▸ zero
      · exact writes_of_mem_whole whole
    · rcases List.mem_append.1 mem with digit | behind
      · exact all c (List.mem_of_mem_take digit)
      · rcases List.mem_cons.1 behind with rfl | digit
        · exact dot
        · exact all c (List.mem_of_mem_drop digit)

theorem writes_of_mem_layoutScientific {digits : List Char} {point : Int}
    (all : ∀ d ∈ digits, format.Writes d) (mem : c ∈ layoutScientific digits point) :
    format.Writes c := by
  have fraction : ∀ d ∈ (if digits.length ≤ 1 then [] else '.' :: digits.drop 1),
      format.Writes d := by
    intro d inside
    split at inside
    · cases inside
    · rcases List.mem_cons.1 inside with rfl | digit
      · exact .inl (by decide)
      · exact all d (List.mem_of_mem_drop digit)
  have sign : ∀ negative : Prop, [Decidable negative] →
      format.Writes (if negative then '-' else '+') := by
    intro negative _
    split <;> exact .inl (by decide)
  simp only [layoutScientific, List.mem_append, List.mem_cons] at mem
  rcases mem with (digit | inside) | rfl | rfl | exponent
  · exact all c (List.mem_of_mem_take digit)
  · exact fraction c inside
  · exact .inl (by decide)
  · exact sign _
  · exact writes_of_mem_toDigits exponent

theorem writes_of_mem_writeMagnitude {x : Magnitude} (mem : c ∈ format.writeMagnitude x) :
    format.Writes c := by
  unfold writeMagnitude at mem
  split at mem
  · rcases List.mem_cons.1 mem with rfl | whole
    · exact .inl (by decide)
    · exact writes_of_mem_whole whole
  · have all : ∀ d ∈ Nat.toDigits 10 (x.shortest format.tie).digits, format.Writes d :=
      fun d => writes_of_mem_toDigits
    unfold layout at mem
    split at mem
    · exact writes_of_mem_layoutPositional all mem
    · dsimp only at mem
      split at mem
      · exact writes_of_mem_layoutPositional all mem
      · exact writes_of_mem_layoutScientific all mem

/-- **A number is written with digits, marks and the words of its format.** -/
theorem writes_of_mem_write {x : Float} (mem : c ∈ (format.write x).toList) : format.Writes c := by
  unfold write at mem
  split at mem
  · exact .inr (by simp [words, mem])
  · split at mem
    · split at mem
      · exact .inr (by simp [words, mem])
      · exact .inr (by simp [words, mem])
    · rw [String.toList_ofList] at mem
      split at mem
      · rcases List.mem_cons.1 mem with rfl | magnitude
        · exact .inl (by decide)
        · exact writes_of_mem_writeMagnitude magnitude
      · exact writes_of_mem_writeMagnitude mem

end Format

end Flashdeck.Number
