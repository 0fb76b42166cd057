import Mathlib.Data.List.Basic

/-!
# Expressions over text

The small part of regular expressions that a call needs, with the meaning that a backtracking
matcher gives them. A part of an expression can take several fronts of a text, and it tries them in
an order: a greedy run the longest first, a lazy gap the shortest first. `ways` lists every way in
which all the parts together read a front of a text, in the order in which they are tried, so the
first of them, `firstWay?`, is the match.

* `mem_ways_iff`: the ways are the splits of the text, each part with a front that it can take.
* `exists_firstWay?_iff`: there is a match exactly where there is a split.
* `ways_greedy_exactly`: a run in front of a character outside its class never gives any back.
-/

namespace Flashdeck.Text

/-- A part of an expression. -/
inductive Part where
  | exactly (chars : List Char)
  /-- Characters of a class, as many as there are; they are given back one by one. -/
  | greedy (p : Char → Bool)
  /-- Any characters, as few as will do. What stands there is captured. -/
  | lazy

namespace Part

/-- The fronts of class `p`, the longest first, with what is left of the text behind each. -/
def longestFirst (p : Char → Bool) : List Char → List (List Char × List Char)
  | [] => [([], [])]
  | c :: cs =>
    (if p c then (longestFirst p cs).map fun way => (c :: way.1, way.2) else []) ++ [([], c :: cs)]

/-- All fronts, the shortest first, with what is left of the text behind each. -/
def shortestFirst : List Char → List (List Char × List Char)
  | [] => [([], [])]
  | c :: cs => ([], c :: cs) :: (shortestFirst cs).map fun way => (c :: way.1, way.2)

/-- The fronts of a text that a part can take, in the order in which it tries them. -/
def fronts : Part → List Char → List (List Char × List Char)
  | .exactly chars, cs => ((chars.isPrefixOf? cs).map fun rest => (chars, rest)).toList
  | .greedy p, cs => longestFirst p cs
  | .lazy, cs => shortestFirst cs

/-- What a part captures of the front that it takes. -/
def captured : Part → List Char → List Char
  | .lazy, taken => taken
  | _, _ => []

/-- The fronts that a part can take. -/
def Takes : Part → List Char → Prop
  | .exactly chars, taken => taken = chars
  | .greedy p, taken => ∀ c ∈ taken, p c = true
  | .lazy, _ => True

theorem isPrefixOf?_eq_some_iff {front cs rest : List Char} :
    front.isPrefixOf? cs = some rest ↔ cs = front ++ rest :=
  List.isPrefixOf?_eq_some_iff_append_eq.trans eq_comm

/-- A way whose front is one character longer. -/
theorem cons_mem_map_iff {ways : List (List Char × List Char)} {c d : Char}
    {taken rest : List Char} :
    (d :: taken, rest) ∈ ways.map (fun way => (c :: way.1, way.2)) ↔
      c = d ∧ (taken, rest) ∈ ways := by
  simp only [List.mem_map, Prod.exists, Prod.mk.injEq, List.cons.injEq]
  apply Iff.intro
  · intro found
    rcases found with ⟨_, _, mem, ⟨rfl, rfl⟩, rfl⟩
    exact ⟨rfl, mem⟩
  · intro found
    rcases found with ⟨rfl, mem⟩
    exact ⟨taken, rest, mem, ⟨rfl, rfl⟩, rfl⟩

theorem mem_longestFirst_iff {p : Char → Bool} {cs taken rest : List Char} :
    (taken, rest) ∈ longestFirst p cs ↔ cs = taken ++ rest ∧ ∀ c ∈ taken, p c = true := by
  induction cs generalizing taken with
  | nil =>
    rw [longestFirst, List.mem_singleton, Prod.mk.injEq, eq_comm (a := ([] : List Char)),
      List.append_eq_nil_iff]
    apply Iff.intro
    · intro found
      rcases found with ⟨rfl, rfl⟩
      exact ⟨⟨rfl, rfl⟩, by simp⟩
    · exact fun split => split.1
  | cons c cs ih =>
    rw [longestFirst, List.mem_append, List.mem_singleton, Prod.mk.injEq]
    cases taken with
    | nil =>
      apply Iff.intro
      · intro mem
        rcases mem with longer | ⟨-, rfl⟩
        · split at longer <;> simp at longer
        · exact ⟨rfl, by simp⟩
      · exact fun split => Or.inr ⟨rfl, split.1.symm⟩
    | cons d taken =>
      apply Iff.intro
      · intro mem
        rcases mem with longer | ⟨nil, -⟩
        · split at longer
          · next first =>
            obtain ⟨rfl, mem⟩ := cons_mem_map_iff.1 longer
            obtain ⟨rfl, all⟩ := ih.1 mem
            exact ⟨rfl, List.forall_mem_cons.2 ⟨first, all⟩⟩
          · cases longer
        · cases nil
      · intro found
        rcases found with ⟨split, all⟩
        obtain ⟨first, behind⟩ := List.forall_mem_cons.1 all
        obtain ⟨rfl, rfl⟩ := List.cons.inj split
        rw [if_pos first]
        exact Or.inl (cons_mem_map_iff.2 ⟨rfl, ih.2 ⟨rfl, behind⟩⟩)

theorem mem_shortestFirst_iff {cs taken rest : List Char} :
    (taken, rest) ∈ shortestFirst cs ↔ cs = taken ++ rest := by
  induction cs generalizing taken with
  | nil =>
    rw [shortestFirst, List.mem_singleton, Prod.mk.injEq, eq_comm (a := ([] : List Char)),
      List.append_eq_nil_iff]
  | cons c cs ih =>
    rw [shortestFirst, List.mem_cons, Prod.mk.injEq]
    cases taken with
    | nil => simp [eq_comm]
    | cons d taken => rw [cons_mem_map_iff, ih]; simp

theorem mem_fronts_iff {part : Part} {cs taken rest : List Char} :
    (taken, rest) ∈ part.fronts cs ↔ cs = taken ++ rest ∧ part.Takes taken := by
  cases part with
  | exactly chars =>
    simp only [fronts, Takes, Option.mem_toList, Option.map_eq_some_iff, isPrefixOf?_eq_some_iff,
      Prod.mk.injEq]
    apply Iff.intro
    · intro found
      rcases found with ⟨left, rfl, rfl, rfl⟩
      exact ⟨rfl, rfl⟩
    · intro found
      rcases found with ⟨rfl, rfl⟩
      exact ⟨rest, rfl, rfl, rfl⟩
  | greedy p => exact mem_longestFirst_iff
  | lazy => simp [fronts, Takes, mem_shortestFirst_iff]

end Part

/-- Parts, to be matched one behind the other. -/
abbrev Expression := List Part

namespace Expression

/-- The ways to read an expression at the front of a text, in the order in which they are tried:
what each captures, and what it leaves. -/
def ways : Expression → List Char → List (List Char × List Char)
  | [], cs => [([], cs)]
  | part :: parts, cs =>
    (part.fronts cs).flatMap fun front =>
      (ways parts front.2).map fun way => (part.captured front.1 ++ way.1, way.2)

/-- The way that a backtracking matcher settles on. -/
def firstWay? (parts : Expression) (cs : List Char) : Option (List Char × List Char) :=
  (ways parts cs).head?

/-- A split of a text among the parts of an expression. -/
inductive Splits : Expression → List Char → List Char → List Char → Prop
  | nil {rest : List Char} : Splits [] rest [] rest
  | cons {part : Part} {parts : Expression} {taken left captured rest : List Char}
      (takes : part.Takes taken) (others : Splits parts left captured rest) :
      Splits (part :: parts) (taken ++ left) (part.captured taken ++ captured) rest

theorem splits_nil_iff {cs captured rest : List Char} :
    Splits [] cs captured rest ↔ captured = [] ∧ cs = rest := by
  apply Iff.intro
  · intro split
    cases split
    exact ⟨rfl, rfl⟩
  · intro found
    rcases found with ⟨rfl, rfl⟩
    exact .nil

theorem splits_exactly_iff {chars cs captured rest : List Char} {parts : Expression} :
    Splits (.exactly chars :: parts) cs captured rest ↔
      ∃ left, cs = chars ++ left ∧ Splits parts left captured rest := by
  apply Iff.intro
  · intro split
    cases split with
    | cons takes others =>
      rw [Part.Takes] at takes
      subst takes
      exact ⟨_, rfl, others⟩
  · intro found
    rcases found with ⟨left, rfl, others⟩
    have takes : (Part.exactly chars).Takes chars := rfl
    exact .cons takes others

theorem splits_greedy_iff {p : Char → Bool} {cs captured rest : List Char} {parts : Expression} :
    Splits (.greedy p :: parts) cs captured rest ↔
      ∃ run left, (∀ c ∈ run, p c = true) ∧ cs = run ++ left ∧
        Splits parts left captured rest := by
  apply Iff.intro
  · intro split
    cases split with
    | cons takes others => exact ⟨_, _, takes, rfl, others⟩
  · intro found
    rcases found with ⟨run, left, all, rfl, others⟩
    have takes : (Part.greedy p).Takes run := all
    exact .cons takes others

theorem splits_lazy_iff {cs captured rest : List Char} {parts : Expression} :
    Splits (.lazy :: parts) cs captured rest ↔
      ∃ gap left behind, cs = gap ++ left ∧ captured = gap ++ behind ∧
        Splits parts left behind rest := by
  apply Iff.intro
  · intro split
    cases split with
    | cons _ others => exact ⟨_, _, _, rfl, rfl, others⟩
  · intro found
    rcases found with ⟨gap, left, behind, rfl, rfl, others⟩
    have takes : Part.lazy.Takes gap := trivial
    exact .cons takes others

theorem mem_ways_iff {parts : Expression} {cs captured rest : List Char} :
    (captured, rest) ∈ ways parts cs ↔ Splits parts cs captured rest := by
  induction parts generalizing cs captured with
  | nil =>
    apply Iff.intro
    · intro mem
      rw [ways, List.mem_singleton] at mem
      cases mem
      exact .nil
    · intro split
      cases split
      exact List.mem_singleton_self _
  | cons part parts ih =>
    simp only [ways, List.mem_flatMap, List.mem_map, Prod.exists, Prod.mk.injEq]
    apply Iff.intro
    · intro found
      rcases found with ⟨taken, left, front, behind, rest, way, rfl, rfl⟩
      obtain ⟨rfl, takes⟩ := Part.mem_fronts_iff.1 front
      exact .cons takes (ih.1 way)
    · intro split
      cases split with
      | cons takes others =>
        exact ⟨_, _, Part.mem_fronts_iff.2 ⟨rfl, takes⟩, _, _, ih.2 others, rfl, rfl⟩

/-- There is a match exactly where there is a split. -/
theorem exists_firstWay?_iff {parts : Expression} {cs : List Char} :
    (∃ captured rest, firstWay? parts cs = some (captured, rest)) ↔
      ∃ captured rest, Splits parts cs captured rest := by
  unfold firstWay?
  apply Iff.intro
  · intro found
    rcases found with ⟨captured, rest, first⟩
    exact ⟨captured, rest, mem_ways_iff.1 (List.mem_of_head? first)⟩
  · intro found
    rcases found with ⟨captured, rest, split⟩
    have mem := mem_ways_iff.2 split
    cases found : ways parts cs with
    | nil =>
      rw [found] at mem
      cases mem
    | cons way others => exact ⟨way.1, way.2, rfl⟩

/-! ## Parts that do not capture -/

@[simp] theorem ways_exactly (chars : List Char) (parts : Expression) (cs : List Char) :
    ways (.exactly chars :: parts) cs = ((chars.isPrefixOf? cs).map (ways parts)).getD [] := by
  cases read : chars.isPrefixOf? cs <;> simp [ways, Part.fronts, Part.captured, read]

theorem ways_exactly_cons_of_ne {c d : Char} (ne : d ≠ c) (chars : List Char)
    (parts : Expression) (cs : List Char) :
    ways (.exactly (c :: chars) :: parts) (d :: cs) = [] := by
  simp [List.isPrefixOf?, Ne.symm ne]

/-- A run takes the front character first, and stays empty when all that fails. -/
theorem ways_greedy_cons {p : Char → Bool} {c : Char} (first : p c = true) (parts : Expression)
    (cs : List Char) :
    ways (.greedy p :: parts) (c :: cs) = ways (.greedy p :: parts) cs ++ ways parts (c :: cs) := by
  simp [ways, Part.fronts, Part.captured, Part.longestFirst, first, List.flatMap_map]

theorem ways_greedy_of_stop {p : Char → Bool} {cs : List Char}
    (stop : ∀ c ∈ cs.head?, p c = false) (parts : Expression) :
    ways (.greedy p :: parts) cs = ways parts cs := by
  cases cs with
  | nil => simp [ways, Part.fronts, Part.captured, Part.longestFirst]
  | cons c cs =>
    have ends : p c = false := stop c rfl
    simp [ways, Part.fronts, Part.captured, Part.longestFirst, ends]

/-- In front of a character outside its class a run gives nothing back. -/
theorem ways_greedy_exactly {p : Char → Bool} {c : Char} (outside : p c = false)
    (chars : List Char) (parts : Expression) (cs : List Char) :
    ways (.greedy p :: .exactly (c :: chars) :: parts) cs =
      ways (.exactly (c :: chars) :: parts) (cs.dropWhile p) := by
  induction cs with
  | nil => exact ways_greedy_of_stop (by simp) _
  | cons d cs ih =>
    by_cases first : p d = true
    · have ne : d ≠ c := by
        intro same
        subst same
        rw [outside] at first
        cases first
      rw [ways_greedy_cons first, ways_exactly_cons_of_ne ne, List.append_nil, ih,
        List.dropWhile_cons_of_pos first]
    · have ends : p d = false := by simpa using first
      rw [ways_greedy_of_stop (by simpa using ends),
        List.dropWhile_cons_of_neg (by simpa using first)]

/-- A gap that may be empty is empty first, and then takes the front character. -/
theorem ways_lazy_cons (parts : Expression) (c : Char) (cs : List Char) :
    ways (.lazy :: parts) (c :: cs) =
      ways parts (c :: cs) ++ (ways (.lazy :: parts) cs).map fun way => (c :: way.1, way.2) := by
  simp [ways, Part.fronts, Part.captured, Part.shortestFirst, List.flatMap_map, List.map_flatMap,
    Function.comp_def]

/-! ## The first way, part by part -/

theorem firstWay?_exactly (chars : List Char) (parts : Expression) (cs : List Char) :
    firstWay? (.exactly chars :: parts) cs = (chars.isPrefixOf? cs).bind (firstWay? parts) := by
  cases read : chars.isPrefixOf? cs <;> simp [firstWay?, read]

theorem firstWay?_greedy_exactly {p : Char → Bool} {c : Char} (outside : p c = false)
    (chars : List Char) (parts : Expression) (cs : List Char) :
    firstWay? (.greedy p :: .exactly (c :: chars) :: parts) cs =
      firstWay? (.exactly (c :: chars) :: parts) (cs.dropWhile p) := by
  rw [firstWay?, ways_greedy_exactly outside, firstWay?]

theorem firstWay?_greedy_cons {p : Char → Bool} {c : Char} (first : p c = true)
    (parts : Expression) (cs : List Char) :
    firstWay? (.greedy p :: parts) (c :: cs) =
      (firstWay? (.greedy p :: parts) cs).or (firstWay? parts (c :: cs)) := by
  rw [firstWay?, ways_greedy_cons first, List.head?_append, firstWay?, firstWay?]

theorem firstWay?_lazy_cons (parts : Expression) (c : Char) (cs : List Char) :
    firstWay? (.lazy :: parts) (c :: cs) =
      (firstWay? parts (c :: cs)).or
        ((firstWay? (.lazy :: parts) cs).map fun way => (c :: way.1, way.2)) := by
  rw [firstWay?, ways_lazy_cons, List.head?_append, List.head?_map, firstWay?, firstWay?]

end Expression

end Flashdeck.Text
