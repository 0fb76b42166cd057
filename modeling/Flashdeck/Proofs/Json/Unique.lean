import Mathlib.Data.List.Forall2
import Flashdeck.Proofs.Json.Objects
import Flashdeck.Proofs.Text.Lines

/-!
# What the text of an object tells

The text of an object tells its keys, in order, and of each value the text it was written as. The
closing quote of a text ends it wherever it stands, and a number ends where a character comes that
no number is written with; so the two objects of one text can be taken apart member by member. A
text is told from a number by its first quote, and what it stood for by its escapes.

* `writeText_append_inj`, `writeValue_append_inj`: what stands in front of a text's rest.
* `Spacing.writeObject_eq_iff`: the objects that are written as one text.
* `text?_eq_of_writeValue_eq`: values of one written form are the same text, or no text both.
-/

namespace Flashdeck.Json

open Text Text.Escape Script

/-! ## Texts and numbers -/

/-- A text between quotes tells what it was written for, whatever comes behind it. -/
theorem writeText_append_inj {first second : String} {rest rest' : List Char}
    (same : writeText first ++ rest = writeText second ++ rest') :
    first = second ∧ rest = rest' := by
  have read : ∀ (text : String) (rest : List Char), ∃ content,
      Literal.read (writeText text ++ rest) = some (.quoted content, rest) ∧
        decode content = text.toList := by
    intro text rest
    obtain ⟨pieces, written, denotes⟩ := exists_pieces_writeText text.toList
    refine ⟨content pieces, ?_, decode_content denotes⟩
    rw [writeText, ← written, List.cons_append, List.append_assoc]
    exact Literal.read_quoted (isQuotedContent_content pieces) rest
  obtain ⟨content, here, decoded⟩ := read first rest
  obtain ⟨content', there, decoded'⟩ := read second rest'
  rw [same, there, Option.some.injEq, Prod.mk.injEq, Literal.quoted.injEq] at here
  obtain ⟨rfl, rfl⟩ := here
  exact ⟨String.toList_injective (decoded.symm.trans decoded'), rfl⟩

/-- Characters that can stand behind a value: none that a number is written with, and no quote. -/
def EndsValue (rest : List Char) : Prop :=
  ∀ c ∈ rest.head?, ¬ Number.Format.json.Writes c ∧ c ≠ '"'

theorem EndsValue.cons {c : Char} (rest : List Char)
    (ends : ¬ Number.Format.json.Writes c ∧ c ≠ '"') : EndsValue (c :: rest) := by
  intro d mem
  cases mem
  exact ends

/-- No number is written with blanks. -/
theorem isBlank_eq_false_of_writes {c : Char} (writes : Number.Format.json.Writes c) :
    isBlank c = false := by
  have words : Number.Format.json.words.all (fun c => isBlank c == false) = true := by decide
  have marks : ['.', '-', '+', 'e'].all (fun c => isBlank c == false) = true := by decide
  rcases writes with mark | word
  · rw [Number.isNumberChar, Bool.or_eq_true] at mark
    rcases mark with digit | mark
    · exact isBlank_eq_false_of_isWordChar (isWordChar_of_isDigit digit)
    · exact beq_iff_eq.1 (List.all_eq_true.1 marks c (List.contains_iff_mem.1 mark))
  · exact beq_iff_eq.1 (List.all_eq_true.1 words c word)

section Values

variable {rest rest' : List Char} (ends : EndsValue rest) (ends' : EndsValue rest')

include ends

/-- A number does not begin as a text does. -/
theorem head?_writeValue_number_append (amount : Float) :
    (writeValue (.number amount) ++ rest).head? ≠ some '"' := by
  cases written : writeValue (.number amount) with
  | nil => exact fun quote => (ends '"' quote).2 rfl
  | cons c cs =>
    intro quote
    cases quote
    have writes : Number.Format.json.Writes '"' :=
      Number.Format.writes_of_mem_write (written ▸ List.mem_cons_self)
    exact absurd writes (by decide)

include ends'

theorem writeValue_number_append_inj {amount amount' : Float}
    (same : writeValue (.number amount) ++ rest = writeValue (.number amount') ++ rest') :
    writeValue (.number amount) = writeValue (.number amount') ∧ rest = rest' := by
  have cut : ∀ {amount : Float} {rest : List Char}, EndsValue rest →
      (writeValue (.number amount) ++ rest).takeWhile
          (fun c => decide (Number.Format.json.Writes c)) = writeValue (.number amount) ∧
        (writeValue (.number amount) ++ rest).dropWhile
          (fun c => decide (Number.Format.json.Writes c)) = rest := by
    intro amount rest ends
    apply Lexeme.takeWhile_append_of_stop
    · exact fun c mem => decide_eq_true (Number.Format.writes_of_mem_write mem)
    · exact fun c mem => decide_eq_false (ends c mem).1
  obtain ⟨number, behind⟩ := cut ends
  obtain ⟨number', behind'⟩ := cut ends'
  rw [same, number'] at number
  rw [same, behind'] at behind
  exact ⟨number.symm, behind.symm⟩

/-- A value ends where its text or its number does. -/
theorem writeValue_append_inj {value value' : Value}
    (same : writeValue value ++ rest = writeValue value' ++ rest') :
    writeValue value = writeValue value' ∧ rest = rest' := by
  cases value with
  | text content =>
    cases value' with
    | text content' =>
      obtain ⟨rfl, behind⟩ := writeText_append_inj same
      exact ⟨rfl, behind⟩
    | number amount' =>
      exact absurd (congrArg List.head? same).symm (head?_writeValue_number_append ends' amount')
  | number amount =>
    cases value' with
    | text content' =>
      exact absurd (congrArg List.head? same) (head?_writeValue_number_append ends amount)
    | number amount' => exact writeValue_number_append_inj ends ends' same

end Values

/-- What is written for a value tells whether it is a text, and which. -/
theorem text?_eq_of_writeValue_eq {value value' : Value}
    (same : writeValue value = writeValue value') : value.text? = value'.text? := by
  have none : EndsValue [] := fun c mem => nomatch mem
  cases value with
  | text content =>
    cases value' with
    | text content' =>
      obtain ⟨rfl, -⟩ := writeText_append_inj (congrArg (· ++ []) same)
      rfl
    | number amount' =>
      have quote := head?_writeValue_number_append none amount'
      rw [← same] at quote
      exact (quote rfl).elim
  | number amount =>
    cases value' with
    | text content' =>
      have quote := head?_writeValue_number_append none amount
      rw [same] at quote
      exact (quote rfl).elim
    | number amount' => rfl

/-! ## Members and objects -/

/-- Two members are written alike: they have one key, and one text is written for their values. -/
def Alike (member member' : String × Value) : Prop :=
  member.1 = member'.1 ∧ writeValue member.2 = writeValue member'.2

namespace Spacing

theorem writeMember_eq_of_alike (spacing : Spacing) {member member' : String × Value}
    (alike : Alike member member') : spacing.writeMember member = spacing.writeMember member' := by
  rw [writeMember, writeMember, alike.1, alike.2]

theorem writeMember_append_inj {spacing : Spacing} {member member' : String × Value}
    {rest rest' : List Char} (ends : EndsValue rest) (ends' : EndsValue rest')
    (same : spacing.writeMember member ++ rest = spacing.writeMember member' ++ rest') :
    Alike member member' ∧ rest = rest' := by
  simp only [writeMember, List.append_assoc] at same
  obtain ⟨key, behindKey⟩ := writeText_append_inj same
  obtain ⟨value, behind⟩ := writeValue_append_inj ends ends' (List.append_cancel_left behindKey)
  exact ⟨⟨key, value⟩, behind⟩

/-- The members behind the first one, to the end of the object. -/
def writeBehind (spacing : Spacing) (depth : Nat) (members : Object) : List Char :=
  members.flatMap (fun member => ',' :: (spacing.newline (depth + 1) ++ spacing.writeMember member)) ++
    (spacing.newline depth ++ ['\x7d'])

theorem writeObject_cons (spacing : Spacing) (depth : Nat) (member : String × Value)
    (members : Object) :
    spacing.writeObject depth (member :: members) =
      '\x7b' :: (spacing.newline (depth + 1) ++
        (spacing.writeMember member ++ spacing.writeBehind depth members)) := by
  rw [writeObject, enclose, if_neg (by simp), List.map_map, intercalate_map_cons, writeBehind,
    List.flatMap_def, List.flatMap_def]
  simp only [Function.comp_apply, List.append_assoc, List.singleton_append]

theorem writeBehind_cons (spacing : Spacing) (depth : Nat) (member : String × Value)
    (members : Object) :
    spacing.writeBehind depth (member :: members) =
      ',' :: (spacing.newline (depth + 1) ++
        (spacing.writeMember member ++ spacing.writeBehind depth members)) := by
  simp only [writeBehind, List.flatMap_cons, List.cons_append, List.append_assoc]

/-- The lines of a document begin with blanks, or with nothing. -/
def Indents (spacing : Spacing) : Prop :=
  ∀ depth, Blanks (spacing.newline depth)

theorem indents_compact : compact.Indents :=
  fun _ _ mem => nomatch mem

theorem indents_indented : indented.Indents := by
  intro depth c mem
  rcases List.mem_cons.1 mem with rfl | space
  · decide
  · rw [List.eq_of_mem_replicate space]
    decide

section Indents

variable {spacing : Spacing} (indents : spacing.Indents)

include indents

theorem head?_newline_append_ne {depth : Nat} {rest : List Char} {c : Char}
    (solid : isBlank c = false) (ne : rest.head? ≠ some c) :
    (spacing.newline depth ++ rest).head? ≠ some c := by
  cases line : spacing.newline depth with
  | nil => exact ne
  | cons d line' =>
    intro same
    cases same
    have blank := indents depth c (line ▸ List.mem_cons_self)
    rw [solid] at blank
    cases blank

theorem endsValue_writeBehind (depth : Nat) (members : Object) :
    EndsValue (spacing.writeBehind depth members) := by
  cases members with
  | nil =>
    intro c mem
    have brace : Number.Format.json.Writes '\x7d' → False := by decide
    refine ⟨fun writes => ?_, ?_⟩
    · refine head?_newline_append_ne indents (isBlank_eq_false_of_writes writes) ?_ mem
      rintro ⟨rfl⟩
      exact brace writes
    · rintro rfl
      exact head?_newline_append_ne indents (by decide) (by decide) mem
  | cons member members => exact .cons _ (by decide)

/-- Behind a member comes another one, or the end of the object. -/
theorem forall₂_alike_of_writeBehind_eq {depth : Nat} {members members' : Object}
    (same : spacing.writeBehind depth members = spacing.writeBehind depth members') :
    List.Forall₂ Alike members members' := by
  have last : (spacing.writeBehind depth []).head? ≠ some ',' :=
    head?_newline_append_ne indents (by decide) (by decide)
  induction members generalizing members' with
  | nil =>
    cases members' with
    | nil => exact .nil
    | cons member' members' => exact (last (congrArg List.head? same)).elim
  | cons member members ih =>
    cases members' with
    | nil => exact (last (congrArg List.head? same.symm)).elim
    | cons member' members' =>
      rw [writeBehind_cons, writeBehind_cons, List.cons.injEq, List.append_cancel_left_eq] at same
      obtain ⟨alike, behind⟩ := writeMember_append_inj (endsValue_writeBehind indents depth members)
        (endsValue_writeBehind indents depth members') same.2
      exact .cons alike (ih behind)

theorem writeObject_cons_ne_nil (depth : Nat) (member : String × Value) (members : Object) :
    spacing.writeObject depth (member :: members) ≠ spacing.writeObject depth [] := by
  intro same
  rw [writeObject_cons] at same
  have quote : (spacing.writeMember member ++ spacing.writeBehind depth members).head? ≠
      some '\x7d' := by
    rw [writeMember, writeText]
    exact fun brace => absurd (Option.some.inj brace) (by decide)
  exact head?_newline_append_ne indents (by decide) quote (congrArg List.head? (List.cons.inj same).2)

/-- **Two objects have one text exactly if their members are written alike**, each by each. -/
theorem writeObject_eq_iff {depth : Nat} {object object' : Object} :
    spacing.writeObject depth object = spacing.writeObject depth object' ↔
      List.Forall₂ Alike object object' := by
  apply Iff.intro
  · intro same
    cases object with
    | nil =>
      cases object' with
      | nil => exact .nil
      | cons member' members' =>
        exact (writeObject_cons_ne_nil indents depth member' members' same.symm).elim
    | cons member members =>
      cases object' with
      | nil => exact (writeObject_cons_ne_nil indents depth member members same).elim
      | cons member' members' =>
        rw [writeObject_cons, writeObject_cons, List.cons.injEq, List.append_cancel_left_eq] at same
        obtain ⟨alike, behind⟩ := writeMember_append_inj
          (endsValue_writeBehind indents depth members)
          (endsValue_writeBehind indents depth members') same.2
        exact .cons alike (forall₂_alike_of_writeBehind_eq indents behind)
  · intro alike
    have members : object.map spacing.writeMember = object'.map spacing.writeMember := by
      induction alike with
      | nil => rfl
      | cons here _ ih => rw [List.map_cons, List.map_cons, spacing.writeMember_eq_of_alike here, ih]
    rw [writeObject, writeObject, members]

end Indents

end Spacing

end Flashdeck.Json
