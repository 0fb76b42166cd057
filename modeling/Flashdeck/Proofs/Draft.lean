import Flashdeck.Proofs.Card
import Flashdeck.Proofs.Property
import Flashdeck.Proofs.Text.Escape
import Flashdeck.Proofs.Text.Lines
import Flashdeck.Script.Block

/-!
# Drafts, and how they are written

A draft is a card before it is a script: keys and values in order, with nothing that a script could
not say and nothing that a card could not hold. Writing a draft gives one block of a script. The
blanks of its texts are written as escapes, so that tidying finds no lines to trim; where the first
closing brace ends a block, closing braces are escaped too.

* `Draft.Content.read_write`, `Draft.Entry.read_write`: what was written is read back.
* `Draft.entries_fieldsOfBody_writeBody`: the body of a written draft gives the fields of the draft.
-/

namespace Flashdeck

open Text Script

/-- A value as an author gives it: any text, or the digits and dots of a numeral. -/
inductive Draft.Content where
  | text (content : String)
  | numeral (digits : List Char) (ne : digits ≠ []) (all : ∀ c ∈ digits, isNumeralChar c = true)

/-- A key, which is a word, with its value. -/
structure Draft.Entry where
  key : String
  content : Draft.Content
  ne : key.toList ≠ []
  word : ∀ c ∈ key.toList, isWordChar c = true

namespace Draft

/-- The value that a card holds. -/
def Content.value : Content → Value
  | text content => .text content
  | numeral digits _ _ => .number (Number.ofNumeral digits)

/-- The field that a card holds. -/
def Entry.field (entry : Entry) : String × Value :=
  (entry.key, entry.content.value)

end Draft

/-- Entries of distinct keys, among them both faces with truthy values. -/
structure Draft where
  entries : List Draft.Entry
  nodup_keys : (entries.map Draft.Entry.key).Nodup
  faces : ∀ face : Face,
    ∃ value, (face.key, value) ∈ entries.map Draft.Entry.field ∧ value.isTruthy = true

namespace Draft

/-- The characters that are written by their digits. -/
def hides : BlockMode → Char → Bool
  | .compat, c => isBlank c || c == '}'
  | .balanced, c => isBlank c

/-- A text between double quotes, a numeral as it is. -/
def Content.write (mode : BlockMode) : Content → List Char
  | text content => '"' :: (Escape.write (hides mode) content.toList ++ ['"'])
  | numeral digits _ _ => digits

/-- A key and its value. -/
def Entry.write (mode : BlockMode) (entry : Entry) : List Char :=
  entry.key.toList ++ ':' :: ' ' :: entry.content.write mode

/-- The properties of a draft, separated by commas. -/
def writeBody (mode : BlockMode) (draft : Draft) : List Char :=
  [',', ' '].intercalate (draft.entries.map (Entry.write mode))

/-- A draft as a block. -/
def write (mode : BlockMode) (draft : Draft) : List Char :=
  Lexeme.keyword ++ '(' :: '{' :: ' ' :: (draft.writeBody mode ++ [' ', '}', ')'])

/-- Drafts as a script, one block to a line. -/
def writeDeck (mode : BlockMode) (deck : List Draft) : List Char :=
  ['\n'].intercalate (deck.map (write mode))

/-- The fields of the card that a draft describes. -/
def fields (draft : Draft) : List (String × Value) :=
  draft.entries.map Entry.field

/-! ## Hidden characters -/

theorem toNat_lt_of_isBlank {c : Char} (blank : isBlank c = true) : c.toNat < 0x10000 := by
  simp only [isBlank, isWhiteSpace, whiteSpaceRanges, List.any_cons, List.any_nil, Bool.or_false,
    Bool.or_eq_true, Bool.and_eq_true, decide_eq_true_eq, beq_iff_eq] at blank
  rcases blank with space | rfl
  · omega
  · decide

theorem toNat_lt_of_hides {mode : BlockMode} {c : Char} (hidden : hides mode c = true) :
    c.toNat < 0x10000 := by
  cases mode with
  | compat =>
    simp only [hides, Bool.or_eq_true, beq_iff_eq] at hidden
    rcases hidden with blank | rfl
    · exact toNat_lt_of_isBlank blank
    · decide
  | balanced => exact toNat_lt_of_isBlank hidden

/-- No character of an escape is hidden. -/
theorem hides_eq_false {mode : BlockMode} {c : Char}
    (visible : c = '\\' ∨ c = '"' ∨ isWordChar c = true) : hides mode c = false := by
  rcases visible with rfl | rfl | word
  · cases mode <;> decide
  · cases mode <;> decide
  · have solid := isBlank_eq_false_of_isWordChar word
    cases mode with
    | compat =>
      have brace : c ≠ '}' := by
        intro same
        subst same
        exact absurd word (by decide)
      simp [hides, solid, brace]
    | balanced => exact solid

theorem isBlank_eq_false_of_hides {mode : BlockMode} {c : Char} (visible : hides mode c = false) :
    isBlank c = false := by
  cases mode with
  | compat => exact (Bool.or_eq_false_iff.1 visible).1
  | balanced => exact visible

/-! ## Reading what was written -/

/-- The literal that a value is written as. -/
def Content.literal (mode : BlockMode) : Content → Literal
  | text content => .quoted (Escape.write (hides mode) content.toList)
  | numeral digits _ _ => .numeral digits

/-- The property that an entry is written as. -/
def Entry.property (mode : BlockMode) (entry : Entry) : Property :=
  ⟨entry.key.toList, entry.content.literal mode⟩

theorem Content.value_literal (mode : BlockMode) (content : Content) :
    (content.literal mode).value .decode = content.value := by
  cases content with
  | text content =>
    have solid : ∀ c ∈ Escape.write (hides mode) content.toList, isBlank c = false := by
      intro c mem
      exact isBlank_eq_false_of_hides
        (Escape.hidden_eq_false_of_mem_write (fun _ => hides_eq_false) mem)
    rw [literal, Literal.value, tidy_of_forall solid, EscapePolicy.apply,
      Escape.decode_write fun _ => toNat_lt_of_hides, String.ofList_toList, value]
  | numeral digits ne all => rfl

/-- Text that no word and no numeral goes on with. -/
def Stops (rest : List Char) : Prop :=
  ∀ c ∈ rest.head?, isWordChar c = false ∧ isNumeralChar c = false

theorem Content.read_write (mode : BlockMode) (content : Content) {rest : List Char}
    (stop : Stops rest) :
    Literal.read (content.write mode ++ rest) = some (content.literal mode, rest) := by
  cases content with
  | text content =>
    have split : write mode (.text content) ++ rest =
        '"' :: (Escape.write (hides mode) content.toList ++ '"' :: rest) := by
      simp [write]
    rw [split, Literal.read_quoted (Escape.isQuotedContent_write (hides mode) content.toList),
      literal]
  | numeral digits ne all =>
    rw [write, Literal.read_numeral ne all fun c mem => (stop c mem).2, literal]

theorem Entry.read_write (mode : BlockMode) (entry : Entry) {rest : List Char}
    (stop : Stops rest) :
    Property.read (entry.write mode ++ rest) = some (entry.property mode, rest) := by
  have literal := entry.content.read_write mode stop
  refine Property.read_eq_some_iff.2 ⟨[], [' '], _, entry.ne, entry.word, .nil,
    .space, ?_, literal⟩
  simp [write, property]

theorem Entry.entry_property (mode : BlockMode) (entry : Entry) :
    (entry.property mode).entry .decode = entry.field := by
  rw [Property.entry, property, field, Content.value_literal, String.ofList_toList]

/-- Entries with a comma in front of each. -/
def writeTail (mode : BlockMode) (entries : List Entry) : List Char :=
  entries.flatMap fun entry => ',' :: ' ' :: entry.write mode

theorem stops_writeTail_append (mode : BlockMode) (entries : List Entry) {rest : List Char}
    (stop : Stops rest) : Stops (writeTail mode entries ++ rest) := by
  cases entries with
  | nil => exact stop
  | cons entry entries =>
    intro c mem
    cases mem
    decide

theorem stops_writeTail (mode : BlockMode) (entries : List Entry) :
    Stops (writeTail mode entries) := by
  have stop := stops_writeTail_append mode entries (by simp [Stops] : Stops [])
  rwa [List.append_nil] at stop

theorem values_writeTail (mode : BlockMode) (entries : List Entry) :
    Property.pattern.values (writeTail mode entries) = entries.map (Entry.property mode) := by
  induction entries with
  | nil => simp [writeTail]
  | cons entry entries ih =>
    have read := entry.read_write mode (stops_writeTail mode entries)
    have split : writeTail mode (entry :: entries) =
        ',' :: ' ' :: (entry.write mode ++ writeTail mode entries) := by
      simp [writeTail]
    rw [split, Property.values_of_not_isWordChar (by decide),
      Property.values_of_not_isWordChar (by decide),
      Pattern.values_of_read_eq_some read, ih, List.map_cons]

theorem exists_entries_eq_cons (draft : Draft) :
    ∃ first others, draft.entries = first :: others := by
  obtain ⟨value, mem, -⟩ := draft.faces .front
  cases entries : draft.entries with
  | nil => simp [entries] at mem
  | cons first others => exact ⟨first, others, rfl⟩

theorem writeBody_of_eq_cons (mode : BlockMode) {draft : Draft} {first : Entry}
    {others : List Entry} (entries : draft.entries = first :: others) :
    draft.writeBody mode = first.write mode ++ writeTail mode others := by
  rw [writeBody, entries, intercalate_map_cons]
  rfl

theorem values_writeBody (mode : BlockMode) (draft : Draft) :
    Property.pattern.values (draft.writeBody mode) =
      draft.entries.map (Entry.property mode) := by
  obtain ⟨first, others, entries⟩ := draft.exists_entries_eq_cons
  have read := first.read_write mode (stops_writeTail mode others)
  rw [writeBody_of_eq_cons mode entries, Pattern.values_of_read_eq_some read, values_writeTail,
    entries, List.map_cons]

/-- **The body of a written draft gives the fields of the draft.** -/
theorem entries_fieldsOfBody_writeBody (mode : BlockMode) (draft : Draft) :
    (fieldsOfBody .decode (draft.writeBody mode)).entries = draft.fields := by
  have given : (draft.entries.map (Entry.property mode)).map (Property.entry .decode) =
      draft.fields := by
    rw [List.map_map, fields]
    exact List.map_congr_left fun entry _ => entry.entry_property mode
  have distinct : (draft.fields.map Prod.fst).Nodup := by
    rw [fields, List.map_map]
    exact draft.nodup_keys
  rw [fieldsOfBody, values_writeBody, given, Fields.entries_ofList distinct]

/-! ## The ends of what was written -/

theorem Content.hides_eq_false_of_mem_write {mode : BlockMode} {content : Content} {c : Char}
    (mem : c ∈ content.write mode) : hides mode c = false := by
  cases content with
  | text content =>
    rcases List.mem_cons.1 mem with rfl | mem
    · exact hides_eq_false (.inr (.inl rfl))
    · rcases List.mem_append.1 mem with mem | mem
      · exact Escape.hidden_eq_false_of_mem_write (fun _ => hides_eq_false) mem
      · rw [List.mem_singleton.1 mem]
        exact hides_eq_false (.inr (.inl rfl))
  | numeral digits ne all =>
    rcases isWordChar_or_eq_of_isNumeralChar (all c mem) with word | rfl
    · exact hides_eq_false (.inr (.inr word))
    · cases mode <;> decide

theorem Content.write_ne_nil (mode : BlockMode) (content : Content) : content.write mode ≠ [] := by
  cases content with
  | text content => exact List.cons_ne_nil _ _
  | numeral digits ne all => exact ne

theorem Entry.write_ne_nil (mode : BlockMode) (entry : Entry) : entry.write mode ≠ [] := by
  rw [write]
  exact List.append_ne_nil_of_left_ne_nil entry.ne _

theorem Entry.noBlankFront_write (mode : BlockMode) (entry : Entry) :
    NoBlankFront (entry.write mode) := by
  refine NoBlankFront.append (fun c mem => ?_) entry.ne
  exact isBlank_eq_false_of_isWordChar (entry.word c (List.mem_of_mem_head? mem))

theorem Entry.noBlankEnd_write (mode : BlockMode) (entry : Entry) :
    NoBlankEnd (entry.write mode) := by
  have content : NoBlankEnd (entry.content.write mode) := .of_forall fun c mem =>
    isBlank_eq_false_of_hides (Content.hides_eq_false_of_mem_write mem)
  have behind := content.append (entry.content.write_ne_nil mode) (entry.key.toList ++ [':', ' '])
  rwa [List.append_assoc] at behind

theorem noBlankEnd_append_writeTail (mode : BlockMode) {front : List Char}
    (solid : NoBlankEnd front) (entries : List Entry) :
    NoBlankEnd (front ++ writeTail mode entries) := by
  induction entries generalizing front with
  | nil => simpa [writeTail] using solid
  | cons entry entries ih =>
    have behind := entry.noBlankEnd_write mode
    have further := ih (behind.append (entry.write_ne_nil mode) (front ++ [',', ' ']))
    simpa [writeTail] using further

theorem writeBody_ne_nil (mode : BlockMode) (draft : Draft) : draft.writeBody mode ≠ [] := by
  obtain ⟨first, others, entries⟩ := draft.exists_entries_eq_cons
  rw [writeBody_of_eq_cons mode entries]
  exact List.append_ne_nil_of_left_ne_nil (first.write_ne_nil mode) _

theorem noBlankFront_writeBody (mode : BlockMode) (draft : Draft) :
    NoBlankFront (draft.writeBody mode) := by
  obtain ⟨first, others, entries⟩ := draft.exists_entries_eq_cons
  rw [writeBody_of_eq_cons mode entries]
  exact (first.noBlankFront_write mode).append (first.write_ne_nil mode)

theorem noBlankEnd_writeBody (mode : BlockMode) (draft : Draft) :
    NoBlankEnd (draft.writeBody mode) := by
  obtain ⟨first, others, entries⟩ := draft.exists_entries_eq_cons
  rw [writeBody_of_eq_cons mode entries]
  exact noBlankEnd_append_writeTail mode (first.noBlankEnd_write mode) others

end Draft

end Flashdeck
