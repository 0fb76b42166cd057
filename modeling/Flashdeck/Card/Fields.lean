import Flashdeck.Card.Value

/-!
# Fields

The fields of a card, keys with values, in the order in which the keys were first given. Giving a
key again replaces its value and leaves its place. No key occurs twice: `Fields` carries the proof.
-/

namespace Flashdeck

/-- Entries with the value of `key` replaced in place, or with the key at the end if it is new. -/
def insertEntry (key : String) (value : Value) : List (String × Value) → List (String × Value)
  | [] => [(key, value)]
  | entry :: entries =>
    if entry.1 = key then (key, value) :: entries
    else entry :: insertEntry key value entries

/-- A new key goes to the end, a known one moves nothing. -/
theorem keys_insertEntry (key : String) (value : Value) (entries : List (String × Value)) :
    (insertEntry key value entries).map Prod.fst =
      if key ∈ entries.map Prod.fst then entries.map Prod.fst
      else entries.map Prod.fst ++ [key] := by
  induction entries with
  | nil => rfl
  | cons entry entries ih =>
    rw [insertEntry]
    split
    · next eq => simp [eq]
    · next ne =>
      simp only [List.map_cons, ih, List.mem_cons, Ne.symm ne, false_or]
      split <;> rfl

/-- `insertEntry` in one walk that also finds the value which `key` had before. -/
def exchangeEntry (key : String) (value : Value) :
    List (String × Value) → Option Value × List (String × Value)
  | [] => (none, [(key, value)])
  | entry :: entries =>
    if entry.1 = key then (some entry.2, (key, value) :: entries)
    else
      let (old, others) := exchangeEntry key value entries
      (old, entry :: others)

theorem exchangeEntry_eq (key : String) (value : Value) (entries : List (String × Value)) :
    exchangeEntry key value entries = (entries.lookup key, insertEntry key value entries) := by
  induction entries with
  | nil => rfl
  | cons entry entries ih =>
    obtain ⟨first, old⟩ := entry
    rw [exchangeEntry, insertEntry]
    by_cases same : first = key
    · simp [same]
    · simp [same, ih, List.lookup_cons, beq_false_of_ne (Ne.symm same)]

/-- Fields in the order of their first insertion. -/
structure Fields where
  entries : List (String × Value)
  nodup_keys : (entries.map Prod.fst).Nodup
deriving DecidableEq

namespace Fields

/-- No fields. -/
def empty : Fields where
  entries := []
  nodup_keys := by simp

/-- The keys in order. -/
def keys (fields : Fields) : List String :=
  fields.entries.map Prod.fst

/-- The number of fields. -/
def size (fields : Fields) : Nat :=
  fields.entries.length

def isEmpty (fields : Fields) : Bool :=
  fields.entries.isEmpty

/-- The value of a key. -/
def get? (fields : Fields) (key : String) : Option Value :=
  fields.entries.lookup key

/-- Whether there is a field with this key. -/
def contains (fields : Fields) (key : String) : Bool :=
  (fields.get? key).isSome

/-- Sets the value of a key. -/
def insert (fields : Fields) (key : String) (value : Value) : Fields where
  entries := insertEntry key value fields.entries
  nodup_keys := by
    rw [keys_insertEntry]
    split
    · exact fields.nodup_keys
    · next new =>
      refine List.nodup_append.2 ⟨fields.nodup_keys, by simp, ?_⟩
      intro first mem last single eq
      rw [List.mem_singleton] at single
      exact new (single ▸ eq ▸ mem)

/-- Sets the value of a key, and says which value it had before. -/
def exchange (fields : Fields) (key : String) (value : Value) : Option Value × Fields :=
  match exchanged : exchangeEntry key value fields.entries with
  | (old, entries) =>
    (old,
      { entries
        nodup_keys := by
          rw [exchangeEntry_eq] at exchanged
          cases exchanged
          exact (fields.insert key value).nodup_keys })

/-- The fields that entries give, one after the other. -/
def ofList (entries : List (String × Value)) : Fields :=
  entries.foldl (fun fields entry => fields.insert entry.1 entry.2) empty

/-- The value of a key, if it is truthy. -/
def truthy? (fields : Fields) (key : String) : Option Value :=
  (fields.get? key).filter Value.isTruthy

/-- What is said to be the value before is the one that was found under the key. -/
theorem exchange_eq (fields : Fields) (key : String) (value : Value) :
    fields.exchange key value = (fields.get? key, fields.insert key value) := by
  unfold exchange
  split
  next old entries exchanged =>
    rw [exchangeEntry_eq] at exchanged
    cases exchanged
    rfl

theorem keys_insert (fields : Fields) (key : String) (value : Value) :
    (fields.insert key value).keys =
      if key ∈ fields.keys then fields.keys else fields.keys ++ [key] :=
  keys_insertEntry key value fields.entries

/-- The inserted key has the inserted value, and every other key the value that it had. -/
theorem get?_insert (fields : Fields) (key : String) (value : Value) (asked : String) :
    (fields.insert key value).get? asked =
      if asked = key then some value else fields.get? asked := by
  unfold get? insert
  simp only
  induction fields.entries with
  | nil =>
    by_cases eq : asked = key
    · simp [insertEntry, eq]
    · simp [insertEntry, eq]
  | cons entry entries ih =>
    obtain ⟨first, old⟩ := entry
    rw [insertEntry]
    by_cases same : first = key
    · by_cases eq : asked = key
      · simp [same, eq]
      · simp [same, eq, List.lookup_cons, beq_false_of_ne eq]
    · rw [if_neg same]
      by_cases here : asked = first
      · simp [here, same]
      · simp [List.lookup_cons, beq_false_of_ne here, ih]

end Fields

end Flashdeck
