import Flashdeck.Card.Basic

/-!
# Fields that entries give, and the cards they make

Fields that are given once each stay as they were given; of a key that is given again, the last
value counts. Fields make a card as soon as both faces are among them with truthy values.

* `Fields.entries_ofList`: entries of distinct keys, inserted in order, are the entries again.
* `Fields.get?_ofList`, `Fields.keys_ofList_congr`: the values and the keys that any entries give.
* `Card.exists_ofFields?_eq_some`, `Card.isSome_ofFields?`: the card of fields with both faces.
-/

namespace Flashdeck

theorem insertEntry_of_not_mem {key : String} {value : Value} {entries : List (String × Value)}
    (new : key ∉ entries.map Prod.fst) :
    insertEntry key value entries = entries ++ [(key, value)] := by
  induction entries with
  | nil => rfl
  | cons entry entries ih =>
    rw [List.map_cons, List.mem_cons, not_or] at new
    rw [insertEntry, if_neg (Ne.symm new.1), ih new.2, List.cons_append]

namespace Fields

theorem entries_foldl_insert {entries : List (String × Value)} {fields : Fields}
    (distinct : (fields.keys ++ entries.map Prod.fst).Nodup) :
    (entries.foldl (fun fields entry => fields.insert entry.1 entry.2) fields).entries =
      fields.entries ++ entries := by
  induction entries generalizing fields with
  | nil => simp
  | cons entry entries ih =>
    have new : entry.1 ∉ fields.keys := by
      intro mem
      exact (List.nodup_append.1 distinct).2.2 _ mem entry.1 (by simp) rfl
    have keys : (fields.insert entry.1 entry.2).keys = fields.keys ++ [entry.1] := by
      rw [keys_insert, if_neg new]
    rw [List.foldl_cons, ih]
    · have appended : (fields.insert entry.1 entry.2).entries = fields.entries ++ [entry] :=
        insertEntry_of_not_mem new
      rw [appended, List.append_assoc, List.singleton_append]
    · rw [keys, List.append_assoc]
      exact distinct

theorem entries_ofList {entries : List (String × Value)}
    (distinct : (entries.map Prod.fst).Nodup) : (ofList entries).entries = entries := by
  rw [ofList, entries_foldl_insert]
  · rfl
  · exact distinct

/-- The value of a key is the last one that it was given. -/
theorem get?_ofList (entries : List (String × Value)) (key : String) :
    (ofList entries).get? key = entries.reverse.lookup key := by
  have onto : ∀ fields : Fields,
      (entries.foldl (fun fields entry => fields.insert entry.1 entry.2) fields).get? key =
        (entries.reverse.lookup key).or (fields.get? key) := by
    induction entries with
    | nil => exact fun fields => rfl
    | cons entry entries ih =>
      intro fields
      obtain ⟨first, value⟩ := entry
      rw [List.foldl_cons, ih, get?_insert, List.reverse_cons, List.lookup_append, Option.or_assoc]
      by_cases same : key = first
      · simp [same]
      · simp [List.lookup_cons, same, beq_false_of_ne same]
  rw [ofList, onto]
  exact Option.or_none

/-- Which keys there are, and in which order, the values do not decide. -/
theorem keys_ofList_congr {entries entries' : List (String × Value)}
    (same : entries.map Prod.fst = entries'.map Prod.fst) :
    (ofList entries).keys = (ofList entries').keys := by
  have onto : ∀ fields fields' : Fields, fields.keys = fields'.keys →
      (entries.foldl (fun fields entry => fields.insert entry.1 entry.2) fields).keys =
        (entries'.foldl (fun fields entry => fields.insert entry.1 entry.2) fields').keys := by
    induction entries generalizing entries' with
    | nil =>
      cases List.map_eq_nil_iff.1 same.symm
      exact fun fields fields' keys => keys
    | cons entry entries ih =>
      obtain ⟨entry', others, rfl, first, behind⟩ := List.map_eq_cons_iff.1 same.symm
      intro fields fields' keys
      refine ih behind.symm _ _ ?_
      rw [keys_insert, keys_insert, keys, first]
  exact onto empty empty rfl

theorem lookup_map {α β : Type} (f : String → α → β) (entries : List (String × α)) (key : String) :
    (entries.map fun entry => (entry.1, f entry.1 entry.2)).lookup key =
      (entries.lookup key).map (f key) := by
  induction entries with
  | nil => rfl
  | cons entry entries ih =>
    rw [List.map_cons, List.lookup_cons, List.lookup_cons, ih]
    split
    · next found => rw [beq_iff_eq.1 found, Option.map_some]
    · rfl

theorem lookup_filter {α : Type} (p : String → Bool) (entries : List (String × α)) (key : String) :
    (entries.filter fun entry => p entry.1).lookup key =
      if p key then entries.lookup key else none := by
  induction entries with
  | nil => simp
  | cons entry entries ih =>
    obtain ⟨first, value⟩ := entry
    by_cases same : key = first
    · subst same
      by_cases kept : p key = true
      · simp [kept]
      · simp [kept, ih]
    · by_cases kept : p first = true
      · simp [kept, List.lookup_cons, beq_false_of_ne same, ih]
      · simp [kept, List.lookup_cons, beq_false_of_ne same, ih]

theorem isSome_get?_iff {fields : Fields} {key : String} :
    (fields.get? key).isSome = true ↔ key ∈ fields.keys := by
  rw [get?, List.lookup_isSome_iff, keys, List.mem_map]
  exact exists_congr fun entry => and_congr_right fun _ => beq_iff_eq.trans eq_comm

theorem get?_of_mem {fields : Fields} {key : String} {value : Value}
    (mem : (key, value) ∈ fields.entries) : fields.get? key = some value := by
  obtain ⟨before, after, split⟩ := List.append_of_mem mem
  refine List.lookup_eq_some_iff.2 ⟨before, after, split, ?_⟩
  intro entry earlier
  have distinct := fields.nodup_keys
  rw [split, List.map_append] at distinct
  have other := (List.nodup_append.1 distinct).2.2 entry.1 (List.mem_map_of_mem earlier) key
    (by simp)
  simpa using Ne.symm other

theorem truthy?_of_mem {fields : Fields} {key : String} {value : Value}
    (mem : (key, value) ∈ fields.entries) (truthy : value.isTruthy = true) :
    fields.truthy? key = some value := by
  rw [truthy?, get?_of_mem mem, Option.filter_some, if_pos truthy]

end Fields

/-- Fields with two truthy faces make a card that holds them. -/
theorem Card.exists_ofFields?_eq_some {fields : Fields}
    (faces : ∀ face : Face, ∃ value, (face.key, value) ∈ fields.entries ∧ value.isTruthy = true) :
    ∃ card, ofFields? fields = some card ∧ card.fields = fields := by
  obtain ⟨front, front_mem, front_truthy⟩ := faces .front
  obtain ⟨back, back_mem, back_truthy⟩ := faces .back
  let card : Card :=
    { fields, front, back
      front_eq := Fields.truthy?_of_mem front_mem front_truthy
      back_eq := Fields.truthy?_of_mem back_mem back_truthy }
  have made : ofFields fields = .ok card := ofFields_eq_ok_iff.2 rfl
  exact ⟨card, by rw [ofFields?, made]; rfl, rfl⟩

/-- Fields make a card exactly where both faces are truthy. -/
theorem Card.isSome_ofFields? (fields : Fields) :
    (ofFields? fields).isSome =
      ((fields.truthy? Face.front.key).isSome && (fields.truthy? Face.back.key).isSome) := by
  unfold ofFields? ofFields
  split
  · next missing => rw [missing]; rfl
  · next front present =>
    split
    · next missing => rw [present, missing]; rfl
    · next back present' =>
      change true = _
      rw [present, present']
      rfl

end Flashdeck
