import Mathlib.Data.Finset.Card
import Flashdeck.Proofs.Card

/-!
# What fields remember of their insertions

Fields are all that is left of a sequence of insertions, and they can be told from it: the keys stand
in the order in which each was first inserted, a key has the value that it was given last, and there
are as many fields as different keys. One insertion more tells the value that the key had until then
and leaves everything else where it was.

* `get?_ofList_eq_some_iff`, `get?_ofList_eq_none_iff`: the last value of a key.
* `pairwise_idxOf_keys_ofList`: the order of the keys.
* `prefix_keys_insert`: an insertion moves no key.
* `ofList_inserted`: all that is left of a sequence of insertions.
-/

namespace Flashdeck.Fields

theorem ofList_concat (inserted : List (String × Value)) (key : String) (value : Value) :
    ofList (inserted ++ [(key, value)]) = (ofList inserted).insert key value := by
  rw [ofList, List.foldl_append]
  rfl

/-! ## Values -/

/-- A key is not among the keys of some entries. -/
theorem forall_bne_iff {entries : List (String × Value)} {key : String} :
    (∀ entry ∈ entries, (key != entry.1) = true) ↔ key ∉ entries.map Prod.fst := by
  simp only [bne_iff_ne, List.mem_map, not_exists, not_and]
  exact forall₂_congr fun entry _ => ne_comm

/-- A key has the value that it was given last. -/
theorem get?_ofList_eq_some_iff {inserted : List (String × Value)} {key : String} {value : Value} :
    (ofList inserted).get? key = some value ↔
      ∃ before after, inserted = before ++ (key, value) :: after ∧ key ∉ after.map Prod.fst := by
  rw [get?_ofList, List.lookup_eq_some_iff]
  apply Iff.intro
  · rintro ⟨later, earlier, split, none⟩
    refine ⟨earlier.reverse, later.reverse, ?_, ?_⟩
    · rw [List.reverse_eq_append_iff, List.reverse_cons, List.append_assoc] at split
      exact split
    · rw [List.map_reverse, List.mem_reverse]
      exact forall_bne_iff.1 none
  · rintro ⟨before, after, rfl, none⟩
    refine ⟨after.reverse, before.reverse, by simp, ?_⟩
    rw [forall_bne_iff, List.map_reverse, List.mem_reverse]
    exact none

theorem get?_ofList_eq_none_iff {inserted : List (String × Value)} {key : String} :
    (ofList inserted).get? key = none ↔ key ∉ inserted.map Prod.fst := by
  rw [get?_ofList, List.lookup_eq_none_iff, forall_bne_iff, List.map_reverse, List.mem_reverse]

theorem mem_keys_ofList_iff {inserted : List (String × Value)} {key : String} :
    key ∈ (ofList inserted).keys ↔ key ∈ inserted.map Prod.fst := by
  rw [← isSome_get?_iff, ← not_iff_not, Bool.not_eq_true, Option.isSome_eq_false_iff,
    Option.isNone_iff_eq_none, get?_ofList_eq_none_iff]

/-! ## Keys -/

/-- An insertion moves no key. -/
theorem prefix_keys_insert (fields : Fields) (key : String) (value : Value) :
    fields.keys <+: (fields.insert key value).keys := by
  rw [keys_insert]
  split
  · exact List.prefix_refl _
  · exact List.prefix_append _ _

/-- The keys stand in the order of their first insertions. -/
theorem pairwise_idxOf_keys_ofList (inserted : List (String × Value)) :
    (ofList inserted).keys.Pairwise fun key key' =>
      (inserted.map Prod.fst).idxOf key < (inserted.map Prod.fst).idxOf key' := by
  induction inserted using List.reverseRecOn with
  | nil => exact .nil
  | append_singleton inserted entry ih =>
    obtain ⟨last, value⟩ := entry
    -- what was inserted before keeps its first insertion
    have kept : ∀ key ∈ (ofList inserted).keys,
        ((inserted ++ [(last, value)]).map Prod.fst).idxOf key =
          (inserted.map Prod.fst).idxOf key := by
      intro key mem
      rw [List.map_append, List.idxOf_append_of_mem (mem_keys_ofList_iff.1 mem)]
    have earlier := ih.imp_of_mem (S := fun key key' =>
        ((inserted ++ [(last, value)]).map Prod.fst).idxOf key <
          ((inserted ++ [(last, value)]).map Prod.fst).idxOf key') fun mem mem' before => by
      rwa [kept _ mem, kept _ mem']
    rw [ofList_concat, keys_insert]
    split
    · exact earlier
    · next new =>
      refine List.pairwise_append.2 ⟨earlier, List.pairwise_singleton _ _, ?_⟩
      intro key mem key' single
      rw [List.mem_singleton.1 single, kept key mem, List.map_append,
        List.idxOf_append_of_notMem (mem_keys_ofList_iff.not.1 new)]
      exact Nat.lt_of_lt_of_le (List.idxOf_lt_length_iff.2 (mem_keys_ofList_iff.1 mem))
        (Nat.le_add_right _ _)

/-- There are as many fields as keys that differ. -/
theorem size_ofList (inserted : List (String × Value)) :
    (ofList inserted).size = (inserted.map Prod.fst).toFinset.card := by
  have same : (inserted.map Prod.fst).toFinset = (ofList inserted).keys.toFinset := by
    ext key
    rw [List.mem_toFinset, List.mem_toFinset, mem_keys_ofList_iff]
  have distinct : (ofList inserted).keys.Nodup := (ofList inserted).nodup_keys
  rw [same, List.toFinset_card_of_nodup distinct, keys, List.length_map, size]

/-- Fields that are taken out in order and inserted again are the same fields. -/
theorem ofList_entries (fields : Fields) : ofList fields.entries = fields := by
  have entries := entries_ofList fields.nodup_keys
  cases fields
  rwa [mk.injEq]

/-- **What is left of a sequence of insertions.** The keys are those that were inserted, each once
and in the order of their first insertions; a key has the value of its last insertion, and none
exactly if it was never inserted; there are as many fields as different keys. One insertion more
says which value its key had, gives the key its new value, and leaves the values of all other keys
and the places of all keys; and fields that are inserted again, in their order, are the same. -/
theorem ofList_inserted (inserted : List (String × Value)) :
    let fields := ofList inserted
    let given := inserted.map Prod.fst
    fields.keys.Nodup ∧
    (∀ key, key ∈ fields.keys ↔ key ∈ given) ∧
    (fields.keys.Pairwise fun key key' => given.idxOf key < given.idxOf key') ∧
    (∀ key value, fields.get? key = some value ↔
      ∃ before after, inserted = before ++ (key, value) :: after ∧ key ∉ after.map Prod.fst) ∧
    (∀ key, fields.get? key = none ↔ key ∉ given) ∧
    fields.size = given.toFinset.card ∧
    (∀ key value,
      let (old, after) := fields.exchange key value
      old = fields.get? key ∧
      after = ofList (inserted ++ [(key, value)]) ∧
      after.get? key = some value ∧
      (∀ other, other ≠ key → after.get? other = fields.get? other) ∧
      fields.keys <+: after.keys) ∧
    ofList fields.entries = fields := by
  refine ⟨(ofList inserted).nodup_keys, fun key => mem_keys_ofList_iff,
    pairwise_idxOf_keys_ofList inserted, fun key value => get?_ofList_eq_some_iff,
    fun key => get?_ofList_eq_none_iff, size_ofList inserted, fun key value => ?_,
    ofList_entries _⟩
  rw [exchange_eq]
  refine ⟨rfl, (ofList_concat inserted key value).symm, ?_, fun other ne => ?_,
    prefix_keys_insert _ key value⟩
  · rw [get?_insert, if_pos rfl]
  · rw [get?_insert, if_neg ne]

/-- A key that is given again keeps its place and takes the new value. -/
example : (ofList [("a", .text "1"), ("b", .text "2"), ("a", .text "3")]).entries =
    [("a", .text "3"), ("b", .text "2")] := by
  decide

end Flashdeck.Fields
