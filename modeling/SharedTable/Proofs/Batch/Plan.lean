import Mathlib.Data.Finset.Card
import Mathlib.Data.List.Induction
import SharedTable.Batch.Plan
import SharedTable.Proofs.Maps

set_option autoImplicit false

namespace SharedTable.Batch

section Chunks

variable {α : Type}

theorem chunks_flatten (size : Nat) (entries : List α) : (chunks size entries).flatten = entries := by
  induction entries using chunks.induct size with
  | case1 => simp [chunks]
  | case2 first rest ih => rw [chunks, List.flatten_cons, ih, List.cons_append, List.take_append_drop]

theorem length_le_of_mem_chunks {size : Nat} {entries chunk : List α}
    (member : chunk ∈ chunks size entries) : chunk.length ≤ max size 1 := by
  induction entries using chunks.induct size with
  | case1 => simp [chunks] at member
  | case2 first rest ih =>
    rw [chunks, List.mem_cons] at member
    rcases member with rfl | later
    · rw [List.length_cons, List.length_take]
      omega
    · exact ih later

theorem chunkCount_eq_zero_iff {size : Nat} (positive : 0 < size) {entries : Nat} :
    chunkCount size entries = 0 ↔ entries = 0 := by
  rw [chunkCount, Nat.div_eq_zero_iff]
  omega

theorem length_chunks {size : Nat} (positive : 0 < size) (entries : List α) :
    (chunks size entries).length = chunkCount size entries.length := by
  induction entries using chunks.induct size with
  | case1 => rw [chunks, List.length_nil, List.length_nil, (chunkCount_eq_zero_iff positive).mpr rfl]
  | case2 first rest ih =>
    rw [chunks, List.length_cons, ih, List.length_drop, List.length_cons, chunkCount, chunkCount,
      ← Nat.add_div_right _ positive]
    -- A last piece shorter than the size counts as much as a whole one.
    by_cases few : rest.length ≤ size - 1
    · rw [Nat.sub_eq_zero_of_le few, Nat.zero_add]
      rw [Nat.div_eq_of_lt_le (k := 1) (by omega) (by omega),
        Nat.div_eq_of_lt_le (k := 1) (by omega) (by omega)]
    · congr 1
      omega

theorem sublist_of_mem_chunks {size : Nat} {entries chunk : List α}
    (member : chunk ∈ chunks size entries) : chunk.Sublist entries := by
  rw [← chunks_flatten size entries]
  exact List.sublist_flatten_of_mem member

theorem ne_nil_of_mem_chunks {size : Nat} {entries chunk : List α} (member : chunk ∈ chunks size entries) :
    chunk ≠ [] := by
  induction entries using chunks.induct size with
  | case1 => simp [chunks] at member
  | case2 first rest ih =>
    rw [chunks, List.mem_cons] at member
    rcases member with rfl | later
    · exact List.cons_ne_nil _ _
    · exact ih later

theorem chunks_eq_nil_iff {size : Nat} {entries : List α} : chunks size entries = [] ↔ entries = [] := by
  cases entries <;> simp [chunks]

theorem chunks_max (size : Nat) (entries : List α) : chunks (max size 1) entries = chunks size entries := by
  induction entries using chunks.induct size with
  | case1 => rw [chunks, chunks]
  | case2 first rest ih =>
    have same : max size 1 - 1 = size - 1 := by omega
    rw [chunks, chunks, same, ih]

theorem length_of_mem_dropLast_chunks {size : Nat} {entries chunk : List α}
    (member : chunk ∈ (chunks size entries).dropLast) : chunk.length = max size 1 := by
  induction entries using chunks.induct size with
  | case1 => simp [chunks] at member
  | case2 first rest ih =>
    rw [chunks] at member
    by_cases last : rest.drop (size - 1) = []
    · rw [chunks_eq_nil_iff.mpr last] at member
      cases member
    · rw [List.dropLast_cons_of_ne_nil (mt chunks_eq_nil_iff.mp last), List.mem_cons] at member
      rcases member with rfl | later
      -- Something is left over, so the first chunk is full.
      · rw [List.drop_eq_nil_iff] at last
        rw [List.length_cons, List.length_take]
        omega
      · exact ih later

theorem flatten_take_chunks {size : Nat} (positive : 0 < size) (entries : List α) (count : Nat) :
    ((chunks size entries).take count).flatten = entries.take (count * size) := by
  induction entries using chunks.induct size generalizing count with
  | case1 => simp [chunks]
  | case2 first rest ih =>
    cases count with
    | zero => simp
    | succ count =>
      have whole : (count + 1) * size = (size - 1 + count * size) + 1 := by
        rw [Nat.succ_mul]
        omega
      rw [chunks, List.take_succ_cons, List.flatten_cons, ih, whole, List.take_succ_cons, List.take_add,
        List.cons_append]

end Chunks

theorem eraseDups_nodup {α : Type} [DecidableEq α] (items : List α) : items.eraseDups.Nodup := by
  -- `eraseDups` goes on with a filtered tail, so the recursion is on the length.
  cases items with
  | nil => simp
  | cons first rest =>
    rw [List.eraseDups_cons, List.nodup_cons]
    refine ⟨?_, eraseDups_nodup _⟩
    simp
  termination_by items.length
  decreasing_by exact Nat.lt_succ_of_le (List.length_filter_le _ _)

theorem eraseDups_sublist {α : Type} [DecidableEq α] (items : List α) : items.eraseDups.Sublist items := by
  cases items with
  | nil => simp
  | cons first rest =>
    rw [List.eraseDups_cons]
    exact ((eraseDups_sublist _).trans List.filter_sublist).cons_cons first
  termination_by items.length
  decreasing_by exact Nat.lt_succ_of_le (List.length_filter_le _ _)

theorem distinctKeys_nodup (keys : List PrimaryKey) : (distinctKeys keys).Nodup := eraseDups_nodup keys

theorem mem_distinctKeys {keys : List PrimaryKey} {key : PrimaryKey} :
    key ∈ distinctKeys keys ↔ key ∈ keys := List.mem_eraseDups

theorem distinctKeys_concat (keys : List PrimaryKey) (key : PrimaryKey) :
    distinctKeys (keys ++ [key]) =
      if key ∈ distinctKeys keys then distinctKeys keys else distinctKeys keys ++ [key] := by
  have parts : distinctKeys (keys ++ [key]) = distinctKeys keys ++ distinctKeys ([key].removeAll keys) :=
    List.eraseDups_append
  rw [parts]
  by_cases before : key ∈ keys
  · rw [if_pos (mem_distinctKeys.mpr before)]
    simp [List.removeAll, before, distinctKeys]
  · rw [if_neg (mt mem_distinctKeys.mp before)]
    simp [List.removeAll, before, distinctKeys, List.eraseDups_cons]

theorem length_distinctKeys (keys : List PrimaryKey) :
    (distinctKeys keys).length = keys.toFinset.card := by
  rw [← List.toFinset_card_of_nodup (distinctKeys_nodup keys)]
  congr 1
  apply Finset.ext
  intro key
  rw [List.mem_toFinset, List.mem_toFinset, mem_distinctKeys]

theorem chunkCount_card_eq_zero_iff {size : Nat} (positive : 0 < size) (keys : List PrimaryKey) :
    chunkCount size keys.toFinset.card = 0 ↔ keys = [] := by
  rw [chunkCount_eq_zero_iff positive, Finset.card_eq_zero, List.toFinset_eq_empty_iff]

section Latest

variable {done entries : List (PrimaryKey × Item)} {entry : PrimaryKey × Item}

theorem any_key_iff {key : PrimaryKey} :
    (done.any fun held => held.1 == key) = true ↔ key ∈ done.map Prod.fst := by
  simp [List.any_eq_true]

theorem record_of_mem (taken : entry.1 ∈ done.map Prod.fst) :
    record done entry = done.map fun held => if held.1 == entry.1 then entry else held := by
  rw [record, if_pos (any_key_iff.mpr taken)]

theorem record_of_notMem (free : entry.1 ∉ done.map Prod.fst) : record done entry = done ++ [entry] := by
  rw [record, if_neg (mt any_key_iff.mp free)]

theorem mem_record {held : PrimaryKey × Item} :
    held ∈ record done entry ↔ held = entry ∨ held ∈ done ∧ held.1 ≠ entry.1 := by
  by_cases taken : entry.1 ∈ done.map Prod.fst
  · obtain ⟨first, member, same⟩ := List.mem_map.mp taken
    rw [record_of_mem taken, List.mem_map]
    constructor
    · rintro ⟨other, inDone, rfl⟩
      by_cases named : other.1 = entry.1
      · simp [named]
      · simp [named, inDone]
    · rintro (rfl | ⟨inDone, apart⟩)
      · exact ⟨first, member, if_pos (beq_iff_eq.mpr same)⟩
      · exact ⟨held, inDone, if_neg (by simpa using apart)⟩
  · have apart : held ∈ done → held.1 ≠ entry.1 := by
      intro member same
      exact taken (same ▸ List.mem_map_of_mem member)
    rw [record_of_notMem taken, List.mem_append, List.mem_singleton, or_comm]
    exact or_congr_right (iff_self_and.mpr apart)

theorem keys_record (done : List (PrimaryKey × Item)) (entry : PrimaryKey × Item) :
    (record done entry).map Prod.fst =
      if entry.1 ∈ done.map Prod.fst then done.map Prod.fst else done.map Prod.fst ++ [entry.1] := by
  split
  next taken =>
    rw [record_of_mem taken, List.map_map]
    apply List.map_congr_left
    intro held _
    by_cases same : held.1 = entry.1 <;> simp [same]
  next free => rw [record_of_notMem free, List.map_append, List.map_singleton]

theorem record_nodup (distinct : (done.map Prod.fst).Nodup) :
    ((record done entry).map Prod.fst).Nodup := by
  rw [keys_record]
  split
  next => exact distinct
  next free =>
    rw [← List.concat_eq_append]
    exact distinct.concat free

theorem mem_keys_record {key : PrimaryKey} :
    key ∈ (record done entry).map Prod.fst ↔ key = entry.1 ∨ key ∈ done.map Prod.fst := by
  rw [keys_record]
  split
  next taken => exact (or_iff_right_of_imp fun same => same ▸ taken).symm
  next => rw [List.mem_append, List.mem_singleton, or_comm]

theorem insertMany_record (distinct : (done.map Prod.fst).Nodup) (contents : Contents) :
    contents.insertMany (record done entry) = (contents.insertMany done).insert entry.1 entry.2 := by
  apply Std.ExtTreeMap.ext_getElem?
  intro key
  apply Option.ext
  intro item
  rw [getElem?_insertMany_of_nodup (record_nodup distinct), mem_keys_record, mem_record,
    Std.ExtTreeMap.getElem?_insert]
  by_cases same : key = entry.1
  · subst same
    simp [Prod.ext_iff, eq_comm]
  · have apart : compare entry.1 key ≠ .eq := fun equal =>
      same (Std.LawfulEqCmp.eq_of_compare equal).symm
    rw [if_neg apart, getElem?_insertMany_of_nodup distinct]
    simp [same, Prod.ext_iff]

theorem insertMany_foldl_record (distinct : (done.map Prod.fst).Nodup) (contents : Contents) :
    contents.insertMany (entries.foldl record done) = (contents.insertMany done).insertMany entries := by
  induction entries generalizing done with
  | nil => rfl
  | cons entry rest ih =>
    rw [List.foldl_cons, ih (record_nodup distinct), insertMany_record distinct,
      Std.ExtTreeMap.insertMany_cons]

theorem mem_of_mem_foldl_record {held : PrimaryKey × Item} (member : held ∈ entries.foldl record done) :
    held ∈ done ∨ held ∈ entries := by
  induction entries generalizing done with
  | nil => exact .inl member
  | cons entry rest ih =>
    rcases ih member with first | later
    · rcases mem_record.mp first with rfl | ⟨before, _⟩
      · exact .inr List.mem_cons_self
      · exact .inl before
    · exact .inr (List.mem_cons_of_mem _ later)

end Latest

theorem keys_foldl_record (entries : List (PrimaryKey × Item)) :
    (entries.foldl record []).map Prod.fst = distinctKeys (entries.map Prod.fst) := by
  induction entries using List.reverseRecOn with
  | nil => rfl
  | append_singleton entries entry ih =>
    rw [List.foldl_append, List.foldl_cons, List.foldl_nil, keys_record, ih, List.map_append,
      List.map_singleton, distinctKeys_concat]

theorem length_latestItems (entries : List (PrimaryKey × Item)) :
    (latestItems entries).length = (entries.map Prod.fst).toFinset.card := by
  rw [latestItems, List.length_map, ← List.length_map Prod.fst, keys_foldl_record, length_distinctKeys]

def keyed (items : List Item) : List (PrimaryKey × Item) :=
  items.filterMap fun item => (PrimaryKey.ofItem? item).map fun key => (key, item)

theorem keyed_map_snd {entries : List (PrimaryKey × Item)}
    (own : ∀ entry ∈ entries, PrimaryKey.ofItem? entry.2 = some entry.1) :
    keyed (entries.map Prod.snd) = entries := by
  induction entries with
  | nil => rfl
  | cons entry rest ih =>
    rw [List.forall_mem_cons] at own
    rw [List.map_cons, keyed, List.filterMap_cons, own.1]
    exact congrArg (entry :: ·) (ih own.2)

section Own

variable {entries : List (PrimaryKey × Item)}
  (own : ∀ entry ∈ entries, PrimaryKey.ofItem? entry.2 = some entry.1)

include own

theorem keyed_latestItems : keyed (latestItems entries) = entries.foldl record [] :=
  keyed_map_snd fun entry member => own entry
    ((mem_of_mem_foldl_record member).resolve_left List.not_mem_nil)

theorem keyed_latestItems_nodup : ((keyed (latestItems entries)).map Prod.fst).Nodup := by
  rw [keyed_latestItems own, keys_foldl_record]
  exact distinctKeys_nodup _

theorem insertMany_latestItems (contents : Contents) :
    contents.insertMany (keyed (latestItems entries)) = contents.insertMany entries := by
  rw [keyed_latestItems own, insertMany_foldl_record]
  · rfl
  · exact List.nodup_nil

theorem isSome_of_mem_latestItems {item : Item} (member : item ∈ latestItems entries) :
    (PrimaryKey.ofItem? item).isSome = true := by
  obtain ⟨entry, held, rfl⟩ := List.mem_map.mp member
  rw [own entry ((mem_of_mem_foldl_record held).resolve_left List.not_mem_nil)]
  rfl

end Own

end SharedTable.Batch
