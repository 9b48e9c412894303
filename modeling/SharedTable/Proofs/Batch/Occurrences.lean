import Mathlib.Algebra.Order.Floor.Div
import Mathlib.Data.List.Induction
import SharedTable.Proofs.Batch.Plan

set_option autoImplicit false

namespace SharedTable.Batch

theorem distinctKeys_by_first (keys : List PrimaryKey) :
    (distinctKeys keys).Pairwise fun a b => keys.idxOf a < keys.idxOf b := by
  induction keys using List.reverseRecOn with
  | nil => exact .nil
  | append_singleton keys key ih =>
    have kept : (distinctKeys keys).Pairwise fun a b =>
        (keys ++ [key]).idxOf a < (keys ++ [key]).idxOf b := by
      refine ih.imp_of_mem fun first second before => ?_
      rw [List.idxOf_append_of_mem (mem_distinctKeys.mp first),
        List.idxOf_append_of_mem (mem_distinctKeys.mp second)]
      exact before
    rw [distinctKeys_concat]
    split
    next => exact kept
    next new =>
      rw [mem_distinctKeys] at new
      refine List.pairwise_append.mpr ⟨kept, List.pairwise_singleton _ _, ?_⟩
      intro other member last same
      rw [List.mem_singleton.mp same, List.idxOf_append_of_mem (mem_distinctKeys.mp member),
        List.idxOf_append_of_notMem new]
      exact Nat.lt_add_right _ (List.idxOf_lt_length_of_mem (mem_distinctKeys.mp member))

section Items

variable {entries : List (PrimaryKey × Item)} {entry : PrimaryKey × Item}

def IsLast (entries : List (PrimaryKey × Item)) (key : PrimaryKey) (item : Item) : Prop :=
  ∃ before after, entries = before ++ (key, item) :: after ∧ key ∉ after.map Prod.fst

theorem isLast_concat (entries : List (PrimaryKey × Item)) (entry : PrimaryKey × Item) :
    IsLast (entries ++ [entry]) entry.1 entry.2 :=
  ⟨entries, [], rfl, List.not_mem_nil⟩

theorem IsLast.concat {key : PrimaryKey} {item : Item} (last : IsLast entries key item)
    (other : key ≠ entry.1) : IsLast (entries ++ [entry]) key item := by
  obtain ⟨before, after, rfl, absent⟩ := last
  exact ⟨before, after ++ [entry], by simp, by simp_all⟩

theorem isLast_of_mem_foldl_record {held : PrimaryKey × Item}
    (member : held ∈ entries.foldl record []) : IsLast entries held.1 held.2 := by
  induction entries using List.reverseRecOn generalizing held with
  | nil => cases member
  | append_singleton entries entry ih =>
    rw [List.foldl_append, List.foldl_cons, List.foldl_nil, mem_record] at member
    rcases member with rfl | ⟨before, other⟩
    · exact isLast_concat entries held
    · exact (ih before).concat other

theorem latestItems_last (entries : List (PrimaryKey × Item)) :
    List.Forall₂ (IsLast entries) (distinctKeys (entries.map Prod.fst)) (latestItems entries) := by
  rw [← keys_foldl_record, latestItems, List.forall₂_map_left_iff, List.forall₂_map_right_iff,
    List.forall₂_same]
  exact fun held member => isLast_of_mem_foldl_record member

end Items

section Placing

theorem getElem?_concat_eq_some_iff {α : Type} {items : List α} {last item : α} {place : Nat} :
    (items ++ [last])[place]? = some item ↔
      items[place]? = some item ∨ place = items.length ∧ last = item := by
  grind

structure Placing where
  places : Std.ExtTreeMap PrimaryKey Nat
  items : List Item

namespace Placing

def empty : Placing := ⟨∅, []⟩

/-- Overwrites the item of the key, or puts it last. Fails where the map points behind the last item. -/
def place (placing : Placing) (entry : PrimaryKey × Item) : Option Placing :=
  match placing.places[entry.1]? with
  | some place =>
    if place < placing.items.length then some { placing with items := placing.items.set place entry.2 }
    else none
  | none => some ⟨placing.places.insert entry.1 placing.items.length, placing.items ++ [entry.2]⟩

structure Fills (placing : Placing) (done : List (PrimaryKey × Item)) : Prop where
  items : placing.items = done.map Prod.snd
  places (key : PrimaryKey) (place : Nat) :
    placing.places[key]? = some place ↔ (done.map Prod.fst)[place]? = some key

variable {placing : Placing} {done : List (PrimaryKey × Item)} {entry : PrimaryKey × Item}

theorem fills_empty : Fills empty [] := ⟨rfl, fun _ _ => by simp [empty]⟩

theorem Fills.length_items (fills : Fills placing done) :
    placing.items.length = (done.map Prod.fst).length := by
  rw [fills.items, List.length_map, List.length_map]

theorem Fills.notMem_of_getElem?_eq_none (fills : Fills placing done) {key : PrimaryKey}
    (unknown : placing.places[key]? = none) : key ∉ done.map Prod.fst := by
  intro member
  obtain ⟨place, found⟩ := List.mem_iff_getElem?.mp member
  rw [(fills.places key place).mpr found] at unknown
  cases unknown

theorem Fills.unique (fills : Fills placing done) {first second : Nat} {key : PrimaryKey}
    (here : (done.map Prod.fst)[first]? = some key) (there : (done.map Prod.fst)[second]? = some key) :
    first = second := by
  have same := ((fills.places key first).mpr here).symm.trans ((fills.places key second).mpr there)
  exact Option.some.inj same

theorem Fills.record_eq_set (fills : Fills placing done) {place : Nat}
    (found : (done.map Prod.fst)[place]? = some entry.1) : record done entry = done.set place entry := by
  obtain ⟨held, known, named⟩ := Option.map_eq_some_iff.mp (List.getElem?_map.symm.trans found)
  rw [record_of_mem (List.mem_of_getElem? found)]
  apply List.ext_getElem?
  intro other
  rw [List.getElem?_map, List.getElem?_set]
  split
  next same =>
    rw [← same, known, Option.map_some, if_pos (beq_iff_eq.mpr named),
      if_pos (List.getElem?_eq_some_iff.mp known).1]
  next apart =>
    cases stays : done[other]? with
    | none => rfl
    | some also =>
      rw [Option.map_some, if_neg]
      intro same
      apply apart
      apply fills.unique found
      rw [List.getElem?_map, stays, Option.map_some, beq_iff_eq.mp same]

theorem Fills.place (fills : Fills placing done) (entry : PrimaryKey × Item) :
    ∃ next, placing.place entry = some next ∧ Fills next (record done entry) := by
  cases known : placing.places[entry.1]? with
  | some place =>
    have found := (fills.places entry.1 place).mp known
    have inside : place < placing.items.length := by
      rw [fills.length_items]
      exact (List.getElem?_eq_some_iff.mp found).1
    refine ⟨{ placing with items := placing.items.set place entry.2 }, ?_, ?_, ?_⟩
    · simp only [Placing.place, known, if_pos inside]
    · rw [fills.record_eq_set found, List.map_set, fills.items]
    · intro key other
      rw [keys_record, if_pos (List.mem_of_getElem? found)]
      exact fills.places key other
  | none =>
    have free := fills.notMem_of_getElem?_eq_none known
    refine ⟨⟨placing.places.insert entry.1 placing.items.length, placing.items ++ [entry.2]⟩, ?_, ?_, ?_⟩
    · simp only [Placing.place, known]
    · rw [record_of_notMem free, List.map_append, List.map_singleton, fills.items]
    · intro key other
      rw [keys_record, if_neg free, getElem?_concat_eq_some_iff, ← fills.places, ← fills.length_items,
        Std.ExtTreeMap.getElem?_insert]
      by_cases same : entry.1 = key
      · simp [← same, known, eq_comm]
      · have apart : compare entry.1 key ≠ .eq := fun equal =>
          same (Std.LawfulEqCmp.eq_of_compare equal)
        simp [apart, same]

theorem Fills.run (fills : Fills placing done) (entries : List (PrimaryKey × Item)) :
    ∃ last, entries.foldlM Placing.place placing = some last ∧ Fills last (entries.foldl record done) := by
  induction entries generalizing placing done with
  | nil => exact ⟨placing, rfl, fills⟩
  | cons entry rest ih =>
    obtain ⟨next, step, after⟩ := fills.place entry
    obtain ⟨last, run, filled⟩ := ih after
    refine ⟨last, ?_, filled⟩
    rw [List.foldlM_cons, step]
    exact run

end Placing

theorem foldlM_place (entries : List (PrimaryKey × Item)) :
    (entries.foldlM Placing.place .empty).map Placing.items = some (latestItems entries) := by
  obtain ⟨last, run, fills⟩ := Placing.fills_empty.run entries
  rw [run, Option.map_some, fills.items, latestItems]

end Placing

/--
The plan of a batch. Its keys are the distinct ones, in the order in which they first occur; its chunks hold
in this order the items with which they last occur. No chunk is empty, all but the last one are full, and
they are as many as that takes. Placing the items in one pass gives the same plan.
-/
theorem plan_keeps_last_occurrences (entries : List (PrimaryKey × Item)) (size : Nat) :
    let keys := entries.map Prod.fst
    let plan := chunks size (latestItems entries)
    (distinctKeys keys).Nodup ∧
    (∀ key, key ∈ distinctKeys keys ↔ key ∈ keys) ∧
    (distinctKeys keys).Pairwise (fun a b => keys.idxOf a < keys.idxOf b) ∧
    List.Forall₂ (IsLast entries) (distinctKeys keys) plan.flatten ∧
    (∀ chunk ∈ plan, chunk ≠ [] ∧ chunk.length ≤ max size 1) ∧
    (∀ chunk ∈ plan.dropLast, chunk.length = max size 1) ∧
    plan.length = keys.toFinset.card ⌈/⌉ max size 1 ∧
    (entries.foldlM Placing.place .empty).map Placing.items = some plan.flatten := by
  intro keys plan
  have whole : plan.flatten = latestItems entries := chunks_flatten size (latestItems entries)
  have count : plan.length = keys.toFinset.card ⌈/⌉ max size 1 := by
    have positive : 0 < max size 1 := by omega
    rw [Nat.ceilDiv_eq_add_pred_div, ← length_latestItems, ← chunkCount, ← length_chunks positive,
      chunks_max]
  have last : List.Forall₂ (IsLast entries) (distinctKeys keys) plan.flatten := by
    rw [whole]
    exact latestItems_last entries
  refine ⟨distinctKeys_nodup keys, fun _ => mem_distinctKeys, distinctKeys_by_first keys, last,
    ?_, ?_, count, ?_⟩
  · exact fun chunk member => ⟨ne_nil_of_mem_chunks member, length_le_of_mem_chunks member⟩
  · exact fun chunk member => length_of_mem_dropLast_chunks member
  · rw [whole]
    exact foldlM_place entries

def noted (text : String) : Item := .ofList [("note", Value.string text)]

def visits : List (PrimaryKey × Item) :=
  [(⟨"Town", "Ulm"⟩, noted "first"), (⟨"Town", "Bonn"⟩, noted "only"), (⟨"Town", "Ulm"⟩, noted "last")]

theorem visits_planned_by_town :
    let plan := chunks 1 (latestItems visits)
    plan = [[noted "last"], [noted "only"]] ∧
    distinctKeys (visits.map Prod.fst) = [⟨"Town", "Ulm"⟩, ⟨"Town", "Bonn"⟩] ∧
    ([noted "only"] ∈ plan ∧ [noted "only"] ≠ []) ∧
    ([noted "last"] ∈ plan.dropLast ∧ [noted "last"].length = 1) := by
  intro plan
  have latest : latestItems visits = [noted "last", noted "only"] := rfl
  have cut : plan = [[noted "last"], [noted "only"]] := by simp [plan, latest, chunks]
  have within : [noted "only"] ∈ plan := by simp [cut]
  have full : [noted "last"] ∈ plan.dropLast := by simp [cut]
  obtain ⟨_, _, _, _, filled, even, _, _⟩ := plan_keeps_last_occurrences visits 1
  exact ⟨cut, rfl, ⟨within, (filled _ within).1⟩, full, even _ full⟩

end SharedTable.Batch
