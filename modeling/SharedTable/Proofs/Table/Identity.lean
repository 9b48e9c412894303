import SharedTable.Proofs.Key.Identity
import SharedTable.Proofs.Table.Writes

set_option autoImplicit false

namespace SharedTable

structure KeyFields.Represents (key : KeyFields) (kept rows : List Fields) : Prop where
  within : ∀ row ∈ kept, row ∈ rows
  apart : kept.Pairwise fun these those => ¬ key.Agree these those
  covers : ∀ row ∈ rows, ∃ other ∈ kept, key.Agree other row

theorem exists_map_eq {α β : Type} {f : α → β} {rows : List α} {results : List β}
    (each : ∀ result ∈ results, result ∈ rows.map f) :
    ∃ kept : List α, kept.map f = results ∧ ∀ row ∈ kept, row ∈ rows := by
  induction results with
  | nil => exact ⟨[], rfl, nofun⟩
  | cons result results ih =>
    rw [List.forall_mem_cons] at each
    obtain ⟨row, member, found⟩ := List.mem_map.mp each.1
    obtain ⟨kept, also, within⟩ := ih each.2
    exact ⟨row :: kept, by rw [List.map_cons, found, also], List.forall_mem_cons.mpr ⟨member, within⟩⟩

namespace Schema

variable {schema : Schema} {rows kept : List Fields}

theorem represents_of_keys (legible : ∀ row ∈ rows, schema.key.Legible row)
    (within : ∀ row ∈ kept, row ∈ rows)
    (keys : kept.map schema.primaryKey = Batch.distinctKeys (rows.map schema.primaryKey)) :
    schema.key.Represents kept rows := by
  have distinct : (kept.map schema.primaryKey).Nodup := keys ▸ Batch.distinctKeys_nodup _
  refine ⟨within, ?_, ?_⟩
  · apply (List.pairwise_map.mp distinct).imp_of_mem
    intro these those first second differ agree
    exact differ ((primaryKey_inj (legible _ (within _ first)) (legible _ (within _ second))).mpr agree)
  · intro row member
    have covered : schema.primaryKey row ∈ kept.map schema.primaryKey := by
      rw [keys, Batch.mem_distinctKeys]
      exact List.mem_map_of_mem member
    obtain ⟨other, held, same⟩ := List.mem_map.mp covered
    exact ⟨other, held, (primaryKey_inj (legible _ (within _ held)) (legible _ member)).mp same⟩

theorem distinctKeys_represents (legible : ∀ row ∈ rows, schema.key.Legible row) :
    ∃ kept, schema.key.Represents kept rows ∧
      Batch.distinctKeys (rows.map schema.primaryKey) = kept.map schema.primaryKey := by
  obtain ⟨kept, same, within⟩ := exists_map_eq fun key (member : key ∈ Batch.distinctKeys
    (rows.map schema.primaryKey)) => Batch.mem_distinctKeys.mp member
  exact ⟨kept, represents_of_keys legible within same, same.symm⟩

theorem latestItems_represents (legible : ∀ row ∈ rows, schema.key.Legible row) :
    ∃ kept, schema.key.Represents kept rows ∧
      Batch.latestItems (rows.map fun row => (schema.primaryKey row, Item.encode schema row)) =
        kept.map (Item.encode schema) := by
  let entry (row : Fields) : PrimaryKey × Item := (schema.primaryKey row, Item.encode schema row)
  have each : ∀ held ∈ (rows.map entry).foldl Batch.record [], held ∈ rows.map entry := fun held member =>
    (Batch.mem_of_mem_foldl_record member).resolve_left List.not_mem_nil
  obtain ⟨kept, same, within⟩ := exists_map_eq each
  have keys : kept.map schema.primaryKey = Batch.distinctKeys (rows.map schema.primaryKey) := by
    have planned := Batch.keys_foldl_record (rows.map entry)
    rw [← same, List.map_map, List.map_map] at planned
    exact planned
  refine ⟨kept, represents_of_keys legible within keys, ?_⟩
  change ((rows.map entry).foldl Batch.record []).map Prod.snd = _
  rw [← same, List.map_map]
  rfl

end Schema

namespace Table

section Served

variable {α : Type} {limits : BatchLimits} {table : Table Memory α}
  (served : table.engine = Memory.engine limits)

include served

theorem put_get?_other (world : World Memory) {record : α} {these : Fields}
    (shown : (table.type.toValue record).fields? = some these) {key : PrimaryKey}
    (other : table.schema.primaryKey these ≠ key) :
    ((table.put record).run world).2.state.store.get? table.name key =
      world.state.store.get? table.name key := by
  rw [put_run served world (encode_eq_ok_iff.mpr ⟨these, shown, rfl, rfl⟩), World.stored_store, Store.get?,
    Store.contents_insert_self, Std.ExtTreeMap.getElem?_insert, if_neg]
  · rfl
  · exact fun same => other (Std.LawfulEqCmp.eq_of_compare same)

/--
Legible primary keys identify records: only records that agree on the key fields share one, so a put
replaces no record with other key values and a batch merges none. Any record whose key is not legible
shares it with another.
-/
theorem primaryKey_identifies :
    (∀ these those, table.schema.key.Legible these → table.schema.key.Legible those →
      table.schema.primaryKey these = table.schema.primaryKey those →
      table.schema.key.Agree these those) ∧
    (∀ (world : World Memory) (record : α) (these those : Fields),
      (table.type.toValue record).fields? = some these →
      table.schema.key.Legible these → table.schema.key.Legible those →
      ¬ table.schema.key.Agree these those →
      ((table.put record).run world).2.state.store.get? table.name (table.schema.primaryKey those) =
        world.state.store.get? table.name (table.schema.primaryKey those)) ∧
    (∀ rows : List Fields, (∀ row ∈ rows, table.schema.key.Legible row) →
      (∃ kept, table.schema.key.Represents kept rows ∧
        Batch.distinctKeys (rows.map table.schema.primaryKey) = kept.map table.schema.primaryKey) ∧
      ∃ kept, table.schema.key.Represents kept rows ∧
        Batch.latestItems
            (rows.map fun row => (table.schema.primaryKey row, Item.encode table.schema row)) =
          kept.map (Item.encode table.schema)) ∧
    ((table.schema.key.partition ++ table.schema.key.sort).Nodup →
      ∀ these, table.schema.key.HasTexts these → ¬ table.schema.key.Legible these →
        ∃ those, table.schema.key.HasTexts those ∧
          table.schema.primaryKey those = table.schema.primaryKey these ∧
          ¬ table.schema.key.Agree those these) := by
  refine ⟨?_, ?_, ?_, ?_⟩
  · intro these those legibleThese legibleThose
    exact (Schema.primaryKey_inj legibleThese legibleThose).mp
  · intro world record these those shown legibleThese legibleThose differ
    apply put_get?_other served world shown
    exact fun same => differ ((Schema.primaryKey_inj legibleThese legibleThose).mp same)
  · intro rows legible
    exact ⟨Schema.distinctKeys_represents legible, Schema.latestItems_represents legible⟩
  · intro distinct these texts illegible
    exact Schema.exists_namesake distinct texts illegible

end Served

def rooms : Table Memory Fields where
  client := ⟨Memory.engine .standard, "rooms", 1, .byClock⟩
  type := ⟨["site", "floor", "name"], Value.ofFields, .ok⟩
  schema := ⟨"Room", ⟨["site", "floor"], ["name"]⟩, fun _ => none⟩

def room (site floor : String) : Fields :=
  .ofList [("site", Value.string site), ("floor", .string floor), ("name", .string "hall")]

theorem room_texts (site floor : String) : rooms.schema.key.HasTexts (room site floor) := by
  intro field member
  have named : field = "site" ∨ field = "floor" ∨ field = "name" := by
    simpa [rooms] using member
  rcases named with rfl | rfl | rfl
  · exact ⟨site, rfl⟩
  · exact ⟨floor, rfl⟩
  · exact ⟨"hall", rfl⟩

theorem room_legible {site floor : String} (delimited : Key.Delimited "floor" site) :
    rooms.schema.key.Legible (room site floor) :=
  ⟨room_texts site floor, .cons_cons delimited (.singleton _), .singleton _⟩

theorem room_not_agree {site other : String} (differ : site ≠ other) (floor another : String) :
    ¬ rooms.schema.key.Agree (room site floor) (room other another) := by
  intro agree
  have same : some (Value.string site) = some (.string other) := agree "site" List.mem_cons_self
  rw [Option.some.injEq, Value.string.injEq] at same
  exact differ same

theorem rooms_identified :
    rooms.schema.key.Legible (room "a#b" "c") ∧ rooms.schema.key.Legible (room "a" "b#c") ∧
      ¬ rooms.schema.key.Agree (room "a#b" "c") (room "a" "b#c") ∧
      ((rooms.put (room "a#b" "c")).run (.ofState .empty)).2.state.store.get? "rooms"
          (rooms.schema.primaryKey (room "a" "b#c")) = none ∧
      ∃ kept, rooms.schema.key.Represents kept [room "a#b" "c", room "a" "b#c"] ∧
        Batch.distinctKeys ([room "a#b" "c", room "a" "b#c"].map rooms.schema.primaryKey) =
          kept.map rooms.schema.primaryKey := by
  have first : rooms.schema.key.Legible (room "a#b" "c") := room_legible (by decide)
  have second : rooms.schema.key.Legible (room "a" "b#c") := room_legible (by decide)
  have differ : ¬ rooms.schema.key.Agree (room "a#b" "c") (room "a" "b#c") :=
    room_not_agree (by decide) _ _
  obtain ⟨_, put, batch, _⟩ := @primaryKey_identifies Fields .standard rooms rfl
  refine ⟨first, second, differ, ?_, ?_⟩
  · exact put (.ofState .empty) (room "a#b" "c") _ _ (fields?_ofFields _) first second differ
  · exact (batch [room "a#b" "c", room "a" "b#c"] (by simp [first, second])).1

theorem rooms_share_key :
    rooms.schema.key.partition.Nodup ∧ rooms.schema.key.sort.Nodup ∧
      rooms.schema.key.HasTexts (room "x#floor#y" "z") ∧
      rooms.schema.key.HasTexts (room "x" "y#floor#z") ∧
      rooms.schema.primaryKey (room "x#floor#y" "z") = rooms.schema.primaryKey (room "x" "y#floor#z") ∧
      ¬ rooms.schema.key.Agree (room "x#floor#y" "z") (room "x" "y#floor#z") := by
  exact ⟨by decide, by decide, room_texts _ _, room_texts _ _, by decide,
    room_not_agree (by decide) _ _⟩

end Table

end SharedTable
