import Mathlib.Data.List.Induction
import SharedTable.Proofs.Except
import SharedTable.Proofs.Schema.Basic
import SharedTable.Schema.Declaration

set_option autoImplicit false

namespace SharedTable

namespace Declaration

def fields : Declaration → KeyFields
  | .key fields => fields
  | .index _ _ fields => fields

def key? : Declaration → Option KeyFields
  | .key fields => some fields
  | .index .. => none

def registration? (slot : IndexSlot) : Declaration → Option Registration
  | .key _ => none
  | .index other name fields => if slot = other then some ⟨name, fields⟩ else none

def lastKey (steps : List Declaration) : KeyFields := (steps.filterMap key?).getLast?.getD ⟨[], []⟩

def lastAt? (steps : List Declaration) (slot : IndexSlot) : Option Registration :=
  (steps.filterMap (registration? slot)).getLast?

/-- Whether a step names an index as, by the steps before, another slot is named. -/
def TakesName (done : List Declaration) : Declaration → Prop
  | .key _ => False
  | .index slot name _ => ∃ other held, other ≠ slot ∧ lastAt? done other = some ⟨name, held⟩

def Misused (known : List String) (done : List Declaration) (step : Declaration) : Prop :=
  (∃ field ∈ step.fields.all, field ∉ known) ∨ step.TakesName done

def Sound (known : List String) (steps : List Declaration) : Prop :=
  ∀ done step, done ++ [step] <+: steps → ¬ step.Misused known done

def Reports (known : List String) (typeName : String) (done : List Declaration) (step : Declaration) :
    SchemaFault → Prop
  | .nameTaken type name other =>
    type = typeName ∧ ∃ slot fields held, step = .index slot name fields ∧ other ≠ slot ∧
      lastAt? done other = some ⟨name, held⟩
  | .unknownField type field =>
    type = typeName ∧ ¬ step.TakesName done ∧ ∃ before after,
      step.fields.all = before ++ field :: after ∧ field ∉ known ∧ ∀ earlier ∈ before, earlier ∈ known

theorem lastKey_concat (steps : List Declaration) (step : Declaration) :
    lastKey (steps ++ [step]) = step.key?.getD (lastKey steps) := by
  cases step <;> simp [lastKey, key?]

theorem lastAt?_concat (steps : List Declaration) (step : Declaration) (slot : IndexSlot) :
    lastAt? (steps ++ [step]) slot = (step.registration? slot).or (lastAt? steps slot) := by
  unfold lastAt?
  rw [List.filterMap_append, List.getLast?_append]
  cases found : step.registration? slot <;> simp [found]

theorem Reports.misused {known : List String} {typeName : String} {done : List Declaration}
    {step : Declaration} {fault : SchemaFault} (reports : step.Reports known typeName done fault) :
    step.Misused known done := by
  cases fault with
  | nameTaken type name other =>
    obtain ⟨_, slot, fields, held, rfl, apart, named⟩ := reports
    exact .inr ⟨other, held, apart, named⟩
  | unknownField type field =>
    obtain ⟨_, _, before, after, split, unknown, _⟩ := reports
    exact .inl ⟨field, by simp [split], unknown⟩

theorem front_concat_iff {done steps : List Declaration} {step last : Declaration} :
    done ++ [step] <+: steps ++ [last] ↔ done = steps ∧ step = last ∨ done ++ [step] <+: steps := by
  rw [List.prefix_concat_iff]
  apply or_congr_left
  constructor
  · intro whole
    obtain ⟨same, one⟩ := List.append_inj' whole rfl
    exact ⟨same, List.singleton_inj.mp one⟩
  · rintro ⟨rfl, rfl⟩
    rfl

theorem sound_nil (known : List String) : Sound known [] := by
  intro done step front
  simp at front

theorem sound_concat_iff {known : List String} {steps : List Declaration} {step : Declaration} :
    Sound known (steps ++ [step]) ↔ Sound known steps ∧ ¬ step.Misused known steps := by
  constructor
  · intro sound
    exact ⟨fun done next front => sound done next (front_concat_iff.mpr (.inr front)),
      sound steps step (front_concat_iff.mpr (.inl ⟨rfl, rfl⟩))⟩
  · rintro ⟨sound, proper⟩ done next front
    rcases front_concat_iff.mp front with ⟨rfl, rfl⟩ | shorter
    · exact proper
    · exact sound done next shorter

end Declaration

open Declaration

namespace Schema

variable {known : List String} {typeName : String} {schema next : Schema} {done : List Declaration}
  {step : Declaration}

theorem unknownField?_eq_none_iff {fields : KeyFields} :
    unknownField? known fields = none ↔ ¬ ∃ field ∈ fields.all, field ∉ known := by
  simp [unknownField?]

theorem unknownField?_eq_some_iff {fields : KeyFields} {field : String} :
    unknownField? known fields = some field ↔ ∃ before after,
      fields.all = before ++ field :: after ∧ field ∉ known ∧ ∀ earlier ∈ before, earlier ∈ known := by
  simp [unknownField?, List.find?_eq_some_iff_append, and_left_comm]

theorem holder?_eq_none_iff {slot : IndexSlot} {name : String} :
    schema.holder? slot name = none ↔
      ¬ ∃ other held, other ≠ slot ∧ schema.slots other = some ⟨name, held⟩ := by
  simp only [holder?, List.find?_eq_none, mem_indexes_iff]
  constructor
  · rintro free ⟨other, held, apart, taken⟩
    exact free ⟨other, name, held⟩ taken (by simpa using apart)
  · intro free index declared found
    obtain ⟨rfl, apart⟩ : index.name = name ∧ index.slot ≠ slot := by simpa using found
    exact free ⟨index.slot, index.key, apart, declared⟩

theorem of_holder?_eq_some {slot : IndexSlot} {name : String} {index : Index}
    (found : schema.holder? slot name = some index) :
    index.slot ≠ slot ∧ schema.slots index.slot = some ⟨name, index.key⟩ := by
  obtain ⟨rfl, apart⟩ : index.name = name ∧ index.slot ≠ slot := by simpa using List.find?_some found
  exact ⟨apart, mem_indexes_iff.mp (List.mem_of_find?_eq_some found)⟩

def accept (schema : Schema) : Declaration → Schema
  | .key fields => { schema with key := fields }
  | .index slot name fields =>
    { schema with slots := fun other => if other = slot then some ⟨name, fields⟩ else schema.slots other }

structure Follows (known : List String) (typeName : String) (steps : List Declaration) (schema : Schema) :
    Prop where
  typeName_eq : schema.typeName = typeName
  key_eq : schema.key = lastKey steps
  slots_eq : ∀ slot, schema.slots slot = lastAt? steps slot
  key_known : ∀ field ∈ schema.key.all, field ∈ known
  slots_known : ∀ slot registration, schema.slots slot = some registration →
    ∀ field ∈ registration.key.all, field ∈ known
  apart : schema.NamesApart

theorem follows_empty (known : List String) (typeName : String) :
    (empty typeName).Follows known typeName [] where
  typeName_eq := rfl
  key_eq := rfl
  slots_eq _ := rfl
  key_known := nofun
  slots_known := nofun
  apart := nofun

namespace Follows

variable (follows : schema.Follows known typeName done)

include follows

theorem holder?_eq_none_iff_free {slot : IndexSlot} {name : String} {fields : KeyFields} :
    schema.holder? slot name = none ↔ ¬ (Declaration.index slot name fields).TakesName done := by
  simp only [holder?_eq_none_iff, TakesName, follows.slots_eq]

theorem declare_eq_ok_iff :
    schema.declare known step = .ok next ↔ ¬ step.Misused known done ∧ schema.accept step = next := by
  rw [Misused, not_or, ← unknownField?_eq_none_iff]
  cases step with
  | key fields =>
    simp only [declare, Declaration.fields, TakesName]
    cases unknownField? known fields <;> simp [Schema.accept]
  | index slot name fields =>
    rw [← follows.holder?_eq_none_iff_free]
    simp only [declare, Declaration.fields]
    cases schema.holder? slot name <;> cases unknownField? known fields <;> simp [Schema.accept]

theorem reports_of_declare {fault : SchemaFault} (failed : schema.declare known step = .error fault) :
    step.Reports known typeName done fault := by
  cases step with
  | key fields =>
    simp only [declare] at failed
    cases found : unknownField? known fields with
    | none => simp [found, pure, Except.pure] at failed
    | some field =>
      simp only [found] at failed
      cases failed
      exact ⟨follows.typeName_eq, id, unknownField?_eq_some_iff.mp found⟩
  | index slot name fields =>
    simp only [declare] at failed
    cases held : schema.holder? slot name with
    | some other =>
      simp only [held] at failed
      cases failed
      obtain ⟨apart, taken⟩ := of_holder?_eq_some held
      exact ⟨follows.typeName_eq, slot, fields, other.key, rfl, apart, follows.slots_eq other.slot ▸ taken⟩
    | none =>
      cases found : unknownField? known fields with
      | none => simp [held, found, pure, Except.pure] at failed
      | some field =>
        simp only [held, found] at failed
        cases failed
        exact ⟨follows.typeName_eq, follows.holder?_eq_none_iff_free.mp held,
          unknownField?_eq_some_iff.mp found⟩

theorem accept (proper : ¬ step.Misused known done) :
    (schema.accept step).Follows known typeName (done ++ [step]) := by
  obtain ⟨unknown, free⟩ := not_or.mp proper
  have names : ∀ field ∈ step.fields.all, field ∈ known := by simpa using unknown
  cases step with
  | key fields =>
    exact {
      typeName_eq := follows.typeName_eq
      key_eq := by rw [lastKey_concat]; rfl
      slots_eq := fun slot => by rw [lastAt?_concat]; exact follows.slots_eq slot
      key_known := names
      slots_known := follows.slots_known
      apart := follows.apart }
  | index slot name fields =>
    have placed (other : IndexSlot) : (schema.accept (.index slot name fields)).slots other =
        if other = slot then some ⟨name, fields⟩ else schema.slots other := rfl
    exact {
      typeName_eq := follows.typeName_eq
      key_eq := by rw [lastKey_concat]; exact follows.key_eq
      slots_eq := fun other => by
        rw [lastAt?_concat, placed, registration?, follows.slots_eq]
        split <;> rfl
      key_known := follows.key_known
      slots_known := fun other registration found => by
        rw [placed] at found
        split at found
        · cases found
          exact names
        · exact follows.slots_known other registration found
      apart := by
        have fresh (other : IndexSlot) (held : Registration) (apart : other ≠ slot)
            (found : schema.slots other = some held) : held.name ≠ name := by
          rintro rfl
          exact free ⟨other, held.key, apart, follows.slots_eq other ▸ found⟩
        intro one other first second found also same
        rw [placed] at found also
        split at found <;> split at also
        next here there => exact here.trans there.symm
        next here there =>
          cases found
          exact absurd same.symm (fresh other second there also)
        next here there =>
          cases also
          exact absurd same (fresh one first here found)
        next => exact follows.apart one other first second found also same }

end Follows

section Build

variable {steps : List Declaration}

theorem build_concat (known : List String) (typeName : String) (done : List Declaration)
    (step : Declaration) :
    build known typeName (done ++ [step]) =
      build known typeName done >>= fun schema => schema.declare known step := by
  simp [build, List.foldlM_append]

theorem build_of_sound (typeName : String) (sound : Sound known steps) :
    ∃ schema, build known typeName steps = .ok schema ∧ schema.Follows known typeName steps := by
  induction steps using List.reverseRecOn with
  | nil => exact ⟨empty typeName, rfl, follows_empty known typeName⟩
  | append_singleton done step ih =>
    obtain ⟨sound, proper⟩ := sound_concat_iff.mp sound
    obtain ⟨schema, built, follows⟩ := ih sound
    refine ⟨schema.accept step, ?_, follows.accept proper⟩
    rw [build_concat, built]
    exact follows.declare_eq_ok_iff.mpr ⟨proper, rfl⟩

theorem sound_of_build (built : build known typeName steps = .ok schema) : Sound known steps := by
  induction steps using List.reverseRecOn generalizing schema with
  | nil => exact sound_nil known
  | append_singleton done step ih =>
    rw [build_concat, bind_eq_ok_iff] at built
    obtain ⟨before, begun, accepted⟩ := built
    have sound := ih begun
    obtain ⟨same, also, follows⟩ := build_of_sound typeName sound
    cases begun.symm.trans also
    exact sound_concat_iff.mpr ⟨sound, (follows.declare_eq_ok_iff.mp accepted).1⟩

theorem follows_of_build (built : build known typeName steps = .ok schema) :
    schema.Follows known typeName steps := by
  obtain ⟨same, also, follows⟩ := build_of_sound typeName (sound_of_build built)
  cases built.symm.trans also
  exact follows

def StopsAt (known : List String) (typeName : String) (done : List Declaration) (step : Declaration)
    (fault : SchemaFault) : Prop :=
  ∃ schema, build known typeName done = .ok schema ∧ schema.declare known step = .error fault

theorem StopsAt.reports {fault : SchemaFault} (stops : StopsAt known typeName done step fault) :
    step.Reports known typeName done fault := by
  obtain ⟨schema, built, failed⟩ := stops
  exact (follows_of_build built).reports_of_declare failed

theorem exists_stopsAt_iff :
    (∃ fault, StopsAt known typeName done step fault) ↔ Sound known done ∧ step.Misused known done := by
  constructor
  · rintro ⟨fault, stops⟩
    exact ⟨sound_of_build stops.choose_spec.1, stops.reports.misused⟩
  · rintro ⟨sound, misused⟩
    obtain ⟨schema, built, follows⟩ := build_of_sound typeName sound
    cases declared : schema.declare known step with
    | ok next => exact absurd misused (follows.declare_eq_ok_iff.mp declared).1
    | error fault => exact ⟨fault, schema, built, declared⟩

theorem build_eq_error_iff {fault : SchemaFault} :
    build known typeName steps = .error fault ↔
      ∃ done step, done ++ [step] <+: steps ∧ StopsAt known typeName done step fault := by
  induction steps using List.reverseRecOn with
  | nil =>
    refine iff_of_false nofun ?_
    rintro ⟨done, step, front, _⟩
    simp at front
  | append_singleton done step ih =>
    rw [build_concat, bind_eq_error_iff, ih]
    constructor
    · rintro (⟨prior, next, front, stops⟩ | stops)
      · exact ⟨prior, next, front_concat_iff.mpr (.inr front), stops⟩
      · exact ⟨done, step, front_concat_iff.mpr (.inl ⟨rfl, rfl⟩), stops⟩
    · rintro ⟨prior, next, front, stops⟩
      rcases front_concat_iff.mp front with ⟨rfl, rfl⟩ | shorter
      · exact .inr stops
      · exact .inl ⟨prior, next, shorter, stops⟩

/-- What a schema keeps of the steps that it was declared by: the last one for the key and each slot. -/
structure KeepsLast (schema : Schema) (known : List String) (typeName : String)
    (steps : List Declaration) : Prop where
  typed : schema.typeName = typeName
  key : schema.key = lastKey steps
  slots : ∀ slot, schema.indexAt? slot =
    (lastAt? steps slot).map fun last => ⟨slot, last.name, last.key⟩
  names_apart : (schema.indexes.map Index.name).Nodup
  in_order : (schema.indexes.map Index.slot).Sublist IndexSlot.all
  listed : ∀ index, index ∈ schema.indexes ↔
    lastAt? steps index.slot = some ⟨index.name, index.key⟩
  key_known : ∀ field ∈ schema.key.all, field ∈ known
  indexes_known : ∀ index ∈ schema.indexes, ∀ field ∈ index.key.all, field ∈ known
  found : ∀ name index, schema.index? name = some index ↔
    index.name = name ∧ lastAt? steps index.slot = some ⟨name, index.key⟩
  missing : ∀ name, schema.index? name = none ↔ ∀ slot key, lastAt? steps slot ≠ some ⟨name, key⟩

theorem keepsLast_of_build (built : build known typeName steps = .ok schema) :
    schema.KeepsLast known typeName steps := by
  have follows := follows_of_build built
  have listed (index : Index) :
      index ∈ schema.indexes ↔ lastAt? steps index.slot = some ⟨index.name, index.key⟩ := by
    rw [mem_indexes_iff, follows.slots_eq]
  have found (name : String) (index : Index) : schema.index? name = some index ↔
      index.name = name ∧ lastAt? steps index.slot = some ⟨name, index.key⟩ := by
    rw [follows.apart.index?_eq_some_iff, listed, and_comm]
    exact and_congr_right fun same => same ▸ Iff.rfl
  refine {
    typed := follows.typeName_eq
    key := follows.key_eq
    slots := fun slot => by rw [indexAt?, follows.slots_eq]
    names_apart := follows.apart.names_nodup
    in_order := schema.slots_sublist
    listed := listed
    key_known := follows.key_known
    indexes_known := fun index declared =>
      follows.slots_known index.slot _ (mem_indexes_iff.mp declared)
    found := found
    missing := fun name => ?_ }
  rw [Option.eq_none_iff_forall_ne_some]
  constructor
  · intro none slot key last
    exact none ⟨slot, name, key⟩ ((found name _).mpr ⟨rfl, last⟩)
  · intro free index some
    exact free index.slot index.key ((found name index).mp some).2

/--
A declaration ends at the first step that names an unknown field or an index name which another slot has by
then, and at no other; without such a step it gives a schema. That schema has the fields of the last step for
the key, and on each slot the index of the last step for it, in the order of the slots and under separate
names; all its fields are known. A name finds the index whose slot was last registered under it, and
nothing if no slot was.
-/
theorem build_keeps_last_steps (known : List String) (typeName : String) (steps : List Declaration) :
    (∀ done step, done ++ [step] <+: steps →
      ((∃ fault, StopsAt known typeName done step fault) ↔ step.Misused known done ∧ Sound known done) ∧
      ∀ fault, StopsAt known typeName done step fault → step.Reports known typeName done fault) ∧
    (∀ fault, build known typeName steps = .error fault ↔
      ∃ done step, done ++ [step] <+: steps ∧ StopsAt known typeName done step fault) ∧
    ((∃ schema, build known typeName steps = .ok schema) ↔ Sound known steps) ∧
    ∀ schema, build known typeName steps = .ok schema → schema.KeepsLast known typeName steps := by
  refine ⟨fun done step _ => ⟨exists_stopsAt_iff.trans and_comm, fun fault => StopsAt.reports⟩,
    fun fault => build_eq_error_iff, ⟨fun ⟨schema, built⟩ => sound_of_build built, fun sound => ?_⟩,
    fun schema => keepsLast_of_build⟩
  obtain ⟨schema, built, _⟩ := build_of_sound typeName sound
  exact ⟨schema, built⟩

def taskFieldNames : List String := ["userId", "status", "updatedAt", "email"]

-- The name of the first index is free again when the last step uses it.
def taskSteps : List Declaration :=
  [.index .gsi1 "byEmail" ⟨["email"], []⟩, .key ⟨["userId"], ["status", "updatedAt"]⟩,
    .index .gsi1 "byStatus" ⟨["status"], ["updatedAt"]⟩, .index .gsi2 "byEmail" ⟨["email"], ["updatedAt"]⟩]

def secondByStatus : Declaration := .index .gsi3 "byStatus" ⟨["userId"], []⟩

theorem freed_name_found_again :
    (StopsAt taskFieldNames "Task" taskSteps secondByStatus (.nameTaken "Task" "byStatus" .gsi1) ∧
      secondByStatus.Misused taskFieldNames taskSteps ∧
      secondByStatus.Reports taskFieldNames "Task" taskSteps (.nameTaken "Task" "byStatus" .gsi1)) ∧
    ∃ schema, build taskFieldNames "Task" taskSteps = .ok schema ∧
      schema.index? "byEmail" = some ⟨.gsi2, "byEmail", ⟨["email"], ["updatedAt"]⟩⟩ ∧
      schema.index? "byOwner" = none ∧ "updatedAt" ∈ taskFieldNames := by
  have stops : StopsAt taskFieldNames "Task" taskSteps secondByStatus
      (.nameTaken "Task" "byStatus" .gsi1) := ⟨_, rfl, rfl⟩
  obtain ⟨ends, -, -, -⟩ :=
    build_keeps_last_steps taskFieldNames "Task" (taskSteps ++ [secondByStatus])
  obtain ⟨first, reports⟩ := ends taskSteps secondByStatus (List.prefix_refl _)
  obtain ⟨schema, built⟩ : ∃ schema, build taskFieldNames "Task" taskSteps = .ok schema := ⟨_, rfl⟩
  obtain ⟨-, -, -, keeps⟩ := build_keeps_last_steps taskFieldNames "Task" taskSteps
  have kept := keeps schema built
  have others (slot : IndexSlot) : (lastAt? taskSteps slot).all (·.name != "byOwner") = true := by
    cases slot <;> decide
  refine ⟨⟨stops, (first.mp ⟨_, stops⟩).1, reports _ stops⟩, schema, built,
    (kept.found _ _).mpr ⟨rfl, rfl⟩, (kept.missing _).mpr fun slot key held => ?_, ?_⟩
  · simpa [held] using others slot
  · exact kept.indexes_known ⟨.gsi2, "byEmail", ⟨["email"], ["updatedAt"]⟩⟩ ((kept.listed _).mpr rfl)
      "updatedAt" (by decide)

end Build

end Schema

end SharedTable
