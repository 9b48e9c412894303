import SharedTable.Proofs.Except
import SharedTable.Query

set_option autoImplicit false

namespace SharedTable

namespace Query

variable {σ α : Type}

theorem compile_eq_ok_iff {query : Query σ α} {request : Request} :
    query.compile = .ok request ↔
      query.limit ≠ some 0 ∧ ∃ index condition startKey,
        query.index = .ok index ∧
        KeyCondition.compile query.table.schema index query.partition query.sortKey = .ok condition ∧
        query.startKey = .ok startKey ∧
        request = ⟨query.table.name, query.slot, condition, query.filter, query.limit, startKey,
          !query.reverse⟩ := by
  unfold compile
  simp only [bind_eq_ok_iff]
  by_cases zero : query.limit = some 0
  · simp [zero, bind_eq_ok_iff]
  · simp only [zero, if_false, mapError_eq_ok_iff, pure, Except.pure, Except.ok.injEq, bind_eq_ok_iff,
      ne_eq, not_false_eq_true, true_and, exists_and_left]
    simp only [eq_comm]

theorem limit_of_compile {query : Query σ α} {request : Request} (compiled : query.compile = .ok request) :
    request.limit ≠ some 0 := by
  obtain ⟨positive, _, _, _, _, _, _, rfl⟩ := compile_eq_ok_iff.mp compiled
  exact positive

theorem table_of_compile {query : Query σ α} {request : Request} (compiled : query.compile = .ok request) :
    request.table = query.table.name := by
  obtain ⟨_, _, _, _, _, _, _, rfl⟩ := compile_eq_ok_iff.mp compiled
  rfl

theorem compile_resumed {query : Query σ α} {request : Request}
    (compiled : query.compile = .ok request) {cursor : Option Cursor} {startKey : Option LastKey}
    (read : Option.Rel (fun cursor key => Cursor.decode cursor = .ok key) cursor startKey) :
    { query with cursor }.compile = .ok (request.resumeFrom startKey) := by
  obtain ⟨positive, index, condition, _, declared, restricted, _, rfl⟩ := compile_eq_ok_iff.mp compiled
  refine compile_eq_ok_iff.mpr ⟨positive, index, condition, startKey, declared, restricted, ?_, rfl⟩
  cases read with
  | none => rfl
  | some decoded =>
    simp only [Query.startKey, decoded]
    rfl

theorem startKey_of_fresh {query : Query σ α} (fresh : query.cursor = none) :
    query.startKey = .ok none := by
  unfold startKey
  rw [fresh]
  rfl

end Query

end SharedTable
