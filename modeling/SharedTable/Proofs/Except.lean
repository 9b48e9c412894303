import Mathlib.Data.List.Forall2
import Mathlib.Data.List.Perm.Basic
import Mathlib.Data.List.ReduceOption

set_option autoImplicit false

namespace SharedTable

variable {ε α β : Type}

@[simp] theorem throw_eq_ok_iff {fault : ε} {result : α} :
    (throw fault : Except ε α) = .ok result ↔ False := by
  simp [throw, throwThe, MonadExceptOf.throw]

@[simp] theorem pure_eq_ok_iff {found result : α} :
    (pure found : Except ε α) = .ok result ↔ found = result := by
  simp [pure, Except.pure]

theorem bind_eq_ok_iff {γ : Type} {attempt : Except ε α} {rest : α → Except ε γ} {result : γ} :
    (attempt >>= rest) = .ok result ↔ ∃ found, attempt = .ok found ∧ rest found = .ok result := by
  cases attempt <;> simp [bind, Except.bind]

theorem bind_eq_error_iff {γ : Type} {attempt : Except ε α} {rest : α → Except ε γ} {fault : ε} :
    (attempt >>= rest) = .error fault ↔
      attempt = .error fault ∨ ∃ found, attempt = .ok found ∧ rest found = .error fault := by
  cases attempt <;> simp [bind, Except.bind]

theorem mapError_eq_ok_iff {δ : Type} {attempt : Except ε α} {f : ε → δ} {result : α} :
    attempt.mapError f = .ok result ↔ attempt = .ok result := by
  cases attempt <;> simp [Except.mapError]

theorem map_eq_ok_iff {f : α → β} {attempt : Except ε α} {result : β} :
    attempt.map f = .ok result ↔ ∃ found, attempt = .ok found ∧ f found = result := by
  cases attempt <;> simp [Except.map]

theorem map_eq_error_iff {f : α → β} {attempt : Except ε α} {fault : ε} :
    attempt.map f = .error fault ↔ attempt = .error fault := by
  cases attempt <;> simp [Except.map]

theorem toOption_bind {γ : Type} (attempt : Except ε α) (rest : α → Except ε γ) :
    (attempt >>= rest).toOption = attempt.toOption.bind fun found => (rest found).toOption := by
  cases attempt <;> rfl

theorem toOption_mapM (f : α → Except ε β) (items : List α) :
    (items.mapM f).toOption = items.mapM fun item => (f item).toOption := by
  induction items with
  | nil => rfl
  | cons item rest ih =>
    rw [List.mapM_cons, List.mapM_cons, toOption_bind, ← ih]
    cases f item with
    | error => rfl
    | ok => cases rest.mapM f <;> rfl

theorem mapM_eq_ok_iff {f : α → Except ε β} {items : List α} {results : List β} :
    items.mapM f = .ok results ↔
      List.Forall₂ (fun item result => f item = .ok result) items results := by
  induction items generalizing results with
  | nil => simp [pure, Except.pure, eq_comm]
  | cons item rest ih =>
    simp only [List.mapM_cons, bind_eq_ok_iff, pure, Except.pure, Except.ok.injEq,
      List.forall₂_cons_left_iff]
    constructor
    · rintro ⟨result, done, more, later, rfl⟩
      exact ⟨result, more, done, ih.mp later, rfl⟩
    · rintro ⟨result, more, done, later, rfl⟩
      exact ⟨result, done, more, ih.mpr later, rfl⟩

theorem mapM_perm {f : α → Except ε β} {items others : List α} {results : List β}
    (same : items.Perm others) (done : items.mapM f = .ok results) :
    ∃ more, others.mapM f = .ok more ∧ results.Perm more := by
  obtain ⟨more, related, reordered⟩ := List.perm_comp_forall₂ same.symm (mapM_eq_ok_iff.mp done)
  exact ⟨more, mapM_eq_ok_iff.mpr related, reordered.symm⟩

theorem mapM_eq_error {f : α → Except ε β} {items : List α} {fault : ε}
    (failed : items.mapM f = .error fault) : ∃ item ∈ items, f item = .error fault := by
  induction items with
  | nil => cases failed
  | cons item rest ih =>
    rw [List.mapM_cons] at failed
    -- The first failing step ends the run, so the fault is that of the head or comes from the tail.
    cases first : f item with
    | error other =>
      rw [first] at failed
      cases failed
      exact ⟨item, List.mem_cons_self, first⟩
    | ok result =>
      rw [first] at failed
      cases later : rest.mapM f with
      | error other =>
        rw [later] at failed
        cases failed
        obtain ⟨found, member, same⟩ := ih later
        exact ⟨found, List.mem_cons_of_mem _ member, same⟩
      | ok results =>
        rw [later] at failed
        cases failed

theorem mapM_map_eq_some {γ : Type} {f : β → Option γ} {g : α → β} {h : α → γ} {items : List α}
    (each : ∀ item ∈ items, f (g item) = some (h item)) :
    (items.map g).mapM f = some (items.map h) := by
  induction items with
  | nil => rfl
  | cons item rest ih =>
    have later := ih fun other member => each other (List.mem_cons_of_mem _ member)
    rw [List.map_cons, List.mapM_cons, each item List.mem_cons_self, later]
    rfl

theorem exists_of_mem_right {relates : α → β → Prop} {items : List α} {results : List β}
    (related : List.Forall₂ relates items results) {result : β} (member : result ∈ results) :
    ∃ item ∈ items, relates item result := by
  induction related with
  | nil => cases member
  | cons first _ ih =>
    rcases List.mem_cons.mp member with rfl | later
    · exact ⟨_, List.mem_cons_self, first⟩
    · obtain ⟨item, inRest, also⟩ := ih later
      exact ⟨item, List.mem_cons_of_mem _ inRest, also⟩

theorem exists_of_mem_left {relates : α → β → Prop} {items : List α} {results : List β}
    (related : List.Forall₂ relates items results) {item : α} (member : item ∈ items) :
    ∃ result ∈ results, relates item result :=
  exists_of_mem_right related.flip member

theorem mapM_error_of_mem {f : α → Except ε β} {items : List α}
    (failed : ∃ item ∈ items, ∃ fault, f item = .error fault) : ∃ fault, items.mapM f = .error fault := by
  obtain ⟨item, member, fault, failed⟩ := failed
  cases whole : items.mapM f with
  | error other => exact ⟨other, rfl⟩
  | ok results =>
    obtain ⟨result, _, done⟩ := exists_of_mem_left (mapM_eq_ok_iff.mp whole) member
    rw [failed] at done
    cases done

theorem mapM_reduceOption {γ : Type} (f : β → Except ε γ) (g : α → Option β) (items : List α) :
    (items.mapM fun item => (g item).mapM f).map List.reduceOption = (items.filterMap g).mapM f := by
  induction items with
  | nil => rfl
  | cons item rest ih =>
    rw [List.mapM_cons, List.filterMap_cons]
    cases g item with
    | none =>
      rw [← ih]
      cases rest.mapM fun item => (g item).mapM f <;> rfl
    | some found =>
      have read : (some found).mapM f = some <$> f found := rfl
      simp only [List.mapM_cons, ← ih, read]
      cases f found with
      | error fault => rfl
      | ok result => cases rest.mapM fun item => (g item).mapM f <;> rfl

theorem exists_sublist_forall₂ {relates : α → β → Prop} {items : List α} {results part : List β}
    (related : List.Forall₂ relates items results) (within : part.Sublist results) :
    ∃ kept : List α, kept.Sublist items ∧ List.Forall₂ relates kept part := by
  induction within generalizing items with
  | slnil =>
    cases related
    exact ⟨[], .slnil, .nil⟩
  | cons _ _ ih =>
    cases related with
    | cons _ later =>
      obtain ⟨kept, inRest, also⟩ := ih later
      exact ⟨kept, inRest.cons _, also⟩
  | cons_cons _ _ ih =>
    cases related with
    | cons first later =>
      obtain ⟨kept, inRest, also⟩ := ih later
      exact ⟨_ :: kept, inRest.cons_cons _, .cons first also⟩

theorem forall₂_of_forall_exists {relates : α → β → Prop} {items : List α}
    (each : ∀ item ∈ items, ∃ result, relates item result) :
    ∃ results, List.Forall₂ relates items results := by
  induction items with
  | nil => exact ⟨[], .nil⟩
  | cons item rest ih =>
    obtain ⟨result, first⟩ := each item List.mem_cons_self
    obtain ⟨results, later⟩ := ih fun other member => each other (List.mem_cons_of_mem _ member)
    exact ⟨result :: results, .cons first later⟩

end SharedTable
