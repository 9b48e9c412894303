import SharedTable.Proofs.Key.Spelling
import SharedTable.Proofs.Number.Padding

set_option autoImplicit false

namespace SharedTable

namespace Key

def Above (text : String) : Prop := ∀ letter ∈ text.toList, '#' < letter

theorem above_padded {n : Integer} (natural : 0 ≤ n.val) : Above (Number.padded (.integer n)) := by
  intro letter member
  have bounds := Number.digit_bounds (Number.digits_padded natural letter member)
  exact Nat.lt_of_lt_of_le (by decide) bounds.1

theorem joined_append_lt_iff (front : List String) {rest more : List String} (someRest : rest ≠ [])
    (someMore : more ≠ []) :
    joined (front ++ rest) < joined (front ++ more) ↔ joined rest < joined more := by
  by_cases none : front = []
  · rw [none, List.nil_append, List.nil_append]
  · rw [joined_append none someRest, joined_append none someMore, append_lt_append_iff]

theorem append_mark_lt_append_mark_iff {mark : Char} {xs ys : List Char} (aboveX : ∀ x ∈ xs, mark < x)
    (aboveY : ∀ y ∈ ys, mark < y) (differ : xs ≠ ys) (as bs : List Char) :
    xs ++ mark :: as < ys ++ mark :: bs ↔ xs < ys := by
  induction xs generalizing ys with
  | nil =>
    obtain ⟨y, ys, rfl⟩ := List.exists_cons_of_ne_nil differ.symm
    have above := aboveY y List.mem_cons_self
    simp [List.cons_lt_cons_iff, above]
  | cons x xs ih =>
    have aboveX' := List.forall_mem_cons.mp aboveX
    cases ys with
    | nil => simp [List.cons_lt_cons_iff, aboveX'.1.not_gt, aboveX'.1.ne']
    | cons y ys =>
      rw [List.cons_append, List.cons_append, List.cons_lt_cons_iff, List.cons_lt_cons_iff]
      refine or_congr_right (and_congr_right fun same => ?_)
      refine ih aboveX'.2 (List.forall_mem_cons.mp aboveY).2 ?_
      rintro rfl
      exact differ (by rw [same])

theorem joined_segment_lt_iff {text other : String} (aboveText : Above text) (aboveOther : Above other)
    (differ : text ≠ other) (field : String) {rest more : List String} (alike : rest = [] ↔ more = []) :
    joined (segment field text :: rest) < joined (segment field other :: more) ↔ text < other := by
  have apart : text.toList ≠ other.toList := fun same => differ (String.toList_inj.mp same)
  have less (a b : String) : text ++ (separator ++ a) < other ++ (separator ++ b) ↔ text < other := by
    simp only [String.lt_iff_toList_lt, String.toList_append]
    exact append_mark_lt_append_mark_iff aboveText aboveOther apart a.toList b.toList
  by_cases last : rest = []
  · rw [last, alike.mp last, joined, joined, String.intercalate_singleton, String.intercalate_singleton,
      segment, segment, append_lt_append_iff]
  · rw [joined_segment_cons last, joined_segment_cons (mt alike.mpr last), append_lt_append_iff,
      append_lt_append_iff, less]

section Records

variable {fields : List String} {field : String} {these those : Fields}

def AgreeBut (fields : List String) (field : String) (these those : Fields) : Prop :=
  ∀ name ∈ fields, name ≠ field → these.present? name = those.present? name

variable {this that : Value} (inThese : these.present? field = some this)
  (inThose : those.present? field = some that) (agree : AgreeBut fields field these those)

include inThese inThose agree

theorem held_eq_of_agreeBut : held fields these = held fields those := by
  refine List.filter_congr fun name member => ?_
  by_cases same : name = field
  · rw [same, inThese, inThose]
    rfl
  · rw [agree name member same]

theorem sort_lt_sort_iff (member : field ∈ fields) (aboveThis : Above this.keyText)
    (aboveThat : Above that.keyText) (differ : this.keyText ≠ that.keyText) (typeName : String) :
    sort typeName fields these < sort typeName fields those ↔ this.keyText < that.keyText := by
  have some : fields ≠ [] := List.ne_nil_of_mem member
  have present : field ∈ held fields those := List.mem_filter.mpr ⟨member, by rw [inThose]; rfl⟩
  obtain ⟨before, after, split, first⟩ := List.eq_append_cons_of_mem present
  have front : (before.map fun name => segment name (rendered these name)) =
      before.map fun name => segment name (rendered those name) := by
    refine List.map_congr_left fun name earlier => ?_
    have kept : name ∈ held fields those := split ▸ List.mem_append_left _ earlier
    have apart : name ≠ field := fun same => first (same ▸ earlier)
    rw [rendered, rendered, agree name (List.mem_of_mem_filter kept) apart]
  rw [sort_eq_held some, sort_eq_held some, held_eq_of_agreeBut inThese inThose agree, split, List.map_append,
    List.map_append, List.map_cons, List.map_cons, front, rendered_of_present inThese,
    rendered_of_present inThose, joined_append_lt_iff _ (List.cons_ne_nil _ _) (List.cons_ne_nil _ _)]
  exact joined_segment_lt_iff aboveThis aboveThat differ field (by simp)

end Records

end Key

/--
Of two whole numbers the smaller has the earlier text exactly when it is at most the number that the first
digits of the larger spell, as many as its own text has. Sort keys that differ in the number alone are in
the order of the texts, which is the order of the numbers as long as the larger fits into the width of keys.
-/
theorem number_order_iff {m n : Integer} (natural : 0 ≤ m.val) (less : m.val < n.val) :
    (Number.padded (.integer m) < Number.padded (.integer n) ↔ m.val ≤ n.val /
      10 ^ ((Number.padded (.integer n)).length - (Number.padded (.integer m)).length)) ∧
    (∀ {typeName : String} {fields : List String} {field : String} {these those : Fields},
      field ∈ fields → these.present? field = some (.number (.integer m)) →
      those.present? field = some (.number (.integer n)) → Key.AgreeBut fields field these those →
      (Key.sort typeName fields these < Key.sort typeName fields those ↔
        Number.padded (.integer m) < Number.padded (.integer n))) ∧
    (n.val < 10 ^ 16 → Number.padded (.integer m) < Number.padded (.integer n)) := by
  refine ⟨Number.padded_lt_iff_of_lt natural less, ?_, fun narrow =>
    (Number.padded_lt_iff ⟨natural, less.trans narrow⟩ ⟨natural.trans less.le, narrow⟩).mpr less⟩
  intro typeName fields field these those member inThese inThose agree
  have differ : Number.padded (.integer m) ≠ Number.padded (.integer n) := by
    intro same
    rw [Number.padded_inj.mp same] at less
    exact less.false
  exact Key.sort_lt_sort_iff inThese inThose agree member (Key.above_padded natural)
    (Key.above_padded (natural.trans less.le)) differ typeName

def rankedFields (rank : Integer) : Fields :=
  .ofList [("rank", Value.number (.integer rank)), ("title", Value.string "Dune")]

theorem longer_rank_sorts_after :
    Key.sort "Book" ["rank", "title"] (rankedFields ⟨12345678901234567, by decide, by decide⟩) <
      Key.sort "Book" ["rank", "title"] (rankedFields ⟨999999999999999999, by decide, by decide⟩) := by
  obtain ⟨texts, keys, _⟩ := @number_order_iff ⟨12345678901234567, by decide, by decide⟩
    ⟨999999999999999999, by decide, by decide⟩ (by decide) (by decide)
  have member : "rank" ∈ ["rank", "title"] := by decide
  refine (keys member rfl rfl ?_).mpr (texts.mpr (by decide +kernel))
  intro name member apart
  obtain rfl : name = "title" := by simpa [apart] using member
  rfl

theorem rank_past_width_sorts_before :
    ¬ Number.padded (.integer ⟨9999999999999999, by decide, by decide⟩) <
        Number.padded (.integer ⟨10000000000000000, by decide, by decide⟩) ∧
      ¬ Key.sort "Book" ["rank", "title"] (rankedFields ⟨9999999999999999, by decide, by decide⟩) <
        Key.sort "Book" ["rank", "title"] (rankedFields ⟨10000000000000000, by decide, by decide⟩) := by
  decide +kernel

end SharedTable
