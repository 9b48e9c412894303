import Mathlib.Data.List.Basic

set_option autoImplicit false

namespace SharedTable

variable {α β : Type} [Ord β] [Std.TransOrd β]

abbrev AscendingBy (f : α → β) (items : List α) : Prop :=
  items.Pairwise fun a b => compare (f a) (f b) = .lt

variable {f : α → β} {items others : List α}

theorem ascendingBy_mergeSort [Std.LawfulEqOrd β] (distinct : items.Pairwise fun a b => f a ≠ f b) :
    AscendingBy f (items.mergeSort fun a b => (compare (f a) (f b)).isLE) := by
  let sorted := items.mergeSort fun a b => (compare (f a) (f b)).isLE
  -- Sorting gives a weak order; it is strict since no two entries are sorted by the same.
  have weak : sorted.Pairwise fun a b => (compare (f a) (f b)).isLE = true :=
    List.pairwise_mergeSort (fun _ _ _ => Std.TransCmp.isLE_trans)
      (fun a b => by
        cases order : compare (f a) (f b)
        · simp
        · simp
        · simp [Std.OrientedCmp.gt_iff_lt.mp order]) _
  have apart : sorted.Pairwise fun a b => f a ≠ f b :=
    (List.mergeSort_perm _ _).symm.pairwise distinct Ne.symm
  apply (weak.and apart).imp
  rintro a b ⟨least, differ⟩
  cases order : compare (f a) (f b)
  · rfl
  · exact absurd (Std.LawfulEqCmp.eq_of_compare order) differ
  · simp [order] at least

theorem AscendingBy.eq_of_perm (first : AscendingBy f items) (second : AscendingBy f others)
    (same : items.Perm others) : items = others := by
  refine List.Perm.eq_of_pairwise (fun a b _ _ less greater => ?_) first second same
  exact absurd greater (Std.OrientedCmp.not_lt_of_lt less)

end SharedTable
