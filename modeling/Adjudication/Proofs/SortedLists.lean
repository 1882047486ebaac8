import Adjudication.Sorting
import Mathlib.Data.List.Sort

namespace Adjudication

variable {α : Type} (le : α → α → Prop) [DecidableRel le]

theorem insertBy_eq_orderedInsert (x : α) (xs : List α) :
    insertBy le x xs = xs.orderedInsert le x := by
  induction xs with
  | nil => rfl
  | cons y ys ih => rw [insertBy, List.orderedInsert_cons, ih]

theorem sortBy_eq_insertionSort (xs : List α) : sortBy le xs = xs.insertionSort le := by
  induction xs with
  | nil => rfl
  | cons x xs ih => rw [sortBy, List.insertionSort_cons, insertBy_eq_orderedInsert, ih]

theorem sortBy_perm (xs : List α) : (sortBy le xs).Perm xs := by
  rw [sortBy_eq_insertionSort]
  exact List.perm_insertionSort le xs

/-- What is sorted by a key is in ascending order of it. -/
theorem sortBy_pairwise {κ : Type} [LE κ] [DecidableLE κ] [Std.IsLinearPreorder κ] (key : α → κ)
    (xs : List α) :
    (sortBy (fun x y => key x ≤ key y) xs).Pairwise fun x y => key x ≤ key y := by
  have total : Std.Total fun x y => key x ≤ key y := ⟨fun _ _ => Std.le_total⟩
  have trans : IsTrans α fun x y => key x ≤ key y := ⟨fun _ _ _ => Std.le_trans⟩
  rw [sortBy_eq_insertionSort]
  exact List.pairwise_insertionSort _ xs

end Adjudication
