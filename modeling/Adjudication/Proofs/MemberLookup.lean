import Adjudication.Proofs.ByteOrder
import Adjudication.Proofs.Quorums
import Mathlib.Data.List.Destutter
import Mathlib.Data.List.Sort

namespace Adjudication

theorem dedup_ascending {ys : List Address} (h : ys.Pairwise (· ≤ ·)) :
    ys.dedup.Pairwise (· < ·) := by
  have hle : ys.dedup.Pairwise (· ≤ ·) := h.sublist (List.dedup_sublist ys)
  exact (hle.and (List.nodup_dedup ys)).imp fun hxy => Std.lt_of_le_of_ne hxy.1 hxy.2

namespace Members

variable {m : Members} {x : Address} {xs ys : List Address}

/-- Sorting, by whatever means, and dropping neighbours that repeat. -/
theorem ofList_eq_destutter (hperm : ys.Perm xs) (hsorted : ys.Pairwise (· ≤ ·)) :
    (ofList xs).addresses = ys.destutter (· ≠ ·) := by
  rw [hsorted.destutter_eq_dedup]
  refine (ofList xs).ascending.eq_of_mem_iff (dedup_ascending hsorted) fun x => ?_
  rw [mem_ofList_iff, List.mem_dedup, hperm.mem_iff]

theorem contains_ofList_iff : (ofList xs).contains x = true ↔ x ∈ xs :=
  ⟨fun h => mem_ofList_iff.mp (mem_of_contains h), fun h => contains_of_mem (mem_ofList h)⟩

theorem containsByScan_iff : m.containsByScan x = true ↔ x ∈ m.addresses := by
  simp [containsByScan]

/-- Swaps in another list. -/
def replace (_ : Members) (xs : List Address) : Members := ofList xs

/-- What is held after the lists were swapped in one after another; at first there is nothing. -/
def replaced (lists : List (List Address)) : Members := lists.foldl replace empty

/-- The addresses of a list, in the order of their bytes and each once; either look-up answers for the
list. -/
structure Represents (m : Members) (xs : List Address) : Prop where
  ascending : m.addresses.Pairwise fun x y => utf8 x < utf8 y
  mem_iff : ∀ x, x ∈ m.addresses ↔ x ∈ xs
  sorted_once : ∀ ys : List Address, ys.Perm xs → (ys.Pairwise fun x y => ¬ utf8 y < utf8 x) →
    m.addresses = ys.destutter (· ≠ ·)
  contains_eq_scan : ∀ x, m.contains x = m.containsByScan x
  contains_iff : ∀ x, m.contains x = true ↔ x ∈ xs

theorem represents_replace (m : Members) (xs : List Address) : (m.replace xs).Represents xs where
  ascending := (ofList xs).ascending.imp utf8_lt_utf8
  mem_iff _ := mem_ofList_iff
  sorted_once ys hperm hsorted := by
    refine ofList_eq_destutter hperm (hsorted.imp fun hyx => ?_)
    rw [utf8_lt_utf8_iff] at hyx
    exact String.not_lt.mp hyx
  contains_eq_scan x := by
    rw [Bool.eq_iff_iff, containsByScan_iff]
    exact contains_ofList_iff.trans mem_ofList_iff.symm
  contains_iff _ := contains_ofList_iff

/-- The last list counts alone, and without any the membership is that of the empty list. -/
theorem represents_replaced (lists : List (List Address)) :
    (replaced lists).Represents (lists.getLast?.getD []) := by
  rcases List.eq_nil_or_concat' lists with rfl | ⟨earlier, last, rfl⟩
  · exact represents_replace empty []
  · have hlast : replaced (earlier ++ [last]) = (replaced earlier).replace last := by
      rw [replaced, List.foldl_concat, replaced]
    rw [List.getLast?_concat, hlast]
    exact represents_replace _ last

example : (replaced [["dave"], ["carol", "alice", "bob", "alice"]]).addresses =
    ["alice", "bob", "carol"] := by
  decide

end Members

end Adjudication
