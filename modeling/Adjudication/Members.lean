import Adjudication.Entry

namespace Adjudication

/-- The least number that is more than half of `n`. -/
def majority (n : Nat) : Nat := n / 2 + 1

/-- Puts an address into an ascending list unless it is there. -/
def insertAddress (x : Address) : List Address → List Address
  | [] => [x]
  | y :: ys => if x = y then y :: ys else if x < y then x :: y :: ys else y :: insertAddress x ys

theorem mem_insertAddress {x y : Address} {xs : List Address} (h : y ∈ insertAddress x xs) :
    y = x ∨ y ∈ xs := by
  induction xs with
  | nil => exact Or.inl (List.mem_singleton.mp h)
  | cons z xs ih =>
    unfold insertAddress at h
    split at h
    · exact Or.inr h
    · split at h
      · exact List.mem_cons.mp h
      · rcases List.mem_cons.mp h with rfl | h
        · exact Or.inr List.mem_cons_self
        · exact (ih h).imp_right (List.mem_cons_of_mem _)

theorem insertAddress_pairwise {x : Address} {xs : List Address} (h : xs.Pairwise (· < ·)) :
    (insertAddress x xs).Pairwise (· < ·) := by
  induction xs with
  | nil => exact List.pairwise_singleton _ _
  | cons y xs ih =>
    obtain ⟨hhead, htail⟩ := List.pairwise_cons.mp h
    unfold insertAddress
    split
    · exact h
    · next hne =>
      split
      · next hlt =>
        refine List.pairwise_cons.mpr ⟨?_, h⟩
        intro z hz
        rcases List.mem_cons.mp hz with rfl | hz
        · exact hlt
        · exact String.lt_trans hlt (hhead z hz)
      · next hlt =>
        refine List.pairwise_cons.mpr ⟨?_, ih htail⟩
        intro z hz
        rcases mem_insertAddress hz with rfl | hz
        · refine Decidable.byContradiction fun hle => ?_
          exact hne (String.le_antisymm (String.not_lt.mp hle) (String.not_lt.mp hlt))
        · exact hhead z hz

/-- Halving search of an ascending list; `steps` bounds the halvings. -/
def searchAddress (x : Address) : Nat → List Address → Bool
  | 0, _ => false
  | steps + 1, xs =>
    match xs.drop (xs.length / 2) with
    | [] => false
    | y :: right =>
      if x = y then true
      else if x < y then searchAddress x steps (xs.take (xs.length / 2))
      else searchAddress x steps right

/-- The signing membership, in strictly ascending order. -/
structure Members where
  addresses : List Address
  ascending : addresses.Pairwise (· < ·)
deriving DecidableEq

namespace Members

def empty : Members := ⟨[], .nil⟩

def insert (m : Members) (x : Address) : Members :=
  ⟨insertAddress x m.addresses, insertAddress_pairwise m.ascending⟩

def ofList (xs : List Address) : Members := xs.foldl insert empty

def size (m : Members) : Nat := m.addresses.length

def contains (m : Members) (x : Address) : Bool := searchAddress x m.addresses.length m.addresses

/-- Membership by scanning the whole list. -/
def containsByScan (m : Members) (x : Address) : Bool := m.addresses.any (· == x)

end Members

end Adjudication
