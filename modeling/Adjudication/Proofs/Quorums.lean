import Adjudication.Node
import Adjudication.Round
import Mathlib.Tactic.ByContra

namespace Adjudication

/-- Two parts of a list have in common what they have more than the list together. -/
theorem countP_add_countP_le {α : Type} (p q : α → Bool) (xs : List α) :
    xs.countP p + xs.countP q ≤ xs.length + xs.countP fun x => p x && q x := by
  induction xs with
  | nil => simp
  | cons x xs ih =>
    simp only [List.countP_cons, List.length_cons]
    cases p x with
    | true => cases q x with
      | true => simp; omega
      | false => simp; omega
    | false => cases q x with
      | true => simp; omega
      | false => simp; omega

theorem one_le_two_majority_sub (n : Nat) : 1 ≤ 2 * majority n - n := by
  unfold majority
  omega

/-- Two majorities of `n` members share at least `2 * majority n - n` of them. -/
theorem majorities_overlap {α : Type} {p q : α → Bool} {xs : List α}
    (hp : majority xs.length ≤ xs.countP p) (hq : majority xs.length ≤ xs.countP q) :
    2 * majority xs.length - xs.length ≤ xs.countP fun x => p x && q x := by
  have hsum := countP_add_countP_le p q xs
  omega

/-- What agrees in a tally is the members whose entry has the digest. -/
theorem Node.tally_agreeing (n : Node) (m : Moment) (key : RoundKey) (digest : String) :
    (n.tally m key digest).agreeing =
      m.members.addresses.countP fun x => (n.caches.hashes.get? key x).any (·.value = digest) := by
  unfold Node.tally
  dsimp only
  rw [List.countP_filterMap]
  refine List.countP_congr fun x _ => ?_
  cases n.caches.hashes.get? key x with
  | none => simp
  | some e => simp

theorem mem_insertAddress_of_mem {x y : Address} {xs : List Address} (h : y = x ∨ y ∈ xs) :
    y ∈ insertAddress x xs := by
  induction xs with
  | nil => exact List.mem_singleton.mpr (h.resolve_right List.not_mem_nil)
  | cons z xs ih =>
    unfold insertAddress
    split
    · next heq =>
      rcases h with rfl | h
      · exact heq ▸ List.mem_cons_self
      · exact h
    · split
      · exact List.mem_cons.mpr h
      · rcases h with rfl | h
        · exact List.mem_cons_of_mem _ (ih (Or.inl rfl))
        · rcases List.mem_cons.mp h with rfl | h
          · exact List.mem_cons_self
          · exact List.mem_cons_of_mem _ (ih (Or.inr h))

theorem Members.nodup (m : Members) : m.addresses.Nodup := by
  refine m.ascending.imp ?_
  rintro x _ hlt rfl
  exact String.lt_irrefl x hlt

theorem Members.mem_insert {m : Members} {x y : Address} :
    y ∈ (m.insert x).addresses ↔ y = x ∨ y ∈ m.addresses :=
  ⟨mem_insertAddress, mem_insertAddress_of_mem⟩

theorem Members.mem_foldl_insert {x : Address} (xs : List Address) (m : Members) :
    x ∈ (xs.foldl insert m).addresses ↔ x ∈ xs ∨ x ∈ m.addresses := by
  induction xs generalizing m with
  | nil => simp
  | cons y xs ih => rw [List.foldl_cons, ih, mem_insert, List.mem_cons, or_left_comm, or_assoc]

theorem Members.mem_ofList_iff {x : Address} {xs : List Address} :
    x ∈ (ofList xs).addresses ↔ x ∈ xs := by
  rw [ofList, mem_foldl_insert]
  exact or_iff_left List.not_mem_nil

theorem Members.mem_ofList {x : Address} {xs : List Address} (h : x ∈ xs) :
    x ∈ (Members.ofList xs).addresses :=
  mem_ofList_iff.mpr h

theorem mem_of_searchAddress {x : Address} {steps : Nat} {xs : List Address}
    (h : searchAddress x steps xs = true) : x ∈ xs := by
  fun_induction searchAddress x steps xs with
  | case1 => cases h
  | case2 => cases h
  | case3 steps xs right hdrop =>
    have hmem : x ∈ xs.drop (xs.length / 2) := by
      rw [hdrop]
      exact List.mem_cons_self
    exact List.mem_of_mem_drop hmem
  | case4 steps xs y right hdrop _ _ ih => exact List.mem_of_mem_take (ih h)
  | case5 steps xs y right hdrop _ _ ih =>
    have hmem : x ∈ xs.drop (xs.length / 2) := by
      rw [hdrop]
      exact List.mem_cons_of_mem y (ih h)
    exact List.mem_of_mem_drop hmem

/-- In an ascending list the search misses nothing, if it may halve often enough. -/
theorem searchAddress_of_mem {x : Address} {steps : Nat} {xs : List Address}
    (hs : xs.Pairwise (· < ·)) (hlength : xs.length ≤ steps) (h : x ∈ xs) :
    searchAddress x steps xs = true := by
  fun_induction searchAddress x steps xs with
  | case1 xs =>
    rw [List.length_eq_zero_iff.mp (Nat.le_zero.mp hlength)] at h
    cases h
  | case2 steps xs hdrop =>
    have hpos := List.length_pos_of_mem h
    have hshort := List.drop_eq_nil_iff.mp hdrop
    omega
  | case3 => rfl
  | case4 steps xs y right hdrop _ hlt ih =>
    have hsplit := List.take_append_drop (xs.length / 2) xs
    rw [hdrop] at hsplit
    have hpos := List.length_pos_of_mem h
    rw [← hsplit] at hs h
    obtain ⟨hleft, hright, _⟩ := List.pairwise_append.mp hs
    refine ih hleft (by simp only [List.length_take]; omega) ?_
    refine (List.mem_append.mp h).resolve_right fun hmem => ?_
    -- everything from the middle on is greater
    rcases List.mem_cons.mp hmem with rfl | hmem
    · exact String.lt_irrefl _ hlt
    · exact String.lt_irrefl _ (String.lt_trans hlt ((List.pairwise_cons.mp hright).1 x hmem))
  | case5 steps xs y right hdrop hne hlt ih =>
    have hsplit := List.take_append_drop (xs.length / 2) xs
    have hlengths := congrArg List.length hdrop
    rw [hdrop] at hsplit
    rw [List.length_drop, List.length_cons] at hlengths
    rw [← hsplit] at hs h
    obtain ⟨_, hright, hless⟩ := List.pairwise_append.mp hs
    refine ih (List.pairwise_cons.mp hright).2 (by omega) ?_
    rcases List.mem_append.mp h with hmem | hmem
    · exact absurd (hless x hmem y List.mem_cons_self) hlt
    · exact (List.mem_cons.mp hmem).resolve_left hne

theorem Members.mem_of_contains {members : Members} {x : Address}
    (h : members.contains x = true) : x ∈ members.addresses :=
  mem_of_searchAddress h

theorem Members.contains_of_mem {members : Members} {x : Address} (h : x ∈ members.addresses) :
    members.contains x = true :=
  searchAddress_of_mem members.ascending (Nat.le_refl _) h

end Adjudication
