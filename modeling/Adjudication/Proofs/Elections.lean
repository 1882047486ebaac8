import Adjudication.Election
import Adjudication.Proofs.FingerprintBinding

namespace Adjudication

variable {S T L : List (Address × String)} {x : Address} {seed : Bytes} {n : Nat}

theorem length_blake3 (message : Bytes) : (blake3 message).length = 32 := by
  simp [blake3]

/-- The index that a seed gives in a list of `n`. -/
def electionIndex (seed : Bytes) (n : Nat) : Nat := ofLittleEndian (seed.take 8) % n

theorem electionIndex_lt (seed : Bytes) (h : 0 < n) : electionIndex seed n < n := Nat.mod_lt _ h

/-- Words of 64 bits compute the index without loss, if the length fits one. -/
theorem toNat_mod_eq_electionIndex (hseed : 8 ≤ seed.length) (hn : n < UInt64.size) :
    (UInt64.ofNat (ofLittleEndian (seed.take 8)) % UInt64.ofNat n).toNat = electionIndex seed n := by
  have hlength : (seed.take 8).length = 8 := by
    rw [List.length_take]
    omega
  have hword : ofLittleEndian (seed.take 8) < UInt64.size := by
    have hlt := ofLittleEndian_lt (seed.take 8)
    rwa [hlength] at hlt
  rw [UInt64.toNat_mod, UInt64.toNat_ofNat_of_lt' hword, UInt64.toNat_ofNat_of_lt' hn, electionIndex]

/-- The entries of a set in the order of the bytes of their addresses. -/
structure Lists (S L : List (Address × String)) : Prop where
  perm : L.Perm S
  ascending : L.Pairwise fun x y => utf8 x.1 < utf8 y.1

theorem lists_sortByAddress (hdistinct : (S.map Prod.fst).Nodup) : Lists S (sortByAddress S) where
  perm := sortByAddress_perm S
  ascending := by
    have hne : (sortByAddress S).Pairwise fun x y => x.1 ≠ y.1 :=
      List.pairwise_map.mp (((sortByAddress_perm S).map Prod.fst).nodup_iff.mpr hdistinct)
    exact ((sortByAddress_pairwise S).and hne).imp fun hxy =>
      utf8_lt_utf8 (Std.lt_of_le_of_ne hxy.1 hxy.2)

theorem Lists.nodup (h : Lists S L) : (S.map Prod.fst).Nodup := by
  refine (h.perm.map Prod.fst).nodup_iff.mp (List.pairwise_map.mpr (h.ascending.imp fun hxy => ?_))
  exact String.ne_of_lt (utf8_lt_utf8_iff.mp hxy)

/-- There is one way to list a set. -/
theorem Lists.eq_sortByAddress (h : Lists S L) : L = sortByAddress S := by
  have hsorted := lists_sortByAddress h.nodup
  exact eq_of_perm_of_ascending (h.ascending.imp utf8_lt_utf8_iff.mp)
    (hsorted.ascending.imp utf8_lt_utf8_iff.mp) (h.perm.trans hsorted.perm.symm)

theorem electProducer_eq (S : List (Address × String)) :
    electProducer S = ((sortByAddress S)[electionIndex (electionSeed (sortByAddress S))
      (sortByAddress S).length]?).map (·.1) := rfl

theorem length_sortByAddress (S : List (Address × String)) : (sortByAddress S).length = S.length :=
  (sortByAddress_perm S).length_eq

theorem exists_electProducer (h : S ≠ []) : ∃ producer, electProducer S = some producer := by
  have hpos : 0 < (sortByAddress S).length := by
    rw [length_sortByAddress]
    exact List.length_pos_of_ne_nil h
  rw [electProducer_eq, List.getElem?_eq_getElem (electionIndex_lt _ hpos)]
  exact ⟨_, rfl⟩

theorem electProducer_eq_none_iff : electProducer S = none ↔ S = [] := by
  constructor
  · intro h
    by_contra hne
    obtain ⟨producer, hproducer⟩ := exists_electProducer hne
    rw [h] at hproducer
    cases hproducer
  · rintro rfl
    rfl

theorem mem_of_electProducer (h : electProducer S = some x) : x ∈ S.map Prod.fst := by
  rw [electProducer_eq] at h
  obtain ⟨e, he, rfl⟩ := Option.map_eq_some_iff.mp h
  exact List.mem_map_of_mem ((sortByAddress_perm S).mem_iff.mp (List.mem_of_getElem? he))

theorem electProducer_of_perm (hdistinct : (S.map Prod.fst).Nodup) (h : S.Perm T) :
    electProducer S = electProducer T := by
  rw [electProducer_eq, electProducer_eq, sortByAddress_eq_of_perm hdistinct h]

theorem Lists.elected (h : Lists S L) (hne : S ≠ []) :
    ∃ hindex : electionIndex (electionSeed L) L.length < L.length,
      electProducer S = some (L.get ⟨electionIndex (electionSeed L) L.length, hindex⟩).1 := by
  have hpos : 0 < L.length := by
    rw [h.perm.length_eq]
    exact List.length_pos_of_ne_nil hne
  have hindex := electionIndex_lt (electionSeed L) hpos
  refine ⟨hindex, ?_⟩
  rw [electProducer_eq, ← h.eq_sortByAddress, List.getElem?_eq_getElem hindex]
  rfl

/-- The election depends on the set alone: it ignores the order of distinct addresses, elects nobody
from the empty set only, and otherwise an address of the set, which stands in the one listing of the set
at the index of the listing's seed. That index is in range for every seed and every length, and words
compute it. -/
theorem election_by_set :
    (∀ S T : List (Address × String), (S.map Prod.fst).Nodup → S.Perm T →
      electProducer S = electProducer T) ∧
    (∀ S : List (Address × String), electProducer S = none ↔ S = []) ∧
    (∀ (S : List (Address × String)) (x : Address), electProducer S = some x →
      x ∈ S.map Prod.fst) ∧
    (∀ S L : List (Address × String), Lists S L → S ≠ [] →
      ∃ hindex : electionIndex (electionSeed L) L.length < L.length,
        electProducer S = some (L.get ⟨electionIndex (electionSeed L) L.length, hindex⟩).1) ∧
    (∀ (seed : Bytes) (n : Nat), 0 < n → electionIndex seed n < n) ∧
    (∀ (seed : Bytes) (n : Nat), 8 ≤ seed.length → n < UInt64.size →
      (UInt64.ofNat (ofLittleEndian (seed.take 8)) % UInt64.ofNat n).toNat = electionIndex seed n) ∧
    ∀ L : List (Address × String), (electionSeed L).length = 32 :=
  ⟨fun _ _ => electProducer_of_perm, fun _ => electProducer_eq_none_iff,
    fun _ _ => mem_of_electProducer, fun _ _ => Lists.elected,
    fun seed _ => electionIndex_lt seed, fun _ _ => toNat_mod_eq_electionIndex, fun _ => length_blake3 _⟩

namespace ThreeEntries

def entries : List (Address × String) := [("bob", "2"), ("carol", "3"), ("alice", "1")]

def listing : List (Address × String) := [("alice", "1"), ("bob", "2"), ("carol", "3")]

theorem lists : Lists entries listing where
  perm := by decide
  ascending := by decide +kernel

theorem elects_bob : electProducer entries = some "bob" := by
  decide +kernel

/-- Either order elects the address in the middle of the listing. -/
theorem middle_elected :
    electProducer entries = electProducer listing ∧ "bob" ∈ entries.map Prod.fst ∧
      (∃ hindex : electionIndex (electionSeed listing) listing.length < listing.length,
        electProducer entries =
          some (listing.get ⟨electionIndex (electionSeed listing) listing.length, hindex⟩).1) ∧
      electionIndex (electionSeed listing) 3 < 3 ∧
      (UInt64.ofNat (ofLittleEndian ((electionSeed listing).take 8)) % UInt64.ofNat 3).toNat =
        electionIndex (electionSeed listing) 3 := by
  obtain ⟨horder, _, hmem, hplace, hrange, hword, hlength⟩ := election_by_set
  have hlong : 8 ≤ (electionSeed listing).length := by
    rw [hlength]
    decide
  exact ⟨horder entries listing lists.nodup lists.perm.symm, hmem entries "bob" elects_bob,
    hplace entries listing lists (by decide), hrange _ 3 (by decide), hword _ 3 hlong (by decide)⟩

end ThreeEntries

end Adjudication
