import Adjudication.Proofs.Callers
import Adjudication.Proofs.Quorums

namespace Adjudication

namespace Cache

variable {c c' : Cache} {key k : RoundKey} {address x : Address} {entry e : SignedEntry}

/-- A key that is gone and would be the first to go again. -/
structure Shut (c : Cache) (key : RoundKey) : Prop where
  absent : key ∉ c.keys
  unprotected : ¬ c.Protected key
  full : c.capacity ≤ c.keyCount
  oldest : ∀ k ∈ c.keys, ¬ c.Protected k → key < k

theorem get?_eq_none_of_not_mem (h : k ∉ c.keys) (x : Address) : c.get? k x = none := by
  unfold get? entries
  rw [Assoc.get?_eq_none_iff.mpr h]
  rfl

/-- An eviction leaves a full cache full. -/
theorem capacity_le_keyCount_evict (hfull : c.capacity ≤ c.keyCount) :
    c.capacity ≤ c.evict.keyCount := by
  have hcount := c.keyCount_evict
  rw [length_victims] at hcount
  omega

/-- Whatever key an eviction takes is shut. -/
theorem shut_evict (hkey : key ∈ c.keys) (hgone : key ∉ c.evict.keys) : c.evict.Shut key where
  absent := hgone
  unprotected hp := hgone (c.evicted.spared key hkey hp)
  full := by
    by_cases hfits : c.keyCount ≤ c.capacity
    · rw [c.evicted.fits hfits] at hgone
      exact absurd hkey hgone
    · exact capacity_le_keyCount_evict (Nat.le_of_not_le hfits)
  oldest k hk hp := c.evicted.oldest key hkey hgone k hk hp

theorem keyCount_put (habsent : key ∉ c.keys) :
    c.keyCount < (c.put key address entry).keyCount := by
  have hsub : key :: c.keys ⊆ (c.put key address entry).keys :=
    fun k hk => Assoc.mem_keys_insert.mpr (List.mem_cons.mp hk)
  have hnodup : (key :: c.keys).Nodup := List.nodup_cons.mpr ⟨habsent, c.keys_nodup⟩
  have hlength := (List.subperm_of_subset hnodup hsub).length_le
  rw [List.length_cons, length_keys, length_keys] at hlength
  exact hlength

/-- A shut key does not outlast the insertion that brings it back. -/
theorem Shut.absent_insert (h : c.Shut key) (address : Address) (entry : SignedEntry) :
    key ∉ (c.insert key address entry).value.2.keys := by
  have hnew : c.contains key address = false := by
    rw [contains, get?_eq_none_of_not_mem h.absent]
    rfl
  have hevicted : (c.put key address entry).Evicted (c.insert key address entry).value.2 :=
    evicted_insert hnew
  have hmem : key ∈ (c.put key address entry).keys := Assoc.mem_keys_insert.mpr (Or.inl rfl)
  intro hkept
  -- there is a key too many and this one may go, so some key goes
  have hexcess : 0 < (c.put key address entry).keyCount - (c.put key address entry).capacity :=
    Nat.sub_pos_of_lt (Nat.lt_of_le_of_lt h.full (keyCount_put h.absent))
  have hmay : 0 < (c.put key address entry).keys.countP
      fun k => ¬ (c.put key address entry).Protected k :=
    List.countP_pos_iff.mpr ⟨key, hmem, decide_eq_true h.unprotected⟩
  have hsome : 0 < ((c.put key address entry).keys.filter
      (· ∉ (c.insert key address entry).value.2.keys)).length := by
    rw [hevicted.gone]
    exact Nat.lt_min.mpr ⟨hexcess, hmay⟩
  obtain ⟨k, hk⟩ := List.exists_mem_of_length_pos hsome
  obtain ⟨hk, hgone⟩ := List.mem_filter.mp hk
  have hgone := of_decide_eq_true hgone
  -- it is older than this key, but this one was older than all that could go
  have hlt : k < key := hevicted.oldest k hk hgone key hkept h.unprotected
  rcases Assoc.mem_keys_insert.mp hk with rfl | hold
  · exact hgone hkept
  · have hp : ¬ c.Protected k := fun hp => hgone (hevicted.spared k hk hp)
    exact RoundKey.lt_irrefl k (RoundKey.lt_trans hlt (h.oldest k hold hp))

/-- Puts entries under a key one after the other, each unless its address has one there. -/
def insertAll (c : Cache) (key : RoundKey) (late : List AddressedEntry) : Cache :=
  late.foldl (fun c e => (c.insert key e.address e.entry).value.2) c

theorem insertAll_snoc (c : Cache) (key : RoundKey) (late : List AddressedEntry) (e : AddressedEntry) :
    c.insertAll key (late ++ [e]) = ((c.insertAll key late).insert key e.address e.entry).value.2 := by
  rw [insertAll, List.foldl_append]
  rfl

/-- The entries that there were under a key are all there still, or the key is shut. -/
def Settled (c c' : Cache) (key : RoundKey) : Prop :=
  (∀ x e, c.get? key x = some e → c'.get? key x = some e) ∨ c'.Shut key

theorem Settled.insert (h : c.Settled c' key) (address : Address) (entry : SignedEntry) :
    c.Settled (c'.insert key address entry).value.2 key := by
  rcases insert_cases c' key address entry with ⟨_, hc⟩ | ⟨hnew, hc⟩
  · rw [hc]
    exact h
  · by_cases hkept : key ∈ (c'.insert key address entry).value.2.keys
    · refine Or.inl fun x e hx => ?_
      have hheld := h.resolve_right fun hshut => hshut.absent_insert address entry hkept
      have hevicted : (c'.put key address entry).Evicted (c'.insert key address entry).value.2 :=
        evicted_insert hnew
      obtain ⟨_, hentries⟩ := hevicted.unchanged key hkept
      have hget : (c'.put key address entry).get? key x = some e :=
        get?_put_of_some hnew (hheld x e hx)
      rw [get?, hentries]
      exact hget
    · have hmem : key ∈ (c'.put key address entry).keys := Assoc.mem_keys_insert.mpr (Or.inl rfl)
      rcases hc with hc | hc
      · rw [hc] at hkept
        exact absurd hmem hkept
      · rw [hc] at hkept ⊢
        exact Or.inr (shut_evict hmem hkept)

theorem settled_insertAll (c : Cache) (key : RoundKey) (late : List AddressedEntry) :
    c.Settled (c.insertAll key late) key := by
  induction late using List.reverseRecOn with
  | nil => exact Or.inl fun _ _ hx => hx
  | append_singleton late e ih =>
    rw [insertAll_snoc]
    exact ih.insert e.address e.entry

end Cache

namespace PeerTable

theorem addresses_nodup (table : PeerTable) : (table.toList.map (·.address)).Nodup := by
  have haddresses : table.toList.map (·.address) = table.addresses := by
    unfold toList addresses Assoc.keys
    rw [List.map_map]
    exact List.map_congr_left table.filed
  rw [haddresses]
  exact table.ascending.keys_nodup

end PeerTable

namespace Node

variable {n n' : Node} {m m' : Moment} {members : Members} {key : RoundKey} {digest : String}
  {x : Address}

/-- The members whose entry has the digest. -/
def agreeing (n : Node) (members : Members) (key : RoundKey) (digest : String) : List Address :=
  members.addresses.filter fun x => (n.caches.hashes.get? key x).any (·.value = digest)

/-- The members whose entry has another digest. -/
def differing (n : Node) (members : Members) (key : RoundKey) (digest : String) : List Address :=
  members.addresses.filter fun x => (n.caches.hashes.get? key x).any (·.value ≠ digest)

/-- The members to hear from that have no entry. -/
def awaited (n : Node) (m : Moment) (key : RoundKey) : List Address :=
  (n.waitSet m key).filter fun x => !n.caches.hashes.contains key x

theorem mem_agreeing : x ∈ n.agreeing members key digest ↔
    x ∈ members.addresses ∧ ∃ e, n.caches.hashes.get? key x = some e ∧ e.value = digest := by
  rw [agreeing, List.mem_filter, Option.any_eq_true]
  simp only [decide_eq_true_eq]

theorem mem_differing : x ∈ n.differing members key digest ↔
    x ∈ members.addresses ∧ ∃ e, n.caches.hashes.get? key x = some e ∧ e.value ≠ digest := by
  rw [differing, List.mem_filter, Option.any_eq_true]
  simp only [decide_eq_true_eq]

theorem length_agreeing (n : Node) (m : Moment) (key : RoundKey) (digest : String) :
    (n.tally m key digest).agreeing = (n.agreeing m.members key digest).length := by
  rw [tally_agreeing, agreeing, List.countP_eq_length_filter]

theorem length_differing (n : Node) (m : Moment) (key : RoundKey) (digest : String) :
    (n.tally m key digest).differing = (n.differing m.members key digest).length := by
  unfold tally
  dsimp only
  rw [List.countP_filterMap, differing, ← List.countP_eq_length_filter]
  refine List.countP_congr fun x _ => ?_
  cases n.caches.hashes.get? key x with
  | none => simp
  | some e => simp

theorem length_awaited (n : Node) (m : Moment) (key : RoundKey) (digest : String) :
    (n.tally m key digest).pending = (n.awaited m key).length :=
  List.countP_eq_length_filter

theorem not_agreeing_of_differing (h : x ∈ n.differing members key digest) :
    x ∉ n.agreeing members key digest := by
  intro hagreeing
  obtain ⟨_, e, hget, hne⟩ := mem_differing.mp h
  obtain ⟨_, e', hget', heq⟩ := mem_agreeing.mp hagreeing
  cases hget.symm.trans hget'
  exact hne heq

theorem contains_of_mem (h : x ∈ n.agreeing members key digest ∨ x ∈ n.differing members key digest) :
    n.caches.hashes.contains key x = true := by
  have hget : ∃ e, n.caches.hashes.get? key x = some e := by
    rcases h with h | h
    · obtain ⟨_, e, hget, _⟩ := mem_agreeing.mp h
      exact ⟨e, hget⟩
    · obtain ⟨_, e, hget, _⟩ := mem_differing.mp h
      exact ⟨e, hget⟩
  exact Option.isSome_iff_exists.mpr hget

theorem mem_members_of_awaited (h : x ∈ n.awaited m key) : x ∈ m.members.addresses := by
  obtain ⟨row, hrow, rfl⟩ := List.mem_map.mp (List.mem_filter.mp h).1
  have hfresh := (List.mem_filter.mp (List.mem_filter.mp hrow).1).2
  simp only [Bool.and_eq_true, decide_eq_true_eq] at hfresh
  exact Members.mem_of_contains hfresh.2

theorem awaited_nodup (n : Node) (m : Moment) (key : RoundKey) : (n.awaited m key).Nodup := by
  have hrows : (n.waitSet m key).Sublist (n.table.toList.map (·.address)) :=
    (List.filter_sublist.trans (List.filter_sublist.trans List.filter_sublist)).map _
  exact (n.table.addresses_nodup.sublist hrows).filter _

/-- The three parts have no member in common. -/
theorem parts_nodup (n : Node) (m : Moment) (key : RoundKey) (digest : String) :
    (n.agreeing m.members key digest ++ n.differing m.members key digest ++
      n.awaited m key).Nodup := by
  refine List.nodup_append'.mpr ⟨List.nodup_append'.mpr
    ⟨m.members.nodup.filter _, m.members.nodup.filter _, ?_⟩, awaited_nodup n m key, ?_⟩
  · intro x hagreeing hdiffering
    exact not_agreeing_of_differing hdiffering hagreeing
  · intro x hcounted hawaited
    have hcontains := contains_of_mem (List.mem_append.mp hcounted)
    have hlacks := (List.mem_filter.mp hawaited).2
    rw [hcontains] at hlacks
    cases hlacks

theorem parts_subset (n : Node) (m : Moment) (key : RoundKey) (digest : String) :
    n.agreeing m.members key digest ++ n.differing m.members key digest ++ n.awaited m key ⊆
      m.members.addresses := by
  intro x hx
  rcases List.mem_append.mp hx with hcounted | hawaited
  · rcases List.mem_append.mp hcounted with hagreeing | hdiffering
    · exact (mem_agreeing.mp hagreeing).1
    · exact (mem_differing.mp hdiffering).1
  · exact mem_members_of_awaited hawaited

/-- Members that differ keep differing while entries are inserted under the key, or none are left that
agree. -/
theorem agreeing_insertAll (members : Members) (digest : String) {late : List AddressedEntry}
    (hlate : n'.caches.hashes = n.caches.hashes.insertAll key late) :
    n'.agreeing members key digest = [] ∨
      ∀ x ∈ n.differing members key digest, x ∉ n'.agreeing members key digest := by
  rcases n.caches.hashes.settled_insertAll key late with hheld | hshut
  · refine Or.inr fun x hx => not_agreeing_of_differing ?_
    obtain ⟨hmember, e, hget, hne⟩ := mem_differing.mp hx
    exact mem_differing.mpr ⟨hmember, e, hlate ▸ hheld x e hget, hne⟩
  · refine Or.inl (List.eq_nil_iff_forall_not_mem.mpr fun x hx => ?_)
    obtain ⟨_, e, hget, _⟩ := mem_agreeing.mp hx
    rw [hlate, Cache.get?_eq_none_of_not_mem hshut.absent] at hget
    cases hget

theorem majority_differs {finalizeTimeout since differing need : Nat}
    (h : n.pollTally m key digest finalizeTimeout since =
      .settled (.failed (.hashMismatch differing need))) :
    majority m.members.size ≤ (n.differing m.members key digest).length := by
  rw [← length_differing]
  unfold pollTally at h
  split at h
  next => cases h
  next =>
    split at h
    next => cases h
    next =>
      dsimp only at h
      split at h
      next => cases h
      next =>
        split at h
        next hdiffering => exact hdiffering
        next =>
          split at h
          next => cases h
          next => split at h <;> cases h

theorem pollTally_of_agreeing (finalizeTimeout since : Nat)
    (h : (n.tally m key digest).need ≤ (n.tally m key digest).agreeing) :
    n.pollTally m key digest finalizeTimeout since =
      if n.heightMoved key then .settled .heightMoved
      else .settled (.agreed (n.tally m key digest).agreeing (n.tally m key digest).need) := by
  have hmembers : m.members.size ≠ 0 := by
    intro hnone
    have hle : (n.agreeing m.members key digest).length ≤ m.members.size := List.length_filter_le _ _
    have hpos : 0 < (n.tally m key digest).need := Nat.succ_pos _
    rw [length_agreeing] at h
    omega
  unfold pollTally
  rw [if_neg hmembers]
  dsimp only
  rw [if_pos h]

/-- What a tally counts is disjoint parts of the members, and what it decides by a majority of them stays
decided. -/
structure Conclusive (n : Node) (m : Moment) (key : RoundKey) (digest : String) : Prop where
  agreeing_eq : (n.tally m key digest).agreeing = (n.agreeing m.members key digest).length
  differing_eq : (n.tally m key digest).differing = (n.differing m.members key digest).length
  pending_eq : (n.tally m key digest).pending = (n.awaited m key).length
  disjoint : (n.agreeing m.members key digest ++ n.differing m.members key digest ++
    n.awaited m key).Nodup
  members : n.agreeing m.members key digest ++ n.differing m.members key digest ++ n.awaited m key ⊆
    m.members.addresses
  sum_le : (n.tally m key digest).agreeing + (n.tally m key digest).differing +
    (n.tally m key digest).pending ≤ m.members.size
  exclusive : ¬ ((n.tally m key digest).need ≤ (n.tally m key digest).agreeing ∧
    (n.tally m key digest).need ≤ (n.tally m key digest).differing)
  /-- Whatever the time is, a poll sees a majority that agrees, unless the height has moved. -/
  agreed : (n.tally m key digest).need ≤ (n.tally m key digest).agreeing →
    ∀ finalizeTimeout since, n.pollTally m key digest finalizeTimeout since =
      if n.heightMoved key then .settled .heightMoved
      else .settled (.agreed (n.tally m key digest).agreeing (n.tally m key digest).need)
  /-- After a mismatch none of the same members are ever a majority that agrees, however many entries are
  inserted under the key and whatever else becomes of the node. -/
  final : ∀ finalizeTimeout since differing need, n.pollTally m key digest finalizeTimeout since =
      .settled (.failed (.hashMismatch differing need)) →
    ∀ (n' : Node) (m' : Moment) (late : List AddressedEntry), m'.members = m.members →
      n'.caches.hashes = n.caches.hashes.insertAll key late →
      (n'.tally m' key digest).agreeing < (n'.tally m' key digest).need

/-- Whatever the digest cache and the peer table hold, every tally over a membership is conclusive. -/
theorem conclusive (n : Node) (m : Moment) (key : RoundKey) (digest : String) :
    n.Conclusive m key digest := by
  have hdisjoint := parts_nodup n m key digest
  have hsubset := parts_subset n m key digest
  have hagreeing := length_agreeing n m key digest
  have hdiffering := length_differing n m key digest
  have hpending := length_awaited n m key digest
  have hsum : (n.tally m key digest).agreeing + (n.tally m key digest).differing +
      (n.tally m key digest).pending ≤ m.members.size := by
    have hlength := (List.subperm_of_subset hdisjoint hsubset).length_le
    rw [List.length_append, List.length_append] at hlength
    rw [hagreeing, hdiffering, hpending]
    exact hlength
  have hneed : m.members.size < 2 * (n.tally m key digest).need := by
    show m.members.size < 2 * (m.members.size / 2 + 1)
    omega
  refine ⟨hagreeing, hdiffering, hpending, hdisjoint, hsubset, hsum, fun _ => by omega,
    fun h finalizeTimeout since => pollTally_of_agreeing finalizeTimeout since h, ?_⟩
  intro finalizeTimeout since differing need hpoll n' m' late hsame hlate
  have hmajority := majority_differs hpoll
  have hneed' : (n'.tally m' key digest).need = majority m.members.size := by
    rw [← hsame]
    rfl
  rw [hneed', length_agreeing, hsame]
  rcases agreeing_insertAll m.members digest hlate with hnone | hapart
  · rw [hnone]
    exact Nat.succ_pos _
  · -- those that agree then and those that differed now are disjoint
    have hboth : (n'.agreeing m.members key digest ++ n.differing m.members key digest).Nodup :=
      List.nodup_append'.mpr ⟨m.members.nodup.filter _, m.members.nodup.filter _,
        fun x hx hx' => hapart x hx' hx⟩
    have hwithin : n'.agreeing m.members key digest ++ n.differing m.members key digest ⊆
        m.members.addresses := by
      intro x hx
      rcases List.mem_append.mp hx with hx | hx
      · exact (mem_agreeing.mp hx).1
      · exact (mem_differing.mp hx).1
    have hlength := (List.subperm_of_subset hboth hwithin).length_le
    rw [List.length_append] at hlength
    have hsize : m.members.addresses.length = m.members.size := rfl
    have hneed : m.members.size < 2 * majority m.members.size := hneed
    omega

end Node

namespace Outvoted

def moment (now : Nat) : Moment := ⟨now, now, .ofList ["c", "b", "a", "b"], 0⟩

def hashes : List Cache.Op := [
  .setActive ⟨1, 0⟩,
  .insert ⟨1, 0⟩ "a" (AddressedEntry.plain .hash ⟨1, 0⟩ "a" "other").entry,
  .insert ⟨1, 0⟩ "b" (AddressedEntry.plain .hash ⟨1, 0⟩ "b" "other").entry]

def table : PeerTable := (PeerTable.empty.connect "c").record "c" 0 0 false 1

def node : Node :=
  { (Agent.plain "a").node with
    caches := (Caches.empty 1).set .hash ((Cache.empty .hash 1).run hashes)
    table }

/-- The third member cannot turn the mismatch, even with the digest. -/
theorem third_too_late :
    node.pollTally (moment 5) ⟨1, 0⟩ "digest" 30000 0 = .settled (.failed (.hashMismatch 2 2)) ∧
    ∀ (n' : Node) (m' : Moment) (late : List AddressedEntry), m'.members = (moment 5).members →
      n'.caches.hashes = node.caches.hashes.insertAll ⟨1, 0⟩ late →
      (n'.tally m' ⟨1, 0⟩ "digest").agreeing < (n'.tally m' ⟨1, 0⟩ "digest").need := by
  have hpoll : node.pollTally (moment 5) ⟨1, 0⟩ "digest" 30000 0 =
      .settled (.failed (.hashMismatch 2 2)) := by rfl
  have hconclusive := node.conclusive (moment 5) ⟨1, 0⟩ "digest"
  exact ⟨hpoll, hconclusive.final 30000 0 2 2 hpoll⟩

end Outvoted

end Adjudication
