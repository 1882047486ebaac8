import Adjudication.Proofs.Eviction

namespace Adjudication

namespace Cache

variable {c : Cache} {key k : RoundKey} {address x : Address} {keys : List RoundKey}

theorem entries_remove_self (hin : c.contains key address = true) :
    (c.remove key address).2.entries key = Assoc.erase address (c.entries key) := by
  unfold remove entries
  rw [if_pos hin]
  dsimp only
  split
  next hempty =>
    have hnone := List.isEmpty_iff.mp hempty
    rw [Assoc.get?_erase_self]
    exact hnone.symm
  next => rw [Assoc.get?_insert_self, Option.getD_some]

theorem get?_remove (c : Cache) (key k : RoundKey) (address x : Address) :
    (c.remove key address).2.get? k x = if k = key ∧ x = address then none else c.get? k x := by
  by_cases hk : k = key
  · subst key
    cases hin : c.contains k address with
    | true =>
      rw [get?, entries_remove_self hin]
      by_cases hx : x = address
      · subst address
        rw [if_pos ⟨rfl, rfl⟩, Assoc.get?_erase_self]
      · rw [if_neg fun hboth => hx hboth.2, Assoc.get?_erase_of_ne hx]
        rfl
    | false =>
      have hsame : (c.remove k address).2 = c := by
        unfold remove
        rw [hin]
        rfl
      rw [hsame]
      split
      next hself =>
        obtain ⟨-, rfl⟩ := hself
        simpa [contains] using hin
      next => rfl
  · rw [if_neg fun hboth => hk hboth.1, get?, entries, rounds_remove_of_ne hk]
    rfl

theorem get?_removeAll (c : Cache) (address : Address) (keys : List RoundKey) (k : RoundKey)
    (x : Address) : (c.removeAll address keys).2.get? k x =
      if k ∈ keys ∧ x = address then none else c.get? k x := by
  induction keys generalizing c with
  | nil => rw [if_neg fun hboth => List.not_mem_nil hboth.1]; rfl
  | cons key keys ih =>
    rw [removeAll_cons, ih, get?_remove]
    by_cases hx : x = address
    · simp only [hx, and_true, List.mem_cons]
      by_cases hk : k = key
      · simp [hk]
      · simp [hk]
    · simp [hx]

theorem remove_fst (c : Cache) (key : RoundKey) (address : Address) :
    (c.remove key address).1 = c.contains key address := by
  unfold remove
  split
  next hin => exact hin.symm
  next hin => exact (Bool.eq_false_iff.mpr hin).symm

/-- Of different keys that hold an entry of the address, each counts. -/
theorem removeAll_fst (hnodup : keys.Nodup) (hin : ∀ key ∈ keys, c.contains key address = true) :
    (c.removeAll address keys).1 = keys.length := by
  induction keys generalizing c with
  | nil => rfl
  | cons key keys ih =>
    obtain ⟨hfirst, hrest⟩ := List.nodup_cons.mp hnodup
    have hlater : ∀ k ∈ keys, (c.remove key address).2.contains k address = true := by
      intro k hk
      have hne : k ≠ key := by
        rintro rfl
        exact hfirst hk
      rw [contains, get?_remove, if_neg fun hboth => hne hboth.1]
      exact hin k (List.mem_cons_of_mem _ hk)
    rw [removeAll_cons_eq, remove_fst, if_pos (hin key List.mem_cons_self), ih hrest hlater,
      List.length_cons, Nat.add_comm]

theorem removeAll_capacity (c : Cache) (address : Address) (keys : List RoundKey) :
    (c.removeAll address keys).2.capacity = c.capacity := by
  refine removeAll_induction (P := fun c' => c'.capacity = c.capacity) address keys ?_ rfl
  intro c' key _ ih
  rw [← ih]
  unfold remove
  split <;> rfl

theorem entries_of_mem {es : List (Address × SignedEntry)} (hr : (k, es) ∈ c.rounds) :
    c.entries k = es := by
  rw [entries, c.tidy.ascending.get?_of_mem hr]
  rfl

theorem mem_keys_iff : k ∈ c.keys ↔ ∃ x, c.contains k x = true := by
  constructor
  · intro hk
    obtain ⟨⟨k, es⟩, hr, rfl⟩ := List.mem_map.mp hk
    obtain ⟨⟨x, e⟩, hx⟩ := List.exists_mem_of_ne_nil es (c.tidy.inhabited _ hr)
    refine ⟨x, ?_⟩
    rw [contains, get?, entries_of_mem hr]
    exact Assoc.get?_isSome_iff.mpr (List.mem_map_of_mem hx)
  · rintro ⟨x, hx⟩
    obtain ⟨e, he⟩ := Option.isSome_iff_exists.mp hx
    obtain ⟨es, hes, _⟩ := get?_eq_some_iff.mp he
    exact Assoc.get?_isSome_iff.mp (Option.isSome_iff_exists.mpr ⟨es, hes⟩)

theorem keysContaining_eq (c : Cache) (address : Address) :
    c.keysContaining address = c.keys.filter fun key => c.contains key address := by
  rw [keysContaining, keys, Assoc.keys, List.filter_map]
  congr 1
  refine List.filter_congr fun r hr => ?_
  show Assoc.contains address r.2 = c.contains r.1 address
  rw [contains, get?, entries_of_mem hr]
  rfl

/-- The number of keys that an eviction takes. -/
theorem length_gone (c : Cache) :
    (c.keys.filter (· ∉ c.evict.keys)).length = c.keyCount - c.evict.keyCount := by
  have hkept := c.keyCount_evict
  rw [c.evicted.gone, ← length_victims]
  omega

/-- A cache that has been evicted from fits, or keeps nothing that may go. -/
theorem evict_evict (c : Cache) : c.evict.evict = c.evict := by
  by_cases hfits : c.evict.keyCount ≤ c.capacity
  · exact c.evict.evicted.fits hfits
  · have hkept := c.keyCount_evict
    -- too many are left only if all that may go have gone
    have hall : c.victims = c.keys.filter fun key => ¬ c.Protected key := by
      refine List.take_of_length_le ?_
      have hlength := c.length_victims
      rw [List.countP_eq_length_filter] at hlength
      omega
    have hnone : c.evict.victims = [] := by
      refine List.eq_nil_iff_forall_not_mem.mpr fun key hvictim => ?_
      obtain ⟨hkey, hunprotected⟩ := mem_keys_of_mem_victims hvictim
      have hunprotected : ¬ c.Protected key := hunprotected
      rw [keys_evict, List.mem_filter] at hkey
      refine of_decide_eq_true hkey.2 ?_
      rw [hall]
      exact List.mem_filter.mpr ⟨hkey.1, decide_eq_true hunprotected⟩
    refine Cache.ext rfl rfl rfl ?_
    rw [rounds_evict c.evict, hnone]
    simp

end Cache

section

variable {kind : EntryKind} {active key : RoundKey} {address : Address} {phase : Nat} {finalized : Bool}

/-- The rule that a report is pruned by. A peer that is still in work loses its hash one phase ahead of its
own phase; this is the phase after it. -/
def EntryKind.Outdated (kind : EntryKind) (key active : RoundKey) (phase : Nat) (finalized : Bool) :
    Prop :=
  ¬ key.InRetention active ∧ (key.phase ≠ phase ∧ key.phase ≠ active.phase ∨
    kind = .hash ∧ if finalized then key.phase < phase else key.phase = phase + 1)

instance : Decidable (kind.Outdated key active phase finalized) :=
  inferInstanceAs (Decidable (_ ∧ _))

/-- What is stale is what the rule says, unless a peer is in work in the phase that none comes after. -/
theorem EntryKind.stale_iff (h : kind = .hash → finalized = false → phase < Limits.maxPhase) :
    kind.Stale key active phase finalized ↔ kind.Outdated key active phase finalized := by
  cases kind with
  | contribution => simp [Stale, Outdated, StaleContribution]
  | hash =>
    cases finalized with
    | true => simp [Stale, Outdated, StaleHash]
    | false =>
      have hphase : min (phase + 1) Limits.maxPhase = phase + 1 := Nat.min_eq_left (h rfl rfl)
      simp [Stale, Outdated, StaleHash, hphase]

namespace Caches

variable {c : Caches}

/-- The keys under which a report makes an entry of its address stale. -/
def staleKeys (c : Caches) (kind : EntryKind) (active : RoundKey) (address : Address) (phase : Nat)
    (finalized : Bool) : List RoundKey :=
  ((c.of kind).keysContaining address).filter fun key => kind.Stale key active phase finalized

/-- A cache after the pass over the entries of an address. -/
def passed (c : Caches) (kind : EntryKind) (active : RoundKey) (address : Address) (phase : Nat)
    (finalized : Bool) : Cache :=
  ((c.of kind).removeAll address (c.staleKeys kind active address phase finalized)).2.setActive active

theorem of_prunePeer (c : Caches) (kind : EntryKind) (active : RoundKey) (address : Address)
    (phase : Nat) (finalized : Bool) :
    (c.prunePeer active address phase finalized).value.2.of kind =
      (c.passed kind active address phase finalized).evict :=
  prunePeer_of c kind active address phase finalized

theorem prunePeer_report (c : Caches) (active : RoundKey) (address : Address) (phase : Nat)
    (finalized : Bool) :
    let gone := fun kind => (c.passed kind active address phase finalized).keyCount -
      (c.passed kind active address phase finalized).evict.keyCount
    let taken := fun kind =>
      ((c.of kind).removeAll address (c.staleKeys kind active address phase finalized)).1
    (c.prunePeer active address phase finalized).value.1 =
      ⟨taken .contribution, taken .hash, gone .contribution + gone .hash⟩ :=
  rfl

theorem mem_staleKeys_iff :
    key ∈ c.staleKeys kind active address phase finalized ↔
      (c.of kind).contains key address = true ∧ kind.Stale key active phase finalized := by
  rw [staleKeys, Cache.keysContaining_eq, List.mem_filter, List.mem_filter, decide_eq_true_eq]
  constructor
  · rintro ⟨⟨-, hin⟩, hstale⟩
    exact ⟨hin, hstale⟩
  · rintro ⟨hin, hstale⟩
    exact ⟨⟨Cache.mem_keys_iff.mpr ⟨address, hin⟩, hin⟩, hstale⟩

theorem get?_passed (c : Caches) (kind : EntryKind) (active : RoundKey) (address : Address) (phase : Nat)
    (finalized : Bool) (key : RoundKey) (x : Address) :
    (c.passed kind active address phase finalized).get? key x =
      if x = address ∧ kind.Stale key active phase finalized then none else (c.of kind).get? key x := by
  have hget : (c.passed kind active address phase finalized).get? key x =
      if key ∈ c.staleKeys kind active address phase finalized ∧ x = address then none
      else (c.of kind).get? key x := Cache.get?_removeAll _ _ _ _ _
  rw [hget]
  simp only [mem_staleKeys_iff]
  by_cases hx : x = address
  · subst address
    by_cases hin : (c.of kind).contains key x = true
    · simp [hin]
    · have hnone : (c.of kind).get? key x = none := by simpa [Cache.contains] using hin
      simp [hin, hnone]
  · simp [hx]

/-- The keys of `c` under which an address has an entry in `c` and none in `c'`. -/
def lostKeys (c c' : Cache) (address : Address) : List RoundKey :=
  c.keys.filter fun key => c.contains key address && !c'.contains key address

theorem lostKeys_passed (c : Caches) (kind : EntryKind) (active : RoundKey) (address : Address)
    (phase : Nat) (finalized : Bool) :
    lostKeys (c.of kind) (c.passed kind active address phase finalized) address =
      c.staleKeys kind active address phase finalized := by
  rw [lostKeys, staleKeys, Cache.keysContaining_eq, List.filter_filter]
  refine List.filter_congr fun key _ => ?_
  rw [Cache.contains.eq_def (c.passed kind active address phase finalized), get?_passed]
  by_cases hstale : kind.Stale key active phase finalized
  · simp [hstale]
  · simp [hstale, Cache.contains]

theorem removed_eq (c : Caches) (kind : EntryKind) (active : RoundKey) (address : Address)
    (phase : Nat) (finalized : Bool) :
    ((c.of kind).removeAll address (c.staleKeys kind active address phase finalized)).1 =
      (lostKeys (c.of kind) (c.passed kind active address phase finalized) address).length := by
  rw [lostKeys_passed]
  refine Cache.removeAll_fst ?_ fun key hkey => (mem_staleKeys_iff.mp hkey).1
  rw [staleKeys, Cache.keysContaining_eq]
  exact ((c.of kind).keys_nodup.filter _).filter _

/-- What pruning by a report makes of two caches: `passed` after the pass over the entries of `address`,
and `c'` after the evictions. -/
structure Pruned (active : RoundKey) (address : Address) (phase : Nat) (finalized : Bool)
    (c passed : Caches) (report : PruneReport) (c' : Caches) : Prop where
  removed : ∀ kind key x, (passed.of kind).get? key x =
    if x = address ∧ kind.Stale key active phase finalized then none else (c.of kind).get? key x
  emptied : ∀ kind key, key ∈ (passed.of kind).keys ↔ ∃ x, (passed.of kind).contains key x = true
  told : ∀ kind, (passed.of kind).active = some active ∧
    (passed.of kind).capacity = (c.of kind).capacity
  evicted : ∀ kind, (passed.of kind).Evicted (c'.of kind)
  /-- Under a key that is left, every other address has what it had. -/
  framed : ∀ kind, ∀ key ∈ (c'.of kind).keys, ∀ x, x ≠ address →
    (c'.of kind).get? key x = (c.of kind).get? key x
  contributions : report.contributions =
    (lostKeys c.contributions passed.contributions address).length
  hashes : report.hashes = (lostKeys c.hashes passed.hashes address).length
  evictedKeys : report.evictedKeys =
    (passed.contributions.keys.filter (· ∉ c'.contributions.keys)).length +
    (passed.hashes.keys.filter (· ∉ c'.hashes.keys)).length
  /-- The same report once more finds nothing to do. -/
  again : (c'.prunePeer active address phase finalized).value = (⟨0, 0, 0⟩, c')

theorem get?_pruned
    (hkey : key ∈ ((c.prunePeer active address phase finalized).value.2.of kind).keys) (x : Address) :
    ((c.prunePeer active address phase finalized).value.2.of kind).get? key x =
      (c.passed kind active address phase finalized).get? key x := by
  rw [of_prunePeer] at hkey ⊢
  have hevicted := (c.passed kind active address phase finalized).evicted
  rw [Cache.get?, (hevicted.unchanged key hkey).2]
  rfl

/-- After a report nothing is left that it makes stale. -/
theorem staleKeys_prunePeer (c : Caches) (kind : EntryKind) (active : RoundKey) (address : Address)
    (phase : Nat) (finalized : Bool) :
    (c.prunePeer active address phase finalized).value.2.staleKeys kind active address phase finalized =
      [] := by
  refine List.eq_nil_iff_forall_not_mem.mpr fun key hmem => ?_
  obtain ⟨hin, hstale⟩ := mem_staleKeys_iff.mp hmem
  have hkey := Cache.mem_keys_iff.mpr ⟨address, hin⟩
  rw [Cache.contains, get?_pruned hkey, get?_passed, if_pos ⟨rfl, hstale⟩] at hin
  cases hin

theorem passed_prunePeer (c : Caches) (kind : EntryKind) (active : RoundKey) (address : Address)
    (phase : Nat) (finalized : Bool) :
    (c.prunePeer active address phase finalized).value.2.passed kind active address phase finalized =
      (c.prunePeer active address phase finalized).value.2.of kind := by
  rw [passed, staleKeys_prunePeer, of_prunePeer]
  rfl

theorem evict_prunePeer (c : Caches) (kind : EntryKind) (active : RoundKey) (address : Address)
    (phase : Nat) (finalized : Bool) :
    ((c.prunePeer active address phase finalized).value.2.of kind).evict =
      (c.prunePeer active address phase finalized).value.2.of kind := by
  rw [of_prunePeer]
  exact Cache.evict_evict _

theorem prunePeer_prunePeer (c : Caches) (active : RoundKey) (address : Address) (phase : Nat)
    (finalized : Bool) :
    ((c.prunePeer active address phase finalized).value.2.prunePeer active address phase
      finalized).value = (⟨0, 0, 0⟩, (c.prunePeer active address phase finalized).value.2) := by
  have hcaches : ∀ kind, ((c.prunePeer active address phase finalized).value.2.prunePeer active address
      phase finalized).value.2.of kind = (c.prunePeer active address phase finalized).value.2.of kind := by
    intro kind
    rw [of_prunePeer, passed_prunePeer, evict_prunePeer]
  refine Prod.ext ?_ ?_
  · rw [prunePeer_report]
    simp only [passed_prunePeer, evict_prunePeer, staleKeys_prunePeer, Nat.sub_self]
    rfl
  · have hfirst := hcaches .contribution
    have hsecond := hcaches .hash
    exact congrArg₂ Caches.mk hfirst hsecond

/-- A report prunes the stale entries of its address, and then only what is too much. An entry is stale by
the rule, unless a peer is in work in the phase that none comes after. -/
theorem pruned (c : Caches) (active : RoundKey) (address : Address) (phase : Nat) (finalized : Bool) :
    (∃ passed, Pruned active address phase finalized c passed
      (c.prunePeer active address phase finalized).value.1
      (c.prunePeer active address phase finalized).value.2) ∧
    ∀ (kind : EntryKind) (key : RoundKey),
      (kind = .hash → finalized = false → phase < Limits.maxPhase) →
      (kind.Stale key active phase finalized ↔ kind.Outdated key active phase finalized) := by
  refine ⟨⟨⟨c.passed .contribution active address phase finalized,
    c.passed .hash active address phase finalized⟩, ?_⟩, fun _ _ => EntryKind.stale_iff⟩
  have hof : ∀ kind, (Caches.mk (c.passed .contribution active address phase finalized)
      (c.passed .hash active address phase finalized)).of kind =
        c.passed kind active address phase finalized := by
    intro kind
    cases kind <;> rfl
  constructor
  case removed =>
    intro kind key x
    rw [hof, get?_passed]
  case emptied =>
    intro kind key
    rw [hof]
    exact Cache.mem_keys_iff
  case told =>
    intro kind
    rw [hof]
    exact ⟨rfl, Cache.removeAll_capacity _ _ _⟩
  case evicted =>
    intro kind
    rw [hof, of_prunePeer]
    exact Cache.evicted _
  case framed =>
    intro kind key hkey x hx
    rw [get?_pruned hkey, get?_passed, if_neg fun hboth => hx hboth.1]
  case contributions => exact removed_eq c .contribution active address phase finalized
  case hashes => exact removed_eq c .hash active address phase finalized
  case evictedKeys =>
    have hgone := fun kind => (c.passed kind active address phase finalized).length_gone
    exact (congrArg₂ (· + ·) (hgone .contribution) (hgone .hash)).symm
  case again => exact c.prunePeer_prunePeer active address phase finalized

end Caches

end

namespace LastPhase

def key : RoundKey := ⟨12, Limits.maxPhase⟩

/-- Caches with a digest of "p" under a key of the last phase. -/
def caches : Caches :=
  { Caches.empty 100 with hashes := (Cache.empty .hash 100).run [.insert key "p" ⟨"v", "s"⟩] }

/-- A peer in work in the last phase loses its digest of that very phase, which the rule leaves it. -/
theorem report_removes_own_phase :
    ¬ EntryKind.hash.Outdated key ⟨10, 0⟩ Limits.maxPhase false ∧
      caches.hashes.get? key "p" = some ⟨"v", "s"⟩ ∧
      (caches.prunePeer ⟨10, 0⟩ "p" Limits.maxPhase false).value.1 = ⟨0, 1, 0⟩ ∧
      (caches.prunePeer ⟨10, 0⟩ "p" Limits.maxPhase false).value.2.hashes.get? key "p" = none := by
  decide +kernel

end LastPhase

namespace Crowded

open Cache

/-- Caches for two keys that were told of another active key than the report finds. -/
def caches : Caches where
  contributions := (empty .contribution 2).run [.setActive ⟨5, 0⟩, .insert ⟨5, 0⟩ "p" ⟨"v", "s"⟩,
    .insert ⟨5, 1⟩ "p" ⟨"v", "s"⟩, .insert ⟨5, 1⟩ "q" ⟨"v", "s"⟩, .insert ⟨6, 0⟩ "q" ⟨"v", "s"⟩]
  hashes := (empty .hash 2).run [.insert ⟨5, 4⟩ "p" ⟨"v", "s"⟩, .insert ⟨5, 4⟩ "q" ⟨"v", "s"⟩]

/-- The report takes an entry of "p" out of each cache, and the oldest key out of the fuller one. -/
theorem report_prunes :
    (∃ passed, Caches.Pruned ⟨1, 0⟩ "p" 3 false caches passed ⟨1, 1, 1⟩
      (caches.prunePeer ⟨1, 0⟩ "p" 3 false).value.2) ∧
    (caches.prunePeer ⟨1, 0⟩ "p" 3 false).value.2.contributions.keys = [⟨5, 1⟩, ⟨6, 0⟩] := by
  have hreport : (caches.prunePeer ⟨1, 0⟩ "p" 3 false).value.1 = ⟨1, 1, 1⟩ := by decide +kernel
  obtain ⟨hpruned, -⟩ := caches.pruned ⟨1, 0⟩ "p" 3 false
  rw [hreport] at hpruned
  exact ⟨hpruned, by decide +kernel⟩

end Crowded

end Adjudication
