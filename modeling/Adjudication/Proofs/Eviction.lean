import Adjudication.Proofs.Retention
import Mathlib.Data.List.Perm.Subperm

namespace Adjudication

/-- The keys of the admission window, the oldest twice in the first phase. -/
def RoundKey.window (active : RoundKey) : List RoundKey :=
  [active, ⟨active.height, active.phase - 1⟩, ⟨active.height + 1, 0⟩, ⟨active.height, active.phase + 1⟩]

theorem RoundKey.InAdmission.mem_window {key active : RoundKey} (h : key.InAdmission active) :
    key ∈ active.window := by
  rcases h with (rfl | ⟨_, rfl⟩ | rfl) | rfl
  all_goals simp [window]

namespace Cache

variable {c c' : Cache} {key k : RoundKey} {address : Address} {entry : SignedEntry}

theorem keys_ascending (c : Cache) : c.keys.Pairwise (· < ·) := c.tidy.ascending.keys_pairwise

theorem keys_nodup (c : Cache) : c.keys.Nodup := c.tidy.ascending.keys_nodup

theorem length_keys (c : Cache) : c.keys.length = c.keyCount := List.length_map _

/-- The keys that an eviction takes. -/
def victims (c : Cache) : List RoundKey :=
  (c.keys.filter fun key => ¬ c.Protected key).take (c.keyCount - c.capacity)

theorem rounds_evict (c : Cache) : c.evict.rounds = c.rounds.filter fun r => r.1 ∉ c.victims := by
  have hheld : (c.rounds.filter fun r => !r.2.isEmpty) = c.rounds := by
    apply List.filter_eq_self.mpr
    intro r hr
    have hne := c.tidy.inhabited r hr
    simpa using hne
  unfold evict
  dsimp only
  rw [hheld]
  rfl

theorem keys_evict (c : Cache) : c.evict.keys = c.keys.filter (· ∉ c.victims) := by
  rw [keys, rounds_evict, keys, Assoc.keys, Assoc.keys, List.filter_map]
  rfl

theorem mem_keys_of_mem_victims (h : key ∈ c.victims) : key ∈ c.keys ∧ ¬ c.Protected key := by
  have hmem := List.mem_filter.mp (List.mem_of_mem_take h)
  exact ⟨hmem.1, of_decide_eq_true hmem.2⟩

theorem mem_victims_iff : key ∈ c.victims ↔ key ∈ c.keys ∧ key ∉ c.evict.keys := by
  rw [keys_evict, List.mem_filter]
  constructor
  · intro hv
    exact ⟨(mem_keys_of_mem_victims hv).1, fun hkept => of_decide_eq_true hkept.2 hv⟩
  · rintro ⟨hkey, hgone⟩
    by_contra hv
    exact hgone ⟨hkey, decide_eq_true hv⟩

/-- The victims are as many as the keys that go. -/
theorem countP_victims (c : Cache) :
    (c.keys.countP fun key => key ∈ c.victims) = c.victims.length := by
  have hvictims : c.victims.Nodup :=
    c.keys_nodup.sublist ((List.take_sublist _ _).trans List.filter_sublist)
  have hperm : (c.keys.filter fun key => key ∈ c.victims).Perm c.victims := by
    refine (List.perm_ext_iff_of_nodup (c.keys_nodup.filter _) hvictims).mpr ?_
    intro key
    rw [List.mem_filter, decide_eq_true_eq]
    exact ⟨fun hv => hv.2, fun hv => ⟨(mem_keys_of_mem_victims hv).1, hv⟩⟩
  rw [List.countP_eq_length_filter, hperm.length_eq]

theorem length_victims (c : Cache) : c.victims.length =
    min (c.keyCount - c.capacity) (c.keys.countP fun key => ¬ c.Protected key) := by
  rw [victims, List.length_take, List.countP_eq_length_filter]

/-- What an eviction makes of a cache. -/
structure Evicted (c c' : Cache) : Prop where
  fits : c.keyCount ≤ c.capacity → c' = c
  spared : ∀ key ∈ c.keys, c.Protected key → key ∈ c'.keys
  oldest : ∀ gone ∈ c.keys, gone ∉ c'.keys → ∀ kept ∈ c'.keys, ¬ c.Protected kept → gone < kept
  /-- As many keys go as there are too many, or all that may go. -/
  gone : (c.keys.filter (· ∉ c'.keys)).length =
    min (c.keyCount - c.capacity) (c.keys.countP fun key => ¬ c.Protected key)
  unchanged : ∀ key ∈ c'.keys, key ∈ c.keys ∧ c'.entries key = c.entries key

theorem evicted (c : Cache) : c.Evicted c.evict where
  fits hfits := by
    have hexcess : c.keyCount - c.capacity = 0 := by omega
    have hvictims : c.victims = [] := by rw [victims, hexcess, List.take_zero]
    refine Cache.ext rfl rfl rfl ?_
    rw [rounds_evict]
    simp [hvictims]
  spared key hkey hp := by
    rw [keys_evict]
    refine List.mem_filter.mpr ⟨hkey, decide_eq_true ?_⟩
    intro hv
    exact (mem_keys_of_mem_victims hv).2 hp
  oldest gone hgone hgone' kept hkept hunprotected := by
    have hv : gone ∈ c.victims := mem_victims_iff.mpr ⟨hgone, hgone'⟩
    rw [keys_evict] at hkept
    obtain ⟨hkey, hspared⟩ := List.mem_filter.mp hkept
    -- the survivor is among the unprotected keys, behind the victims
    have hall : kept ∈ c.keys.filter fun key => ¬ c.Protected key :=
      List.mem_filter.mpr ⟨hkey, decide_eq_true hunprotected⟩
    have hsorted : (c.keys.filter fun key => ¬ c.Protected key).Pairwise (· < ·) :=
      c.keys_ascending.sublist List.filter_sublist
    rw [← List.take_append_drop (c.keyCount - c.capacity)
      (c.keys.filter fun key => ¬ c.Protected key)] at hall hsorted
    have hlater := (List.mem_append.mp hall).resolve_left (of_decide_eq_true hspared)
    exact (List.pairwise_append.mp hsorted).2.2 gone hv kept hlater
  gone := by
    have hgone : c.keys.filter (· ∉ c.evict.keys) = c.keys.filter (· ∈ c.victims) := by
      apply List.filter_congr
      intro key hkey
      rw [decide_eq_decide, mem_victims_iff]
      exact ⟨fun hgone => ⟨hkey, hgone⟩, fun hv => hv.2⟩
    rw [hgone, ← List.countP_eq_length_filter, countP_victims, length_victims]
  unchanged key hkey := by
    rw [keys_evict] at hkey
    obtain ⟨hold, hspared⟩ := List.mem_filter.mp hkey
    refine ⟨hold, ?_⟩
    obtain ⟨es, hes⟩ := Option.isSome_iff_exists.mp (Assoc.get?_isSome_iff.mpr hold)
    have hkept : Assoc.get? key (c.rounds.filter fun r => r.1 ∉ c.victims) = some es :=
      Assoc.get?_filter_of_forall hes hspared
    unfold entries
    rw [rounds_evict, hes, hkept]

theorem evicted_insert (hnew : c.contains key address = false) :
    (c.put key address entry).Evicted (c.insert key address entry).value.2 := by
  have hevicted := (c.put key address entry).evicted
  unfold Cache.insert
  rw [hnew, if_neg Bool.false_ne_true]
  simp only [Noted.value_bind]
  split
  next => exact hevicted
  next hfits =>
    -- where there is room an eviction would take nothing
    rw [hevicted.fits (Nat.le_of_not_lt hfits)] at hevicted
    exact hevicted

theorem countP_protected_le (c : Cache) :
    (c.keys.countP fun key => c.Protected key) ≤ 4 := by
  cases hactive : c.active with
  | none =>
    have hnone : (c.keys.countP fun key => c.Protected key) = 0 := by
      apply List.countP_eq_zero.mpr
      intro key _
      simp [Protected, hactive]
    omega
  | some active =>
    have hsub : c.keys.filter (fun key => c.Protected key) ⊆ active.window := by
      intro key hkey
      obtain ⟨a, ha, hp⟩ := of_decide_eq_true (List.mem_filter.mp hkey).2
      rw [hactive] at ha
      cases ha
      exact hp.mem_window
    rw [List.countP_eq_length_filter]
    exact (List.subperm_of_subset (c.keys_nodup.filter _) hsub).length_le

theorem keyCount_evict (c : Cache) : c.evict.keyCount + c.victims.length = c.keyCount := by
  have hsplit := List.length_eq_countP_add_countP (fun key => decide (key ∈ c.victims)) (l := c.keys)
  have hkept : c.evict.keyCount = c.keys.countP fun key => key ∉ c.victims := by
    rw [← length_keys, keys_evict, List.countP_eq_length_filter]
  rw [countP_victims, length_keys] at hsplit
  simp only [decide_eq_true_eq] at hsplit
  omega

theorem keyCount_evict_le (c : Cache) : c.evict.keyCount ≤ max c.capacity 4 := by
  have hprotected := c.countP_protected_le
  have hsplit := List.length_eq_countP_add_countP (fun key => decide (c.Protected key)) (l := c.keys)
  have hkept := c.keyCount_evict
  rw [length_victims] at hkept
  rw [length_keys] at hsplit
  simp only [decide_eq_true_eq] at hsplit
  omega

theorem keyCount_le (hkeys : c'.keys ⊆ c.keys) : c'.keyCount ≤ c.keyCount := by
  rw [← length_keys, ← length_keys]
  exact (List.subperm_of_subset c'.keys_nodup hkeys).length_le

theorem keys_remove_subset (c : Cache) (key : RoundKey) (address : Address) :
    (c.remove key address).2.keys ⊆ c.keys := by
  unfold Cache.remove
  split
  next hin =>
    intro k hk
    dsimp only [keys] at hk
    split at hk
    next => exact List.map_subset _ List.filter_sublist.subset hk
    next =>
      rcases Assoc.mem_keys_insert.mp hk with rfl | hk
      · obtain ⟨e, he⟩ := Option.isSome_iff_exists.mp hin
        obtain ⟨es, hes, _⟩ := get?_eq_some_iff.mp he
        exact Assoc.get?_isSome_iff.mp (Option.isSome_iff_exists.mpr ⟨es, hes⟩)
      · exact hk
  next => exact fun _ hk => hk

inductive Op
  | insert (key : RoundKey) (address : Address) (entry : SignedEntry)
  | remove (key : RoundKey) (address : Address)
  | setActive (active : RoundKey)
  | sweep (active : RoundKey)
  | enforceCapacity

/-- The key that an operation tells the cache is active. -/
def Op.told? : Op → Option RoundKey
  | .setActive active | .sweep active => some active
  | .insert .. | .remove .. | .enforceCapacity => none

def act (c : Cache) : Op → Cache
  | .insert key address entry => (c.insert key address entry).value.2
  | .remove key address => (c.remove key address).2
  | .setActive active => c.setActive active
  | .sweep active => (c.sweep active).value.2
  | .enforceCapacity => c.enforceCapacity.value.2

def run (c : Cache) (ops : List Op) : Cache := ops.foldl act c

theorem run_snoc (c : Cache) (ops : List Op) (op : Op) : c.run (ops ++ [op]) = (c.run ops).act op := by
  rw [run, List.foldl_append]
  rfl

/-- A cache that was asked to hold `capacity` keys, and its keys. -/
structure Bounded (capacity : Nat) (c : Cache) : Prop where
  capacity_eq : c.capacity = max capacity 1
  keyCount_le : c.keyCount ≤ max capacity 4

theorem empty_bounded (kind : EntryKind) (capacity : Nat) : (empty kind capacity).Bounded capacity where
  capacity_eq := rfl
  keyCount_le := Nat.zero_le _

variable {capacity : Nat}

/-- Keys that go do not break the bound. -/
theorem Bounded.of_keys (h : c.Bounded capacity) (hcapacity : c'.capacity = c.capacity)
    (hkeys : c'.keys ⊆ c.keys) : c'.Bounded capacity where
  capacity_eq := hcapacity.trans h.capacity_eq
  keyCount_le := Nat.le_trans (Cache.keyCount_le hkeys) h.keyCount_le

theorem Bounded.of_sublist (h : c.Bounded capacity) (hcapacity : c'.capacity = c.capacity)
    (hs : c'.rounds.Sublist c.rounds) : c'.Bounded capacity :=
  h.of_keys hcapacity (List.map_subset _ hs.subset)

theorem Bounded.insert (h : c.Bounded capacity) (key : RoundKey) (address : Address)
    (entry : SignedEntry) : (c.insert key address entry).value.2.Bounded capacity := by
  have hcapacity : (c.put key address entry).capacity = max capacity 1 := h.capacity_eq
  unfold Cache.insert
  split
  next => exact h
  next =>
    simp only [Noted.value_bind]
    split
    next =>
      have hle := (c.put key address entry).keyCount_evict_le
      refine ⟨hcapacity, ?_⟩
      show (c.put key address entry).evict.keyCount ≤ max capacity 4
      omega
    next hfits =>
      refine ⟨hcapacity, ?_⟩
      show (c.put key address entry).keyCount ≤ max capacity 4
      omega

theorem Bounded.act (h : c.Bounded capacity) (op : Op) : (c.act op).Bounded capacity := by
  cases op with
  | insert key address entry => exact h.insert key address entry
  | remove key address =>
    refine h.of_keys ?_ (keys_remove_subset c key address)
    show (c.remove key address).2.capacity = c.capacity
    unfold Cache.remove
    split <;> rfl
  | setActive active => exact h.of_sublist rfl (List.Sublist.refl _)
  | sweep active => exact h.of_sublist rfl (sweep_rounds_sublist c active)
  | enforceCapacity => exact h.of_sublist rfl (evict_rounds_sublist c)

theorem bounded_run (kind : EntryKind) (capacity : Nat) (ops : List Op) :
    ((empty kind capacity).run ops).Bounded capacity := by
  induction ops using List.reverseRecOn with
  | nil => exact empty_bounded kind capacity
  | append_singleton ops op ih =>
    rw [run_snoc]
    exact ih.act op

theorem active_act (c : Cache) (op : Op) : (c.act op).active = op.told?.or c.active := by
  cases op with
  | insert key address entry => exact value_insert_active c key address entry
  | remove key address => exact remove_active c key address
  | setActive active => rfl
  | sweep active => rfl
  | enforceCapacity => rfl

/-- What eviction spares is the window of the key that the cache was last told. -/
theorem active_run (kind : EntryKind) (capacity : Nat) (ops : List Op) :
    ((empty kind capacity).run ops).active = (ops.filterMap Op.told?).getLast? := by
  induction ops using List.reverseRecOn with
  | nil => rfl
  | append_singleton ops op ih =>
    rw [run_snoc, active_act, ih, List.filterMap_append, List.getLast?_append]
    cases h : op.told? <;> simp [List.filterMap, h]

/-- The bounds of a cache that was asked to hold `capacity` keys and was last told of `told`. -/
structure Capped (capacity : Nat) (told : Option RoundKey) (c : Cache) : Prop where
  inhabited : ∀ r ∈ c.rounds, r.2 ≠ []
  keyCount_le : c.keyCount ≤ max capacity 4
  keyCount_le_capacity : 4 ≤ capacity → c.keyCount ≤ capacity
  active_eq : c.active = told
  capacity_eq : c.capacity = max capacity 1
  enforced : c.Evicted (c.act .enforceCapacity)
  inserted : ∀ key address entry, c.contains key address = false →
    (c.put key address entry).Evicted (c.act (.insert key address entry))
  /-- An entry that is there already is not inserted. -/
  duplicate : ∀ key address entry, c.contains key address = true →
    c.act (.insert key address entry) = c

/-- However a cache has been used, an insertion or an eviction takes none but the oldest unprotected keys,
as many as there are too many; so it has no more keys than its capacity or the four of a window. -/
theorem capped_of_run (kind : EntryKind) (capacity : Nat) (ops : List Op) :
    ((empty kind capacity).run ops).Capped capacity (ops.filterMap Op.told?).getLast? := by
  have hbounded := bounded_run kind capacity ops
  have hle := hbounded.keyCount_le
  refine ⟨((empty kind capacity).run ops).tidy.inhabited, hle, fun h4 => by omega,
    active_run kind capacity ops, hbounded.capacity_eq, evicted _, ?_, ?_⟩
  · intro key address entry hnew
    exact evicted_insert hnew
  · intro key address entry hin
    rcases insert_cases ((empty kind capacity).run ops) key address entry with ⟨_, hc⟩ | ⟨hnew, _⟩
    · exact hc
    · rw [hin] at hnew
      cases hnew

end Cache

end Adjudication
