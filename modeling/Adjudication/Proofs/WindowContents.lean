import Adjudication.Proofs.Eviction

namespace Adjudication

namespace RoundKey

variable {key s active active' : RoundKey}

/-- What was admitted under an earlier key is behind, or is admitted still. -/
theorem InAdmission.of_not_behind (h : key.InAdmission s) (hle : ¬ active < s)
    (hb : ¬ key.Behind active) : key.InAdmission active := by
  rw [inAdmission_iff] at *
  simp only [Behind, lt_def] at hle hb
  omega

theorem Behind.rise (h : key.Behind active) (hrise : ¬ active' < active) : key.Behind active' := by
  simp only [Behind, lt_def] at *
  omega

end RoundKey

namespace Cache

variable {c : Cache} {key k active : RoundKey} {address : Address} {entry : SignedEntry}

theorem mem_keys_insert (h : k ∈ (c.insert key address entry).value.2.keys) : k = key ∨ k ∈ c.keys := by
  rcases insert_cases c key address entry with ⟨_, hc⟩ | ⟨_, hc | hc⟩
  · rw [hc] at h
    exact Or.inr h
  · rw [hc] at h
    exact Assoc.mem_keys_insert.mp h
  · rw [hc] at h
    have hput : k ∈ (c.put key address entry).keys :=
      List.map_subset _ (evict_rounds_sublist _).subset h
    exact Assoc.mem_keys_insert.mp hput

theorem keys_removeAll_subset (c : Cache) (address : Address) (keys : List RoundKey) :
    (c.removeAll address keys).2.keys ⊆ c.keys :=
  removeAll_induction (P := fun c' => c'.keys ⊆ c.keys) address keys
    (fun c' key _ ih => List.Subset.trans (keys_remove_subset c' key address) ih)
    (List.Subset.refl _)

theorem mem_keys_consider {verifier : Verifier} {members : Members} {peer : Address}
    (h : k ∈ (c.consider verifier members active peer key address entry).value.2.keys) :
    k ∈ c.keys ∨ k.InAdmission active := by
  rcases consider_cases c verifier members active peer key address entry with
    hc | ⟨_, hc⟩ | ⟨hadmitted, _, hc⟩
  · rw [hc] at h
    exact Or.inl h
  · rw [hc] at h
    exact Or.inl h
  · rw [hc] at h
    rcases mem_keys_insert h with rfl | hold
    · exact Or.inr hadmitted
    · exact Or.inl hold

/-- An entry for a key behind the window is late, and that is all. -/
theorem consider_of_behind (c : Cache) (verifier : Verifier) (members : Members) (peer : Address)
    (address : Address) (entry : SignedEntry) (h : key.Behind active) :
    (c.consider verifier members active peer key address entry).value = (.ok .late, c) := by
  unfold consider
  rw [if_pos h]
  rfl

theorem mem_keys_sweep (h : k ∈ (c.sweep active).value.2.keys) : k ∈ c.keys ∧ ¬ k.Behind active := by
  obtain ⟨r, hr, rfl⟩ := List.mem_map.mp h
  obtain ⟨hmem, hb⟩ := List.mem_filter.mp hr
  exact ⟨List.mem_map_of_mem hmem, of_decide_eq_true hb⟩

/-- All keys are in a window, so there are no more than four. -/
structure InWindow (c : Cache) (active : RoundKey) : Prop where
  admitted : ∀ k ∈ c.keys, k.InAdmission active
  keyCount_le : c.keyCount ≤ 4

theorem inWindow (hadmitted : ∀ k ∈ c.keys, k.InAdmission active) : c.InWindow active where
  admitted := hadmitted
  keyCount_le := by
    have hsub : c.keys ⊆ active.window := fun k hk => (hadmitted k hk).mem_window
    rw [← length_keys]
    exact (List.subperm_of_subset c.keys_nodup hsub).length_le

end Cache

namespace Node

variable {m : Moment} {n n' : Node} {kind : EntryKind} {k active : RoundKey} {x : Address}
  {e : SignedEntry}

/-- Each key of the caches was admitted under a key no later than the active one. -/
def Windowed (n : Node) : Prop :=
  ∀ kind, ∀ k ∈ (n.cache kind).keys, ∃ s, ¬ n.activeKey < s ∧ k.InAdmission s

theorem Windowed.of_caches (h : n.Windowed) (hcaches : n'.caches = n.caches)
    (hrise : ¬ n'.activeKey < n.activeKey) : n'.Windowed := by
  intro kind k hk
  rw [cache, hcaches] at hk
  obtain ⟨s, hle, hs⟩ := h kind k hk
  exact ⟨s, RoundKey.not_lt_trans hle hrise, hs⟩

theorem PeerStep.windowed (s : PeerStep m n n') (h : n.Windowed) : n'.Windowed := by
  have hlt := RoundKey.lt_irrefl n.activeKey
  have hactive : n'.activeKey = n.activeKey := PeerRun.activeKey_eq (.single s)
  intro kind k hk
  rw [hactive]
  cases s with
  | entry peer other key address entry =>
    by_cases hkind : kind = other
    · subst other
      rw [cache_consider_self] at hk
      rcases Cache.mem_keys_consider hk with hold | hnew
      · exact h kind k hold
      · exact ⟨n.activeKey, hlt, hnew⟩
    · rw [cache_consider_of_ne hkind] at hk
      exact h kind k hk
  | report peer phase finalized =>
    have hmem : k ∈ ((n.caches.prunePeer n.activeKey peer phase finalized).value.2.of kind).keys := hk
    rw [Caches.prunePeer_of] at hmem
    have hleft := List.map_subset _ (Cache.evict_rounds_sublist _).subset hmem
    exact h kind k (Cache.keys_removeAll_subset _ _ _ hleft)
  | other => exact h kind k hk

theorem PeerRun.windowed (s : PeerRun m n n') (h : n.Windowed) : n'.Windowed := by
  induction s with
  | refl => exact h
  | tail _ last ih => exact last.windowed ih

/-- A sweep leaves only keys of the window. -/
theorem Windowed.mem_window_of_sweep (h : n.Windowed) (hrise : ¬ active < n.activeKey)
    (hk : k ∈ ((n.cache kind).sweep active).value.2.keys) : k.InAdmission active := by
  obtain ⟨hold, hb⟩ := Cache.mem_keys_sweep hk
  obtain ⟨s, hle, hs⟩ := h kind k hold
  exact hs.of_not_behind (RoundKey.not_lt_trans hle hrise) hb

/-- Peers bring a node nothing that is behind its window. -/
theorem PeerStep.holds_of_behind (s : PeerStep m n n') (hk : k.Behind n.activeKey)
    (h : (n'.cache kind).Holds k x e) : (n.cache kind).Holds k x e := by
  cases s with
  | entry peer other key address entry =>
    by_cases hkind : kind = other
    · subst other
      rw [cache_consider_self] at h
      rcases Cache.holds_of_consider h with hold | ⟨rfl, _, _, _⟩
      · exact hold
      · rwa [Cache.consider_of_behind _ _ _ _ _ _ hk] at h
    · rwa [cache_consider_of_ne hkind] at h
  | report peer phase finalized => exact Caches.holds_of_prunePeer h
  | other => exact h

theorem PeerRun.holds_of_behind (s : PeerRun m n n') (hk : k.Behind n.activeKey)
    (h : (n'.cache kind).Holds k x e) : (n.cache kind).Holds k x e := by
  induction s with
  | refl => exact h
  | tail init last ih =>
    have hactive := PeerRun.activeKey_eq init
    exact ih (last.holds_of_behind (hactive ▸ hk) h)

theorem consider_of_behind (n : Node) (members : Members) (peer : Address) (kind : EntryKind)
    (address : Address) (entry : SignedEntry) (hk : k.Behind n.activeKey) :
    (n.consider members peer kind k address entry).value = (.ok .late, n) := by
  unfold consider
  rw [Noted.value_bind, Cache.consider_of_behind _ _ _ _ _ _ hk]
  cases kind with
  | contribution => rfl
  | hash => rfl

end Node

namespace RoundRun

variable {m : Moment} {r r' : RoundRun} {n n' : Node} {kind : EntryKind} {k : RoundKey}
  {x : Address} {e : SignedEntry}

/-- A round that starts over sweeps, and puts its own contribution into the window. -/
theorem mem_window_of_entered (h : n.Windowed) (hrise : ¬ (r.entered n).activeKey < n.activeKey)
    (hk : k ∈ ((r.entered n).cache kind).keys) : k.InAdmission (r.entered n).activeKey := by
  have hown : k = (r.entered n).activeKey ∨
      k ∈ ((n.cache kind).sweep (r.entered n).activeKey).value.2.keys := by
    cases kind with
    | contribution => exact Cache.mem_keys_insert hk
    | hash => exact Or.inr hk
  rcases hown with rfl | hswept
  · exact Or.inl (Or.inl rfl)
  · exact h.mem_window_of_sweep hrise hswept

theorem entered_windowed (h : n.Windowed) (hrise : ¬ (r.entered n).activeKey < n.activeKey) :
    (r.entered n).Windowed :=
  fun _ _ hk => ⟨_, RoundKey.lt_irrefl _, mem_window_of_entered h hrise hk⟩

theorem committed_windowed (h : n.Windowed) (hkey : ¬ n.activeKey < r.key) :
    (r.committed n).Windowed := by
  intro kind k hk
  cases kind with
  | contribution => exact h .contribution k hk
  | hash =>
    have hmem : k ∈ ((n.caches.hashes.remove r.key n.address).2.insert r.key n.address
        (r.standing n)).value.2.keys := hk
    rcases Cache.mem_keys_insert hmem with rfl | hold
    · exact ⟨r.key, hkey, Or.inl (Or.inl rfl)⟩
    · exact h .hash k (Cache.keys_remove_subset _ _ _ hold)

theorem Turn.windowed (t : Turn m r n r' n') (h : n.Windowed)
    (hkey : r.goal? ≠ none → ¬ n.activeKey < r.key) (hrise : ¬ n'.activeKey < n.activeKey) :
    n'.Windowed := by
  have hlt := RoundKey.lt_irrefl n.activeKey
  cases t with
  | enter ready stage starts looked =>
    have hready : ({ n with ready } : Node).Windowed := h.of_caches rfl hlt
    exact entered_windowed hready hrise
  | look => exact h
  | commit goal fill count need waited stage was looked =>
    have hready : ({ n with ready := true } : Node).Windowed := h.of_caches rfl hlt
    have hgoal : r.goal? ≠ none := by simp [goal?, was]
    exact committed_windowed (n := { n with ready := true }) hready (hkey hgoal)
  | conclude => exact h.of_caches rfl hrise
  | catchUp => exact h
  | giveUp => exact h.of_caches rfl hrise
  | idle => exact h

/-- A round that has a goal works under a key no later than the active one. -/
theorem Turn.key_reached (t : Turn m r n r' n') (hkey : r.goal? ≠ none → ¬ n.activeKey < r.key)
    (hrise : ¬ n'.activeKey < n.activeKey) (hgoal : r'.goal? ≠ none) : ¬ n'.activeKey < r'.key := by
  obtain ⟨goal, hgoal⟩ := Option.ne_none_iff_exists'.mp hgoal
  rcases t.goal?_cases hgoal with ⟨hsame, hbefore⟩ | ⟨_, hnew, ready, rfl⟩ | ⟨_, hsame, _, gathered⟩
  · rw [hsame]
    exact RoundKey.not_lt_trans (hkey (by simp [hbefore])) hrise
  · rw [hnew]
    exact RoundKey.lt_irrefl _
  · rw [hsame]
    exact RoundKey.not_lt_trans (hkey (by simp [gathered.2.1])) hrise

/-- Of what is behind the window a turn makes at most the digest of the node itself. -/
theorem Turn.holds_of_behind (t : Turn m r n r' n') (hk : k.Behind n.activeKey)
    (hrise : ¬ n'.activeKey < n.activeKey) (h : (n'.cache kind).Holds k x e) :
    (n.cache kind).Holds k x e ∨ kind = .hash ∧ x = n.address := by
  cases t with
  | enter ready stage starts looked =>
    cases kind with
    | contribution =>
      rcases Cache.holds_of_insert h with hold | ⟨rfl, _, _⟩
      · exact Or.inl (hold.of_sublist (Cache.sweep_rounds_sublist _ _))
      -- its own contribution is under the new active key, and that is not behind itself
      · exact absurd (hk.rise hrise) (RoundKey.InRetention.not_behind (Or.inl rfl))
    | hash => exact Or.inl (h.of_sublist (Cache.sweep_rounds_sublist _ _))
  | commit =>
    cases kind with
    | contribution => exact Or.inl h
    | hash =>
      rcases Cache.holds_of_insert h with hold | ⟨_, hx, _⟩
      · exact Or.inl (Cache.holds_of_remove hold)
      · exact Or.inr ⟨rfl, hx⟩
  | look => exact Or.inl h
  | conclude => exact Or.inl h
  | catchUp => exact Or.inl h
  | giveUp => exact Or.inl h
  | idle => exact Or.inl h

end RoundRun

namespace Agent

variable {a : Agent} {m : Moment} {v : Move} {past script : Script} {kind : EntryKind} {k : RoundKey}
  {x : Address} {e : SignedEntry}

structure Windowed (a : Agent) : Prop where
  node : a.node.Windowed
  rounds : ∀ id r, a.round? id = some r → r.goal? ≠ none → ¬ a.node.activeKey < r.key

theorem Blank.windowed (h : a.Blank) : a.Windowed where
  node kind k hk := by
    rw [Node.cache, h.caches] at hk
    cases kind <;> exact absurd hk List.not_mem_nil
  rounds id r hr := by
    rw [round?, h.rounds] at hr
    cases hr

theorem Windowed.act (h : a.Windowed) (hrise : ¬ (a.act m v).node.activeKey < a.node.activeKey) :
    (a.act m v).Windowed := by
  rcases act_cases a m v with ⟨id, r, _, turned⟩ | between
  · have hturn := turned.turn
    have hkey := h.rounds id r turned.before
    refine ⟨hturn.windowed h.node hkey hrise, ?_⟩
    intro other r' hr' hgoal'
    by_cases hid : other = id
    · subst other
      cases turned.after.symm.trans hr'
      exact hturn.key_reached hkey hrise hgoal'
    · have hbefore := (turned.others other hid).symm.trans hr'
      exact RoundKey.not_lt_trans (h.rounds other r' hbefore hgoal') hrise
  · obtain ⟨n, position, hrun, hn⟩ := between.node
    have hactive : n.activeKey = a.node.activeKey := hrun.activeKey_eq
    refine ⟨(hrun.windowed h.node).of_caches (by rw [hn]) (by rwa [hactive]), ?_⟩
    intro id r hr hgoal
    rcases between.rounds id with hsame | hnone | ⟨_, _, r₀, hr₀, hscheduled⟩
    · exact RoundKey.not_lt_trans (h.rounds id r (hsame.symm.trans hr) hgoal) hrise
    · cases hnone.symm.trans hr
    · cases hr₀.symm.trans hr
      obtain ⟨goal, hgoal⟩ := Option.ne_none_iff_exists'.mp hgoal
      exact absurd hscheduled (RoundRun.ne_scheduled_of_goal? hgoal)

theorem Windowed.run (h : a.Windowed) (hrising : a.Rising script) : (a.run script).Windowed := by
  induction script generalizing a with
  | nil => exact h
  | cons v script ih => exact ih (h.act hrising.1) hrising.2

theorem holds_act_of_behind (hk : k.Behind a.node.activeKey)
    (hrise : ¬ (a.act m v).node.activeKey < a.node.activeKey)
    (h : ((a.act m v).node.cache kind).Holds k x e) :
    (a.node.cache kind).Holds k x e ∨ kind = .hash ∧ x = a.address := by
  rcases act_cases a m v with ⟨_, r, _, turned⟩ | between
  · have hturn := turned.turn
    exact hturn.holds_of_behind hk hrise h
  · obtain ⟨n, position, hrun, hn⟩ := between.node
    rw [hn] at h
    exact Or.inl (hrun.holds_of_behind hk h)

theorem holds_run_of_behind (hk : k.Behind a.node.activeKey) (hrising : a.Rising script)
    (h : ((a.run script).node.cache kind).Holds k x e) :
    (a.node.cache kind).Holds k x e ∨ kind = .hash ∧ x = a.address := by
  induction script generalizing a with
  | nil => exact Or.inl h
  | cons v script ih =>
    rcases ih (hk.rise hrising.1) hrising.2 h with hold | ⟨hkind, hx⟩
    · exact holds_act_of_behind hk hrising.1 hold
    · exact Or.inr ⟨hkind, hx.trans (a.address_act v.1 v.2)⟩

theorem behind_run (hk : k.Behind a.node.activeKey) (hrising : a.Rising script) :
    k.Behind (a.run script).node.activeKey := by
  induction script generalizing a with
  | nil => exact hk
  | cons v script ih => exact ih (hk.rise hrising.1) hrising.2

/-- While the active key does not decrease, each sweep leaves the caches with the keys of the window, at
most four, also when a round starts over and has put its own contribution there. What has once fallen
behind is late from then on, and nothing is held under it but what was, or the agent's own digest. -/
theorem window_of_rising (ha : a.Blank) (hrising : a.Rising (past ++ script)) :
    (∀ kind active, ¬ active < (a.run past).node.activeKey →
      (((a.run past).node.cache kind).sweep active).value.2.InWindow active) ∧
    (∀ (r : RoundRun) kind,
      ¬ (r.entered (a.run past).node).activeKey < (a.run past).node.activeKey →
      ((r.entered (a.run past).node).cache kind).InWindow (r.entered (a.run past).node).activeKey) ∧
    ∀ k, k.Behind (a.run past).node.activeKey →
      (∀ members peer kind address entry,
        (((a.run past).run script).node.consider members peer kind k address entry).value =
          (.ok .late, ((a.run past).run script).node)) ∧
      ∀ kind x e, (((a.run past).run script).node.cache kind).Holds k x e →
        ((a.run past).node.cache kind).Holds k x e ∨ kind = .hash ∧ x = a.address := by
  obtain ⟨hpast, hscript⟩ := rising_append.mp hrising
  have hwindowed := (ha.windowed.run hpast).node
  refine ⟨fun kind active hrise => ?_, fun r kind hrise => ?_, fun k hk => ?_⟩
  · exact Cache.inWindow fun k hk => hwindowed.mem_window_of_sweep hrise hk
  · exact Cache.inWindow fun k hk => RoundRun.mem_window_of_entered hwindowed hrise hk
  refine ⟨fun members peer kind address entry => ?_, fun kind x e held => ?_⟩
  · exact Node.consider_of_behind _ members peer kind address entry (behind_run hk hscript)
  · rcases holds_run_of_behind hk hscript held with hold | ⟨hkind, hx⟩
    · exact Or.inl hold
    · exact Or.inr ⟨hkind, hx.trans (sound_run ha.sound past).address⟩

end Agent

namespace TwoFaced

/-- The round is over, and the height has been raised twice. -/
def raised : Script := opening "a" ++ round digestA ++ [(moment 10000, .stand { height := 2 })]

/-- The peer offers its contribution again. -/
def again : Script := [(moment 10000, .call "p" (.gossip .contribution
  ⟨⟨1, 0⟩, [], some (.plain .contribution ⟨1, 0⟩ "p" "p")⟩))]

/-- The key of the finished round is still there when the height is raised, and goes with the next sweep;
what the peer offers under it is late. -/
theorem finished_round_goes :
    (Agent.plain "a").Rising (raised ++ again) ∧
    ((Agent.plain "a").run raised).node.activeKey = ⟨3, 0⟩ ∧
    (((Agent.plain "a").run raised).node.cache .contribution).keys = [⟨1, 0⟩] ∧
    ((((Agent.plain "a").run raised).node.cache .contribution).sweep ⟨3, 0⟩).value.2.InWindow ⟨3, 0⟩ ∧
    ((((Agent.plain "a").run raised).run again).node.consider (.ofList ["a", "b", "p"]) "p"
      .contribution ⟨1, 0⟩ "p" contributed).value =
        (.ok .late, (((Agent.plain "a").run raised).run again).node) := by
  have hrising : (Agent.plain "a").Rising (raised ++ again) := by decide +kernel
  have hactive : ((Agent.plain "a").run raised).node.activeKey = ⟨3, 0⟩ := by decide +kernel
  have hkeys : (((Agent.plain "a").run raised).node.cache .contribution).keys = [⟨1, 0⟩] := by
    decide +kernel
  obtain ⟨hswept, _, hlate⟩ := Agent.window_of_rising (Agent.plain_blank "a") hrising
  rw [hactive] at hswept hlate
  have hbehind : RoundKey.Behind ⟨1, 0⟩ ⟨3, 0⟩ := by decide
  exact ⟨hrising, hactive, hkeys, hswept .contribution _ (RoundKey.lt_irrefl _),
    (hlate _ hbehind).1 _ _ _ _ _⟩

end TwoFaced

end Adjudication
