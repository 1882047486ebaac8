import Adjudication.Proofs.Authenticity
import Adjudication.Proofs.KeyInWork

namespace Adjudication

namespace RoundKey

variable {key first last between active : RoundKey}

theorem not_lt_trans {a b c : RoundKey} (hab : ¬ b < a) (hbc : ¬ c < b) : ¬ c < a := by
  simp only [lt_def] at *
  omega

theorem inAdmission_iff : key.InAdmission active ↔
    key.height = active.height ∧ active.phase ≤ key.phase + 1 ∧ key.phase ≤ active.phase + 1 ∨
      key.height = active.height + 1 ∧ key.phase = 0 := by
  obtain ⟨h, p⟩ := key
  obtain ⟨h', p'⟩ := active
  simp only [InAdmission, InRetention, RoundKey.mk.injEq]
  omega

/-- What two active keys admit, every key from the one to the other admits. -/
theorem InAdmission.of_between (hfirst : key.InAdmission first) (hlast : key.InAdmission last)
    (hle : ¬ between < first) (hge : ¬ last < between) : key.InAdmission between := by
  rw [inAdmission_iff] at *
  rw [lt_def] at hle hge
  rcases hfirst with ⟨hf, _, _⟩ | ⟨hf, _⟩
  · rcases hlast with ⟨hl, _, _⟩ | ⟨hl, _⟩
    · omega
    · omega
  · rcases hlast with ⟨hl, _, _⟩ | ⟨hl, _⟩
    · omega
    · omega

end RoundKey

namespace Cache

variable {c c' : Cache} {active active' key k s : RoundKey} {address x : Address}
  {entry e : SignedEntry}

/-- The cache was told of this active key, or of a later one. -/
def Reached (c : Cache) (key : RoundKey) : Prop := ∃ told, c.active = some told ∧ ¬ told < key

/-- The cache was told of no later key than the active one, and each key that it has entries under was
admitted under one that it has reached. -/
structure Told (c : Cache) (active : RoundKey) : Prop where
  notAhead : ∀ told, c.active = some told → ¬ active < told
  admitted : ∀ {k x e}, c.Holds k x e → ∃ s, c.Reached s ∧ k.InAdmission s

theorem Told.rise (h : c.Told active) (hrise : ¬ active' < active) : c.Told active' where
  notAhead told htold := RoundKey.not_lt_trans (h.notAhead told htold) hrise
  admitted := h.admitted

theorem Told.protected (h : c.Told active) (hheld : c.Holds k x e) (hk : k.InAdmission active) :
    c.Protected k := by
  obtain ⟨s, ⟨told, htold, hreached⟩, hs⟩ := h.admitted hheld
  exact ⟨told, htold, hs.of_between hk hreached (h.notAhead told htold)⟩

theorem Told.reached_of_tell (h : c.Told active) (hactive : c'.active = some active)
    (hs : c.Reached s) : c'.Reached s := by
  obtain ⟨told, htold, hreached⟩ := hs
  exact ⟨active, hactive, RoundKey.not_lt_trans hreached (h.notAhead told htold)⟩

/-- A cache that is told the active key, and has at most what is admitted then besides what it had. -/
theorem Told.tell (h : c.Told active) (hactive : c'.active = some active)
    (hheld : ∀ {k x e}, c'.Holds k x e → c.Holds k x e ∨ k.InAdmission active) : c'.Told active where
  notAhead told htold := by
    rw [hactive] at htold
    cases htold
    exact RoundKey.lt_irrefl active
  admitted hk := by
    rcases hheld hk with hold | hnew
    · obtain ⟨s, hreached, hs⟩ := h.admitted hold
      exact ⟨s, h.reached_of_tell hactive hreached, hs⟩
    · exact ⟨active, ⟨active, hactive, RoundKey.lt_irrefl active⟩, hnew⟩

theorem Told.insert (h : c.Told active) (hkey : c.Reached key) (address : Address)
    (entry : SignedEntry) : (c.insert key address entry).value.2.Told active where
  notAhead told htold := h.notAhead told (by rwa [value_insert_active] at htold)
  admitted hk := by
    have hreached : ∀ {s}, c.Reached s → (c.insert key address entry).value.2.Reached s := by
      rintro s ⟨told, htold, hle⟩
      exact ⟨told, by rwa [value_insert_active], hle⟩
    rcases holds_of_insert hk with hold | ⟨rfl, _, _⟩
    · obtain ⟨s, hs, hks⟩ := h.admitted hold
      exact ⟨s, hreached hs, hks⟩
    · exact ⟨_, hreached hkey, Or.inl (Or.inl rfl)⟩

theorem Told.remove (h : c.Told active) (key : RoundKey) (address : Address) :
    (c.remove key address).2.Told active where
  notAhead told htold := h.notAhead told (by rwa [remove_active] at htold)
  admitted hk := by
    obtain ⟨s, ⟨told, htold, hle⟩, hks⟩ := h.admitted (holds_of_remove hk)
    exact ⟨s, ⟨told, by rwa [remove_active], hle⟩, hks⟩

theorem consider_told (h : c.Told active) (verifier : Verifier) (members : Members) (peer : Address)
    (key : RoundKey) (address : Address) (entry : SignedEntry) :
    (c.consider verifier members active peer key address entry).value.2.Told active ∧
      ∀ s, c.Reached s → (c.consider verifier members active peer key address entry).value.2.Reached s := by
  rcases consider_cases c verifier members active peer key address entry with
    hc | ⟨_, hc⟩ | ⟨hadmitted, _, hc⟩
  · rw [hc]
    exact ⟨h, fun _ hs => hs⟩
  · rw [hc]
    exact ⟨h.tell rfl Or.inl, fun _ hs => h.reached_of_tell rfl hs⟩
  · have hactive : ((c.setActive active).insert key address entry).value.2.active = some active :=
      value_insert_active _ _ _ _
    rw [hc]
    refine ⟨h.tell hactive ?_, fun _ hs => h.reached_of_tell hactive hs⟩
    intro k x e held
    rcases holds_of_insert held with hold | ⟨rfl, _, _⟩
    · exact Or.inl hold
    · exact Or.inr hadmitted

end Cache

namespace Node

variable {m : Moment} {n n' : Node} {s : RoundKey}

/-- The digest cache knows of the active key what a cache has to know, and still knows what it knew. -/
def ToldSince (n n' : Node) : Prop :=
  n'.caches.hashes.Told n'.activeKey ∧
    ∀ s, n.caches.hashes.Reached s → n'.caches.hashes.Reached s

theorem ToldSince.of_eq (h : n.caches.hashes.Told n.activeKey)
    (hcache : n'.caches.hashes = n.caches.hashes) (hkey : n'.activeKey = n.activeKey) :
    n.ToldSince n' := by
  unfold ToldSince
  rw [hcache, hkey]
  exact ⟨h, fun _ hs => hs⟩

theorem PeerStep.told (s : PeerStep m n n') (h : n.caches.hashes.Told n.activeKey) :
    n.ToldSince n' := by
  cases s with
  | entry peer kind key address entry =>
    cases kind with
    | contribution => exact .of_eq h rfl rfl
    | hash => exact Cache.consider_told h n.verifier m.members peer key address entry
  | report peer phase finalized =>
    have hactive : (n.caches.prunePeer n.activeKey peer phase finalized).value.2.hashes.active =
        some n.activeKey := rfl
    refine ⟨h.tell hactive ?_, fun _ hs => h.reached_of_tell hactive hs⟩
    intro k x e held
    have kept : (n.caches.of .hash).Holds k x e := Caches.holds_of_prunePeer held
    exact Or.inl kept
  | other => exact .of_eq h rfl rfl

theorem PeerRun.told (s : PeerRun m n n') (h : n.caches.hashes.Told n.activeKey) :
    n.ToldSince n' := by
  induction s with
  | refl => exact ⟨h, fun _ hs => hs⟩
  | tail _ last ih =>
    obtain ⟨hmid, hfirst⟩ := ih
    obtain ⟨hlast, hthen⟩ := last.told hmid
    exact ⟨hlast, fun s hs => hthen s (hfirst s hs)⟩

end Node

namespace RoundRun

variable {m : Moment} {r r' : RoundRun} {n n' : Node} {goal : Goal}

theorem entered_told (h : n.caches.hashes.Told n.activeKey)
    (hrise : ¬ (r.entered n).activeKey < n.activeKey) : n.ToldSince (r.entered n) := by
  have hrisen := h.rise hrise
  have hactive : (r.entered n).caches.hashes.active = some (r.entered n).activeKey := rfl
  refine ⟨hrisen.tell hactive ?_, fun _ hs => hrisen.reached_of_tell hactive hs⟩
  intro k x e held
  exact Or.inl (held.of_sublist (Cache.sweep_rounds_sublist _ _))

theorem committed_told (h : n.caches.hashes.Told n.activeKey) (hkey : n.caches.hashes.Reached r.key) :
    n.ToldSince (r.committed n) := by
  have hactive : (r.committed n).caches.hashes.active = n.caches.hashes.active :=
    (Cache.value_insert_active _ _ _ _).trans (Cache.remove_active _ _ _)
  have hreached : ∀ {s}, n.caches.hashes.Reached s →
      (n.caches.hashes.remove r.key n.address).2.Reached s := by
    rintro s ⟨told, htold, hle⟩
    exact ⟨told, (Cache.remove_active _ _ _).trans htold, hle⟩
  refine ⟨(h.remove r.key n.address).insert (hreached hkey) n.address _, ?_⟩
  rintro s ⟨told, htold, hle⟩
  exact ⟨told, hactive.trans htold, hle⟩

theorem Turn.told (t : Turn m r n r' n') (h : n.caches.hashes.Told n.activeKey)
    (hkey : r.goal? ≠ none → n.caches.hashes.Reached r.key)
    (hrise : ¬ n'.activeKey < n.activeKey) : n.ToldSince n' := by
  cases t with
  | enter ready stage starts looked => exact entered_told (n := { n with ready }) h hrise
  | look => exact .of_eq h rfl rfl
  | commit goal fill count need waited stage was looked =>
    have hgoal : r.goal? ≠ none := by simp [goal?, was]
    exact committed_told h (hkey hgoal)
  | conclude => exact .of_eq h rfl (finalizePhase_activeKey _ _ _)
  | catchUp => exact .of_eq h rfl rfl
  | giveUp => exact .of_eq h rfl rfl
  | idle => exact .of_eq h rfl rfl

/-- A round that has a goal works under a key that the digest cache has reached. -/
theorem Turn.reached (t : Turn m r n r' n') (hsince : n.ToldSince n')
    (hkey : r.goal? ≠ none → n.caches.hashes.Reached r.key) (hgoal : r'.goal? = some goal) :
    n'.caches.hashes.Reached r'.key := by
  rcases t.goal?_cases hgoal with ⟨hsame, hbefore⟩ | ⟨_, hnew, ready, rfl⟩ | ⟨_, hsame, _, gathered⟩
  · rw [hsame]
    exact hsince.2 _ (hkey (by simp [hbefore]))
  · rw [hnew]
    exact ⟨_, rfl, RoundKey.lt_irrefl _⟩
  · rw [hsame]
    exact hsince.2 _ (hkey (by simp [gathered.2.1]))

end RoundRun

namespace Agent

variable {a : Agent} {m : Moment} {v : Move} {script rest : Script} {kind : EntryKind}
  {key : RoundKey} {x : Address} {e : SignedEntry}

/-- The active key never decreases. -/
def Rising : Agent → Script → Prop
  | _, [] => True
  | a, v :: script =>
    ¬ (a.act v.1 v.2).node.activeKey < a.node.activeKey ∧ Rising (a.act v.1 v.2) script

instance decidableRising : ∀ (a : Agent) (script : Script), Decidable (a.Rising script)
  | _, [] => .isTrue trivial
  | a, v :: script =>
    have := decidableRising (a.act v.1 v.2) script
    inferInstanceAs (Decidable (_ ∧ _))

theorem rising_append :
    a.Rising (script ++ rest) ↔ a.Rising script ∧ (a.run script).Rising rest := by
  induction script generalizing a with
  | nil => exact ⟨fun h => ⟨trivial, h⟩, fun h => h.2⟩
  | cons v script ih =>
    constructor
    · rintro ⟨hv, h⟩
      exact ⟨⟨hv, (ih.mp h).1⟩, (ih.mp h).2⟩
    · rintro ⟨⟨hv, h⟩, hrest⟩
      exact ⟨hv, ih.mpr ⟨h, hrest⟩⟩

structure Told (a : Agent) : Prop where
  hashes : a.node.caches.hashes.Told a.node.activeKey
  rounds : ∀ id r, a.round? id = some r → r.goal? ≠ none → a.node.caches.hashes.Reached r.key

theorem Blank.told (h : a.Blank) : a.Told where
  hashes := by
    rw [h.caches]
    refine ⟨?_, ?_⟩
    · intro told htold
      cases htold
    · rintro k x e ⟨r, hr, _⟩
      cases hr
  rounds id r hr := by
    rw [round?, h.rounds] at hr
    cases hr

theorem Told.act (h : a.Told) (hrise : ¬ (a.act m v).node.activeKey < a.node.activeKey) :
    (a.act m v).Told := by
  rcases act_cases a m v with ⟨id, r, _, turned⟩ | between
  · have hturn := turned.turn
    have hkey := h.rounds id r turned.before
    have hsince := hturn.told h.hashes hkey hrise
    refine ⟨hsince.1, ?_⟩
    intro other r' hr' hgoal'
    by_cases hid : other = id
    · subst other
      cases turned.after.symm.trans hr'
      obtain ⟨goal, hgoal⟩ := Option.ne_none_iff_exists'.mp hgoal'
      exact hturn.reached hsince hkey hgoal
    · have hbefore := (turned.others other hid).symm.trans hr'
      exact hsince.2 _ (h.rounds other r' hbefore hgoal')
  · obtain ⟨n, position, hrun, hn⟩ := between.node
    obtain ⟨hhashes, hreached⟩ := hrun.told h.hashes
    have hactive : n.activeKey = a.node.activeKey := hrun.activeKey_eq
    have hcache : (a.act m v).node.caches.hashes = n.caches.hashes := by rw [hn]
    refine ⟨?_, ?_⟩
    · rw [hcache]
      exact hhashes.rise (by rwa [hactive])
    · intro id r hr hgoal
      rw [hcache]
      rcases between.rounds id with hsame | hnone | ⟨_, _, r₀, hr₀, hscheduled⟩
      · exact hreached _ (h.rounds id r (hsame.symm.trans hr) hgoal)
      · cases hnone.symm.trans hr
      · cases hr₀.symm.trans hr
        obtain ⟨goal, hgoal⟩ := Option.ne_none_iff_exists'.mp hgoal
        exact absurd hscheduled (RoundRun.ne_scheduled_of_goal? hgoal)

theorem Told.run (h : a.Told) (hrising : a.Rising script) : (a.run script).Told := by
  induction script generalizing a with
  | nil => exact h
  | cons v script ih => exact ih (h.act hrising.1) hrising.2

end Agent

namespace RoundRun

variable {m : Moment} {r r' : RoundRun} {n n' : Node} {kind : EntryKind} {key : RoundKey}
  {x : Address} {e : SignedEntry}

/-- The entry by which a node stands by what its round has collected. -/
def standing (r : RoundRun) (n : Node) : SignedEntry :=
  ⟨(r.collected n).digest, n.signer.sign (hashMessage r.key (r.collected n).digest)⟩

theorem entered_get? (hr : key.InRetention (r.entered n).activeKey)
    (h : (n.cache kind).get? key x = some e) : ((r.entered n).cache kind).get? key x = some e := by
  cases kind with
  | contribution =>
    have hkept := Cache.get?_sweep_of_some hr.not_behind h
    exact Cache.get?_insert_of_some ⟨_, rfl, hr.inAdmission⟩ hkept
  | hash => exact Cache.get?_sweep_of_some hr.not_behind h

/-- A node that commits keeps what it has under a protected key, but for its own digest. -/
theorem committed_get? (hp : n.caches.hashes.Protected key)
    (h : n.caches.hashes.get? key x = some e) :
    (r.committed n).caches.hashes.get? key x =
      some (if r.key = key ∧ x = n.address then r.standing n else e) := by
  have hprotected : (n.caches.hashes.remove r.key n.address).2.Protected key := by
    obtain ⟨told, htold, hadmitted⟩ := hp
    exact ⟨told, (Cache.remove_active _ _ _).trans htold, hadmitted⟩
  split
  · next hown =>
    obtain ⟨rfl, rfl⟩ := hown
    have hlacks := (Cache.lacks_remove h).get?_eq_none
    have habsent : (n.caches.hashes.remove r.key n.address).2.contains r.key n.address = false := by
      simp [Cache.contains, hlacks]
    exact Cache.get?_insert_self hprotected habsent _
  · next hother =>
    have hne : key ≠ r.key ∨ x ≠ n.address := by
      by_cases hkey : key = r.key
      · exact Or.inr fun hx => hother ⟨hkey.symm, hx⟩
      · exact Or.inl hkey
    exact Cache.get?_insert_of_some hprotected (Cache.get?_remove_of_some hne h)

/-- A turn keeps what is under a retained key, but for the node's own digest when it commits. -/
theorem Turn.get?_of_inRetention (t : Turn m r n r' n') (htold : n.caches.hashes.Told n.activeKey)
    (hr : key.InRetention n.activeKey) (hr' : key.InRetention n'.activeKey)
    (h : (n.cache kind).get? key x = some e) :
    (n'.cache kind).get? key x = some e ∨
      kind = .hash ∧ x = n.address ∧ r.key = key ∧ n' = r.committed n ∧
        (n'.cache kind).get? key x = some (r.standing n) := by
  cases t with
  | enter ready stage starts looked => exact Or.inl (entered_get? (n := { n with ready }) hr' h)
  | look => exact Or.inl h
  | commit goal fill count need waited stage was looked =>
    cases kind with
    | contribution => exact Or.inl h
    | hash =>
      have hprotected := htold.protected (Cache.holds_of_get? h) hr.inAdmission
      have hget := committed_get? (r := r) hprotected h
      split at hget
      · next hown => exact Or.inr ⟨rfl, hown.2, hown.1, rfl, hget⟩
      · exact Or.inl hget
  | conclude => exact Or.inl h
  | catchUp => exact Or.inl h
  | giveUp => exact Or.inl h
  | idle => exact Or.inl h

end RoundRun

namespace Agent

variable {a : Agent} {m : Moment} {v : Move} {past script : Script} {kind : EntryKind}
  {key : RoundKey} {x : Address} {e : SignedEntry}

/-- The entry is the agent's own digest under a key, published by a step of the script. -/
def Republished (a : Agent) (script : Script) (key : RoundKey) (e : SignedEntry) : Prop :=
  ∃ before m id after r, script = before ++ (m, .task (.round id)) :: after ∧
    (a.run before).round? id = some r ∧ r.key = key ∧
    ((a.run before).act m (.task (.round id))).node = r.committed (a.run before).node ∧
    e = r.standing (a.run before).node

theorem Republished.snoc {w : Moment × Move} (h : a.Republished script key e) :
    a.Republished (script ++ [w]) key e := by
  obtain ⟨before, m, id, after, r, rfl, hr, hkey, hnode, he⟩ := h
  exact ⟨before, m, id, after ++ [w], r, by simp, hr, hkey, hnode, he⟩

theorem get?_act (htold : a.Told) (hr : key.InRetention a.node.activeKey)
    (hr' : key.InRetention (a.act m v).node.activeKey)
    (h : (a.node.cache kind).get? key x = some e) :
    ((a.act m v).node.cache kind).get? key x = some e ∨
      kind = .hash ∧ x = a.address ∧ ∃ id r, v = .task (.round id) ∧ a.round? id = some r ∧
        r.key = key ∧ (a.act m v).node = r.committed a.node ∧
        ((a.act m v).node.cache kind).get? key x = some (r.standing a.node) := by
  rcases act_cases a m v with ⟨id, r, hv, turned⟩ | between
  · have hturn := turned.turn
    rcases hturn.get?_of_inRetention htold.hashes hr hr' h with hkept | ⟨hkind, hx, hkey, hn, hnew⟩
    · exact Or.inl hkept
    · exact Or.inr ⟨hkind, hx, id, r, hv, turned.before, hkey, hn, hnew⟩
  · obtain ⟨n, position, hrun, hn⟩ := between.node
    rw [hn]
    exact Or.inl (hrun.get?_of_inRetention hr h)

/-- What is cached under a key stays for as long as the key is retained, while the active key does not
decrease; only the agent's own digest may be replaced, by one that it publishes under the key. -/
theorem retained_of_rising (ha : a.Blank) (hrising : a.Rising (past ++ script))
    (hcached : ((a.run past).node.cache kind).get? key x = some e)
    (hretained : Through (fun s => key.InRetention s.node.activeKey) (a.run past) script) :
    ∃ e', (((a.run past).run script).node.cache kind).get? key x = some e' ∧
      (e' = e ∨ kind = .hash ∧ x = a.address ∧ (a.run past).Republished script key e') := by
  obtain ⟨hpast, hscript⟩ := rising_append.mp hrising
  have htold := ha.told.run hpast
  induction script using List.reverseRecOn with
  | nil => exact ⟨e, hcached, Or.inl rfl⟩
  | append_singleton script w ih =>
    obtain ⟨m, v⟩ := w
    obtain ⟨hbefore, hlast⟩ := through_append hretained
    have hrisen := (rising_append.mp hscript).1
    have hpastScript := rising_append.mpr ⟨hpast, hrisen⟩
    obtain ⟨e', hget, horigin⟩ := ih hpastScript hbefore hrisen
    rw [run_snoc]
    rcases get?_act (htold.run hrisen) hlast.first hlast.2 hget with
      hkept | ⟨hkind, hx, id, r, rfl, hr, hkey, hnode, hnew⟩
    · refine ⟨e', hkept, ?_⟩
      exact horigin.imp_right fun ⟨hkind, hx, hrepublished⟩ => ⟨hkind, hx, hrepublished.snoc⟩
    · have haddress : ((a.run past).run script).address = a.address := by
        rw [← run_append]
        exact (sound_run ha.sound _).address
      refine ⟨_, hnew, Or.inr ⟨hkind, hx.trans haddress, ?_⟩⟩
      exact ⟨script, m, id, [], r, rfl, hr, hkey, hnode, rfl⟩

end Agent

namespace TwoFaced

def contributed : SignedEntry := (AddressedEntry.plain .contribution ⟨1, 0⟩ "p" "p").entry

/-- What the peer contributes is kept until the round is over. -/
theorem contribution_retained :
    (Agent.plain "a").Rising ((opening "a" ++ (round digestA).take 2) ++ (round digestA).drop 2) ∧
    (((Agent.plain "a").run (opening "a" ++ (round digestA).take 2)).node.cache .contribution).get?
      ⟨1, 0⟩ "p" = some contributed ∧
    Agent.Through (fun s => RoundKey.InRetention ⟨1, 0⟩ s.node.activeKey)
      ((Agent.plain "a").run (opening "a" ++ (round digestA).take 2)) ((round digestA).drop 2) ∧
    ((((Agent.plain "a").run (opening "a" ++ (round digestA).take 2)).run
      ((round digestA).drop 2)).node.cache .contribution).get? ⟨1, 0⟩ "p" = some contributed := by
  have hrising : (Agent.plain "a").Rising
      ((opening "a" ++ (round digestA).take 2) ++ (round digestA).drop 2) := by decide +kernel
  have hcached : (((Agent.plain "a").run (opening "a" ++ (round digestA).take 2)).node.cache
      .contribution).get? ⟨1, 0⟩ "p" = some contributed := by decide +kernel
  have hretained : Agent.Through (fun s => RoundKey.InRetention ⟨1, 0⟩ s.node.activeKey)
      ((Agent.plain "a").run (opening "a" ++ (round digestA).take 2)) ((round digestA).drop 2) := by
    decide +kernel
  obtain ⟨e', hget, heq | ⟨hkind, _⟩⟩ :=
    Agent.retained_of_rising (Agent.plain_blank "a") hrising hcached hretained
  · subst e'
    exact ⟨hrising, hcached, hretained, hget⟩
  · cases hkind

end TwoFaced

end Adjudication
