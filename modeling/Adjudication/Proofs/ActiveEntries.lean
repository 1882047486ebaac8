import Adjudication.Proofs.Retention

namespace Adjudication

namespace Cache

variable {c c' : Cache} {active active' k : RoundKey}

/-- The key will be spared when it is active: it is of a height that has been reached, and spared if it
is the active one, or it is the first key of the next height, and spared already. -/
def Spares (c : Cache) (active k : RoundKey) : Prop :=
  k.height ≤ active.height ∧ (k = active → c.Protected k) ∨
    k = ⟨active.height + 1, 0⟩ ∧ c.Protected k

theorem Spares.protected (h : c.Spares active active) : c.Protected active := by
  rcases h with ⟨_, hp⟩ | ⟨_, hp⟩
  · exact hp rfl
  · exact hp

theorem spares_of_inAdmission (hactive : c.active = some active) (h : k.InAdmission active) :
    c.Spares active k := by
  have hp : c.Protected k := ⟨active, hactive, h⟩
  rcases RoundKey.inAdmission_iff.mp h with ⟨hheight, _⟩ | ⟨hheight, hphase⟩
  · exact Or.inl ⟨Nat.le_of_eq hheight, fun _ => hp⟩
  · refine Or.inr ⟨?_, hp⟩
    rw [← hheight, ← hphase]

theorem Spares.of_active_eq (h : c.Spares active k) (hactive : c'.active = c.active) :
    c'.Spares active k := by
  unfold Spares Protected at *
  rwa [hactive]

/-- Being told an active key of the same height. -/
theorem Spares.tell (h : c.Spares active k) (hactive : c'.active = some active')
    (hheight : active'.height = active.height) : c'.Spares active' k := by
  rcases h with ⟨hle, _⟩ | ⟨rfl, _⟩
  · refine Or.inl ⟨hheight ▸ hle, ?_⟩
    rintro rfl
    exact ⟨k, hactive, Or.inl (Or.inl rfl)⟩
  · refine spares_of_inAdmission hactive (Or.inl (Or.inr (Or.inr ?_)))
    rw [hheight]

theorem Spares.raise (h : c.Spares active k) (hraise : active.height < active'.height) :
    c.Spares active' k := by
  rcases h with ⟨hle, _⟩ | ⟨rfl, hp⟩
  · refine Or.inl ⟨by omega, ?_⟩
    rintro rfl
    omega
  · exact Or.inl ⟨hraise, fun _ => hp⟩

end Cache

namespace Node

variable {m : Moment} {n n' n'' : Node}

/-- The digest cache spares what it spared, and what has come in since. -/
structure SparesSince (n n' : Node) : Prop where
  kept : ∀ {k}, n.caches.hashes.Spares n.activeKey k → n'.caches.hashes.Spares n'.activeKey k
  held : ∀ {k x e}, n'.caches.hashes.Holds k x e →
    n.caches.hashes.Holds k x e ∨ n'.caches.hashes.Spares n'.activeKey k

theorem SparesSince.of_eq (hcache : n'.caches.hashes = n.caches.hashes)
    (hkey : n'.activeKey = n.activeKey) : n.SparesSince n' where
  kept h := by rwa [hcache, hkey]
  held h := Or.inl (hcache ▸ h)

theorem SparesSince.trans (h : n.SparesSince n') (h' : n'.SparesSince n'') : n.SparesSince n'' where
  kept hk := h'.kept (h.kept hk)
  held hheld := by
    rcases h'.held hheld with hmid | hnew
    · exact (h.held hmid).imp_right h'.kept
    · exact Or.inr hnew

theorem SparesSince.spares (h : n.SparesSince n') {k : RoundKey} {x : Address} {e : SignedEntry}
    (hspares : ∀ {k x e}, n.caches.hashes.Holds k x e → n.caches.hashes.Spares n.activeKey k)
    (held : n'.caches.hashes.Holds k x e) : n'.caches.hashes.Spares n'.activeKey k := by
  rcases h.held held with hold | hnew
  · exact h.kept (hspares hold)
  · exact hnew

theorem SparesSince.tell (hactive : n'.caches.hashes.active = some n'.activeKey)
    (hheight : n'.activeKey.height = n.activeKey.height)
    (hheld : ∀ {k x e}, n'.caches.hashes.Holds k x e →
      n.caches.hashes.Holds k x e ∨ k.InAdmission n'.activeKey) : n.SparesSince n' where
  kept h := h.tell hactive hheight
  held h := (hheld h).imp_right (Cache.spares_of_inAdmission hactive)

/-- The position may be set to one with the same active key, or to one of a greater height. -/
theorem SparesSince.stand (n : Node) (position : Position)
    (h : position.activeKey = n.activeKey ∨ n.position.height < position.height) :
    n.SparesSince { n with position } := by
  rcases h with hsame | hraised
  · exact .of_eq rfl hsame
  · have hraise : n.activeKey.height < position.activeKey.height := Nat.succ_lt_succ hraised
    exact ⟨fun hk => hk.raise hraise, Or.inl⟩

theorem PeerStep.sparesSince (s : PeerStep m n n') : n.SparesSince n' := by
  cases s with
  | entry peer kind key address entry =>
    cases kind with
    | contribution => exact .of_eq rfl rfl
    | hash =>
      rcases Cache.consider_cases n.caches.hashes n.verifier m.members n.activeKey peer key address
        entry with hc | ⟨_, hc⟩ | ⟨hadmitted, _, hc⟩
      · exact .of_eq hc rfl
      · refine .tell (congrArg Cache.active hc) rfl fun {k x e} held => Or.inl ?_
        have hheld : (n.caches.hashes.setActive n.activeKey).Holds k x e := hc ▸ held
        exact hheld
      · refine .tell ((congrArg Cache.active hc).trans (Cache.value_insert_active _ _ _ _)) rfl ?_
        intro k x e held
        have hheld : ((n.caches.hashes.setActive n.activeKey).insert key address
          entry).value.2.Holds k x e := hc ▸ held
        rcases Cache.holds_of_insert hheld with hold | ⟨rfl, _, _⟩
        · exact Or.inl hold
        · exact Or.inr hadmitted
  | report peer phase finalized =>
    refine .tell rfl rfl fun {k x e} held => Or.inl ?_
    have kept : (n.caches.of .hash).Holds k x e := Caches.holds_of_prunePeer held
    exact kept
  | other => exact .of_eq rfl rfl

theorem PeerRun.sparesSince (s : PeerRun m n n') : n.SparesSince n' := by
  induction s with
  | refl => exact .of_eq rfl rfl
  | tail _ last ih => exact ih.trans last.sparesSince

end Node

namespace RoundRun

variable {m : Moment} {r r' : RoundRun} {n n' : Node} {kind : EntryKind} {key : RoundKey} {x : Address}

theorem Turn.sparesSince (t : Turn m r n r' n')
    (hkey : r.goal? ≠ none → n.caches.hashes.Spares n.activeKey r.key) : n.SparesSince n' := by
  cases t with
  | enter ready stage starts looked =>
    exact .tell rfl rfl fun held => Or.inl (held.of_sublist (Cache.sweep_rounds_sublist _ _))
  | look => exact .of_eq rfl rfl
  | commit goal fill count need waited stage was looked =>
    have hactive : (r.committed n).caches.hashes.active = n.caches.hashes.active :=
      (Cache.value_insert_active _ _ _ _).trans (Cache.remove_active _ _ _)
    refine ⟨fun hk => hk.of_active_eq hactive, ?_⟩
    intro k x e held
    rcases Cache.holds_of_insert held with hold | ⟨rfl, _, _⟩
    · exact Or.inl (Cache.holds_of_remove hold)
    · have hgoal : r.goal? ≠ none := by simp [goal?, was]
      exact Or.inr ((hkey hgoal).of_active_eq hactive)
  | conclude => exact .of_eq rfl (finalizePhase_activeKey _ _ _)
  | catchUp => exact .of_eq rfl rfl
  | giveUp => exact .of_eq rfl rfl
  | idle => exact .of_eq rfl rfl

/-- The key that a round works under is one that the digest cache spares. -/
theorem Turn.spares (t : Turn m r n r' n')
    (hkey : r.goal? ≠ none → n.caches.hashes.Spares n.activeKey r.key) (hgoal : r'.goal? ≠ none) :
    n'.caches.hashes.Spares n'.activeKey r'.key := by
  have hsince := t.sparesSince hkey
  obtain ⟨goal, hgoal⟩ := Option.ne_none_iff_exists'.mp hgoal
  rcases t.goal?_cases hgoal with ⟨hsame, hbefore⟩ | ⟨_, hnew, ready, rfl⟩ | ⟨_, hsame, _, gathered⟩
  · rw [hsame]
    exact hsince.kept (hkey (by simp [hbefore]))
  · rw [hnew]
    exact Cache.spares_of_inAdmission rfl (Or.inl (Or.inl rfl))
  · rw [hsame]
    exact hsince.kept (hkey (by simp [gathered.2.1]))

theorem Turn.contains_hash (t : Turn m r n r' n') (hp : n.caches.hashes.Protected key)
    (hkey : n'.activeKey = key) (h : n.caches.hashes.contains key x = true) :
    n'.caches.hashes.contains key x = true := by
  obtain ⟨e, he⟩ := Option.isSome_iff_exists.mp h
  cases t with
  | enter ready stage starts looked =>
    have held : (n.cache .hash).get? key x = some e := he
    have hkept := entered_get? (r := r) (n := { n with ready }) (Or.inl hkey.symm) held
    exact Option.isSome_of_eq_some hkept
  | look => exact h
  | commit => exact Option.isSome_of_eq_some (committed_get? hp he)
  | conclude => exact h
  | catchUp => exact h
  | giveUp => exact h
  | idle => exact h

end RoundRun

/-- Whether a move is a step of some round. -/
def Move.isRound : Move → Bool
  | .task (.round _) => true
  | _ => false

namespace Agent

variable {a : Agent} {m : Moment} {v : Move} {script : Script} {kind : EntryKind} {key : RoundKey}
  {x : Address}

/-- Only rounds begin phases: all other moves keep the active key, or raise the height. -/
def Onward : Agent → Script → Prop
  | _, [] => True
  | a, v :: script =>
    (v.2.isRound = true ∨ Steady a (a.act v.1 v.2)) ∧ Onward (a.act v.1 v.2) script

instance decidableOnward : ∀ (a : Agent) (script : Script), Decidable (a.Onward script)
  | _, [] => .isTrue trivial
  | a, v :: script =>
    have := decidableOnward (a.act v.1 v.2) script
    inferInstanceAs (Decidable (_ ∧ _))

/-- While the active key does not change no phase is begun. -/
theorem onward_of_through (h : Through (fun s => s.node.activeKey = key) a script) :
    a.Onward script := by
  induction script generalizing a with
  | nil => trivial
  | cons v script ih =>
    have hsame := h.2.first.trans h.1.symm
    exact ⟨Or.inr (Or.inl hsame), ih h.2⟩

theorem onward_cases (hv : v.isRound = true ∨ Steady a (a.act m v)) :
    (∃ id r, Turned m a (a.act m v) id r) ∨ Between m a (a.act m v) ∧ Steady a (a.act m v) := by
  rcases act_cases a m v with ⟨id, r, _, turned⟩ | between
  · exact Or.inl ⟨id, r, turned⟩
  · rcases hv with hround | hsteady
    · unfold Move.isRound at hround
      split at hround
      · next id =>
        cases hr : a.round? id with
        | none =>
          have hnode := congrArg Node.activeKey (act_of_round?_eq_none (m := m) hr)
          exact Or.inr ⟨between, Or.inl hnode⟩
        | some r => exact Or.inl ⟨id, r, turned_act hr⟩
      · cases hround
    · exact Or.inr ⟨between, hsteady⟩

/-- The digest cache spares all keys that it has entries under, and those that rounds work under. -/
structure Spared (a : Agent) : Prop where
  held : ∀ {k x e}, a.node.caches.hashes.Holds k x e →
    a.node.caches.hashes.Spares a.node.activeKey k
  rounds : ∀ id r, a.round? id = some r → r.goal? ≠ none →
    a.node.caches.hashes.Spares a.node.activeKey r.key

theorem Blank.spared (h : a.Blank) : a.Spared where
  held := by
    rw [h.caches]
    rintro k x e ⟨r, hr, _⟩
    cases hr
  rounds id r hr := by
    rw [round?, h.rounds] at hr
    cases hr

theorem Spared.act (h : a.Spared) (hv : v.isRound = true ∨ Steady a (a.act m v)) :
    (a.act m v).Spared := by
  rcases onward_cases hv with ⟨id, r, turned⟩ | ⟨between, hsteady⟩
  · have hturn := turned.turn
    have hkey := h.rounds id r turned.before
    have hsince := hturn.sparesSince hkey
    refine ⟨hsince.spares h.held, ?_⟩
    intro other r' hr' hgoal
    by_cases hid : other = id
    · subst other
      cases turned.after.symm.trans hr'
      exact hturn.spares hkey hgoal
    · exact hsince.kept (h.rounds other r' ((turned.others other hid).symm.trans hr') hgoal)
  · obtain ⟨n, position, hrun, hn⟩ := between.node
    have hposition : position.activeKey = n.activeKey ∨ n.position.height < position.height := by
      unfold Steady at hsteady
      rwa [hn, ← hrun.activeKey_eq, ← hrun.position_eq] at hsteady
    have hsince : a.node.SparesSince (a.act m v).node := by
      rw [hn]
      exact hrun.sparesSince.trans (.stand n position hposition)
    refine ⟨hsince.spares h.held, ?_⟩
    intro id r hr hgoal
    rcases between.rounds id with hsame | hnone | ⟨_, _, r₀, hr₀, hscheduled⟩
    · exact hsince.kept (h.rounds id r (hsame.symm.trans hr) hgoal)
    · cases hnone.symm.trans hr
    · cases hr₀.symm.trans hr
      obtain ⟨goal, hgoal⟩ := Option.ne_none_iff_exists'.mp hgoal
      exact absurd hscheduled (RoundRun.ne_scheduled_of_goal? hgoal)

theorem Spared.run (h : a.Spared) (honward : a.Onward script) : (a.run script).Spared := by
  induction script generalizing a with
  | nil => exact h
  | cons v script ih => exact ih (h.act honward.1) honward.2

/-- An address that has an entry under the active key keeps one while that key stays active. -/
theorem Spared.contains_act (h : a.Spared) (hk : a.node.activeKey = key)
    (hk' : (a.act m v).node.activeKey = key) (hc : (a.node.cache kind).contains key x = true) :
    ((a.act m v).node.cache kind).contains key x = true := by
  obtain ⟨e, he⟩ := Option.isSome_iff_exists.mp hc
  cases kind with
  | contribution => exact Option.isSome_of_eq_some (get?_contribution_act hk hk' he)
  | hash =>
    have hp : a.node.caches.hashes.Protected key := by
      have hspares := h.held (Cache.holds_of_get? he)
      rw [hk] at hspares
      exact hspares.protected
    rcases act_cases a m v with ⟨id, r, _, turned⟩ | between
    · exact turned.turn.contains_hash hp hk' hc
    · obtain ⟨n, position, hrun, hn⟩ := between.node
      rw [hn]
      exact Option.isSome_of_eq_some (hrun.get?_of_inRetention (Or.inl hk.symm) he)

end Agent

end Adjudication
