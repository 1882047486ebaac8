import Adjudication.Proofs.Accountability

namespace Adjudication

def SignedEntry.SignedBy (own : Signer) (e : SignedEntry) : Prop :=
  e.signature = own.sign (contributionMessage e.value)

/-- A round started by this move contributes what the signer has signed. -/
def Move.SelfSigned (own : Signer) : Move → Prop
  | .start plan signature _ => SignedEntry.SignedBy own ⟨plan.payload, signature⟩
  | _ => True

instance (own : Signer) (v : Move) : Decidable (v.SelfSigned own) := by
  unfold Move.SelfSigned SignedEntry.SignedBy
  split <;> infer_instance

namespace RoundRun

variable {m : Moment} {r r' : RoundRun} {n n' : Node}

theorem Turn.contribution_eq (t : Turn m r n r' n') : r'.contribution = r.contribution := by
  cases t <;> rfl

end RoundRun

namespace Agent

variable {a b : Agent} {m : Moment} {v : Move} {id : Nat} {r : RoundRun} {script : Script}
  {own : Signer}

theorem nextRound_step (a : Agent) (m : Moment) (task : Task) :
    (a.step m task).2.nextRound = a.nextRound := by
  have hown : (a.stepOwn m task).value.nextRound = a.nextRound := by
    unfold stepOwn
    cases task with
    | heartbeat loop => dsimp only; split <;> rfl
    | round id => dsimp only; split <;> rfl
    | fill id => rfl
    | request fill peer => rfl
    | probe loop => rfl
  have hcrash : ∀ b : Agent, (b.crash task).nextRound = b.nextRound := by
    intro b
    cases task <;> rfl
  unfold step
  dsimp only
  split
  · exact (hcrash _).trans hown
  · exact hown

theorem nextRound_connect (a : Agent) (peer : Address) :
    (a.after (a.connect peer)).nextRound = a.nextRound := by
  obtain ⟨table, heartbeats, loops, nextLoop, hconnect⟩ := a.exists_connect peer
  have hnext := congrArg Agent.nextRound hconnect
  exact hnext

/-- A move that schedules no round leaves no round that was not there. -/
theorem Between.round?_of_some (h : Between m a b) (hnext : b.nextRound = a.nextRound)
    (hr : b.round? id = some r) : a.round? id = some r := by
  rcases h.rounds id with hsame | hnone | ⟨hle, hlt, _⟩
  · exact hsame.symm.trans hr
  · cases hnone.symm.trans hr
  · omega

theorem round?_dropRound {round : Nat} (hr : (a.dropRound round).round? id = some r) :
    a.round? id = some r := by
  unfold round? dropRound at hr
  by_cases hid : id = round
  · subst id
    rw [Assoc.get?_erase_self] at hr
    cases hr
  · rw [Assoc.get?_erase_of_ne hid] at hr
    exact hr

/-- A scheduled round has its plan's payload as its contribution. -/
theorem round?_startRound {plan : PhasePlan} {signature : Signature} {startsAt : Nat}
    (hr : (a.startRound plan signature startsAt).2.round? id = some r) :
    a.round? id = some r ∨ r.contribution = ⟨plan.payload, signature⟩ := by
  unfold round? startRound at hr
  by_cases hid : id = a.nextRound
  · subst id
    rw [Assoc.get?_insert_self] at hr
    cases hr
    exact Or.inr rfl
  · rw [Assoc.get?_insert_of_ne hid] at hr
    exact Or.inl hr

/-- All rounds contribute what the signer has signed. -/
def Contributes (own : Signer) (a : Agent) : Prop :=
  ∀ id r, a.round? id = some r → r.contribution.SignedBy own

theorem contributes_driven (h : a.Contributes own) (hown : a.node.signer = own) (now : Nat)
    (d : Driver AppState) : (a.driven now d).Contributes own := by
  obtain ⟨b, appState, hdrives, hdriven⟩ := a.driven_drives now d
  rw [hdriven]
  intro id r hr
  cases hdrives with
  | stand position => exact h id r hr
  | drop round position => exact h id r (round?_dropRound hr)
  | start position plan =>
    rcases round?_startRound hr with hold | hnew
    · exact h id r hold
    · rw [hnew, ← hown]
      rfl

theorem contributes_act (h : a.Contributes own) (hown : a.node.signer = own) (m : Moment)
    (hv : v.SelfSigned own) : (a.act m v).Contributes own := by
  intro id r hr
  rcases act_cases a m v with ⟨other, r₀, _, turned⟩ | between
  · by_cases hid : id = other
    · subst id
      cases turned.after.symm.trans hr
      have hturn := r₀.step_turn a.toExchanger m
      rw [hturn.contribution_eq]
      exact h other r₀ turned.before
    · exact h id r ((turned.others id hid).symm.trans hr)
  · have hkept : (a.act m v).nextRound = a.nextRound → r.contribution.SignedBy own :=
      fun hnext => h id r (between.round?_of_some hnext hr)
    cases v with
    | drive d => exact contributes_driven h hown m.now d id r hr
    | start plan signature startsAt =>
      rcases round?_startRound hr with hold | hnew
      · exact h id r hold
      · rw [hnew]
        exact hv
    | task task => exact hkept (nextRound_step a m task)
    | connect peer => exact hkept (nextRound_connect a peer)
    | _ => exact hkept rfl

theorem contributes_run (h : a.Contributes own) (hsound : a.node.Sound own a.node.verifier)
    (hscript : ∀ v ∈ script, v.2.SelfSigned own) : (a.run script).Contributes own := by
  induction script using List.reverseRecOn with
  | nil => exact h
  | append_singleton script v ih =>
    have hbefore := ih fun w hw => hscript w (List.mem_append_left _ hw)
    have hlast := hscript v (List.mem_append_right _ (List.mem_singleton.mpr rfl))
    rw [run_snoc]
    exact contributes_act hbefore (sound_run hsound script).signer v.1 hlast

end Agent

namespace Node

variable {m : Moment} {n n' : Node} {kind : EntryKind} {k : RoundKey} {x : Address} {e : SignedEntry}

theorem PeerStep.cache_kind (s : PeerStep m n n') (kind : EntryKind) :
    (n'.cache kind).kind = (n.cache kind).kind := by
  cases s with
  | entry peer other key address entry =>
    by_cases hkind : kind = other
    · subst other
      rw [cache_consider_self]
      exact Cache.value_consider_kind _ _ _ _ _ _ _ _
    · rw [cache_consider_of_ne hkind]
  | report peer phase finalized =>
    have hpruned := Caches.prunePeer_of n.caches kind n.activeKey peer phase finalized
    calc ((n.caches.prunePeer n.activeKey peer phase finalized).value.2.of kind).kind
        = ((n.cache kind).removeAll peer _).2.kind := by rw [hpruned]; rfl
      _ = (n.cache kind).kind := Cache.removeAll_kind _ _ _
  | other => rfl

theorem PeerStep.verifier_eq (s : PeerStep m n n') : n'.verifier = n.verifier := by
  cases s <;> rfl

theorem PeerStep.signer_eq (s : PeerStep m n n') : n'.signer = n.signer := by
  cases s <;> rfl

/-- What a peer delivers comes into a cache only past the checks. -/
theorem PeerStep.holds_cases (s : PeerStep m n n') (h : (n'.cache kind).Holds k x e) :
    (n.cache kind).Holds k x e ∨
      entryOffence? n.verifier m.members (n.cache kind).kind k x e = none := by
  cases s with
  | entry peer other key address entry =>
    by_cases hkind : kind = other
    · subst other
      rw [cache_consider_self] at h
      rcases Cache.holds_of_consider h with hold | ⟨_, _, _, checked⟩
      · exact Or.inl hold
      · exact Or.inr checked
    · rw [cache_consider_of_ne hkind] at h
      exact Or.inl h
  | report peer phase finalized => exact Or.inl (Caches.holds_of_prunePeer h)
  | other => exact Or.inl h

theorem PeerRun.cache_kind (s : PeerRun m n n') (kind : EntryKind) :
    (n'.cache kind).kind = (n.cache kind).kind := by
  induction s with
  | refl => rfl
  | tail _ last ih => rw [last.cache_kind, ih]

theorem PeerRun.verifier_eq (s : PeerRun m n n') : n'.verifier = n.verifier := by
  induction s with
  | refl => rfl
  | tail _ last ih => rw [last.verifier_eq, ih]

theorem PeerRun.signer_eq (s : PeerRun m n n') : n'.signer = n.signer := by
  induction s with
  | refl => rfl
  | tail _ last ih => rw [last.signer_eq, ih]

theorem PeerRun.holds_cases (s : PeerRun m n n') (h : (n'.cache kind).Holds k x e) :
    (n.cache kind).Holds k x e ∨
      entryOffence? n.verifier m.members (n.cache kind).kind k x e = none := by
  induction s with
  | refl => exact Or.inl h
  | tail init last ih =>
    rcases last.holds_cases h with hold | checked
    · exact ih hold
    · rw [PeerRun.verifier_eq init, PeerRun.cache_kind init] at checked
      exact Or.inr checked

/-- An entry that a node makes for itself in a round of the given contribution. -/
def Makes (n : Node) (contribution : SignedEntry) (kind : EntryKind) (k : RoundKey)
    (e : SignedEntry) : Prop :=
  match kind with
  | .contribution => e = contribution
  | .hash => e.signature = n.signer.sign (hashMessage k e.value)

end Node

namespace RoundRun

variable {m : Moment} {r r' : RoundRun} {n n' : Node} {kind : EntryKind} {k : RoundKey}
  {x : Address} {e : SignedEntry}

theorem entered_holds_cases (h : ((r.entered n).cache kind).Holds k x e) :
    (n.cache kind).Holds k x e ∨ x = n.address ∧ n.Makes r.contribution kind k e := by
  cases kind with
  | contribution =>
    rcases Cache.holds_of_insert h with hold | ⟨_, rfl, rfl⟩
    · exact Or.inl (hold.of_sublist (Cache.sweep_rounds_sublist _ _))
    · exact Or.inr ⟨rfl, rfl⟩
  | hash => exact Or.inl (h.of_sublist (Cache.sweep_rounds_sublist _ _))

theorem committed_holds_cases (h : ((r.committed n).cache kind).Holds k x e) :
    (n.cache kind).Holds k x e ∨ x = n.address ∧ n.Makes r.contribution kind k e := by
  cases kind with
  | contribution => exact Or.inl h
  | hash =>
    rcases Cache.holds_of_insert h with hold | ⟨rfl, rfl, rfl⟩
    · exact Or.inl (Cache.holds_of_remove hold)
    · exact Or.inr ⟨rfl, rfl⟩

theorem Turn.holds_cases (t : Turn m r n r' n') (h : (n'.cache kind).Holds k x e) :
    (n.cache kind).Holds k x e ∨ x = n.address ∧ n.Makes r.contribution kind k e := by
  cases t with
  | enter ready stage starts looked => exact entered_holds_cases (n := { n with ready }) h
  | look => exact Or.inl h
  | commit => exact committed_holds_cases h
  | conclude => exact Or.inl h
  | catchUp => exact Or.inl h
  | giveUp => exact Or.inl h
  | idle => exact Or.inl h

theorem Turn.signer_eq (t : Turn m r n r' n') : n'.signer = n.signer := by
  cases t <;> rfl

theorem Turn.cache_kind (t : Turn m r n r' n') (kind : EntryKind) :
    (n'.cache kind).kind = (n.cache kind).kind := by
  cases t with
  | enter ready stage starts looked =>
    cases kind with
    | contribution => exact Cache.value_insert_kind _ _ _ _
    | hash => rfl
  | commit =>
    cases kind with
    | contribution => rfl
    | hash =>
      have hremoved := Cache.remove_kind n.caches.hashes r.key n.address
      exact (Cache.value_insert_kind _ _ _ _).trans hremoved
  | look => rfl
  | conclude => rfl
  | catchUp => rfl
  | giveUp => rfl
  | idle => rfl

end RoundRun

namespace Agent

variable {a : Agent} {m : Moment} {v : Move} {script : Script} {kind : EntryKind} {k : RoundKey}
  {x : Address} {e : SignedEntry}

theorem cache_kind_act (a : Agent) (m : Moment) (v : Move) (kind : EntryKind) :
    ((a.act m v).node.cache kind).kind = (a.node.cache kind).kind := by
  rcases act_cases a m v with ⟨_, r, _, turned⟩ | between
  · exact turned.turn.cache_kind kind
  · obtain ⟨n, position, hrun, hn⟩ := between.node
    rw [hn]
    exact hrun.cache_kind kind

theorem signer_act (a : Agent) (m : Moment) (v : Move) :
    (a.act m v).node.signer = a.node.signer := by
  rcases act_cases a m v with ⟨_, r, _, turned⟩ | between
  · exact turned.turn.signer_eq
  · obtain ⟨n, position, hrun, hn⟩ := between.node
    rw [hn]
    exact hrun.signer_eq

theorem address_act (a : Agent) (m : Moment) (v : Move) : (a.act m v).address = a.address :=
  congrArg Signer.address (a.signer_act m v)

theorem signer_run (a : Agent) (script : Script) : (a.run script).node.signer = a.node.signer := by
  induction script using List.reverseRecOn with
  | nil => rfl
  | append_singleton script v ih => rw [run_snoc, signer_act, ih]

theorem Blank.cache_kind (h : a.Blank) (script : Script) (kind : EntryKind) :
    ((a.run script).node.cache kind).kind = kind := by
  induction script using List.reverseRecOn with
  | nil =>
    rw [run_nil, Node.cache, h.caches]
    cases kind <;> rfl
  | append_singleton script v ih => rw [run_snoc, cache_kind_act, ih]

/-- An entry comes into a cache past the checks, or by a round of the node. -/
theorem holds_act (h : ((a.act m v).node.cache kind).Holds k x e) :
    (a.node.cache kind).Holds k x e ∨
    entryOffence? a.node.verifier m.members (a.node.cache kind).kind k x e = none ∨
    x = a.address ∧ ∃ id r, a.round? id = some r ∧ a.node.Makes r.contribution kind k e := by
  rcases act_cases a m v with ⟨id, r, _, turned⟩ | between
  · rcases turned.turn.holds_cases h with hold | ⟨hx, hmade⟩
    · exact Or.inl hold
    · exact Or.inr (Or.inr ⟨hx, id, r, turned.before, hmade⟩)
  · obtain ⟨n, position, hrun, hn⟩ := between.node
    rw [hn] at h
    rcases hrun.holds_cases h with hold | checked
    · exact Or.inl hold
    · exact Or.inr (Or.inl checked)

/-- Since a move of the script, the agent has held an entry that was a member's at that move and no
larger than entries may be. -/
def Received (a : Agent) (script : Script) (kind : EntryKind) (k : RoundKey) (x : Address)
    (e : SignedEntry) : Prop :=
  ∃ before m v after, script = before ++ (m, v) :: after ∧
    ¬ ((a.run before).node.cache kind).Holds k x e ∧
    Through (fun s => (s.node.cache kind).Holds k x e) ((a.run before).act m v) after ∧
    x ∈ m.members.addresses ∧ e.value.utf8ByteSize ≤ Limits.maxEntryBytes

theorem authentic_of_kind (ha : a.Blank) (hsign : a.node.signer.Accepted a.node.verifier)
    (hown : ∀ v ∈ script, v.2.SelfSigned a.node.signer)
    (h : ((a.run script).node.cache kind).Holds k x e) :
    a.node.verifier x (kind.message k e.value) e.signature = true ∧
      (x ≠ a.address → a.Received script kind k x e) := by
  have hstart : ¬ (a.node.cache kind).Holds k x e := by
    rintro ⟨r, hr, _⟩
    rw [Node.cache, ha.caches] at hr
    cases kind <;> exact absurd hr List.not_mem_nil
  obtain ⟨before, m, v, after, rfl, hbefore, hafter⟩ := exists_entry (P := fun s =>
    (s.node.cache kind).Holds k x e) hstart h
  have hsound := sound_run ha.sound before
  rcases holds_act hafter.first with hold | checked | ⟨hx, id, r, hr, hmade⟩
  · exact absurd hold hbefore
  · rw [ha.cache_kind, hsound.verifier] at checked
    obtain ⟨hsize, hmember, hsigned⟩ := Cache.entryOffence?_eq_none_iff.mp checked
    refine ⟨hsigned, fun _ => ⟨before, m, v, after, rfl, hbefore, hafter, ?_, hsize⟩⟩
    exact Members.mem_of_contains hmember
  · have haddress : x = a.node.signer.address := hx.trans hsound.address
    refine ⟨?_, fun hne => absurd haddress hne⟩
    have hcontributes : (a.run before).Contributes a.node.signer := by
      refine contributes_run ?_ ha.sound fun v hv => hown v (List.mem_append_left _ hv)
      intro id r hr
      rw [round?, ha.rounds] at hr
      cases hr
    have hsignature : e.signature = a.node.signer.sign (kind.message k e.value) := by
      cases kind with
      | contribution =>
        have he : e = r.contribution := hmade
        rw [he]
        exact hcontributes id r hr
      | hash =>
        rw [← hsound.signer]
        exact hmade
    rw [haddress, hsignature]
    exact hsign _

/-- Whatever peers send: what a cache holds verifies for its address, and what it holds for others it
has received while they were members. -/
theorem authentic_of_run (ha : a.Blank) (hsign : a.node.signer.Accepted a.node.verifier)
    (hown : ∀ v ∈ script, v.2.SelfSigned a.node.signer) :
    (∀ k x e, (a.run script).node.caches.contributions.Holds k x e →
      a.node.verifier x (contributionMessage e.value) e.signature = true ∧
        (x ≠ a.address → a.Received script .contribution k x e)) ∧
    ∀ k x e, (a.run script).node.caches.hashes.Holds k x e →
      a.node.verifier x (hashMessage k e.value) e.signature = true ∧
        (x ≠ a.address → a.Received script .hash k x e) := by
  constructor
  · intro k x e h
    have held : ((a.run script).node.cache .contribution).Holds k x e := h
    exact authentic_of_kind ha hsign hown held
  · intro k x e h
    have held : ((a.run script).node.cache .hash).Holds k x e := h
    exact authentic_of_kind ha hsign hown held

end Agent

namespace TwoFaced

def offered : SignedEntry := (AddressedEntry.plain .hash ⟨1, 0⟩ "p" digestA).entry

/-- The digest that the peer offers to one of the two nodes is the peer's and has been received. -/
theorem digest_authentic :
    (∀ v ∈ opening "a" ++ round digestA, v.2.SelfSigned (.plain "a")) ∧
    ((Agent.plain "a").run (opening "a" ++ round digestA)).node.caches.hashes.Holds ⟨1, 0⟩ "p"
      offered ∧
    plainVerifier "p" (hashMessage ⟨1, 0⟩ offered.value) offered.signature = true ∧
    (Agent.plain "a").Received (opening "a" ++ round digestA) .hash ⟨1, 0⟩ "p" offered := by
  have hown : ∀ v ∈ opening "a" ++ round digestA, v.2.SelfSigned (.plain "a") := by decide +kernel
  have hget : ((Agent.plain "a").run (opening "a" ++ round digestA)).node.caches.hashes.get? ⟨1, 0⟩
      "p" = some offered := by decide +kernel
  have held := Cache.holds_of_get? hget
  obtain ⟨_, hhashes⟩ :=
    Agent.authentic_of_run (Agent.plain_blank "a") (plain_accepted "a") hown
  obtain ⟨hverifies, hreceived⟩ := hhashes _ _ _ held
  have hverifier : (Agent.plain "a").node.verifier = plainVerifier := rfl
  rw [hverifier] at hverifies
  have hother : "p" ≠ (Agent.plain "a").address := by decide
  exact ⟨hown, held, hverifies, hreceived hother⟩

end TwoFaced

end Adjudication
