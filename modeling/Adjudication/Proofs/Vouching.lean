import Adjudication.Proofs.Conduct

namespace Adjudication

/-- A digest entry whose signature verifies, or that the signer made. -/
def Vouched (own : Signer) (verify : Verifier) (key : RoundKey) (x : Address) (e : SignedEntry) :
    Prop :=
  verify x (hashMessage key e.value) e.signature = true ∨
    x = own.address ∧ e.signature = own.sign (hashMessage key e.value)

namespace Node

/-- The node of a signer, whose digests are all vouched for. -/
structure Sound (own : Signer) (verify : Verifier) (n : Node) : Prop where
  signer : n.signer = own
  verifier : n.verifier = verify
  kind : n.caches.hashes.kind = .hash
  vouched : ∀ {k x e}, n.caches.hashes.Holds k x e → Vouched own verify k x e

variable {own : Signer} {verify : Verifier} {m : Moment} {n n' : Node}

theorem Sound.address (h : n.Sound own verify) : n.address = own.address := by
  rw [Node.address, h.signer]

theorem Sound.consider (h : n.Sound own verify) (members : Members) (peer : Address)
    (kind : EntryKind) (key : RoundKey) (address : Address) (entry : SignedEntry) :
    (n.consider members peer kind key address entry).value.2.Sound own verify := by
  cases kind with
  | contribution =>
    exact ⟨h.signer, h.verifier, h.kind, h.vouched⟩
  | hash =>
    refine ⟨h.signer, h.verifier, ?_, ?_⟩
    · exact (Cache.value_consider_kind _ _ _ _ _ _ _ _).trans h.kind
    · intro k x e held
      rcases Cache.holds_of_consider held with held | ⟨_, _, _, checked⟩
      · exact h.vouched held
      · have hkind : (n.cache .hash).kind = .hash := h.kind
        rw [hkind, h.verifier] at checked
        obtain ⟨_, _, verifies⟩ := Cache.entryOffence?_eq_none_iff.mp checked
        exact Or.inl verifies

theorem Sound.prunePeer (h : n.Sound own verify) (peer : Address) (phase : Nat)
    (finalized : Bool) :
    Sound own verify
      { n with caches := (n.caches.prunePeer n.activeKey peer phase finalized).value.2 } where
  signer := h.signer
  verifier := h.verifier
  kind := (Cache.removeAll_kind _ _ _).trans h.kind
  vouched {k x e} held := by
    have kept : (n.caches.of .hash).Holds k x e := Caches.holds_of_prunePeer held
    exact h.vouched kept

theorem Sound.peerStep (h : n.Sound own verify) (s : PeerStep m n n') :
    n'.Sound own verify := by
  cases s with
  | entry peer kind key address entry => exact h.consider m.members peer kind key address entry
  | report peer phase finalized => exact h.prunePeer peer phase finalized
  | other table replay entropy => exact ⟨h.signer, h.verifier, h.kind, h.vouched⟩

theorem Sound.peerRun (h : n.Sound own verify) (s : PeerRun m n n') :
    n'.Sound own verify := by
  induction s with
  | refl => exact h
  | tail _ last ih => exact ih.peerStep last

theorem Sound.setPosition (h : n.Sound own verify) (position : Position) :
    Sound own verify { n with position } :=
  ⟨h.signer, h.verifier, h.kind, h.vouched⟩

theorem Sound.setReady (h : n.Sound own verify) (ready : Bool) :
    Sound own verify { n with ready } :=
  ⟨h.signer, h.verifier, h.kind, h.vouched⟩

end Node

open Node

variable {own : Signer} {verify : Verifier} {m : Moment} {n n' : Node} {r r' : RoundRun}

theorem Node.Sound.entered (h : n.Sound own verify) (r : RoundRun) :
    (r.entered n).Sound own verify where
  signer := h.signer
  verifier := h.verifier
  kind := h.kind
  vouched held := h.vouched (held.of_sublist (Cache.sweep_rounds_sublist _ _))

/-- A node that commits replaces its own digest by one that it signs. -/
theorem Node.Sound.committed (h : n.Sound own verify) (r : RoundRun) :
    (r.committed n).Sound own verify where
  signer := h.signer
  verifier := h.verifier
  kind := by
    have hkind : (n.caches.hashes.remove r.key n.address).2.kind = .hash :=
      (Cache.remove_kind _ _ _).trans h.kind
    exact (Cache.value_insert_kind _ _ _ _).trans hkind
  vouched held := by
    rcases Cache.holds_of_insert held with held | ⟨rfl, rfl, rfl⟩
    · exact h.vouched (Cache.holds_of_remove held)
    · exact Or.inr ⟨h.address, by rw [← h.signer]⟩

theorem Node.Sound.turn (h : n.Sound own verify) (t : RoundRun.Turn m r n r' n') :
    n'.Sound own verify := by
  cases t with
  | enter ready stage starts looked => exact (h.setReady ready).entered r
  | look => exact h
  | commit => exact h.committed r
  | conclude => exact h.setPosition _
  | catchUp => exact h
  | giveUp => exact h
  | idle => exact h

namespace Agent

variable {a : Agent}

theorem sound_act (h : a.node.Sound own verify) (m : Moment) (v : Move) :
    (a.act m v).node.Sound own verify := by
  rcases act_cases a m v with ⟨id, r, _, turned⟩ | between
  · rw [turned.node]
    exact h.turn (r.step_turn a.toExchanger m)
  · obtain ⟨n, position, hrun, hn⟩ := between.node
    rw [hn]
    exact (h.peerRun hrun).setPosition position

theorem sound_run (h : a.node.Sound own verify) (script : Script) :
    (a.run script).node.Sound own verify := by
  induction script generalizing a with
  | nil => exact h
  | cons v script ih => exact ih (sound_act h v.1 v.2)

theorem Blank.sound (h : a.Blank) : a.node.Sound a.node.signer a.node.verifier where
  signer := rfl
  verifier := rfl
  kind := by rw [h.caches]; rfl
  vouched held := by
    obtain ⟨r, hr, _⟩ := held
    rw [h.caches] at hr
    exact absurd hr List.not_mem_nil

end Agent

end Adjudication
