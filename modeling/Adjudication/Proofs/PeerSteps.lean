import Adjudication.Heartbeat
import Adjudication.Fill
import Adjudication.Proofs.CacheContents
import Mathlib.Logic.Relation

namespace Adjudication

namespace Node

inductive PeerStep (m : Moment) (n : Node) : Node → Prop
  | entry (peer : Address) (kind : EntryKind) (key : RoundKey) (address : Address)
      (entry : SignedEntry) :
      PeerStep m n (n.consider m.members peer kind key address entry).value.2
  | report (peer : Address) (phase : Nat) (finalized : Bool) :
      PeerStep m n
        { n with caches := (n.caches.prunePeer n.activeKey peer phase finalized).value.2 }
  | other (table : PeerTable) (replay : ReplayGuard) (entropy : Entropy) :
      PeerStep m n { n with table, replay, entropy }

abbrev PeerRun (m : Moment) : Node → Node → Prop := Relation.ReflTransGen (PeerStep m)

variable {m : Moment}

theorem cache_consider_self (n : Node) (members : Members) (peer : Address) (kind : EntryKind)
    (key : RoundKey) (address : Address) (entry : SignedEntry) :
    (n.consider members peer kind key address entry).value.2.cache kind =
      ((n.cache kind).consider n.verifier members n.activeKey peer key address entry).value.2 := by
  cases kind with
  | contribution => rfl
  | hash => rfl

theorem cache_consider_of_ne {kind other : EntryKind} (hne : other ≠ kind) (n : Node)
    (members : Members) (peer : Address) (key : RoundKey) (address : Address) (entry : SignedEntry) :
    (n.consider members peer kind key address entry).value.2.cache other = n.cache other := by
  cases kind with
  | contribution =>
    cases other with
    | contribution => exact absurd rfl hne
    | hash => rfl
  | hash =>
    cases other with
    | contribution => rfl
    | hash => exact absurd rfl hne

theorem observe_peerRun (n : Node) (peer : Address) (a : Attestation) :
    PeerRun m n (n.observe m peer a).value.2 := by
  unfold observe
  simp only [Noted.value_bind]
  split
  · exact .single (.other n.table _ n.entropy)
  · split
    · exact .single (.other _ _ n.entropy)
    · next row _ =>
      have recorded := PeerStep.other (m := m) (n := n)
        (n.table.record peer a.height a.phase a.finalized m.now)
        (n.replay.accept n.verifier a peer m.clock).value.2 n.entropy
      exact (Relation.ReflTransGen.single recorded).tail
        (.report row.address row.phase row.finalized)

theorem attest_peerRun (n : Node) (clock : Int) : PeerRun m n (n.attest clock).2 :=
  .single (.other n.table n.replay _)

theorem takeOffer_peerRun (n : Node) (caller : Address) (kind : EntryKind) (key : RoundKey)
    (offered : AddressedEntry) :
    PeerRun m n (n.takeOffer m.members caller kind key offered).value := by
  unfold takeOffer
  split
  · exact .refl
  · split
    · exact .refl
    · exact .single (.entry _ _ _ _ _)

theorem serve_peerRun (n : Node) (caller : Address) (kind : EntryKind) (request : GossipRequest) :
    PeerRun m n (n.serve m.members caller kind request).value.2 := by
  unfold serve
  split
  · exact .refl
  · split
    · simp only [Noted.value_bind, Noted.value_pure]
      split
      · exact .refl
      · exact .refl
    · next offered _ =>
      have taken := n.takeOffer_peerRun (m := m) caller kind request.key offered
      simp only [Noted.value_bind]
      split
      · exact taken
      · exact taken

theorem answerHeartbeat_peerRun (n : Node) (caller : Address) (a : Attestation) :
    PeerRun m n (n.answerHeartbeat m caller a).value.2 := by
  have observed := n.observe_peerRun (m := m) caller a
  simp only [answerHeartbeat, Noted.value_bind]
  split
  · exact observed
  · exact observed.trans (attest_peerRun _ m.clock)

theorem answer_peerRun (n : Node) (caller : Address) (request : Request) :
    PeerRun m n (n.answer m caller request).value.2 := by
  cases request with
  | roundState a => exact n.answerHeartbeat_peerRun caller a
  | gossip kind request => exact n.serve_peerRun caller kind request

end Node

open Node

variable {m : Moment}

theorem Fill.batch_peerRun (f : Fill) (n : Node) (now : Nat) : PeerRun m n (f.batch n now).value.2 := by
  unfold Fill.batch
  split
  split
  · exact .single (.other n.table n.replay _)
  · split
    · exact .single (.other n.table n.replay _)
    · exact .single (.other n.table n.replay _)

theorem Fill.absorb_peerRun (f : Fill) (n : Node) (peer : Address) (missing : List Address)
    (landing : Landing) : PeerRun m n (f.absorb n m.members peer missing landing).value.2 := by
  cases landing with
  | crashed => exact .refl
  | timedOut => exact .refl
  | answered reply =>
    unfold Fill.absorb
    dsimp only
    split
    · exact .refl
    · exact .refl
    · next found _ =>
      split
      · split
        · exact .refl
        · exact .refl
      · have considered : PeerRun m n
            (n.consider m.members peer f.kind f.key found.address found.entry).value.2 :=
          .single (.entry _ _ _ _ _)
        simp only [Noted.value_bind]
        split
        · exact considered
        · exact considered

theorem Fill.step_peerRun (f : Fill) (n : Node) : PeerRun m n (f.step n m).value.2 := by
  unfold Fill.step
  split
  · exact f.batch_peerRun n m.now
  · split
    · exact .refl
    · exact .refl
    · next peer landing _ =>
      have absorbed := f.absorb_peerRun (m := m) n peer ‹_› landing
      simp only [Noted.value_bind]
      split
      · exact absorbed.trans (Fill.batch_peerRun _ _ _)
      · exact absorbed
    · exact f.batch_peerRun n m.now
  · exact .refl

theorem Heartbeat.absorb_peerRun (b : Heartbeat) (n : Node) (landing : Landing) :
    PeerRun m n (b.absorb n m landing).value := by
  cases landing with
  | crashed => exact .refl
  | timedOut => exact .refl
  | answered reply =>
    unfold Heartbeat.absorb
    dsimp only
    split
    · exact .refl
    · next a _ =>
      have observed := n.observe_peerRun (m := m) b.peer a
      simp only [Noted.value_bind]
      split
      · exact observed
      · exact observed

theorem Heartbeat.wake_peerRun (b : Heartbeat) (n : Node) : PeerRun m n (b.wake n m).2 := by
  unfold Heartbeat.wake
  split
  · exact n.attest_peerRun m.clock
  · exact .refl

theorem Heartbeat.step_peerRun (b : Heartbeat) (n : Node) : PeerRun m n (b.step n m).value.2 := by
  unfold Heartbeat.step
  split
  · exact .refl
  · split
    · exact .refl
    · have absorbed := b.absorb_peerRun (m := m) n ‹_›
      rw [Noted.value_bind]
      split
      · exact absorbed
      · exact absorbed
    · exact .refl
    · exact b.wake_peerRun n
    · exact b.wake_peerRun n

end Adjudication
