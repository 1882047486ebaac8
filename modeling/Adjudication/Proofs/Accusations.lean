import Adjudication.Proofs.Conduct
import Adjudication.Proofs.FillTurns

namespace Adjudication

section Notices

variable {α β : Type}

@[simp] theorem accusations_nil : accusations [] = [] := rfl

@[simp] theorem accusations_append (xs ys : List Notice) :
    accusations (xs ++ ys) = accusations xs ++ accusations ys :=
  List.filterMap_append

@[simp] theorem accusations_log (e : Event) : accusations (log e).notices = [] := rfl

@[simp] theorem accusations_logIf (c : Bool) (e : Event) : accusations (logIf c e).notices = [] := by
  cases c <;> rfl

@[simp] theorem accusations_accuse (peer : Address) (offence : Offence) :
    accusations (accuse peer offence).notices = [(peer, offence)] := rfl

end Notices

namespace Cache

variable (c : Cache)

@[simp] theorem accusations_enforceCapacity : accusations c.enforceCapacity.notices = [] := by
  simp [enforceCapacity]

@[simp] theorem accusations_insert (key : RoundKey) (address : Address) (entry : SignedEntry) :
    accusations (c.insert key address entry).notices = [] := by
  unfold insert
  split
  · rfl
  · dsimp only
    split <;> simp

/-- An entry outside the admission window is nobody's fault. -/
theorem accusations_consider (verifier : Verifier) (members : Members) (active : RoundKey)
    (peer : Address) (key : RoundKey) (address : Address) (entry : SignedEntry) :
    accusations (c.consider verifier members active peer key address entry).notices =
      if key.InAdmission active then
        ((entryOffence? verifier members c.kind key address entry).map (peer, ·)).toList
      else [] := by
  unfold consider
  split
  next hb =>
    have hout : ¬ key.InAdmission active := fun hin => hin.not_behind hb
    rw [if_neg hout]
    rfl
  next =>
    split
    next => rfl
    next hin =>
      rw [if_pos (not_not.mp hin)]
      dsimp only [setActive]
      cases entryOffence? verifier members c.kind key address entry <;> simp

end Cache

theorem Caches.accusations_prunePeer (c : Caches) (active : RoundKey) (address : Address)
    (phase : Nat) (finalized : Bool) :
    accusations (c.prunePeer active address phase finalized).notices = [] := by
  simp [prunePeer]

theorem ReplayGuard.accusations_accept (g : ReplayGuard) (verifier : Verifier) (a : Attestation)
    (expected : Address) (now : Int) :
    accusations (g.accept verifier a expected now).notices = [] := by
  have hforget : ∀ g : ReplayGuard, accusations g.forget.notices = [] := by
    intro g
    unfold forget
    split <;> simp
  unfold accept
  dsimp only
  split
  next => rfl
  next =>
    split
    next => rfl
    next =>
      split
      next => rfl
      next => split <;> simp [hforget]

namespace Node

variable (n : Node)

theorem accusations_consider (members : Members) (peer : Address) (kind : EntryKind) (key : RoundKey)
    (address : Address) (entry : SignedEntry) :
    accusations (n.consider members peer kind key address entry).notices =
      if key.InAdmission n.activeKey then
        ((entryOffence? n.verifier members (n.cache kind).kind key address entry).map
          (peer, ·)).toList
      else [] := by
  unfold consider
  simp only [Noted.notices_bind, Noted.notices_pure, List.append_nil]
  exact (n.cache kind).accusations_consider _ _ _ _ _ _ _

/-- Only what the guard refuses is held against the peer, and that once. -/
theorem accusations_observe (m : Moment) (peer : Address) (a : Attestation) :
    accusations (n.observe m peer a).notices =
      match (n.replay.accept n.verifier a peer m.clock).value.1 with
      | .error e => [(peer, .badAttestation e.message)]
      | .ok _ => [] := by
  have haccept := n.replay.accusations_accept n.verifier a peer m.clock
  unfold observe
  simp only [Noted.notices_bind, accusations_append, haccept, List.nil_append]
  cases (n.replay.accept n.verifier a peer m.clock).value.1 with
  | error e => rfl
  | ok _ =>
    dsimp only
    split
    next => rfl
    next row _ => simp [Caches.accusations_prunePeer]

theorem accusations_answerHeartbeat (m : Moment) (caller : Address) (a : Attestation) :
    accusations (n.answerHeartbeat m caller a).notices = accusations (n.observe m caller a).notices := by
  unfold answerHeartbeat
  simp only [Noted.notices_bind, accusations_append]
  split <;> simp

/-- An offer is held against the caller if it is another's, or if it does not pass the check. -/
theorem accusations_takeOffer (members : Members) (caller : Address) (kind : EntryKind)
    (key : RoundKey) (offered : AddressedEntry) :
    accusations (n.takeOffer members caller kind key offered).notices =
      if offered.address ≠ caller then
        [(caller, .malformed s!"offered entry for {offered.address}")]
      else if (n.table.get? caller).any (fun row => row.MayPublish key) then
        accusations (n.consider members caller kind key offered.address offered.entry).notices
      else [] := by
  unfold takeOffer
  split
  next => simp
  next =>
    cases (n.table.get? caller).any fun row => row.MayPublish key <;> simp

theorem accusations_serve (members : Members) (caller : Address) (kind : EntryKind)
    (request : GossipRequest) :
    accusations (n.serve members caller kind request).notices =
      if Limits.maxMissing < request.missing.length then
        [(caller, .malformed s!"{request.missing.length} missing addresses, limit is {Limits.maxMissing}")]
      else
        match request.offered with
        | none => []
        | some offered => accusations (n.takeOffer members caller kind request.key offered).notices := by
  unfold serve
  split
  next => rfl
  next =>
    cases request.offered <;>
      simp only [Noted.notices_bind, accusations_append] <;>
      split <;> simp

theorem accusations_answer_gossip (m : Moment) (caller : Address) (kind : EntryKind)
    (request : GossipRequest) :
    accusations (n.answer m caller (.gossip kind request)).notices =
      accusations (n.serve m.members caller kind request).notices := by
  simp [answer]

theorem accusations_answer_roundState (m : Moment) (caller : Address) (a : Attestation) :
    accusations (n.answer m caller (.roundState a)).notices =
      accusations (n.observe m caller a).notices := by
  simp [answer, accusations_answerHeartbeat]

end Node

namespace Fill

variable (f : Fill) (n : Node)

theorem accusations_batch (now : Nat) : accusations (f.batch n now).notices = [] := by
  unfold batch
  split
  dsimp only
  split
  next => simp [finish]
  next =>
    split
    next => simp [finish]
    next => rfl

/-- Of the answers to a fill only those with an entry can be held against the peer: an entry that is
not missing and not there, or one that does not pass the check. -/
theorem accusations_absorb (members : Members) (peer : Address) (missing : List Address)
    (landing : Landing) :
    accusations (f.absorb n members peer missing landing).notices =
      match landing with
      | .answered (.ok (.gossip (.entry found))) =>
        if found.address ∈ missing then
          accusations (n.consider members peer f.kind f.key found.address found.entry).notices
        else if (n.cache f.kind).contains f.key found.address then []
        else [(peer, .unsolicited found.address)]
      | _ => [] := by
  rcases landing with (e | reply) | _ | _
  · rfl
  · cases reply with
    | roundState a => rfl
    | failure reason => rfl
    | gossip reply =>
      cases reply with
      | state summary => rfl
      | entry found =>
        have hreply : ((Except.ok (.gossip (.entry found)) : Except RpcError Response) >>=
            Response.gossipReply) = .ok (.entry found) := rfl
        unfold absorb
        simp only [hreply]
        by_cases hmem : found.address ∈ missing
        · rw [if_neg (not_not.mpr hmem), if_pos hmem]
          simp only [Noted.notices_bind, accusations_append]
          split <;> simp
        · rw [if_pos hmem, if_neg hmem]
          split <;> simp
  · rfl
  · rfl

/-- Whoever is accused for an answer has given it, and an entry with it. -/
theorem mem_accusations_absorb {members : Members} {peer accused : Address} {missing : List Address}
    {landing : Landing} {offence : Offence}
    (h : (accused, offence) ∈ accusations (f.absorb n members peer missing landing).notices) :
    accused = peer ∧ ∃ found, landing = .answered (.ok (.gossip (.entry found))) ∧
      (found.address ∈ missing ∧ entryOffence? n.verifier members (n.cache f.kind).kind f.key
          found.address found.entry = some offence ∨
        found.address ∉ missing ∧ (n.cache f.kind).contains f.key found.address = false) := by
  rw [accusations_absorb] at h
  split at h
  next found =>
    split at h
    next hmem =>
      rw [Node.accusations_consider] at h
      split at h
      next =>
        obtain ⟨offence', hoffence, heq⟩ := Option.map_eq_some_iff.mp (Option.mem_toList.mp h)
        cases heq
        exact ⟨rfl, found, rfl, Or.inl ⟨hmem, hoffence⟩⟩
      next => cases h
    next hmem =>
      split at h
      next => cases h
      next hlacks =>
        cases List.mem_singleton.mp h
        exact ⟨rfl, found, rfl, Or.inr ⟨hmem, by simpa using hlacks⟩⟩
  next => cases h

/-- A step accuses only for an answer that it takes up while it waits. -/
theorem mem_accusations_step {m : Moment} {accused : Address} {offence : Offence}
    (h : (accused, offence) ∈ accusations (f.step n m).notices) :
    ∃ missing wake landing, f.stage = .waiting missing wake ∧
      (⟨accused, .landed landing⟩ : Flight) ∈ f.flights ∧
      (accused, offence) ∈ accusations (f.absorb n m.members accused missing landing).notices := by
  have quiet : ∀ (c : Bool) (f : Fill) (n : Node),
      accusations (if c then f.batch n m.now else pure (f, n)).notices = [] := by
    intro c f n
    cases c with
    | true => exact f.accusations_batch n m.now
    | false => rfl
  unfold step at h
  split at h
  next => simp [accusations_batch] at h
  next missing wake hstage =>
    split at h
    next => cases h
    next => simp [finish] at h
    next peer landing hbranch =>
      have habsorbed : (accused, offence) ∈
          accusations (f.absorb n m.members peer missing landing).notices := by
        rw [Noted.notices_bind, accusations_append] at h
        refine (List.mem_append.mp h).resolve_right fun hrest => ?_
        have hnone : (accused, offence) ∈ ([] : List (Address × Offence)) :=
          (congrArg ((accused, offence) ∈ ·) (quiet _ _ _)).mp hrest
        cases hnone
      obtain ⟨rfl, _⟩ := f.mem_accusations_absorb n habsorbed
      exact ⟨missing, wake, landing, hstage, permits_of_branch? hbranch, habsorbed⟩
    next => simp [accusations_batch] at h
  next => cases h

end Fill

/-- A reporter that keeps accusations keeps all of them, in order. -/
theorem Reporter.hear_recording (ns : List Notice) :
    (hear .recording ns).reports = accusations ns := by
  induction ns with
  | nil => rfl
  | cons notice ns ih =>
    cases notice with
    | event e => exact ih
    | accusation peer offence => exact congrArg ((peer, offence) :: ·) ih

namespace Agent

variable {a : Agent}

/-- What a move makes an agent notice. -/
def notices (a : Agent) (m : Moment) : Move → List Notice
  | .task task => (a.stepOwn m task).notices
  | .drive d => (d.step a a.appState m.now).notices
  | .call caller request => (a.node.answer m caller request).notices
  | .connect peer => (a.connect peer).notices
  | .disconnect peer => (a.disconnect peer).notices
  | .shutDown => a.shutDown.notices
  | _ => []

end Agent

end Adjudication
