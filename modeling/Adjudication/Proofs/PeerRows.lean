import Adjudication.Proofs.Accusations
import Adjudication.Proofs.OwnContributions
import Adjudication.Proofs.ReplayMemory

namespace Adjudication

namespace Node

variable {n : Node} {m : Moment} {peer : Address} {a : Attestation}

theorem observe_of_refused (h : n.replay.admits n.verifier ⟨a, peer, m.clock⟩ = false) :
    ∃ e, (n.replay.accept n.verifier a peer m.clock).value.1 = .error e ∧
      (n.observe m peer a).value.2 =
        { n with replay := n.replay.next n.verifier ⟨a, peer, m.clock⟩ } ∧
      accusations (n.observe m peer a).notices = [(peer, .badAttestation e.message)] := by
  have haccused := n.accusations_observe m peer a
  cases hresult : (n.replay.accept n.verifier a peer m.clock).value.1 with
  | ok _ => simp [ReplayGuard.admits, hresult, Except.toBool] at h
  | error e =>
    rw [hresult] at haccused
    refine ⟨e, rfl, ?_, haccused⟩
    unfold observe
    simp only [Noted.value_bind, hresult]
    rfl

theorem observe_of_admitted (h : n.replay.admits n.verifier ⟨a, peer, m.clock⟩ = true) :
    (n.observe m peer a).value.2.table = n.table.record peer a.height a.phase a.finalized m.now := by
  cases hresult : (n.replay.accept n.verifier a peer m.clock).value.1 with
  | error e => simp [ReplayGuard.admits, hresult, Except.toBool] at h
  | ok _ =>
    unfold observe
    simp only [Noted.value_bind, hresult]
    split <;> rfl

theorem observe_replay (n : Node) (m : Moment) (peer : Address) (a : Attestation) :
    (n.observe m peer a).value.2.replay = n.replay.next n.verifier ⟨a, peer, m.clock⟩ := by
  unfold observe
  simp only [Noted.value_bind]
  split
  next => rfl
  next => split <;> rfl

theorem answerHeartbeat_node (n : Node) (m : Moment) (caller : Address) (a : Attestation) :
    ∃ entropy, (n.answerHeartbeat m caller a).value.2 =
      { (n.observe m caller a).value.2 with entropy } := by
  unfold answerHeartbeat
  simp only [Noted.value_bind]
  split
  next => exact ⟨_, rfl⟩
  next => exact ⟨_, rfl⟩

end Node

/-- The row of a peer whose attestation was recorded. -/
def PeerRow.showing (x : Address) (att : Attestation) (now : Nat) : PeerRow :=
  ⟨x, att.height, att.phase, att.finalized, some now⟩

theorem PeerTable.get?_record_of_ne {table : PeerTable} {x peer : Address} (h : x ≠ peer)
    (height phase : Nat) (finalized : Bool) (now : Nat) :
    (table.record peer height phase finalized now).get? x = table.get? x := by
  unfold record
  split
  next => rfl
  next row hrow =>
    have hne : x ≠ row.address := by rwa [address_of_get? hrow]
    exact get?_file_of_ne table _ hne

theorem PeerTable.get?_record_self {table : PeerTable} {peer : Address} {row : PeerRow}
    (h : table.get? peer = some row) (height phase : Nat) (finalized : Bool) (now : Nat) :
    (table.record peer height phase finalized now).get? peer =
      some ⟨peer, height, phase, finalized, some now⟩ := by
  unfold record
  rw [h]
  obtain rfl := address_of_get? h
  exact get?_file_self _ _

namespace Heartbeat

/-- The attestation that a loop takes up. -/
def landed? (b : Heartbeat) (m : Moment) : Option Attestation :=
  if b.Ends m then none
  else
    match b.stage with
    | .probing (.landed (.answered reply)) => (reply >>= Response.attestation).toOption
    | _ => none

variable {b : Heartbeat} {m : Moment} {n : Node}

theorem absorb_attestation {reply : Except RpcError Response} {a : Attestation}
    (h : reply >>= Response.attestation = .ok a) :
    (b.absorb n m (.answered reply)).value = (n.observe m b.peer a).value.2 ∧
      accusations (b.absorb n m (.answered reply)).notices =
        accusations (n.observe m b.peer a).notices := by
  unfold absorb
  simp only [h, Noted.value_bind, Noted.notices_bind, accusations_append]
  constructor
  · split <;> rfl
  · split <;> simp

theorem step_of_landed {a : Attestation} (h : b.landed? m = some a) :
    (b.step n m).value.2 = (n.observe m b.peer a).value.2 ∧
      accusations (b.step n m).notices = accusations (n.observe m b.peer a).notices := by
  unfold landed? at h
  split at h
  next => cases h
  next hrunning =>
    split at h
    next reply hstage =>
      cases hreply : reply >>= Response.attestation with
      | error e => simp [hreply, Except.toOption] at h
      | ok att =>
        rw [hreply] at h
        cases h
        have habsorbed := absorb_attestation (b := b) (m := m) (n := n) hreply
        unfold step
        rw [if_neg hrunning, hstage]
        simp only [Noted.value_bind, Noted.notices_bind, accusations_append]
        split
        next => exact ⟨habsorbed.1, by simp [finish, habsorbed.2]⟩
        next => exact ⟨habsorbed.1, by simp [habsorbed.2]⟩
    next => cases h

theorem wake_node (b : Heartbeat) (n : Node) (m : Moment) :
    ∃ entropy, (b.wake n m).2 = { n with entropy } := by
  unfold wake
  split
  · exact ⟨_, rfl⟩
  · exact ⟨n.entropy, rfl⟩

theorem absorb_of_not_attestation {landing : Landing}
    (h : ∀ reply, landing = .answered reply → (reply >>= Response.attestation).toOption = none) :
    (b.absorb n m landing).value = n := by
  cases landing with
  | crashed => rfl
  | timedOut => rfl
  | answered reply =>
    have hreply := h reply rfl
    unfold absorb
    dsimp only
    split
    next => rfl
    next a ha => simp [ha, Except.toOption] at hreply

/-- A loop without an attestation in hand draws a nonce at most. -/
theorem step_of_not_landed (h : b.landed? m = none) :
    ∃ entropy, (b.step n m).value.2 = { n with entropy } := by
  unfold landed? at h
  unfold step
  split at h
  next hends =>
    rw [if_pos hends]
    exact ⟨n.entropy, rfl⟩
  next hrunning =>
    rw [if_neg hrunning]
    split
    next => exact ⟨n.entropy, rfl⟩
    next landing _ hstage =>
      have habsorbed : (b.absorb n m landing).value = n := by
        refine absorb_of_not_attestation ?_
        rintro reply rfl
        simpa [hstage] using h
      refine ⟨n.entropy, ?_⟩
      rw [Noted.value_bind, habsorbed]
      split <;> rfl
    next => exact ⟨n.entropy, rfl⟩
    next => exact b.wake_node n m
    next => exact b.wake_node n m

end Heartbeat

/-- What a node knows of its peers' reports stays: the rows, and the nonces that the guard has seen. -/
structure Node.SameReports (n n' : Node) : Prop where
  table : n'.table = n.table
  replay : n'.replay = n.replay

theorem Node.serve_sameReports (n : Node) (members : Members) (caller : Address) (kind : EntryKind)
    (request : GossipRequest) :
    n.SameReports (n.serve members caller kind request).value.2 := by
  refine ⟨(n.serve_keeps members ⟨caller, kind, request⟩).table, ?_⟩
  have hserved := n.serve_eq members ⟨caller, kind, request⟩
  dsimp only at hserved
  rw [hserved]
  split
  · split
    · rfl
    · next offered _ =>
      have htaken := n.takeOffer_eq members ⟨caller, kind, request⟩ offered
      dsimp only at htaken
      rw [htaken]
      split <;> rfl
  · rfl

theorem Fill.absorb_sameReports (f : Fill) (n : Node) (members : Members) (peer : Address)
    (missing : List Address) (landing : Landing) :
    n.SameReports (f.absorb n members peer missing landing).value.2 := by
  refine ⟨f.absorb_table n members peer missing landing, ?_⟩
  cases landing with
  | crashed => rfl
  | timedOut => rfl
  | answered reply =>
    unfold absorb
    dsimp only
    split
    next => rfl
    next => rfl
    next found _ =>
      split
      next => split <;> rfl
      next =>
        simp only [Noted.value_bind]
        split <;> rfl

theorem Fill.Batched.sameReports {now : Nat} {f f' : Fill} {n n' : Node}
    (h : Batched now f n f' n') : n.SameReports n' := by
  cases h <;> exact ⟨rfl, rfl⟩

theorem Fill.step_sameReports (f : Fill) (n : Node) (m : Moment) :
    n.SameReports (f.step n m).value.2 := by
  obtain ⟨f₁, n₁, htakes, hresult⟩ := f.step_cases n m
  have htaken : n.SameReports n₁ := by
    cases htakes with
    | nothing => exact ⟨rfl, rfl⟩
    | stop => exact ⟨rfl, rfl⟩
    | answer missing wake peer landing => exact f.absorb_sameReports n m.members peer missing landing
  rcases hresult with hresult | hresult
  · rw [hresult]
    exact htaken
  · rw [hresult]
    have hbatched := (f₁.batch_batched n₁ m.now).sameReports
    exact ⟨hbatched.table.trans htaken.table, hbatched.replay.trans htaken.replay⟩

theorem RoundRun.Turn.sameReports {m : Moment} {r r' : RoundRun} {n n' : Node}
    (t : Turn m r n r' n') : n.SameReports n' := by
  cases t <;> exact ⟨rfl, rfl⟩

/-- Moves of gossip: requests that peers send, and the fills with what becomes of their requests. -/
def Move.IsGossip : Move → Prop
  | .call _ (.gossip ..) | .task (.fill _) | .task (.request ..) | .carried .. | .startFill ..
  | .cancelFill .. | .cancelAll => True
  | _ => False

namespace Agent

variable {a : Agent} {m : Moment} {v : Move} {p : Presented} {x : Address}

/-- The attestation that a move puts before the node, on the channel of a peer. -/
def presented? (a : Agent) (m : Moment) : Move → Option Presented
  | .call caller (.roundState att) => some ⟨att, caller, m.clock⟩
  | .task (.heartbeat loop) =>
    (Assoc.get? loop a.heartbeats).bind fun b => (b.landed? m).map fun att => ⟨att, b.peer, m.clock⟩
  | _ => none

/-- A move that presents an attestation does to the node what its observation does, and accuses alike. -/
theorem act_presented (h : a.presented? m v = some p) :
    (∃ entropy, (a.act m v).node =
      { (a.node.observe m p.expected p.attestation).value.2 with entropy }) ∧
    accusations (a.notices m v) =
      accusations (a.node.observe m p.expected p.attestation).notices ∧ p.now = m.clock := by
  unfold presented? at h
  split at h
  next caller att =>
    cases h
    refine ⟨a.node.answerHeartbeat_node m caller att, ?_, rfl⟩
    exact a.node.accusations_answer_roundState m caller att
  next loop =>
    obtain ⟨b, hb, hp⟩ := Option.bind_eq_some_iff.mp h
    obtain ⟨att, hatt, rfl⟩ := Option.map_eq_some_iff.mp hp
    have hstep := Heartbeat.step_of_landed (m := m) (n := a.node) hatt
    rw [node_act_heartbeat]
    unfold notices stepOwn
    simp only [hb, Noted.value_bind, Noted.notices_bind, Noted.notices_pure, List.append_nil]
    exact ⟨⟨_, hstep.1⟩, hstep.2, trivial⟩
  next => cases h

theorem act_sameReports_fill (a : Agent) (m : Moment) (id : Nat) :
    a.node.SameReports (a.act m (.task (.fill id))).node := by
  rw [node_act_fill]
  unfold Exchanger.stepFill
  split
  next => exact ⟨rfl, rfl⟩
  next f _ =>
    have hstepped := f.step_sameReports a.node m
    simpa using hstepped

theorem driven_sameReports (a : Agent) (now : Nat) (d : Driver AppState) :
    a.node.SameReports (a.driven now d).node := by
  obtain ⟨b, appState, hdrives, hdriven⟩ := a.driven_drives now d
  rw [hdriven]
  cases hdrives with
  | stand position => exact ⟨rfl, rfl⟩
  | drop round position =>
    have htable := congrArg Node.table (a.dropRound_node round)
    have hreplay := congrArg Node.replay (a.dropRound_node round)
    exact ⟨htable, hreplay⟩
  | start position plan => exact ⟨rfl, rfl⟩

theorem IsGossip.sameReports (h : v.IsGossip) : a.node.SameReports (a.act m v).node := by
  cases v with
  | task task =>
    cases task with
    | fill id => exact act_sameReports_fill a m id
    | request fill peer => exact ⟨rfl, rfl⟩
    | _ => exact h.elim
  | call caller request =>
    cases request with
    | roundState att => exact h.elim
    | gossip kind request => exact a.node.serve_sameReports m.members caller kind request
  | carried fill peer transit =>
    have hnode : (a.act m (.carried fill peer transit)).node = a.node :=
      Exchanger.setTransit_node _ _ _ _
    exact ⟨congrArg Node.table hnode, congrArg Node.replay hnode⟩
  | startFill kind key targets => exact ⟨rfl, rfl⟩
  | cancelFill fill keep =>
    have hnode : (a.act m (.cancelFill fill keep)).node = a.node := by
      cases keep with
      | true => exact Exchanger.cancelFill_node _ _
      | false => exact Exchanger.releaseFill_node _ _
    exact ⟨congrArg Node.table hnode, congrArg Node.replay hnode⟩
  | cancelAll => exact ⟨rfl, rfl⟩
  | _ => exact h.elim

/-- A move that presents nothing leaves the guard alone, and all rows too unless it connects or
disconnects a peer. -/
theorem act_of_not_presented (h : a.presented? m v = none) :
    a.node.SameReports (a.act m v).node ∨
      ∃ peer, (v = .connect peer ∨ v = .disconnect peer) ∧
        (a.act m v).node.replay = a.node.replay := by
  by_cases hgossip : v.IsGossip
  · exact Or.inl (IsGossip.sameReports hgossip)
  cases v with
  | task task =>
    refine Or.inl ?_
    cases task with
    | heartbeat loop =>
      rw [node_act_heartbeat]
      unfold stepOwn
      dsimp only
      split
      next => exact ⟨rfl, rfl⟩
      next b hb =>
        have hlanded : b.landed? m = none := by
          simpa [presented?, hb] using h
        obtain ⟨entropy, hstep⟩ := Heartbeat.step_of_not_landed (m := m) (n := a.node) hlanded
        simp only [Noted.value_bind, Noted.value_pure, hstep]
        exact ⟨rfl, rfl⟩
    | round id =>
      cases hr : a.round? id with
      | none =>
        rw [act_of_round?_eq_none hr]
        exact ⟨rfl, rfl⟩
      | some r =>
        exact (turned_act (m := m) hr).turn.sameReports
    | probe loop => exact ⟨rfl, rfl⟩
    | _ => exact absurd trivial hgossip
  | drive d => exact Or.inl (a.driven_sameReports m.now d)
  | call caller request =>
    cases request with
    | roundState att => cases h
    | gossip kind request => exact absurd trivial hgossip
  | connect peer =>
    refine Or.inr ⟨peer, Or.inl rfl, ?_⟩
    obtain ⟨table, heartbeats, loops, nextLoop, hconnect⟩ := a.exists_connect peer
    show (a.connect peer).value.2.node.replay = a.node.replay
    rw [hconnect]
  | disconnect peer => exact Or.inr ⟨peer, Or.inr rfl, rfl⟩
  | drop round =>
    have hnode : (a.act m (.drop round)).node = a.node := a.dropRound_node round
    exact Or.inl ⟨congrArg Node.table hnode, congrArg Node.replay hnode⟩
  | _ => first | exact Or.inl ⟨rfl, rfl⟩ | exact absurd trivial hgossip

theorem presented_now (h : a.presented? m v = some p) : p = ⟨p.attestation, p.expected, m.clock⟩ := by
  have hnow := (act_presented h).2.2
  rw [← hnow]

theorem reports_act_presented (h : a.presented? m v = some p) (hrecording : a.reporter = .recording) :
    (a.act m v).reports = (accusations (a.notices m v)).reverse ++ a.reports := by
  rw [← Reporter.hear_recording, ← hrecording]
  unfold presented? at h
  split at h
  next => rfl
  next loop =>
    have hkept : (a.stepOwn m (.heartbeat loop)).value.reports = a.reports := by
      unfold stepOwn
      dsimp only
      split <;> rfl
    have hheeded : (a.act m (.task (.heartbeat loop))).reports =
        (a.reporter.hear (a.notices m (.task (.heartbeat loop)))).reports.reverse ++
          (a.stepOwn m (.heartbeat loop)).value.reports := by
      unfold act step
      dsimp only
      split <;> rfl
    rw [hheeded, hkept]
  next => cases h

/-- The move puts an attestation of the peer's own before the node, and it passes the guard. -/
structure Hears (a : Agent) (m : Moment) (v : Move) (x : Address) (att : Attestation) : Prop where
  presented : a.presented? m v = some ⟨att, x, m.clock⟩
  own : att.address = x
  timely : att.skew m.clock ≤ a.node.replay.maxSkew
  verified : att.verifies a.node.verifier = true
  unseen : ¬ a.node.replay.Remembers (x, att.nonce)

theorem hears_of_admits (h : a.presented? m v = some p)
    (hadmits : a.node.replay.admits a.node.verifier p = true) :
    a.Hears m v p.expected p.attestation := by
  obtain ⟨⟨hown, htimely, hverified⟩, hunseen⟩ := (ReplayGuard.admits_iff p).mp hadmits
  have hnow := (act_presented h).2.2
  rw [hnow] at htimely
  refine ⟨by rw [h, ← presented_now h], hown, htimely, hverified, ?_⟩
  rw [← hown]
  exact hunseen

theorem get?_connect_of_ne (a : Agent) {peer : Address} (hx : x ≠ peer) :
    (a.connect peer).value.2.node.table.get? x = a.node.table.get? x := by
  unfold connect
  dsimp only
  split
  next => rfl
  next =>
    split
    next => rfl
    next => exact PeerTable.get?_file_of_ne _ _ hx

/-- A move at which the guard does not let an attestation pass leaves every row, unless it connects or
disconnects the peer. -/
theorem row_act_cases (a : Agent) (m : Moment) (v : Move) (x : Address) :
    (a.act m v).node.table.get? x = a.node.table.get? x ∨
    (∃ att, a.Hears m v x att ∧ (a.act m v).node.table =
      a.node.table.record x att.height att.phase att.finalized m.now) ∨
    v = .connect x ∨ v = .disconnect x := by
  cases hp : a.presented? m v with
  | some p =>
    obtain ⟨⟨entropy, hnode⟩, _, _⟩ := act_presented hp
    have hpresented := presented_now hp
    cases hadmits : a.node.replay.admits a.node.verifier p with
    | false =>
      rw [hpresented] at hadmits
      obtain ⟨e, _, hobserved, _⟩ := Node.observe_of_refused hadmits
      refine Or.inl ?_
      rw [hnode, hobserved]
    | true =>
      have hhears := hears_of_admits hp hadmits
      rw [hpresented] at hadmits
      have htable := Node.observe_of_admitted hadmits
      by_cases hx : x = p.expected
      · subst hx
        refine Or.inr (Or.inl ⟨p.attestation, hhears, ?_⟩)
        rw [hnode]
        exact htable
      · refine Or.inl ?_
        rw [hnode]
        show (a.node.observe m p.expected p.attestation).value.2.table.get? x = _
        rw [htable]
        exact PeerTable.get?_record_of_ne hx _ _ _ _
  | none =>
    rcases act_of_not_presented hp with hsame | ⟨peer, hpeer, _⟩
    · exact Or.inl (by rw [hsame.table])
    · by_cases hx : x = peer
      · subst hx
        exact Or.inr (Or.inr hpeer)
      · refine Or.inl ?_
        rcases hpeer with rfl | rfl
        · exact a.get?_connect_of_ne hx
        · exact Assoc.get?_erase_of_ne hx _

theorem row_run (htable : a.node.table = .empty) (script : Script) :
    (a.run script).node.table.get? (a.run script).address = none := by
  induction script using List.reverseRecOn with
  | nil =>
    rw [run_nil, htable]
    rfl
  | append_singleton script v ih =>
    rw [run_snoc, address_act]
    exact row_act ih v.1 v.2

/-- Connecting a peer that has a row replaces it. -/
theorem row_connected {row : PeerRow} (hown : a.node.table.get? a.address = none)
    (h : (a.act m (.connect x)).node.table.get? x = some row) : row = .connected x := by
  have hconnect : (a.connect x).value.2.node.table.get? x = some row := h
  unfold connect at hconnect
  dsimp only at hconnect
  split at hconnect
  next hself =>
    subst hself
    cases hown.symm.trans hconnect
  next =>
    split at hconnect
    next hlimit =>
      have hnone : (a.node.table.get? x).isNone = true := by
        rw [Bool.and_eq_true] at hlimit
        exact hlimit.1
      have hrow : a.node.table.get? x = some row := hconnect
      rw [hrow] at hnone
      cases hnone
    next =>
      have hinserted : (a.node.table.connect x).get? x = some row := hconnect
      exact (Option.some.inj (hinserted.symm.trans (PeerTable.get?_file_self _ _)))

/-- No move of the script connects or disconnects the peer. -/
def Undisturbing (x : Address) (script : Script) : Prop :=
  ∀ u ∈ script, u.2 ≠ .connect x ∧ u.2 ≠ .disconnect x

theorem Undisturbing.snoc {since : Script} (h : Undisturbing x since)
    (hv : v ≠ .connect x ∧ v ≠ .disconnect x) : Undisturbing x (since ++ [(m, v)]) := by
  intro u hu
  rcases List.mem_append.mp hu with hold | hnew
  · exact h u hold
  · rw [List.mem_singleton.mp hnew]
    exact hv

/-- Every row goes back to the latest connecting of its peer, and it is as that left it or shows what an
attestation said that passed the guard since. -/
theorem row_source {row : PeerRow} {script : Script} (htable : a.node.table = .empty)
    (h : (a.run script).node.table.get? x = some row) :
    ∃ before mc since, script = before ++ (mc, .connect x) :: since ∧ Undisturbing x since ∧
      (row = .connected x ∨ ∃ earlier m v later att, since = earlier ++ (m, v) :: later ∧
        (a.run (before ++ (mc, .connect x) :: earlier)).Hears m v x att ∧
        row = .showing x att m.now) := by
  induction script using List.reverseRecOn generalizing row with
  | nil =>
    rw [run_nil, htable] at h
    cases h
  | append_singleton script u ih =>
    obtain ⟨m, v⟩ := u
    rw [run_snoc] at h
    by_cases hv : v = .connect x ∨ v = .disconnect x
    · rcases hv with rfl | rfl
      · refine ⟨script, m, [], rfl, fun u hu => absurd hu List.not_mem_nil, Or.inl ?_⟩
        exact row_connected (row_run htable script) h
      · cases (Assoc.get?_erase_self _ _).symm.trans h
    · have hleaves : v ≠ .connect x ∧ v ≠ .disconnect x := not_or.mp hv
      rcases (a.run script).row_act_cases m v x with hkept | ⟨att, hhears, hrecorded⟩ | hv'
      · rw [hkept] at h
        obtain ⟨before, mc, since, rfl, hsince, hrow⟩ := ih h
        refine ⟨before, mc, since ++ [(m, v)], by simp, hsince.snoc hleaves, ?_⟩
        refine hrow.imp_right ?_
        rintro ⟨earlier, m', v', later, att, rfl, hhears, hrow⟩
        exact ⟨earlier, m', v', later ++ [(m, v)], att, by simp, hhears, hrow⟩
      · rw [hrecorded] at h
        cases hold : (a.run script).node.table.get? x with
        | none =>
          rw [PeerTable.get?_record_of_none hold] at h
          cases h
        | some old =>
          rw [PeerTable.get?_record_self hold] at h
          obtain ⟨before, mc, since, rfl, hsince, -⟩ := ih hold
          refine ⟨before, mc, since ++ [(m, v)], by simp, hsince.snoc hleaves, Or.inr ?_⟩
          exact ⟨since, m, v, [], att, rfl, hhears, (Option.some.inj h).symm⟩
      · exact absurd hv' hv

/-- The guard's limit is never changed. -/
theorem maxSkew_run (a : Agent) (script : Script) :
    (a.run script).node.replay.maxSkew = a.node.replay.maxSkew := by
  induction script using List.reverseRecOn with
  | nil => rfl
  | append_singleton script u ih =>
    rw [run_snoc, ← ih]
    cases hp : (a.run script).presented? u.1 u.2 with
    | some p =>
      obtain ⟨⟨entropy, hnode⟩, _, _⟩ := act_presented hp
      rw [hnode]
      show ((a.run script).node.observe u.1 p.expected p.attestation).value.2.replay.maxSkew = _
      rw [Node.observe_replay]
      exact (ReplayGuard.takes_next _ _ _).limits.1
    | none =>
      rcases act_of_not_presented hp with hsame | ⟨_, _, hreplay⟩
      · rw [hsame.replay]
      · rw [hreplay]

/-- An attestation that the guard refuses changes neither rows nor caches, and is held once against the
peer on whose channel it came. -/
theorem refused_act (hp : a.presented? m v = some p)
    (hrefused : a.node.replay.admits a.node.verifier p = false) :
    (a.act m v).node.table = a.node.table ∧ (a.act m v).node.caches = a.node.caches ∧
      ∃ e, (a.node.replay.accept a.node.verifier p.attestation p.expected p.now).value.1 = .error e ∧
        accusations (a.notices m v) = [(p.expected, .badAttestation e.message)] ∧
        (a.reporter = .recording →
          (a.act m v).reports = (p.expected, .badAttestation e.message) :: a.reports) := by
  obtain ⟨⟨entropy, hnode⟩, haccused, hnow⟩ := act_presented hp
  rw [presented_now hp] at hrefused
  obtain ⟨e, herror, hobserved, haccusation⟩ := Node.observe_of_refused hrefused
  rw [haccusation] at haccused
  refine ⟨by rw [hnode, hobserved], by rw [hnode, hobserved], e, by rw [hnow]; exact herror,
    haccused, ?_⟩
  intro hrecording
  rw [reports_act_presented hp hrecording, haccused]
  rfl

/-- A row that reports something shows what an attestation of that peer said when it passed the guard,
after the peer was last connected; its time was near the clock's, unless their difference has no word. A
refused attestation only gets the peer accused; and gossip leaves the table alone. -/
theorem row_shows_attestation (ha : a.Blank) (htable : a.node.table = .empty) (script : Script) :
    (∀ x row t, (a.run script).node.table.get? x = some row → row.updatedAt = some t →
      ∃ before mc earlier m v later att,
        script = before ++ (mc, .connect x) :: (earlier ++ (m, v) :: later) ∧
        Undisturbing x (earlier ++ (m, v) :: later) ∧ m.now = t ∧
        (a.run (before ++ (mc, .connect x) :: earlier)).presented? m v = some ⟨att, x, m.clock⟩ ∧
        att.address = x ∧ att.verifies a.node.verifier = true ∧
        att.skew m.clock ≤ a.node.replay.maxSkew ∧
        (2 * (m.clock - att.timestamp).natAbs < UInt64.size →
          (m.clock - att.timestamp).natAbs ≤ a.node.replay.maxSkew) ∧
        ¬ (a.run (before ++ (mc, .connect x) :: earlier)).node.replay.Remembers (x, att.nonce) ∧
        row = ⟨x, att.height, att.phase, att.finalized, some t⟩) ∧
    (∀ m v p, (a.run script).presented? m v = some p →
      (a.run script).node.replay.admits (a.run script).node.verifier p = false →
      ((a.run script).act m v).node.table = (a.run script).node.table ∧
      ((a.run script).act m v).node.caches = (a.run script).node.caches ∧
      ∃ e, ((a.run script).node.replay.accept (a.run script).node.verifier p.attestation p.expected
          p.now).value.1 = .error e ∧
        accusations ((a.run script).notices m v) = [(p.expected, .badAttestation e.message)] ∧
        ((a.run script).reporter = .recording → ((a.run script).act m v).reports =
          (p.expected, .badAttestation e.message) :: (a.run script).reports)) ∧
    (∀ m v, v.IsGossip → ((a.run script).act m v).node.table = (a.run script).node.table) := by
  refine ⟨?_, fun m v p => refused_act, fun m v h => (IsGossip.sameReports h).table⟩
  intro x row t hrow hupdated
  obtain ⟨before, mc, since, rfl, hsince, hshows⟩ := row_source htable hrow
  rcases hshows with rfl | ⟨earlier, m, v, later, att, rfl, hhears, rfl⟩
  · cases hupdated
  · have hnow : m.now = t := Option.some.inj hupdated
    have hverified := hhears.verified
    have htimely := hhears.timely
    rw [(sound_run ha.sound _).verifier] at hverified
    rw [maxSkew_run] at htimely
    have hnear : 2 * (m.clock - att.timestamp).natAbs < UInt64.size →
        ((m.clock - att.timestamp).natAbs : Int) ≤ a.node.replay.maxSkew := by
      intro hword
      rwa [← Attestation.skew_eq_natAbs hword]
    exact ⟨before, mc, earlier, m, v, later, att, rfl, hsince, hnow, hhears.presented, hhears.own,
      hverified, htimely, hnear, hhears.unseen, by rw [← hnow]; rfl⟩

end Agent

namespace TwoFaced

def heartbeat : Attestation := .sign (.plain "p") {} 0 7

/-- The peer's row shows its heartbeat, and when that comes again the peer is accused. -/
theorem heartbeat_shown_once :
    (∃ before mc earlier m v later att,
      opening "a" = before ++ (mc, .connect "p") :: (earlier ++ (m, v) :: later) ∧
        m.now = 0 ∧ ((Agent.plain "a").run
          (before ++ (mc, .connect "p") :: earlier)).presented? m v = some ⟨att, "p", m.clock⟩ ∧
        (⟨"p", 0, 0, false, some 0⟩ : PeerRow) =
          ⟨"p", att.height, att.phase, att.finalized, some 0⟩) ∧
    (∃ e : AttestationError, accusations (((Agent.plain "a").run (opening "a")).notices (moment 0)
      (.call "p" (.roundState heartbeat))) = [("p", .badAttestation e.message)]) ∧
    (((Agent.plain "a").run (opening "a")).act (moment 0)
        (.call "q" (.gossip .hash ⟨⟨1, 0⟩, [], none⟩))).node.table.get? "p" =
      some ⟨"p", 0, 0, false, some 0⟩ := by
  obtain ⟨hrows, hrefused, hgossip⟩ := Agent.row_shows_attestation (Agent.plain_blank "a") rfl (opening "a")
  have hrow : ((Agent.plain "a").run (opening "a")).node.table.get? "p" =
      some ⟨"p", 0, 0, false, some 0⟩ := by decide +kernel
  refine ⟨?_, ?_, ?_⟩
  · obtain ⟨before, mc, earlier, m, v, later, att, hscript, _, hnow, hpresented, _, _, _, _, _, hshows⟩ :=
      hrows "p" _ 0 hrow rfl
    exact ⟨before, mc, earlier, m, v, later, att, hscript, hnow, hpresented, hshows⟩
  · obtain ⟨_, _, e, herror, haccused, _⟩ := hrefused (moment 0) (.call "p" (.roundState heartbeat))
      ⟨heartbeat, "p", 0⟩ rfl (by decide +kernel)
    exact ⟨e, haccused⟩
  · have hcall : Move.IsGossip (.call "q" (.gossip .hash ⟨⟨1, 0⟩, [], none⟩)) := trivial
    have hkept := hgossip (moment 0) _ hcall
    exact (congrArg (PeerTable.get? · "p") hkept).trans hrow

end TwoFaced

namespace Untimely

/-- A heartbeat from 2⁶³ milliseconds before the clock's zero. -/
def heartbeat : Attestation := .sign (.plain "p") {} (-9223372036854775808) 7

def script : Script := [
  (TwoFaced.moment 0, .connect "p"), (TwoFaced.moment 0, .call "p" (.roundState heartbeat))]

theorem presented_eq {before after : Script} {m : Moment} {v : Move} {p : Presented}
    (h : script = before ++ (m, v) :: after)
    (hp : ((Agent.plain "a").run before).presented? m v = some p) :
    m = TwoFaced.moment 0 ∧ p.attestation = heartbeat := by
  have hmem : (m, v) ∈ script := h ▸ List.mem_append_right _ List.mem_cons_self
  simp only [script, List.mem_cons, Prod.mk.injEq, List.not_mem_nil, or_false] at hmem
  rcases hmem with ⟨rfl, rfl⟩ | ⟨rfl, rfl⟩
  · cases hp
  · cases hp
    exact ⟨rfl, rfl⟩

/-- The least word is no larger than the limit, so the row shows the heartbeat. -/
theorem row_shows_untimely :
    ¬ ∀ (script : Script) (x : Address) (row : PeerRow) (t : Nat),
      ((Agent.plain "a").run script).node.table.get? x = some row → row.updatedAt = some t →
      ∃ before m v after att, script = before ++ (m, v) :: after ∧
        ((Agent.plain "a").run before).presented? m v = some ⟨att, x, m.clock⟩ ∧
        (m.clock - att.timestamp).natAbs ≤ (Agent.plain "a").node.replay.maxSkew := by
  intro h
  have hrow : ((Agent.plain "a").run script).node.table.get? "p" =
      some (.showing "p" heartbeat 0) := by decide +kernel
  obtain ⟨before, m, v, after, att, hscript, hp, hskew⟩ := h script "p" _ 0 hrow rfl
  obtain ⟨rfl, rfl⟩ := presented_eq hscript hp
  exact absurd hskew (by decide)

end Untimely

end Adjudication
