import Adjudication.Proofs.Callers
import Adjudication.Proofs.Correspondence

namespace Adjudication

theorem PeerTable.get?_record_of_none {table : PeerTable} {x : Address} (h : table.get? x = none)
    (peer : Address) (height phase : Nat) (finalized : Bool) (now : Nat) :
    (table.record peer height phase finalized now).get? x = none := by
  unfold record
  split
  next => exact h
  next row hrow =>
    have hne : x ≠ row.address := by
      rintro rfl
      rw [PeerTable.address_of_get? hrow, hrow] at h
      cases h
    exact Eq.trans (get?_file_of_ne table _ hne) h

namespace Node

variable {n : Node} {m : Moment} {x : Address}

theorem row_observe (h : n.table.get? x = none) (peer : Address) (a : Attestation) :
    (n.observe m peer a).value.2.table.get? x = none := by
  have hrecorded := PeerTable.get?_record_of_none h peer a.height a.phase a.finalized m.now
  unfold observe
  simp only [Noted.value_bind]
  split
  next => exact h
  next =>
    split
    next => exact hrecorded
    next => exact hrecorded

theorem attest_table (n : Node) (clock : Int) : (n.attest clock).2.table = n.table := by
  unfold attest
  split
  rfl

theorem row_answerHeartbeat (h : n.table.get? x = none) (caller : Address) (a : Attestation) :
    (n.answerHeartbeat m caller a).value.2.table.get? x = none := by
  have hobserved := row_observe (m := m) h caller a
  unfold answerHeartbeat
  simp only [Noted.value_bind]
  split
  next => exact hobserved
  next =>
    have hattested := (n.observe m caller a).value.2.attest_table m.clock
    simp only [Noted.value_pure]
    rw [hattested]
    exact hobserved

theorem row_answer (h : n.table.get? x = none) (caller : Address) (request : Request) :
    (n.answer m caller request).value.2.table.get? x = none := by
  cases request with
  | roundState a => exact row_answerHeartbeat h caller a
  | gossip kind request =>
    have hkept := (n.serve_keeps m.members ⟨caller, kind, request⟩).table
    have hserved : (n.serve m.members caller kind request).value.2.table.get? x = none := by
      rw [hkept]
      exact h
    exact hserved

end Node

theorem Fill.Batched.table_eq {now : Nat} {f f' : Fill} {n n' : Node} (h : Batched now f n f' n') :
    n'.table = n.table := by
  cases h <;> rfl

theorem Fill.absorb_table (f : Fill) (n : Node) (members : Members) (peer : Address)
    (missing : List Address) (landing : Landing) :
    (f.absorb n members peer missing landing).value.2.table = n.table := by
  cases landing with
  | crashed => rfl
  | timedOut => rfl
  | answered reply =>
    unfold absorb
    dsimp only
    split
    next => rfl
    next => rfl
    next found _ =>
      split
      next => split <;> rfl
      next =>
        simp only [Noted.value_bind]
        split <;> rfl

theorem Fill.step_table (f : Fill) (n : Node) (m : Moment) :
    (f.step n m).value.2.table = n.table := by
  obtain ⟨f₁, n₁, htakes, hresult⟩ := f.step_cases n m
  have htaken : n₁.table = n.table := by
    cases htakes with
    | nothing => rfl
    | stop => rfl
    | answer missing wake peer landing => exact f.absorb_table n m.members peer missing landing
  rcases hresult with hresult | hresult
  · rw [hresult]
    exact htaken
  · rw [hresult]
    exact (f₁.batch_batched n₁ m.now).table_eq.trans htaken

theorem Heartbeat.row_step {n : Node} {m : Moment} {x : Address} (h : n.table.get? x = none)
    (b : Heartbeat) : (b.step n m).value.2.table.get? x = none := by
  have hwoken : (b.wake n m).2.table.get? x = none := by
    unfold wake
    split
    next =>
      have hattested := n.attest_table m.clock
      dsimp only
      rw [hattested]
      exact h
    next => exact h
  have habsorbed : ∀ landing, (b.absorb n m landing).value.table.get? x = none := by
    intro landing
    cases landing with
    | crashed => exact h
    | timedOut => exact h
    | answered reply =>
      unfold absorb
      dsimp only
      split
      next => exact h
      next a _ =>
        have hobserved := Node.row_observe (m := m) h b.peer a
        simp only [Noted.value_bind]
        split
        next => exact hobserved
        next => exact hobserved
  unfold step
  split
  next => exact h
  next =>
    split
    next => exact h
    next landing _ _ =>
      have habsorbed := habsorbed landing
      rw [Noted.value_bind]
      split
      next => exact habsorbed
      next => exact habsorbed
    next => exact h
    next => exact hwoken
    next => exact hwoken

theorem RoundRun.Turn.table_eq {m : Moment} {r r' : RoundRun} {n n' : Node} (t : Turn m r n r' n') :
    n'.table = n.table := by
  cases t <;> rfl

namespace Agent

variable {a : Agent} {m : Moment} {v : Move} {x : Address} {k : RoundKey}

theorem table_driven (a : Agent) (now : Nat) (d : Driver AppState) :
    (a.driven now d).node.table = a.node.table := by
  obtain ⟨b, appState, hdrives, hdriven⟩ := a.driven_drives now d
  rw [hdriven]
  cases hdrives with
  | stand position => rfl
  | drop round position =>
    have htable := congrArg Node.table (a.dropRound_node round)
    exact htable
  | start position plan => rfl

theorem row_connect (h : a.node.table.get? a.address = none) (peer : Address) :
    (a.connect peer).value.2.node.table.get? a.address = none := by
  unfold connect
  dsimp only
  split
  next => exact h
  next hother =>
    split
    next => exact h
    next => exact (Assoc.get?_insert_of_ne (Ne.symm hother) _ _).trans h

theorem row_disconnect (h : a.node.table.get? x = none) (peer : Address) :
    (a.node.table.disconnect peer).get? x = none := by
  by_cases hx : x = peer
  · subst x
    exact Assoc.get?_erase_self _ _
  · exact (Assoc.get?_erase_of_ne hx _).trans h

theorem table_act_fill (a : Agent) (m : Moment) (id : Nat) :
    (a.act m (.task (.fill id))).node.table = a.node.table := by
  rw [node_act_fill]
  unfold Exchanger.stepFill
  split
  next => rfl
  next f _ =>
    have hstepped := f.step_table a.node m
    simpa using hstepped

/-- Whatever happens, an agent gets no row for itself. -/
theorem row_act (h : a.node.table.get? a.address = none) (m : Moment) (v : Move) :
    (a.act m v).node.table.get? a.address = none := by
  cases v with
  | task task =>
    cases task with
    | fill id =>
      rw [table_act_fill]
      exact h
    | heartbeat loop =>
      rw [node_act_heartbeat]
      unfold stepOwn
      dsimp only
      split
      next => exact h
      next b _ => exact b.row_step h
    | round id =>
      cases hr : a.round? id with
      | none =>
        rw [act_of_round?_eq_none hr]
        exact h
      | some r =>
        rw [(turned_act hr).turn.table_eq]
        exact h
    | request fill peer => exact h
    | probe loop => exact h
  | drive d =>
    have htable := a.table_driven m.now d
    show (a.driven m.now d).node.table.get? a.address = none
    rw [htable]
    exact h
  | call caller request => exact Node.row_answer h caller request
  | carried fill peer transit =>
    have hnode : (a.act m (.carried fill peer transit)).node = a.node :=
      Exchanger.setTransit_node _ _ _ _
    rw [hnode]
    exact h
  | connect peer => exact row_connect h peer
  | disconnect peer => exact row_disconnect h peer
  | drop round =>
    have hnode : (a.act m (.drop round)).node = a.node := a.dropRound_node round
    rw [hnode]
    exact h
  | cancelFill fill keep =>
    have hnode : (a.act m (.cancelFill fill keep)).node = a.node := by
      cases keep with
      | true => exact Exchanger.cancelFill_node _ _
      | false => exact Exchanger.releaseFill_node _ _
    rw [hnode]
    exact h
  | _ => exact h

end Agent

namespace Exchanger

variable {x x' : Exchanger} {k : RoundKey}

/-- No fill is for contributions under the key. -/
def Avoids (x : Exchanger) (k : RoundKey) : Prop :=
  ∀ id f, x.fill? id = some f → f.kind = .contribution → f.key ≠ k

theorem Tended.avoids (h : x.Tended x') (hnext : x'.nextFill = x.nextFill) (ha : x.Avoids k) :
    x'.Avoids k := by
  intro id f' hf' hkind
  rcases h.fills id f' hf' with ⟨f, _, _, hf, _, rfl⟩ | ⟨hle, hlt, _⟩
  · exact ha id f hf hkind
  · omega

theorem startFill_avoids (ha : x.Avoids k) {kind : EntryKind} {key : RoundKey}
    (hk : kind = .contribution → key ≠ k) (targets : List Address) :
    (x.startFill kind key targets).2.Avoids k := by
  intro id f hf hkind
  have hset : (x.setFill x.nextFill
      { kind, key, targets, cancelled := x.stopped }).fill? id = some f := hf
  rcases fill?_setFill hset with ⟨_, rfl⟩ | ⟨_, hold⟩
  · exact hk hkind
  · exact ha id f hold hkind

end Exchanger

open Exchanger

namespace RoundRun

variable {x : Exchanger} {k : RoundKey} {goal : Goal}

theorem poll_avoids (ha : x.Avoids k) (r : RoundRun) (m : Moment) (goal : Goal) (since fill : Nat) :
    (r.poll x m goal since fill).value.2.Avoids k := by
  refine (r.poll_tended x m goal since fill).avoids ?_ ha
  unfold poll
  dsimp only
  split
  next => rfl
  next => exact x.releaseFill_nextFill fill
  next => exact x.cancelFill_nextFill fill

theorem pursue_avoids (ha : x.Avoids k) {r : RoundRun} (hk : goal = .collection → r.key ≠ k)
    (m : Moment) : (r.pursue x m goal).value.2.Avoids k := by
  unfold pursue
  split
  next => exact ha
  next =>
    refine poll_avoids (startFill_avoids ha ?_ m.members.addresses) r m goal m.now x.nextFill
    intro hkind
    cases goal with
    | collection => exact hk rfl
    | tally c => cases hkind

theorem attempt_avoids (ha : x.Avoids k) {r : RoundRun}
    (hk : k ≠ ⟨x.node.position.height + 1, r.phase⟩) (m : Moment) :
    (r.attempt x m).value.2.Avoids k := by
  have hentered : ({ x with node := r.entered x.node } : Exchanger).Avoids k := ha
  exact pursue_avoids hentered (fun _ => Ne.symm hk) m

theorem leave_avoids (ha : x.Avoids k) {r : RoundRun}
    (hk : k ≠ ⟨x.node.position.height + 1, r.phase⟩) (m : Moment) (goal : Goal) (verdict : Verdict) :
    (r.leave x m goal verdict).value.2.Avoids k := by
  have hunready : ({ x with node := { x.node with ready := false } } : Exchanger).Avoids k := ha
  cases verdict with
  | heightMoved =>
    cases goal with
    | collection => exact attempt_avoids ha hk m
    | tally c => exact attempt_avoids hunready hk m
  | collected count need waited =>
    have hcommitted : ({ x with node := r.committed x.node } : Exchanger).Avoids k := ha
    have htally : Goal.tally (r.collected x.node) = .collection → r.key ≠ k := fun h => nomatch h
    exact pursue_avoids hcommitted htally m
  | agreed agreeing need =>
    cases goal with
    | collection => exact ha
    | tally c =>
      have hfills := r.catchUp_tended { x with node := { x.node with
        position := (x.node.position.finalizePhase (r.key.height - 1) r.phase).value.2 } } m c
        (m.now + x.node.config.round.catchUp)
      refine hfills.avoids ?_ ha
      unfold catchUp
      dsimp only
      split
      next => rfl
      next => rfl
  | failed reason => exact ha

theorem step_avoids (ha : x.Avoids k) {r : RoundRun}
    (hk : k ≠ ⟨x.node.position.height + 1, r.phase⟩) (m : Moment) :
    (r.step x m).value.2.Avoids k := by
  unfold step
  split
  next =>
    have hunready : ({ x with node := { x.node with ready := false } } : Exchanger).Avoids k := ha
    exact attempt_avoids hunready hk m
  next goal since fill _ _ _ => exact poll_avoids ha r m goal since fill
  next goal fill verdict _ =>
    have hforgotten : (x.forgetFill fill).Avoids k := (x.forgetFill_tended fill).avoids rfl ha
    split
    next => exact hforgotten
    next => exact leave_avoids hforgotten hk m goal verdict
  next c deadline _ _ =>
    refine (r.catchUp_tended x m c deadline).avoids ?_ ha
    unfold catchUp
    dsimp only
    split
    next => rfl
    next => rfl
  next => exact ha

end RoundRun

/-- Whether a move is none of those by which a driver or an owner has the agent do rounds or fills. -/
def Move.Apart : Move → Prop
  | .drive _ | .start .. | .drop _ | .startFill .. | .stand _ => False
  | .task _ | .call .. | .carried .. | .probed .. | .connect _ | .disconnect _ | .shutDown
  | .cancelFill .. | .cancelAll => True

namespace Agent

variable {a b : Agent} {m : Moment} {v : Move} {k : RoundKey} {e : SignedEntry}

/-- What becomes of an agent by such a move that is no step of a round: peers have their way with the
node, and the rounds are the same. -/
structure Aside (m : Moment) (a b : Agent) : Prop where
  node : Node.PeerRun m a.node b.node
  rounds : b.rounds = a.rounds
  nextRound : b.nextRound = a.nextRound
  nextFill : b.nextFill = a.nextFill

theorem Aside.of_node_eq (hnode : b.node = a.node) (hrounds : b.rounds = a.rounds)
    (hnext : b.nextRound = a.nextRound) (hfill : b.nextFill = a.nextFill) : Aside m a b :=
  ⟨hnode ▸ .refl, hrounds, hnext, hfill⟩

theorem aside_step {task : Task} (h : Aside m a (a.stepOwn m task).value) :
    Aside m a (a.step m task).2 := by
  have hcrash : ∀ b : Agent, Aside m a b → Aside m a (b.crash task) := by
    intro b hb
    cases task with
    | fill id =>
      have hnode : Node.PeerRun m a.node (b.toExchanger.crashFill id).node := by
        rw [Exchanger.crashFill_node]
        exact hb.node
      exact ⟨hnode, hb.rounds, hb.nextRound, (crashFill_nextFill _ _).trans hb.nextFill⟩
    | heartbeat loop => exact ⟨hb.node, hb.rounds, hb.nextRound, hb.nextFill⟩
    | request fill peer => exact hb
    | probe loop => exact hb
    | round id => exact hb
  have heeded : Aside m a ((a.stepOwn m task).value.heed
      (a.reporter.hear (a.stepOwn m task).notices)) := ⟨h.node, h.rounds, h.nextRound, h.nextFill⟩
  unfold step
  dsimp only
  split
  next => exact hcrash _ heeded
  next => exact heeded

theorem aside_connect (a : Agent) (peer : Address) : Aside m a (a.after (a.connect peer)) := by
  obtain ⟨table, heartbeats, loops, nextLoop, hconnect⟩ := a.exists_connect peer
  have hvalue : Aside m a (a.connect peer).value.2 := by
    rw [hconnect]
    exact ⟨.single (.other _ a.node.replay a.node.entropy), rfl, rfl, rfl⟩
  exact ⟨hvalue.node, hvalue.rounds, hvalue.nextRound, hvalue.nextFill⟩

theorem aside_act (hv : v.Apart) (hidle : ∀ id, v = .task (.round id) → a.round? id = none) :
    Aside m a (a.act m v) := by
  have idle : Aside m a a := .of_node_eq rfl rfl rfl rfl
  cases v with
  | task task =>
    cases task with
    | request fill peer => exact aside_step idle
    | probe loop => exact aside_step idle
    | fill id =>
      have stepped := a.toExchanger.stepFill_peerRun (m := m) id
      exact aside_step ⟨stepped, rfl, rfl, stepFill_nextFill _ _ _⟩
    | heartbeat loop =>
      apply aside_step
      unfold stepOwn
      dsimp only
      split
      next => exact idle
      next beat _ => exact ⟨beat.step_peerRun a.node, rfl, rfl, rfl⟩
    | round id => exact aside_step (by simpa [stepOwn, hidle id rfl] using idle)
  | call caller request => exact ⟨a.node.answer_peerRun caller request, rfl, rfl, rfl⟩
  | carried fill peer transit =>
    exact .of_node_eq (setTransit_node _ _ _ _) rfl rfl (setTransit_nextFill _ _ _ _)
  | probed loop transit => exact .of_node_eq rfl rfl rfl rfl
  | connect peer => exact aside_connect a peer
  | disconnect peer =>
    exact ⟨.single (.other _ a.node.replay a.node.entropy), rfl, rfl, rfl⟩
  | shutDown => exact .of_node_eq rfl rfl rfl rfl
  | cancelFill fill keep =>
    cases keep with
    | true => exact .of_node_eq (cancelFill_node _ _) rfl rfl (cancelFill_nextFill _ _)
    | false => exact .of_node_eq (releaseFill_node _ _) rfl rfl (releaseFill_nextFill _ _)
  | cancelAll => exact .of_node_eq rfl rfl rfl rfl
  | drive d => exact hv.elim
  | start plan signature startsAt => exact hv.elim
  | drop round => exact hv.elim
  | startFill kind key targets => exact hv.elim
  | stand position => exact hv.elim

/-- A move apart is the turn of a round, or it leaves rounds and position alone. -/
theorem apart_cases (a : Agent) (m : Moment) (hv : v.Apart) :
    (∃ id r, v = .task (.round id) ∧ Turned m a (a.act m v) id r) ∨
      (∀ id, v = .task (.round id) → a.round? id = none) ∧ Aside m a (a.act m v) := by
  by_cases hidle : ∀ id, v = .task (.round id) → a.round? id = none
  · exact Or.inr ⟨hidle, aside_act hv hidle⟩
  · obtain ⟨id, hmove⟩ := not_forall.mp hidle
    obtain ⟨rfl, hround⟩ := Classical.not_imp.mp hmove
    obtain ⟨r, hr⟩ := Option.ne_none_iff_exists'.mp hround
    exact Or.inl ⟨id, r, rfl, turned_act hr⟩

/-- The agent has no contribution of its own under the key, and no fill that could bring it one. -/
structure Untouched (a : Agent) (k : RoundKey) : Prop where
  lacks : ∀ e, ¬ a.node.caches.contributions.Holds k a.address e
  avoids : a.toExchanger.Avoids k

theorem avoids_act (h : a.toExchanger.Avoids k) (hv : v.Apart)
    (hround : ∀ id r, v = .task (.round id) → a.round? id = some r →
      k ≠ ⟨a.node.position.height + 1, r.phase⟩) : (a.act m v).toExchanger.Avoids k := by
  rcases a.apart_cases m hv with ⟨id, r, rfl, turned⟩ | ⟨_, aside⟩
  · rw [exchanger_act_round turned.before]
    exact RoundRun.step_avoids h (hround id r rfl turned.before) m
  · have hnext := aside.nextFill
    intro id f' hf' hkind
    rcases fill_act hf' with ⟨f, hf, hmoved⟩ | ⟨hle, hlt, _⟩
    · obtain ⟨hkind', hkey'⟩ := hmoved.round_eq
      rw [hkey']
      exact h id f hf (hkind'.symm.trans hkind)
    · omega

/-- A round contributes under the key of its phase at the node's height, and under no other. -/
theorem turn_holds_contribution {r r' : RoundRun} {n n' : Node} {x : Address}
    (t : RoundRun.Turn m r n r' n') (h : n'.caches.contributions.Holds k x e) :
    n.caches.contributions.Holds k x e ∨
      k = ⟨n.position.height + 1, r.phase⟩ ∧ x = n.address ∧ e = r.contribution := by
  cases t with
  | enter ready stage starts looked =>
    rcases Cache.holds_of_insert h with hold | hnew
    · exact Or.inl (hold.of_sublist (Cache.sweep_rounds_sublist _ _))
    · exact Or.inr hnew
  | look => exact Or.inl h
  | commit => exact Or.inl h
  | conclude => exact Or.inl h
  | catchUp => exact Or.inl h
  | giveUp => exact Or.inl h
  | idle => exact Or.inl h

/-- Serving brings at most an entry of the caller, who has a row. -/
theorem serve_gains_caller (n : Node) (members : Members) (i : Inquiry) :
    n.Gains (fun _ _ x _ => x = i.caller ∧ n.table.get? x ≠ none)
      (n.serve members i.caller i.kind i.request).value.2 := by
  rw [Node.serve_eq]
  split
  next =>
    split
    next => exact .of_caches rfl
    next offered _ =>
      rw [Node.takeOffer_eq]
      split
      next htaken =>
        refine Node.consider_gains members i.caller ⟨rfl, ?_⟩
        intro hnone
        simp [hnone] at htaken
      next => exact .of_caches rfl
  next => exact .of_caches rfl

theorem not_holds_own_of_call (hrow : a.node.table.get? a.address = none) (caller : Address)
    (request : Request) (h : (a.act m (.call caller request)).node.caches.contributions.Holds k
      a.address e) : a.node.caches.contributions.Holds k a.address e := by
  have held : ((a.node.answer m caller request).value.2.cache .contribution).Holds k a.address e := h
  cases request with
  | roundState attestation =>
    have hgains : a.node.Gains (fun _ _ _ _ => False) _ :=
      a.node.answerHeartbeat_gains m caller attestation
    exact (hgains .contribution k _ e held).resolve_right id
  | gossip kind request =>
    have hgains := serve_gains_caller a.node m.members ⟨caller, kind, request⟩
    rcases hgains .contribution k _ e held with hold | ⟨_, hsome⟩
    · exact hold
    · exact absurd hrow hsome

/-- An agent gets a contribution of its own only as a round of its own enters the key. -/
theorem own_contribution_act (hrow : a.node.table.get? a.address = none)
    (havoids : a.toExchanger.Avoids k) (hv : v.Apart)
    (h : (a.act m v).node.caches.contributions.Holds k a.address e) :
    a.node.caches.contributions.Holds k a.address e ∨
      ∃ id r, v = .task (.round id) ∧ a.round? id = some r ∧
        k = ⟨a.node.position.height + 1, r.phase⟩ := by
  have held : ((a.act m v).node.cache .contribution).Holds k a.address e := h
  have hkept : (a.act m v).node.caches = a.node.caches →
      a.node.caches.contributions.Holds k a.address e := by
    intro hcaches
    rwa [hcaches] at h
  cases v with
  | task task =>
    cases task with
    | fill id =>
      rw [node_act_fill] at held
      rcases a.stepFill_gains m id .contribution k _ e held with hold | ⟨f, hf, hkind, hkey, _⟩
      · exact Or.inl hold
      · exact absurd hkey (havoids id f hf hkind)
    | heartbeat loop =>
      rw [node_act_heartbeat] at held
      unfold stepOwn at held
      dsimp only at held
      split at held
      next => exact Or.inl held
      next b _ =>
        have hgains : a.node.Gains (fun _ _ _ _ => False) _ := b.step_gains a.node m
        exact Or.inl ((hgains .contribution k _ e held).resolve_right id)
    | round id =>
      cases hr : a.round? id with
      | none =>
        rw [act_of_round?_eq_none hr] at h
        exact Or.inl h
      | some r =>
        have turned := turned_act (m := m) hr
        have hturn := turned.turn
        rcases turn_holds_contribution hturn h with hold | ⟨hk, _⟩
        · exact Or.inl hold
        · exact Or.inr ⟨id, r, rfl, hr, hk⟩
    | request fill peer => exact Or.inl h
    | probe loop => exact Or.inl h
  | call caller request => exact Or.inl (not_holds_own_of_call hrow caller request h)
  | carried fill peer transit =>
    exact Or.inl (hkept (congrArg Node.caches (setTransit_node _ _ _ _)))
  | probed loop transit => exact Or.inl h
  | connect peer => exact Or.inl (hkept (a.caches_connect peer))
  | disconnect peer => exact Or.inl h
  | shutDown => exact Or.inl h
  | cancelFill fill keep =>
    refine Or.inl (hkept (congrArg Node.caches ?_))
    cases keep with
    | true => exact cancelFill_node _ _
    | false => exact releaseFill_node _ _
  | cancelAll => exact Or.inl h
  | drive d => exact hv.elim
  | start plan signature startsAt => exact hv.elim
  | drop round => exact hv.elim
  | startFill kind key targets => exact hv.elim
  | stand position => exact hv.elim

/-- A key stays untouched until a round enters it. -/
theorem Untouched.act (h : a.Untouched k) (hrow : a.node.table.get? a.address = none) (hv : v.Apart)
    (hround : ∀ id r, v = .task (.round id) → a.round? id = some r →
      k ≠ ⟨a.node.position.height + 1, r.phase⟩) : (a.act m v).Untouched k where
  lacks e held := by
    rw [address_act] at held
    rcases own_contribution_act hrow h.avoids hv held with hold | ⟨id, r, hstep, hr, hk⟩
    · exact h.lacks e hold
    · exact hround id r hstep hr hk
  avoids := avoids_act h.avoids hv hround

theorem Untouched.driven (h : a.Untouched k) (now : Nat) (d : Driver AppState) :
    (a.driven now d).Untouched k where
  lacks e held := by
    have haddress : (a.driven now d).address = a.address := a.address_act ⟨now, 0, .ofList [], 0⟩ (.drive d)
    rw [caches_driven, haddress] at held
    exact h.lacks e held
  avoids := by
    refine (a.driven_tended now d).avoids ?_ h.avoids
    obtain ⟨b, appState, hdrives, hdriven⟩ := a.driven_drives now d
    rw [hdriven]
    cases hdrives with
    | stand position => rfl
    | drop round position =>
      show (a.dropRound round).nextFill = a.nextFill
      unfold dropRound
      dsimp only
      split
      next => exact releaseFill_nextFill _ _
      next => rfl
    | start position plan => rfl

/-- A round that enters an untouched key contributes what it was given. -/
theorem Untouched.contributes (h : a.Untouched k) {r : RoundRun} (ready : Bool)
    (hk : k = ⟨a.node.position.height + 1, r.phase⟩) :
    (r.entered { a.node with ready }).caches.contributions.get? k a.address = some r.contribution := by
  subst hk
  have hprotected := RoundRun.sweep_protected a.node.caches.contributions
    ⟨a.node.position.height + 1, r.phase⟩
  refine Cache.get?_insert_self hprotected ?_ r.contribution
  cases hcontains : (a.node.caches.contributions.sweep ⟨a.node.position.height + 1, r.phase⟩).value.2.contains
      ⟨a.node.position.height + 1, r.phase⟩ a.address with
  | false => exact hcontains
  | true =>
    obtain ⟨e, he⟩ := Option.isSome_iff_exists.mp hcontains
    have held := (Cache.holds_of_get? he).of_sublist (Cache.sweep_rounds_sublist _ _)
    exact absurd held (h.lacks e)

end Agent

end Adjudication
