import Adjudication.Driving
import Adjudication.Proofs.PeerSteps
import Adjudication.Proofs.RoundTurns

namespace Adjudication

/-- A split of a list that has just got longer. -/
theorem split_snoc {α : Type} {xs before after : List α} {x y : α}
    (h : xs ++ [y] = before ++ x :: after) :
    (xs = before ∧ y = x ∧ after = []) ∨ ∃ after', after = after' ++ [y] ∧ xs = before ++ x :: after' := by
  rcases List.eq_nil_or_concat after with rfl | ⟨after', z, rfl⟩
  · obtain ⟨hbefore, hy⟩ := List.append_inj' h rfl
    exact Or.inl ⟨hbefore, List.head_eq_of_cons_eq hy, rfl⟩
  · rw [List.concat_eq_append, ← List.cons_append, ← List.append_assoc] at h
    obtain ⟨hbefore, hy⟩ := List.append_inj' h rfl
    cases hy
    exact Or.inr ⟨after', List.concat_eq_append, hbefore⟩

inductive Move
  | task (task : Task)
  | drive (driver : Driver AppState)
  | call (caller : Address) (request : Request)
  /-- A fill's request to a peer is now at this point of its way. -/
  | carried (fill : Nat) (peer : Address) (transit : Transit)
  /-- So is the probe of a heartbeat loop. -/
  | probed (loop : Nat) (transit : Transit)
  | connect (peer : Address)
  | disconnect (peer : Address)
  | shutDown
  | start (plan : PhasePlan) (signature : Signature) (startsAt : Nat)
  | drop (round : Nat)
  | startFill (kind : EntryKind) (key : RoundKey) (targets : List Address)
  | cancelFill (fill : Nat) (keep : Bool)
  | cancelAll
  /-- The owner sets the position, by raising the height for one. -/
  | stand (position : Position)

abbrev Script := List (Moment × Move)

namespace Agent

/-- The agent after an operation, with what the operation reported. -/
def after {α : Type} (a : Agent) (done : Noted (α × Agent)) : Agent :=
  done.value.2.heed (a.reporter.hear done.notices)

def driven (a : Agent) (now : Nat) (d : Driver AppState) : Agent :=
  let done := (d.step a a.appState now).value
  { done.2.1 with appState := done.2.2 }

def setProbe (a : Agent) (loop : Nat) (transit : Transit) : Agent :=
  { a with heartbeats := a.heartbeats.map fun b =>
      if b.1 = loop then (loop, { b.2 with stage := .probing transit }) else b }

def act (a : Agent) (m : Moment) : Move → Agent
  | .task task => (a.step m task).2
  | .drive d => a.driven m.now d
  | .call caller request => (a.receive m caller request).2.2
  | .carried fill peer transit => { a with toExchanger := a.setTransit fill peer transit }
  | .probed loop transit => a.setProbe loop transit
  | .connect peer => a.after (a.connect peer)
  | .disconnect peer => a.after (a.disconnect peer)
  | .shutDown => a.after do return ((), ← a.shutDown)
  | .start plan signature startsAt => (a.startRound plan signature startsAt).2
  | .drop round => a.dropRound round
  | .startFill kind key targets => { a with toExchanger := (a.startFill kind key targets).2 }
  | .cancelFill fill keep =>
    { a with toExchanger := if keep then a.cancelFill fill else a.releaseFill fill }
  | .cancelAll => { a with toExchanger := a.cancelAll }
  | .stand position => a.setNode { a.node with position }

def run (a : Agent) (script : Script) : Agent := script.foldl (fun a v => a.act v.1 v.2) a

@[simp] theorem run_nil (a : Agent) : a.run [] = a := rfl

@[simp] theorem run_cons (a : Agent) (v : Moment × Move) (script : Script) :
    a.run (v :: script) = (a.act v.1 v.2).run script := rfl

theorem run_append (a : Agent) (script rest : Script) :
    a.run (script ++ rest) = (a.run script).run rest :=
  List.foldl_append

theorem run_snoc (a : Agent) (script : Script) (m : Moment) (v : Move) :
    a.run (script ++ [(m, v)]) = (a.run script).act m v := by
  rw [run_append]
  rfl

/-- An agent that nothing has happened to: its caches hold nothing and it has no rounds. -/
structure Blank (a : Agent) : Prop where
  caches : a.node.caches = .empty a.node.config.cacheCapacity
  rounds : a.rounds = []

def fresh (signer : Signer) (verifier : Verifier) (config : NodeConfig) (position : Position)
    (entropy : Entropy) (reporter : Reporter) (appState : AppState) : Agent :=
  { node := (Node.create signer verifier config position entropy).value, reporter, appState }

theorem fresh_blank (signer : Signer) (verifier : Verifier) (config : NodeConfig)
    (position : Position) (entropy : Entropy) (reporter : Reporter) (appState : AppState) :
    (fresh signer verifier config position entropy reporter appState).Blank := ⟨rfl, rfl⟩

/-- What becomes of an agent by a move that is no step of its rounds: peers have their way with the
node, its position may be any other, and of the rounds some may be dropped and new ones scheduled. -/
structure Between (m : Moment) (a b : Agent) : Prop where
  node : ∃ n position, Node.PeerRun m a.node n ∧ b.node = { n with position }
  rounds : ∀ id, b.round? id = a.round? id ∨ b.round? id = none ∨
    a.nextRound ≤ id ∧ id < b.nextRound ∧ ∃ r, b.round? id = some r ∧ r.stage = .scheduled
  nextRound : a.nextRound ≤ b.nextRound

end Agent

variable {m : Moment} {a b : Agent}

namespace Exchanger

theorem stepFill_peerRun (x : Exchanger) (id : Nat) :
    Node.PeerRun m x.node (x.stepFill id m).value.node := by
  unfold stepFill
  split
  · exact .refl
  · next f _ =>
    have stepped := f.step_peerRun (m := m) x.node
    simpa using stepped

end Exchanger

namespace Agent

theorem Between.of_peerRun (hnode : Node.PeerRun m a.node b.node) (hrounds : b.rounds = a.rounds)
    (hnext : b.nextRound = a.nextRound) : Between m a b where
  node := ⟨b.node, b.node.position, hnode, rfl⟩
  rounds id := Or.inl (by rw [round?, round?, hrounds])
  nextRound := Nat.le_of_eq hnext.symm

theorem Between.of_node_eq (hnode : b.node = a.node) (hrounds : b.rounds = a.rounds)
    (hnext : b.nextRound = a.nextRound) : Between m a b :=
  .of_peerRun (hnode ▸ .refl) hrounds hnext

theorem between_startRound (a : Agent) (plan : PhasePlan) (signature : Signature) (startsAt : Nat) :
    Between m a (a.startRound plan signature startsAt).2 where
  node := ⟨a.node, a.node.position, .refl, rfl⟩
  rounds id := by
    by_cases hid : id = a.nextRound
    · subst id
      exact Or.inr (Or.inr ⟨Nat.le_refl _, Nat.lt_succ_self _, _, Assoc.get?_insert_self _ _ _, rfl⟩)
    · exact Or.inl (Assoc.get?_insert_of_ne hid _ _)
  nextRound := Nat.le_succ _

@[simp] theorem dropRound_node (a : Agent) (round : Nat) : (a.dropRound round).node = a.node := by
  unfold dropRound
  dsimp only
  split
  · exact Exchanger.releaseFill_node _ _
  · rfl

theorem between_dropRound (a : Agent) (round : Nat) : Between m a (a.dropRound round) where
  node := ⟨a.node, a.node.position, .refl, a.dropRound_node round⟩
  rounds id := by
    by_cases hid : id = round
    · subst id
      exact Or.inr (Or.inl (Assoc.get?_erase_self _ _))
    · exact Or.inl (Assoc.get?_erase_of_ne hid _)
  nextRound := Nat.le_refl _

/-- Setting the position after a move is part of it. -/
theorem Between.setPosition (h : Between m a b) (position : Position) :
    Between m a (b.setNode { b.node with position }) where
  node := by
    obtain ⟨n, p, hrun, hn⟩ := h.node
    exact ⟨n, position, hrun, by rw [setNode, hn]⟩
  rounds := h.rounds
  nextRound := h.nextRound

theorem Between.setAppState (h : Between m a b) (appState : AppState) :
    Between m a { b with appState } where
  node := h.node
  rounds := h.rounds
  nextRound := h.nextRound

/-- What a step of a driver makes of its agent: it sets the position, and drops a round or starts one. -/
inductive Drives (now : Nat) (a : Agent) : Agent → Prop
  | stand (position : Position) : Drives now a (a.setNode { a.node with position })
  | drop (round : Nat) (position : Position) :
      Drives now a ((a.dropRound round).setNode { (a.dropRound round).node with position })
  | start (position : Position) (plan : PhasePlan) :
      Drives now a ((a.setNode { a.node with position }).startRound plan
        (a.node.signContribution plan.payload) now).2

theorem plan_drives (a : Agent) (now : Nat) (d : Driver AppState) (s : AppState) :
    Drives now a (d.plan a s now).value.2.1 := by
  unfold Driver.plan
  split
  · exact .stand a.node.position
  · dsimp only
    split
    · exact .stand _
    · exact .start _ _

theorem conclude_position (a : Agent) (now : Nat) (d : Driver AppState) (s : AppState)
    (outcome : RoundOutcome) (elapsed : Nat) : ∃ position,
      (d.conclude a s now outcome elapsed).value.2.1 = a.setNode { a.node with position } := by
  unfold Driver.conclude
  cases outcome with
  | finalized key entries digest =>
    simp only [Noted.value_bind, Noted.value_pure]
    split
    · exact ⟨_, rfl⟩
    · exact ⟨_, rfl⟩
  | failed key reason =>
    simp only [Noted.value_bind, Noted.value_pure]
    split
    · exact ⟨_, rfl⟩
    · exact ⟨_, rfl⟩

theorem driven_drives (a : Agent) (now : Nat) (d : Driver AppState) :
    ∃ b appState, Drives now a b ∧ a.driven now d = { b with appState } := by
  refine ⟨(d.step a a.appState now).value.2.1, (d.step a a.appState now).value.2.2, ?_, rfl⟩
  have dropped : ∀ round, Drives now a (a.dropRound round) :=
    fun round => .drop round (a.dropRound round).node.position
  unfold Driver.step
  split
  · exact plan_drives a now d _
  · exact plan_drives a now d _
  · next round since _ =>
    split
    · next outcome _ =>
      obtain ⟨position, hconcluded⟩ :=
        conclude_position (a.dropRound round) now d a.appState outcome (now - since)
      rw [hconcluded]
      exact .drop round position
    · split
      · exact dropped round
      · exact .stand a.node.position
  · split
    · exact .stand a.node.position
    · exact plan_drives a now d _
  · exact .stand a.node.position

theorem between_driven (a : Agent) (now : Nat) (d : Driver AppState) :
    Between m a (a.driven now d) := by
  have idle : Between m a a := .of_node_eq rfl rfl rfl
  obtain ⟨b, appState, hdrives, hdriven⟩ := a.driven_drives now d
  rw [hdriven]
  refine Between.setAppState ?_ appState
  cases hdrives with
  | stand position => exact idle.setPosition position
  | drop round position => exact (between_dropRound a round).setPosition position
  | start position plan =>
    have started := between_startRound (m := m) (a.setNode { a.node with position }) plan
      (a.node.signContribution plan.payload) now
    exact ⟨⟨a.node, position, .refl, rfl⟩, started.rounds, started.nextRound⟩

theorem between_after {α : Type} {done : Noted (α × Agent)} (h : Between m a done.value.2) :
    Between m a (a.after done) :=
  ⟨h.node, h.rounds, h.nextRound⟩

/-- All that connecting a peer may change. -/
theorem exists_connect (a : Agent) (peer : Address) : ∃ table heartbeats loops nextLoop,
    (a.connect peer).value.2 =
      { a with node := { a.node with table }, heartbeats, loops, nextLoop } := by
  unfold connect
  dsimp only
  split
  · exact ⟨a.node.table, a.heartbeats, a.loops, a.nextLoop, rfl⟩
  · split
    · exact ⟨a.node.table, a.heartbeats, a.loops, a.nextLoop, rfl⟩
    · exact ⟨_, _, _, _, rfl⟩

theorem between_connect (a : Agent) (peer : Address) :
    Between m a (a.connect peer).value.2 := by
  obtain ⟨table, heartbeats, loops, nextLoop, hconnect⟩ := a.exists_connect peer
  rw [hconnect]
  exact .of_peerRun (.single (.other _ a.node.replay a.node.entropy)) rfl rfl

theorem between_disconnect (a : Agent) (peer : Address) :
    Between m a (a.disconnect peer).value.2 :=
  .of_peerRun (.single (.other _ a.node.replay a.node.entropy)) rfl rfl

theorem between_receive (a : Agent) (caller : Address) (request : Request) :
    Between m a (a.receive m caller request).2.2 :=
  .of_peerRun (a.node.answer_peerRun caller request) rfl rfl

/-- A task that is no round crashes without a trace in node and rounds. -/
theorem between_crash (h : Between m a b) (task : Task) : Between m a (b.crash task) := by
  cases task with
  | fill id =>
    obtain ⟨n, position, hrun, hn⟩ := h.node
    exact ⟨⟨n, position, hrun, by rw [← hn]; exact Exchanger.crashFill_node _ _⟩, h.rounds,
      h.nextRound⟩
  | heartbeat loop => exact ⟨h.node, h.rounds, h.nextRound⟩
  | request fill peer => exact h
  | probe loop => exact h
  | round id => exact h

theorem between_step {task : Task} (h : Between m a (a.stepOwn m task).value) :
    Between m a (a.step m task).2 := by
  have heeded : Between m a ((a.stepOwn m task).value.heed
      (a.reporter.hear (a.stepOwn m task).notices)) := ⟨h.node, h.rounds, h.nextRound⟩
  unfold step
  dsimp only
  split
  · exact between_crash heeded task
  · exact heeded

theorem between_heartbeat (a : Agent) (loop : Nat) :
    Between m a (a.stepOwn m (.heartbeat loop)).value := by
  unfold stepOwn
  dsimp only
  split
  · exact .of_node_eq rfl rfl rfl
  · next beat _ => exact .of_peerRun (beat.step_peerRun a.node) rfl rfl

structure Turned (m : Moment) (a b : Agent) (id : Nat) (r : RoundRun) : Prop where
  before : a.round? id = some r
  after : b.round? id = some (r.step a.toExchanger m).value.1
  node : b.node = (r.step a.toExchanger m).value.2.node
  others : ∀ other, other ≠ id → b.round? other = a.round? other
  nextRound : b.nextRound = a.nextRound

theorem Turned.turn {a b : Agent} {id : Nat} {r : RoundRun} (h : Turned m a b id r) :
    RoundRun.Turn m r a.node (r.step a.toExchanger m).value.1 b.node := by
  rw [h.node]
  exact r.step_turn a.toExchanger m

theorem stepOwn_round {id : Nat} {r : RoundRun} (h : a.round? id = some r) :
    (a.stepOwn m (.round id)).value =
      { a with
        toExchanger := (r.step a.toExchanger m).value.2
        rounds := Assoc.insert id (r.step a.toExchanger m).value.1 a.rounds } := by
  unfold stepOwn
  simp only [h]
  rfl

theorem turned_act {id : Nat} {r : RoundRun} (h : a.round? id = some r) :
    Turned m a (a.act m (.task (.round id))) id r := by
  -- a crash of a round has no consequences for the agent
  have hstep : a.act m (.task (.round id)) =
      ((a.stepOwn m (.round id)).value.heed
        (a.reporter.hear (a.stepOwn m (.round id)).notices)) := by
    unfold act step
    dsimp only
    split
    · rfl
    · rfl
  rw [hstep, stepOwn_round h]
  exact ⟨h, Assoc.get?_insert_self _ _ _, rfl, fun other hne => Assoc.get?_insert_of_ne hne _ _, rfl⟩

/-- A move is a step of a round, or it leaves the rounds alone. -/
theorem act_cases (a : Agent) (m : Moment) (v : Move) :
    (∃ id r, v = .task (.round id) ∧ Turned m a (a.act m v) id r) ∨ Between m a (a.act m v) := by
  have idle : Between m a a := .of_node_eq rfl rfl rfl
  cases v with
  | task task =>
    cases task with
    | request fill peer => exact Or.inr (between_step idle)
    | probe loop => exact Or.inr (between_step idle)
    | fill id =>
      have stepped := a.toExchanger.stepFill_peerRun (m := m) id
      exact Or.inr (between_step (.of_peerRun stepped rfl rfl))
    | heartbeat loop => exact Or.inr (between_step (between_heartbeat a loop))
    | round id =>
      cases hr : a.round? id with
      | none => exact Or.inr (between_step (by simpa [stepOwn, hr] using idle))
      | some r => exact Or.inl ⟨id, r, rfl, turned_act hr⟩
  | drive d => exact Or.inr (between_driven a m.now d)
  | call caller request => exact Or.inr (between_receive a caller request)
  | carried fill peer transit =>
    exact Or.inr (.of_node_eq (Exchanger.setTransit_node _ _ _ _) rfl rfl)
  | probed loop transit => exact Or.inr (.of_node_eq rfl rfl rfl)
  | connect peer => exact Or.inr (between_after (between_connect a peer))
  | disconnect peer => exact Or.inr (between_after (between_disconnect a peer))
  | shutDown => exact Or.inr (between_after (.of_node_eq rfl rfl rfl))
  | start plan signature startsAt => exact Or.inr (between_startRound a plan signature startsAt)
  | drop round => exact Or.inr (between_dropRound a round)
  | startFill kind key targets => exact Or.inr (.of_node_eq rfl rfl rfl)
  | cancelFill fill keep =>
    refine Or.inr (.of_node_eq ?_ rfl rfl)
    cases keep with
    | true => exact Exchanger.cancelFill_node _ _
    | false => exact Exchanger.releaseFill_node _ _
  | cancelAll => exact Or.inr (.of_node_eq rfl rfl rfl)
  | stand position => exact Or.inr (idle.setPosition position)

end Agent

end Adjudication
