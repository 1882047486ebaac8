import Adjudication.Round
import Mathlib.Tactic.Basic

namespace Adjudication

namespace Exchanger

@[simp] theorem keepFill_node (x : Exchanger) (id : Nat) (f : Fill) :
    (x.keepFill id f).node = x.node := by
  unfold keepFill
  split <;> rfl

@[simp] theorem cancelFill_node (x : Exchanger) (id : Nat) : (x.cancelFill id).node = x.node := by
  unfold cancelFill
  split <;> rfl

@[simp] theorem releaseFill_node (x : Exchanger) (id : Nat) : (x.releaseFill id).node = x.node := by
  unfold releaseFill
  split
  · rfl
  · exact keepFill_node _ _ _

@[simp] theorem crashFill_node (x : Exchanger) (id : Nat) : (x.crashFill id).node = x.node := by
  unfold crashFill
  split
  · rfl
  · exact keepFill_node _ _ _

@[simp] theorem setTransit_node (x : Exchanger) (id : Nat) (peer : Address) (transit : Transit) :
    (x.setTransit id peer transit).node = x.node := by
  unfold setTransit
  split <;> rfl

end Exchanger

namespace RoundRun

/-- What a round sees when it looks at the caches for a goal. -/
def sight (r : RoundRun) (n : Node) (m : Moment) (goal : Goal) (since : Nat) : Poll :=
  match goal with
  | .collection => n.pollCollection m r.key r.kind since
  | .tally c => n.pollTally m r.key c.digest r.finalizeTimeout since

inductive Looked (r : RoundRun) (n : Node) (m : Moment) (goal : Goal) : RoundStage → Prop
  | pending (since fill wake : Nat) (watching : Bool) :
      Looked r n m goal (.polling goal since fill wake watching)
  | settled (since fill : Nat) (verdict : Verdict)
      (seen : r.sight n m goal since = .settled verdict) :
      Looked r n m goal (.leaving goal fill verdict)
  | deserted (time : Nat) (ready : Bool) (members : m.members.size = 0) :
      Looked r n m goal (.ended (.failed r.key .noMembers) time ready)

/-- The stage of a round that has its majority and waits for those behind. -/
inductive Closing (r : RoundRun) (c : Commitment) : RoundStage → Prop
  | waiting (deadline wake : Nat) : Closing r c (.catchingUp c deadline wake)
  | done (time : Nat) (ready : Bool) :
      Closing r c (.ended (.finalized r.key c.values c.digest) time ready)

/-- The node of a round that starts over: it is in the round's phase and has a contribution. -/
def entered (r : RoundRun) (n : Node) : Node :=
  ((n.enterPhase r.phase).value.publish .contribution ⟨n.position.height + 1, r.phase⟩
    r.contribution).value

/-- What a round commits to when it has collected enough. -/
def collected (r : RoundRun) (n : Node) : Commitment :=
  .ofEntries (n.caches.contributions.entries r.key)

def committed (r : RoundRun) (n : Node) : Node :=
  ({ n with ready := true }.publishDigest r.key (r.collected n).digest).value

/-- Whether a round in a stage starts over with its next step. -/
def StartsOver : RoundStage → Prop
  | .scheduled | .leaving _ _ .heightMoved => True
  | _ => False

/-- A turn of the round `r` with the node `n`: the round and the node after it. -/
inductive Turn (m : Moment) (r : RoundRun) (n : Node) : RoundRun → Node → Prop
  | enter (ready : Bool) (stage : RoundStage) (starts : StartsOver r.stage)
      (looked : Looked { r with key := ⟨n.position.height + 1, r.phase⟩ }
        (r.entered { n with ready }) m .collection stage) :
      Turn m r n { r with key := ⟨n.position.height + 1, r.phase⟩, stage } (r.entered { n with ready })
  | look (goal : Goal) (since fill wake : Nat) (watching : Bool) (stage : RoundStage)
      (was : r.stage = .polling goal since fill wake watching) (looked : Looked r n m goal stage) :
      Turn m r n { r with stage } n
  | commit (goal : Goal) (fill count need waited : Nat) (stage : RoundStage)
      (was : r.stage = .leaving goal fill (.collected count need waited))
      (looked : Looked r (r.committed n) m (.tally (r.collected n)) stage) :
      Turn m r n { r with stage } (r.committed n)
  | conclude (c : Commitment) (fill agreeing need : Nat) (stage : RoundStage)
      (was : r.stage = .leaving (.tally c) fill (.agreed agreeing need))
      (closing : Closing r c stage) :
      Turn m r n { r with stage }
        { n with position := (n.position.finalizePhase (r.key.height - 1) r.phase).value.2 }
  | catchUp (c : Commitment) (deadline wake : Nat) (stage : RoundStage)
      (was : r.stage = .catchingUp c deadline wake) (closing : Closing r c stage) :
      Turn m r n { r with stage } n
  | giveUp (goal : Goal) (fill : Nat) (verdict : Verdict) (reason : RoundFailure) (time : Nat)
      (ready : Bool) (was : r.stage = .leaving goal fill verdict) :
      Turn m r n { r with stage := .ended (.failed r.key reason) time ready } n
  | idle (was : (∃ outcome time ready, r.stage = .ended outcome time ready) ∨
      ∃ fill agreeing need, r.stage = .leaving .collection fill (.agreed agreeing need)) :
      Turn m r n r n

variable {m : Moment}

theorem Turn.of_eq {r r' r'' : RoundRun} {n n' n'' : Node} (h : Turn m r n r' n') (hr : r'' = r')
    (hn : n'' = n') : Turn m r n r'' n'' := by
  rw [hr, hn]
  exact h

theorem pollCollection_deserted {n : Node} {key : RoundKey} {kind : RoundKind} {since : Nat}
    (h : n.pollCollection m key kind since = .deserted) : m.members.size = 0 := by
  unfold Node.pollCollection at h
  split at h
  next => simp at h
  next =>
    split at h
    next hz => exact hz
    next =>
      dsimp only at h
      split at h
      next => split at h <;> simp at h
      next => simp at h

theorem pollTally_deserted {n : Node} {key : RoundKey} {digest : String} {timeout since : Nat}
    (h : n.pollTally m key digest timeout since = .deserted) : m.members.size = 0 := by
  unfold Node.pollTally at h
  split at h
  next => simp at h
  next =>
    split at h
    next hz => exact hz
    next =>
      dsimp only at h
      repeat (split at h; next => simp at h)
      simp at h

theorem sight_deserted {r : RoundRun} {n : Node} {goal : Goal} {since : Nat}
    (h : r.sight n m goal since = .deserted) : m.members.size = 0 := by
  cases goal with
  | collection => exact pollCollection_deserted h
  | tally c => exact pollTally_deserted h

theorem poll_looked (r : RoundRun) (x : Exchanger) (goal : Goal) (since fill : Nat) :
    ∃ stage, Looked r x.node m goal stage ∧
      (r.poll x m goal since fill).value.1 = { r with stage } ∧
      (r.poll x m goal since fill).value.2.node = x.node := by
  unfold poll
  dsimp only
  split
  next => exact ⟨_, .pending since fill _ _, rfl, rfl⟩
  next hd => exact ⟨_, .deserted _ _ (sight_deserted hd), rfl, by simp [fail]⟩
  next verdict hs => exact ⟨_, .settled since fill verdict hs, rfl, x.cancelFill_node fill⟩

theorem pursue_looked (r : RoundRun) (x : Exchanger) (goal : Goal) :
    ∃ stage, Looked r x.node m goal stage ∧
      (r.pursue x m goal).value.1 = { r with stage } ∧ (r.pursue x m goal).value.2.node = x.node := by
  unfold pursue
  split
  next hz => exact ⟨_, .deserted m.now x.node.ready hz, rfl, rfl⟩
  next =>
    cases goal with
    | collection =>
      exact r.poll_looked (x.startFill .contribution r.key m.members.addresses).2 .collection m.now
        x.nextFill
    | tally c =>
      exact r.poll_looked (x.startFill .hash r.key m.members.addresses).2 (.tally c) m.now x.nextFill

theorem catchUp_closing (r : RoundRun) (x : Exchanger) (c : Commitment) (deadline : Nat) :
    ∃ stage, Closing r c stage ∧ (r.catchUp x m c deadline).value.1 = { r with stage } ∧
      (r.catchUp x m c deadline).value.2.node = x.node := by
  unfold catchUp
  dsimp only
  split
  · exact ⟨_, .done m.now x.node.ready, rfl, rfl⟩
  · exact ⟨_, .waiting deadline _, rfl, rfl⟩

theorem attempt_turn {r : RoundRun} (starts : StartsOver r.stage) (x : Exchanger) (ready : Bool) :
    Turn m r x.node (r.attempt { x with node := { x.node with ready } } m).value.1
      (r.attempt { x with node := { x.node with ready } } m).value.2.node := by
  obtain ⟨stage, looked, hr, hn⟩ := pursue_looked (m := m)
    { r with key := ⟨x.node.position.height + 1, r.phase⟩ }
    { x with node := r.entered { x.node with ready } } .collection
  exact (Turn.enter ready stage starts looked).of_eq hr hn

theorem commit_turn {r : RoundRun} {goal : Goal} {fill count need waited : Nat}
    (was : r.stage = .leaving goal fill (.collected count need waited)) (x : Exchanger) :
    Turn m r x.node (r.commit x m).value.1 (r.commit x m).value.2.node := by
  obtain ⟨stage, looked, hr, hn⟩ := pursue_looked (m := m) r
    { x with node := r.committed x.node } (.tally (r.collected x.node))
  exact (Turn.commit goal fill count need waited stage was looked).of_eq hr hn

theorem conclude_turn {r : RoundRun} {c : Commitment} {fill agreeing need : Nat}
    (was : r.stage = .leaving (.tally c) fill (.agreed agreeing need)) (x : Exchanger) :
    Turn m r x.node (r.conclude x m c).value.1 (r.conclude x m c).value.2.node := by
  obtain ⟨stage, closing, hr, hn⟩ := catchUp_closing (m := m) r
    { x with node := { x.node with
      position := (x.node.position.finalizePhase (r.key.height - 1) r.phase).value.2 } } c
    (m.now + x.node.config.round.catchUp)
  exact (Turn.conclude c fill agreeing need stage was closing).of_eq hr hn

theorem leave_turn {r : RoundRun} {goal : Goal} {fill : Nat} {verdict : Verdict}
    (was : r.stage = .leaving goal fill verdict) (x : Exchanger) :
    Turn m r x.node (r.leave x m goal verdict).value.1 (r.leave x m goal verdict).value.2.node := by
  cases verdict with
  | heightMoved =>
    have starts : StartsOver r.stage := by rw [was]; trivial
    cases goal with
    | collection => exact attempt_turn starts x x.node.ready
    | tally c => exact attempt_turn starts x false
  | collected count need waited => exact commit_turn was x
  | agreed agreeing need =>
    cases goal with
    | collection => exact .idle (Or.inr ⟨fill, agreeing, need, was⟩)
    | tally c => exact conclude_turn was x
  | failed reason => exact .giveUp goal fill _ reason m.now x.node.ready was

theorem step_turn (r : RoundRun) (x : Exchanger) (m : Moment) :
    Turn m r x.node (r.step x m).value.1 (r.step x m).value.2.node := by
  unfold step
  split
  next hs => exact attempt_turn (by rw [hs]; trivial) x false
  next goal since fill wake watching hs =>
    obtain ⟨stage, looked, hr, hn⟩ := r.poll_looked (m := m) x goal since fill
    exact (Turn.look goal since fill wake watching stage hs looked).of_eq hr hn
  next goal fill verdict hs =>
    split
    · exact .giveUp goal fill verdict _ m.now x.node.ready hs
    · exact leave_turn hs (x.forgetFill fill)
  next c deadline wake hs =>
    obtain ⟨stage, closing, hr, hn⟩ := r.catchUp_closing (m := m) x c deadline
    exact (Turn.catchUp c deadline wake stage hs closing).of_eq hr hn
  next outcome time ready hs => exact .idle (Or.inl ⟨outcome, time, ready, hs⟩)

end RoundRun

end Adjudication
