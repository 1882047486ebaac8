import Adjudication.Proofs.FillMoves

namespace Adjudication

namespace Exchanger

variable {x x' : Exchanger} {id : Nat}

/-- A fill that is cancelled, if it is still there. -/
def Dismissed (x : Exchanger) (id : Nat) : Prop := ∀ f, x.fill? id = some f → f.cancelled = true

theorem Tended.dismissed (h : x.Tended x') (hid : id < x.nextFill) (hd : x.Dismissed id) :
    x'.Dismissed id := by
  intro f' hf'
  rcases h.fills id f' hf' with ⟨f, cancelled, held, hf, hkeeps, rfl⟩ | ⟨hle, _⟩
  · exact hkeeps (hd f hf)
  · omega

theorem cancelFill_dismissed (x : Exchanger) (id : Nat) : (x.cancelFill id).Dismissed id := by
  intro f' hf'
  unfold cancelFill at hf'
  split at hf'
  next hnone => cases hnone.symm.trans hf'
  next f hf =>
    rcases fill?_setFill hf' with ⟨_, rfl⟩ | ⟨hne, _⟩
    · rfl
    · exact absurd rfl hne

theorem releaseFill_dismissed (x : Exchanger) (id : Nat) : (x.releaseFill id).Dismissed id := by
  intro f' hf'
  unfold releaseFill at hf'
  split at hf'
  next hnone => cases hnone.symm.trans hf'
  next f hf =>
    rcases fill?_keepFill hf' with ⟨_, rfl⟩ | ⟨hne, _⟩
    · rfl
    · exact absurd rfl hne

end Exchanger

/-- The times that a round goes by: how long it stays in each of its loops, and how long it pauses between
two looks. -/
structure Pace where
  collection : Nat
  tally : Nat
  catchUp : Nat
  poll : Nat

def Pace.patience (p : Pace) : Goal → Nat
  | .collection => p.collection
  | .tally _ => p.tally

namespace RoundRun

variable {m : Moment} {r : RoundRun} {x : Exchanger}

def pace (r : RoundRun) (t : RoundTiming) : Pace :=
  ⟨t.collectionDeadline r.kind, r.finalizeTimeout, t.catchUp, t.poll⟩

/-- Whether a look for a goal can come to a verdict. -/
def Apt : Goal → Verdict → Prop
  | .collection, .agreed .. | .tally _, .collected .. => False
  | _, _ => True

/-- What a round makes of a look for a goal: the stage and the fills after it. -/
inductive Seen (m : Moment) (r : RoundRun) (x : Exchanger) (goal : Goal) (since fill : Nat) :
    RoundStage → Exchanger → Prop
  | pending (early : m.now < since + (r.pace x.node.config.round).patience goal) :
      Seen m r x goal since fill
        (.polling goal since fill (m.now + x.node.config.round.poll) (!x.isFillEnded fill)) x
  | settled (verdict : Verdict)
      (moved : verdict = .heightMoved → x.node.heightMoved r.key = true) (apt : Apt goal verdict) :
      Seen m r x goal since fill (.leaving goal fill verdict) (x.cancelFill fill)
  | deserted (ready : Bool) (members : m.members.size = 0) :
      Seen m r x goal since fill (.ended (.failed r.key .noMembers) m.now ready) (x.releaseFill fill)

/-- What a round makes of the start of a loop: there is a fill, and a first look. -/
inductive Opens (m : Moment) (r : RoundRun) (x : Exchanger) (goal : Goal) :
    RoundStage → Exchanger → Prop
  | deserted (ready : Bool) : Opens m r x goal (.ended (.failed r.key .noMembers) m.now ready) x
  | looked (stage : RoundStage) (x' : Exchanger) (members : m.members.size ≠ 0)
      (seen : Seen m r (x.startFill goal.kind r.key m.members.addresses).2 goal m.now x.nextFill stage
        x') : Opens m r x goal stage x'

/-- What a round makes of a look for peers that are behind. -/
inductive Awaits (m : Moment) (r : RoundRun) (x : Exchanger) (c : Commitment) (deadline : Nat) :
    RoundStage → Prop
  | waiting (early : m.now < deadline) :
      Awaits m r x c deadline (.catchingUp c deadline (m.now + x.node.config.round.poll))
  | done (ready : Bool) :
      Awaits m r x c deadline (.ended (.finalized r.key c.values c.digest) m.now ready)

/-- What a step may do before it looks. -/
structure Readied (x x₀ : Exchanger) : Prop where
  tended : x.Tended x₀
  nextFill : x₀.nextFill = x.nextFill
  height : x₀.node.position.height = x.node.position.height
  config : x₀.node.config = x.node.config

inductive Stride (m : Moment) (r : RoundRun) (x : Exchanger) : RoundRun → Exchanger → Prop
  | enter (x₀ : Exchanger) (stage : RoundStage) (x' : Exchanger) (starts : StartsOver r.stage)
      (readied : Readied x x₀)
      (opens : Opens m { r with key := ⟨x₀.node.position.height + 1, r.phase⟩ } x₀ .collection stage
        x') : Stride m r x { r with key := ⟨x₀.node.position.height + 1, r.phase⟩, stage } x'
  | look (goal : Goal) (since fill wake : Nat) (watching : Bool) (stage : RoundStage) (x' : Exchanger)
      (was : r.stage = .polling goal since fill wake watching)
      (seen : Seen m r x goal since fill stage x') : Stride m r x { r with stage } x'
  | commit (goal : Goal) (fill count need waited : Nat) (c : Commitment) (x₀ : Exchanger)
      (stage : RoundStage) (x' : Exchanger)
      (was : r.stage = .leaving goal fill (.collected count need waited)) (readied : Readied x x₀)
      (opens : Opens m r x₀ (.tally c) stage x') : Stride m r x { r with stage } x'
  | conclude (c : Commitment) (fill agreeing need : Nat) (x₀ : Exchanger) (stage : RoundStage)
      (was : r.stage = .leaving (.tally c) fill (.agreed agreeing need)) (readied : Readied x x₀)
      (awaits : Awaits m r x₀ c (m.now + x.node.config.round.catchUp) stage) :
      Stride m r x { r with stage } x₀
  | catchUp (c : Commitment) (deadline wake : Nat) (stage : RoundStage)
      (was : r.stage = .catchingUp c deadline wake) (awaits : Awaits m r x c deadline stage) :
      Stride m r x { r with stage } x
  | giveUp (goal : Goal) (fill : Nat) (verdict : Verdict) (reason : RoundFailure) (ready : Bool)
      (x₀ : Exchanger) (was : r.stage = .leaving goal fill verdict) (readied : Readied x x₀) :
      Stride m r x { r with stage := .ended (.failed r.key reason) m.now ready } x₀
  | idle (x₀ : Exchanger) (was : (∃ outcome time ready, r.stage = .ended outcome time ready) ∨
      ∃ fill agreeing need, r.stage = .leaving .collection fill (.agreed agreeing need))
      (readied : Readied x x₀) : Stride m r x r x₀

variable {n : Node} {key : RoundKey} {digest : String}

theorem pollCollection_pending {kind : RoundKind} {since : Nat}
    (h : n.pollCollection m key kind since = .pending) :
    m.now < since + n.config.round.collectionDeadline kind := by
  unfold Node.pollCollection at h
  split at h
  next => cases h
  next =>
    split at h
    next => cases h
    next =>
      dsimp only at h
      split at h
      next => split at h <;> cases h
      next hwaits =>
        simp only [Bool.or_eq_true, decide_eq_true_eq, not_or] at hwaits
        omega

theorem pollTally_pending {timeout since : Nat}
    (h : n.pollTally m key digest timeout since = .pending) : m.now < since + timeout := by
  unfold Node.pollTally at h
  split at h
  next => cases h
  next =>
    split at h
    next => cases h
    next =>
      dsimp only at h
      repeat (split at h; next => cases h)
      omega

theorem pollCollection_heightMoved {kind : RoundKind} {since : Nat}
    (h : n.pollCollection m key kind since = .settled .heightMoved) : n.heightMoved key = true := by
  unfold Node.pollCollection at h
  split at h
  next hmoved => exact hmoved
  next =>
    split at h
    next => cases h
    next =>
      dsimp only at h
      split at h
      next => split at h <;> cases h
      next => cases h

theorem pollTally_heightMoved {timeout since : Nat}
    (h : n.pollTally m key digest timeout since = .settled .heightMoved) :
    n.heightMoved key = true := by
  unfold Node.pollTally at h
  split at h
  next hmoved => exact hmoved
  next =>
    split at h
    next => cases h
    next =>
      dsimp only at h
      repeat (split at h; next => cases h)
      cases h

theorem pollCollection_ne_agreed {kind : RoundKind} {since agreeing need : Nat} :
    n.pollCollection m key kind since ≠ .settled (.agreed agreeing need) := by
  unfold Node.pollCollection
  dsimp only
  repeat' split
  all_goals simp

theorem poll_seen (r : RoundRun) (x : Exchanger) (m : Moment) (goal : Goal) (since fill : Nat) :
    ∃ stage, Seen m r x goal since fill stage (r.poll x m goal since fill).value.2 ∧
      (r.poll x m goal since fill).value.1 = { r with stage } := by
  unfold poll
  dsimp only
  split
  next hpending =>
    have hearly : m.now < since + (r.pace x.node.config.round).patience goal := by
      cases goal with
      | collection => exact pollCollection_pending hpending
      | tally c => exact pollTally_pending hpending
    exact ⟨_, .pending hearly, rfl⟩
  next hdeserted => exact ⟨_, .deserted _ (sight_deserted hdeserted), rfl⟩
  next verdict hsettled =>
    refine ⟨_, .settled verdict ?_ ?_, rfl⟩
    · rintro rfl
      cases goal with
      | collection => exact pollCollection_heightMoved hsettled
      | tally c => exact pollTally_heightMoved hsettled
    · cases goal with
      | collection =>
        cases verdict with
        | agreed agreeing need => exact absurd hsettled pollCollection_ne_agreed
        | _ => trivial
      | tally c =>
        cases verdict with
        | collected count need waited => exact absurd hsettled pollTally_ne_collected
        | _ => trivial

theorem Seen.node_eq {x' : Exchanger} {goal : Goal} {since fill : Nat} {stage : RoundStage}
    (h : Seen m r x goal since fill stage x') : x'.node = x.node := by
  cases h with
  | pending => rfl
  | settled => exact x.cancelFill_node fill
  | deserted => exact x.releaseFill_node fill

theorem Seen.nextFill_eq {x' : Exchanger} {goal : Goal} {since fill : Nat} {stage : RoundStage}
    (h : Seen m r x goal since fill stage x') : x'.nextFill = x.nextFill := by
  cases h with
  | pending => rfl
  | settled => exact x.cancelFill_nextFill fill
  | deserted => exact x.releaseFill_nextFill fill

theorem pursue_opens (r : RoundRun) (x : Exchanger) (m : Moment) (goal : Goal) :
    ∃ stage, Opens m r x goal stage (r.pursue x m goal).value.2 ∧
      (r.pursue x m goal).value.1 = { r with stage } := by
  unfold pursue
  split
  next => exact ⟨_, .deserted x.node.ready, rfl⟩
  next hmembers =>
    cases goal with
    | collection =>
      obtain ⟨stage, hseen, hstage⟩ := r.poll_seen
        (x.startFill .contribution r.key m.members.addresses).2 m .collection m.now x.nextFill
      exact ⟨stage, .looked _ _ hmembers hseen, hstage⟩
    | tally c =>
      obtain ⟨stage, hseen, hstage⟩ := r.poll_seen
        (x.startFill .hash r.key m.members.addresses).2 m (.tally c) m.now x.nextFill
      exact ⟨stage, .looked _ _ hmembers hseen, hstage⟩

theorem catchUp_awaits (r : RoundRun) (x : Exchanger) (m : Moment) (c : Commitment)
    (deadline : Nat) : ∃ stage, Awaits m r x c deadline stage ∧
      (r.catchUp x m c deadline).value = ({ r with stage }, x) := by
  unfold catchUp
  dsimp only
  split
  next => exact ⟨_, .done x.node.ready, rfl⟩
  next hwaits =>
    simp only [Bool.or_eq_true, decide_eq_true_eq, not_or] at hwaits
    exact ⟨_, .waiting (by omega), rfl⟩

theorem Stride.of_eq {r' r'' : RoundRun} {x' x'' : Exchanger} (h : Stride m r x r' x')
    (hr : r'' = r') (hx : x'' = x') : Stride m r x r'' x'' := by
  rw [hr, hx]
  exact h

theorem Readied.refl (x : Exchanger) : Readied x x := ⟨.refl x, rfl, rfl, rfl⟩

theorem Readied.trans {x₀ x₁ : Exchanger} (h : Readied x x₀) (h' : Readied x₀ x₁) : Readied x x₁ where
  tended := h.tended.trans h'.tended
  nextFill := h'.nextFill.trans h.nextFill
  height := h'.height.trans h.height
  config := h'.config.trans h.config

theorem Readied.of_node {n : Node} (hheight : n.position.height = x.node.position.height)
    (hconfig : n.config = x.node.config) : Readied x { x with node := n } :=
  ⟨.of_fills rfl rfl, rfl, hheight, hconfig⟩

theorem forgetFill_readied (x : Exchanger) (fill : Nat) : Readied x (x.forgetFill fill) :=
  ⟨x.forgetFill_tended fill, rfl, rfl, rfl⟩

theorem finalizePhase_height (p : Position) (height phase : Nat) :
    (p.finalizePhase height phase).value.2.height = p.height := by
  unfold Position.finalizePhase
  split <;> rfl

theorem attempt_stride {x₀ : Exchanger} (starts : StartsOver r.stage) (readied : Readied x x₀) :
    Stride m r x (r.attempt x₀ m).value.1 (r.attempt x₀ m).value.2 := by
  have hentered : Readied x { x₀ with node := r.entered x₀.node } := readied.trans (.of_node rfl rfl)
  obtain ⟨stage, hopens, hstage⟩ := pursue_opens
    { r with key := ⟨x₀.node.position.height + 1, r.phase⟩ }
    { x₀ with node := r.entered x₀.node } m .collection
  exact (Stride.enter _ stage _ starts hentered hopens).of_eq hstage rfl

theorem commit_stride {goal : Goal} {fill count need waited : Nat} {x₀ : Exchanger}
    (was : r.stage = .leaving goal fill (.collected count need waited)) (readied : Readied x x₀) :
    Stride m r x (r.commit x₀ m).value.1 (r.commit x₀ m).value.2 := by
  have hcommitted : Readied x { x₀ with node := r.committed x₀.node } :=
    readied.trans (.of_node rfl rfl)
  obtain ⟨stage, hopens, hstage⟩ := pursue_opens r
    { x₀ with node := r.committed x₀.node } m (.tally (r.collected x₀.node))
  exact (Stride.commit goal fill count need waited _ _ stage _ was hcommitted hopens).of_eq hstage rfl

theorem conclude_stride {c : Commitment} {fill agreeing need : Nat} {x₀ : Exchanger}
    (was : r.stage = .leaving (.tally c) fill (.agreed agreeing need)) (readied : Readied x x₀) :
    Stride m r x (r.conclude x₀ m c).value.1 (r.conclude x₀ m c).value.2 := by
  have hconcluded : Readied x { x₀ with node := { x₀.node with
      position := (x₀.node.position.finalizePhase (r.key.height - 1) r.phase).value.2 } } :=
    readied.trans (.of_node (finalizePhase_height _ _ _) rfl)
  obtain ⟨stage, hawaits, hvalue⟩ := r.catchUp_awaits { x₀ with node := { x₀.node with
      position := (x₀.node.position.finalizePhase (r.key.height - 1) r.phase).value.2 } } m c
    (m.now + x.node.config.round.catchUp)
  have hresult : (r.conclude x₀ m c).value = ({ r with stage }, { x₀ with node := { x₀.node with
      position := (x₀.node.position.finalizePhase (r.key.height - 1) r.phase).value.2 } }) := by
    rw [← hvalue, ← readied.config]
    rfl
  exact (Stride.conclude c fill agreeing need _ stage was hconcluded hawaits).of_eq
    (congrArg Prod.fst hresult) (congrArg Prod.snd hresult)

theorem leave_stride {goal : Goal} {fill : Nat} {verdict : Verdict} {x₀ : Exchanger}
    (was : r.stage = .leaving goal fill verdict) (readied : Readied x x₀) :
    Stride m r x (r.leave x₀ m goal verdict).value.1 (r.leave x₀ m goal verdict).value.2 := by
  cases verdict with
  | heightMoved =>
    have starts : StartsOver r.stage := by rw [was]; trivial
    cases goal with
    | collection => exact attempt_stride starts readied
    | tally c => exact attempt_stride starts (readied.trans (.of_node rfl rfl))
  | collected count need waited => exact commit_stride was readied
  | agreed agreeing need =>
    cases goal with
    | collection => exact .idle x₀ (Or.inr ⟨fill, agreeing, need, was⟩) readied
    | tally c => exact conclude_stride was readied
  | failed reason => exact .giveUp goal fill _ reason x₀.node.ready x₀ was readied

theorem step_stride (r : RoundRun) (x : Exchanger) (m : Moment) :
    Stride m r x (r.step x m).value.1 (r.step x m).value.2 := by
  unfold step
  split
  next hs => exact attempt_stride (by rw [hs]; trivial) (.of_node rfl rfl)
  next goal since fill wake watching hs =>
    obtain ⟨stage, hseen, hstage⟩ := r.poll_seen x m goal since fill
    exact (Stride.look goal since fill wake watching stage _ hs hseen).of_eq hstage rfl
  next goal fill verdict hs =>
    split
    next => exact .giveUp goal fill verdict _ _ _ hs (forgetFill_readied x fill)
    next => exact leave_stride hs (forgetFill_readied x fill)
  next c deadline wake hs =>
    obtain ⟨stage, hawaits, hvalue⟩ := r.catchUp_awaits x m c deadline
    exact (Stride.catchUp c deadline wake stage hs hawaits).of_eq (congrArg Prod.fst hvalue)
      (congrArg Prod.snd hvalue)
  next outcome time ready hs => exact .idle x (Or.inl ⟨outcome, time, ready, hs⟩) (.refl x)

theorem Opens.node_eq {x' : Exchanger} {goal : Goal} {stage : RoundStage}
    (h : Opens m r x goal stage x') : x'.node = x.node := by
  cases h with
  | deserted => rfl
  | looked stage x' members seen => exact seen.node_eq

theorem Stride.height_eq {r' : RoundRun} {x' : Exchanger} (h : Stride m r x r' x') :
    x'.node.position.height = x.node.position.height := by
  cases h with
  | enter x₀ stage x' starts readied opens =>
    rw [opens.node_eq]
    exact readied.height
  | look goal since fill wake watching stage x' was seen => rw [seen.node_eq]
  | commit goal fill count need waited c x₀ stage x' was readied opens =>
    rw [opens.node_eq]
    exact readied.height
  | conclude c fill agreeing need x₀ stage was readied awaits => exact readied.height
  | catchUp => rfl
  | giveUp goal fill verdict reason ready x₀ was readied => exact readied.height
  | idle x₀ was readied => exact readied.height

theorem Stride.times_eq {r' : RoundRun} {x' : Exchanger} (h : Stride m r x r' x')
    (t : RoundTiming) : r'.pace t = r.pace t ∧ r'.startsAt = r.startsAt := by
  cases h <;> exact ⟨rfl, rfl⟩

end RoundRun

namespace Fill

theorem ask_cancelled (f : Fill) (n : Node) (missing : List Address) (count index : Nat)
    (peer : Address) : (f.ask n missing count index peer).cancelled = f.cancelled := by
  unfold ask
  split <;> rfl

theorem askAll_cancelled (f : Fill) (n : Node) (missing : List Address) :
    (f.askAll n missing).cancelled = f.cancelled := by
  have hfold : ∀ (peers : List (Address × Nat)) (count : Nat) (f : Fill),
      (peers.foldl (fun f p => f.ask n missing count p.2 p.1) f).cancelled = f.cancelled := by
    intro peers count
    induction peers with
    | nil => exact fun f => rfl
    | cons p peers ih => exact fun f => (ih _).trans (f.ask_cancelled n missing count p.2 p.1)
  exact hfold _ _ f

theorem step_cancelled (f : Fill) (n : Node) (m : Moment) :
    (f.step n m).value.1.cancelled = f.cancelled := by
  have htaken : ∀ f₁ n₁, Takes m f n f₁ n₁ → f₁.cancelled = f.cancelled := by
    intro f₁ n₁ htakes
    cases htakes <;> rfl
  have hbatched : ∀ f₁ n₁ f₂ n₂, Batched m.now f₁ n₁ f₂ n₂ → f₂.cancelled = f₁.cancelled := by
    intro f₁ n₁ f₂ n₂ hbatch
    cases hbatch with
    | finish => rfl
    | ask missing entropy perm => exact f₁.askAll_cancelled _ missing
  obtain ⟨f₁, n₁, htakes, hresult | hresult⟩ := f.step_cases n m
  · rw [hresult]
    exact htaken f₁ n₁ htakes
  · rw [hresult]
    exact (hbatched _ _ _ _ (f₁.batch_batched n₁ m.now)).trans (htaken f₁ n₁ htakes)

theorem step_of_isEnded {f : Fill} (h : f.isEnded = true) (n : Node) (m : Moment) :
    (f.step n m).value.1 = f := by
  unfold isEnded at h
  unfold step
  split
  next hstage =>
    rw [hstage] at h
    cases h
  next hstage =>
    rw [hstage] at h
    cases h
  next => rfl

variable {m : Moment} {n : Node} {id : Nat} {f f' : Fill} {v : Move}

theorem Moved.isEnded (h : f.Moved m n id v f') (hf : f.isEnded = true) : f'.isEnded = true := by
  cases h with
  | marked => exact hf
  | stepped =>
    rw [step_of_isEnded hf]
    exact hf
  | crashed => rfl
  | carried => exact hf

theorem Moved.cancelled (h : f.Moved m n id v f') (hf : f.cancelled = true) :
    f'.cancelled = true := by
  cases h with
  | marked v cancelled held keeps => exact keeps hf
  | stepped => exact (f.step_cancelled n m).trans hf
  | crashed => exact (f.step_cancelled n m).trans hf
  | carried => exact hf

end Fill

namespace Agent

variable {a : Agent} {m : Moment} {v : Move} {id : Nat}

theorem isFillEnded_iff {x : Exchanger} :
    x.isFillEnded id = true ↔ ∀ f, x.fill? id = some f → f.isEnded = true := by
  unfold Exchanger.isFillEnded
  cases x.fill? id with
  | none => simp
  | some f => simp

/-- A fill that has ended, or is gone, does not come back. -/
theorem isFillEnded_act (hid : id < a.nextFill) (h : a.isFillEnded id = true) (m : Moment)
    (v : Move) : (a.act m v).isFillEnded id = true := by
  rw [isFillEnded_iff] at h ⊢
  intro f' hf'
  rcases fill_act hf' with ⟨f, hf, hmoved⟩ | ⟨hle, _⟩
  · exact hmoved.isEnded (h f hf)
  · omega

theorem dismissed_act (hid : id < a.nextFill) (h : a.Dismissed id) (m : Moment) (v : Move) :
    (a.act m v).Dismissed id := by
  intro f' hf'
  rcases fill_act hf' with ⟨f, hf, hmoved⟩ | ⟨hle, _⟩
  · exact hmoved.cancelled (h f hf)
  · omega

end Agent

theorem Node.PeerRun.config_eq {m : Moment} {n n' : Node} (s : Node.PeerRun m n n') :
    n'.config = n.config := by
  induction s with
  | refl => rfl
  | tail _ last ih =>
    rw [← ih]
    cases last with
    | entry peer kind key address entry => cases kind <;> rfl
    | report => rfl
    | other => rfl

theorem RoundRun.Turn.config_eq {m : Moment} {r r' : RoundRun} {n n' : Node}
    (t : Turn m r n r' n') : n'.config = n.config := by
  cases t <;> rfl

theorem Agent.config_act (a : Agent) (m : Moment) (v : Move) :
    (a.act m v).node.config = a.node.config := by
  rcases act_cases a m v with ⟨id, r, _, turned⟩ | between
  · exact turned.turn.config_eq
  · obtain ⟨n, position, hrun, hn⟩ := between.node
    rw [hn]
    exact hrun.config_eq

end Adjudication
