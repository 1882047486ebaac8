import Adjudication.Proofs.FillTurns

namespace Adjudication

/-- A fill that has not taken a step. -/
def Fill.Fresh (f : Fill) : Prop :=
  ∃ kind key targets cancelled held, f = ({ kind, key, targets, cancelled, held } : Fill)

/-- What a move makes of a fill: it marks it, it is a step of the fill, which may crash, or it is news of
one of its requests. A fill that was cancelled stays so. -/
inductive Fill.Moved (m : Moment) (n : Node) (id : Nat) (f : Fill) : Move → Fill → Prop
  | marked (v : Move) (cancelled held : Bool) (keeps : f.cancelled = true → cancelled = true) :
      Moved m n id f v { f with cancelled, held }
  | stepped : Moved m n id f (.task (.fill id)) (f.step n m).value.1
  | crashed : Moved m n id f (.task (.fill id)) ((f.step n m).value.1.ended .crashed)
  | carried (peer : Address) (transit : Transit) :
      Moved m n id f (.carried id peer transit) (f.carried peer transit)

theorem Fill.Moved.round_eq {m : Moment} {n : Node} {id : Nat} {f f' : Fill} {v : Move}
    (h : f.Moved m n id v f') : f'.kind = f.kind ∧ f'.key = f.key := by
  have asked := (f.step_asked_gains n m).1
  cases h with
  | marked => exact ⟨rfl, rfl⟩
  | stepped => exact ⟨asked.kind, asked.key⟩
  | crashed => exact ⟨asked.kind, asked.key⟩
  | carried => exact ⟨rfl, rfl⟩

namespace Exchanger

/-- The fills after are those before, some marked and some forgotten, and fresh ones with new numbers. -/
structure Tended (x x' : Exchanger) : Prop where
  nextFill : x.nextFill ≤ x'.nextFill
  fills : ∀ id f', x'.fill? id = some f' →
    (∃ f cancelled held, x.fill? id = some f ∧ (f.cancelled = true → cancelled = true) ∧
      f' = { f with cancelled, held }) ∨
    (x.nextFill ≤ id ∧ id < x'.nextFill ∧ f'.Fresh)

variable {x x' x'' : Exchanger} {id other : Nat} {f f' : Fill} {m : Moment}

theorem Tended.of_fills (hfills : x'.fills = x.fills) (hnext : x'.nextFill = x.nextFill) :
    x.Tended x' where
  nextFill := Nat.le_of_eq hnext.symm
  fills id f' h := by
    rw [fill?, hfills] at h
    exact Or.inl ⟨f', f'.cancelled, f'.held, h, fun hc => hc, rfl⟩

theorem Tended.refl (x : Exchanger) : x.Tended x := .of_fills rfl rfl

theorem Tended.trans (h : x.Tended x') (h' : x'.Tended x'') : x.Tended x'' where
  nextFill := Nat.le_trans h.nextFill h'.nextFill
  fills id f'' hf'' := by
    have hnext := h.nextFill
    have hnext' := h'.nextFill
    rcases h'.fills id f'' hf'' with ⟨f', cancelled, held, hf', hkeeps', rfl⟩ | ⟨hle, hlt, hfresh⟩
    · rcases h.fills id f' hf' with ⟨f, _, _, hf, hkeeps, rfl⟩ | ⟨hle, hlt, hfresh⟩
      · exact Or.inl ⟨f, cancelled, held, hf, fun hc => hkeeps' (hkeeps hc), rfl⟩
      · obtain ⟨kind, key, targets, _, _, rfl⟩ := hfresh
        exact Or.inr ⟨hle, by omega, kind, key, targets, cancelled, held, rfl⟩
    · exact Or.inr ⟨by omega, hlt, hfresh⟩

theorem fill?_forgetFill (h : (x.forgetFill id).fill? other = some f') :
    other ≠ id ∧ x.fill? other = some f' := by
  by_cases hid : other = id
  · subst id
    have hnone : (x.forgetFill other).fill? other = none := Assoc.get?_erase_self _ _
    cases hnone.symm.trans h
  · have hsame : (x.forgetFill id).fill? other = x.fill? other := Assoc.get?_erase_of_ne hid _
    exact ⟨hid, hsame.symm.trans h⟩

theorem fill?_setFill (h : (x.setFill id f).fill? other = some f') :
    other = id ∧ f' = f ∨ other ≠ id ∧ x.fill? other = some f' := by
  by_cases hid : other = id
  · subst id
    have hset : (x.setFill other f).fill? other = some f := Assoc.get?_insert_self _ _ _
    cases hset.symm.trans h
    exact Or.inl ⟨rfl, rfl⟩
  · have hsame : (x.setFill id f).fill? other = x.fill? other := Assoc.get?_insert_of_ne hid _ _
    exact Or.inr ⟨hid, hsame.symm.trans h⟩

theorem fill?_keepFill (h : (x.keepFill id f).fill? other = some f') :
    other = id ∧ f' = f ∨ other ≠ id ∧ x.fill? other = some f' := by
  unfold keepFill at h
  split at h
  · exact Or.inr (fill?_forgetFill h)
  · exact fill?_setFill h

theorem forgetFill_tended (x : Exchanger) (id : Nat) : x.Tended (x.forgetFill id) where
  nextFill := Nat.le_refl _
  fills _ f' h := Or.inl ⟨f', f'.cancelled, f'.held, (fill?_forgetFill h).2, fun hc => hc, rfl⟩

theorem setFill_tended (h : x.fill? id = some f) (cancelled held : Bool)
    (hkeeps : f.cancelled = true → cancelled = true) : x.Tended (x.setFill id { f with cancelled, held }) where
  nextFill := Nat.le_refl _
  fills other f' hf' := by
    rcases fill?_setFill hf' with ⟨rfl, rfl⟩ | ⟨_, hold⟩
    · exact Or.inl ⟨f, cancelled, held, h, hkeeps, rfl⟩
    · exact Or.inl ⟨f', f'.cancelled, f'.held, hold, fun hc => hc, rfl⟩

theorem cancelFill_tended (x : Exchanger) (id : Nat) : x.Tended (x.cancelFill id) := by
  unfold cancelFill
  split
  · exact .refl x
  · next f hf => exact setFill_tended hf true f.held fun _ => rfl

theorem releaseFill_tended (x : Exchanger) (id : Nat) : x.Tended (x.releaseFill id) := by
  unfold releaseFill keepFill
  split
  · exact .refl x
  · next f hf =>
    split
    · exact x.forgetFill_tended id
    · exact setFill_tended hf true false fun _ => rfl

theorem startFill_tended (x : Exchanger) (kind : EntryKind) (key : RoundKey)
    (targets : List Address) : x.Tended (x.startFill kind key targets).2 where
  nextFill := Nat.le_succ _
  fills id f' h := by
    have hset : (x.setFill x.nextFill
        { kind, key, targets, cancelled := x.stopped }).fill? id = some f' := h
    rcases fill?_setFill hset with ⟨rfl, rfl⟩ | ⟨_, hold⟩
    · exact Or.inr ⟨Nat.le_refl _, Nat.lt_succ_self _, kind, key, targets, x.stopped, true, rfl⟩
    · exact Or.inl ⟨f', f'.cancelled, f'.held, hold, fun hc => hc, rfl⟩

theorem cancelAll_tended (x : Exchanger) : x.Tended x.cancelAll where
  nextFill := Nat.le_refl _
  fills id f' h := by
    have hmap : x.cancelAll.fill? id =
        (x.fill? id).map fun f => { f with cancelled := true } := by
      unfold fill? cancelAll
      induction x.fills with
      | nil => rfl
      | cons g fills ih =>
        by_cases hid : id = g.1
        · simp [Assoc.get?, hid]
        · simpa [Assoc.get?, hid] using ih
    obtain ⟨f, hf, rfl⟩ := Option.map_eq_some_iff.mp (hmap.symm.trans h)
    exact Or.inl ⟨f, true, f.held, hf, fun _ => rfl, rfl⟩

@[simp] theorem keepFill_nextFill (x : Exchanger) (id : Nat) (f : Fill) :
    (x.keepFill id f).nextFill = x.nextFill := by
  unfold keepFill
  split <;> rfl

@[simp] theorem cancelFill_nextFill (x : Exchanger) (id : Nat) :
    (x.cancelFill id).nextFill = x.nextFill := by
  unfold cancelFill
  split <;> rfl

@[simp] theorem releaseFill_nextFill (x : Exchanger) (id : Nat) :
    (x.releaseFill id).nextFill = x.nextFill := by
  unfold releaseFill
  split
  · rfl
  · exact keepFill_nextFill _ _ _

@[simp] theorem crashFill_nextFill (x : Exchanger) (id : Nat) :
    (x.crashFill id).nextFill = x.nextFill := by
  unfold crashFill
  split
  · rfl
  · exact keepFill_nextFill _ _ _

@[simp] theorem setTransit_nextFill (x : Exchanger) (id : Nat) (peer : Address) (transit : Transit) :
    (x.setTransit id peer transit).nextFill = x.nextFill := by
  unfold setTransit
  split <;> rfl

@[simp] theorem stepFill_nextFill (x : Exchanger) (id : Nat) (m : Moment) :
    (x.stepFill id m).value.nextFill = x.nextFill := by
  unfold stepFill
  split
  · rfl
  · exact keepFill_nextFill _ _ _

/-- What a step of a fill leaves: the fill after the step, and the others. -/
theorem fill?_stepFill (h : (x.stepFill id m).value.fill? other = some f') :
    (other = id ∧ ∃ f, x.fill? id = some f ∧ f' = (f.step x.node m).value.1) ∨
      other ≠ id ∧ x.fill? other = some f' := by
  unfold stepFill at h
  split at h
  next hnone =>
    by_cases hid : other = id
    · subst id
      cases hnone.symm.trans h
    · exact Or.inr ⟨hid, h⟩
  next f hf =>
    rcases fill?_keepFill h with ⟨hother, heq⟩ | hold
    · exact Or.inl ⟨hother, f, hf, heq⟩
    · exact Or.inr hold

end Exchanger

open Exchanger

namespace RoundRun

variable {m : Moment}

theorem poll_tended (r : RoundRun) (x : Exchanger) (m : Moment) (goal : Goal) (since fill : Nat) :
    x.Tended (r.poll x m goal since fill).value.2 := by
  unfold poll
  dsimp only
  split
  next => exact .refl x
  next => exact x.releaseFill_tended fill
  next => exact x.cancelFill_tended fill

theorem pursue_tended (r : RoundRun) (x : Exchanger) (m : Moment) (goal : Goal) :
    x.Tended (r.pursue x m goal).value.2 := by
  unfold pursue
  split
  next => exact .refl x
  next =>
    refine Tended.trans ?_ (r.poll_tended _ m goal m.now x.nextFill)
    exact x.startFill_tended _ r.key m.members.addresses

theorem catchUp_tended (r : RoundRun) (x : Exchanger) (m : Moment) (c : Commitment)
    (deadline : Nat) : x.Tended (r.catchUp x m c deadline).value.2 := by
  unfold catchUp
  dsimp only
  split
  next => exact .refl x
  next => exact .refl x

theorem attempt_tended (r : RoundRun) (x : Exchanger) (m : Moment) :
    x.Tended (r.attempt x m).value.2 := by
  have entered : x.Tended { x with node := r.entered x.node } := .of_fills rfl rfl
  exact entered.trans (pursue_tended _ _ m .collection)

theorem leave_tended (r : RoundRun) (x : Exchanger) (m : Moment) (goal : Goal) (verdict : Verdict) :
    x.Tended (r.leave x m goal verdict).value.2 := by
  have unready : x.Tended { x with node := { x.node with ready := false } } := .of_fills rfl rfl
  cases verdict with
  | heightMoved =>
    cases goal with
    | collection => exact r.attempt_tended x m
    | tally c => exact unready.trans (r.attempt_tended _ m)
  | collected count need waited =>
    have committed : x.Tended { x with node := r.committed x.node } := .of_fills rfl rfl
    exact committed.trans (r.pursue_tended _ m (.tally (r.collected x.node)))
  | agreed agreeing need =>
    cases goal with
    | collection => exact .refl x
    | tally c =>
      have concluded : x.Tended { x with node := { x.node with
          position := (x.node.position.finalizePhase (r.key.height - 1) r.phase).value.2 } } :=
        .of_fills rfl rfl
      exact concluded.trans (r.catchUp_tended _ m c _)
  | failed reason => exact .refl x

theorem step_tended (r : RoundRun) (x : Exchanger) (m : Moment) :
    x.Tended (r.step x m).value.2 := by
  unfold step
  split
  next =>
    have unready : x.Tended { x with node := { x.node with ready := false } } := .of_fills rfl rfl
    exact unready.trans (r.attempt_tended _ m)
  next goal since fill _ _ _ => exact r.poll_tended x m goal since fill
  next goal fill verdict _ =>
    have forgotten := x.forgetFill_tended fill
    split
    next => exact forgotten
    next => exact forgotten.trans (r.leave_tended _ m goal verdict)
  next c deadline _ _ => exact r.catchUp_tended x m c deadline
  next => exact .refl x

end RoundRun

namespace Agent

variable {a : Agent} {m : Moment} {v : Move} {id other : Nat} {f' : Fill}

theorem dropRound_tended (a : Agent) (round : Nat) :
    a.toExchanger.Tended (a.dropRound round).toExchanger := by
  unfold dropRound
  dsimp only
  split
  next f _ => exact a.toExchanger.releaseFill_tended f
  next => exact .refl _

theorem driven_tended (a : Agent) (now : Nat) (d : Driver AppState) :
    a.toExchanger.Tended (a.driven now d).toExchanger := by
  obtain ⟨b, appState, hdrives, hdriven⟩ := a.driven_drives now d
  rw [hdriven]
  cases hdrives with
  | stand position => exact .of_fills rfl rfl
  | drop round position => exact (a.dropRound_tended round).trans (.of_fills rfl rfl)
  | start position plan => exact .of_fills rfl rfl

theorem connect_tended (a : Agent) (peer : Address) :
    a.toExchanger.Tended (a.after (a.connect peer)).toExchanger := by
  obtain ⟨table, heartbeats, loops, nextLoop, hconnect⟩ := a.exists_connect peer
  have hvalue : a.toExchanger.Tended (a.connect peer).value.2.toExchanger := by
    rw [hconnect]
    exact .of_fills rfl rfl
  exact hvalue

theorem exchanger_act_round {id : Nat} {r : RoundRun} (hr : a.round? id = some r) :
    (a.act m (.task (.round id))).toExchanger = (r.step a.toExchanger m).value.2 := by
  have hown := congrArg Agent.toExchanger (stepOwn_round (m := m) hr)
  unfold act step
  dsimp only
  split
  next => exact hown
  next => exact hown

/-- A step of a task that is no fill tends the fills. -/
theorem step_tended (a : Agent) (m : Moment) {task : Task} (h : ∀ id, task ≠ .fill id) :
    a.toExchanger.Tended (a.step m task).2.toExchanger := by
  have hown : a.toExchanger.Tended (a.stepOwn m task).value.toExchanger := by
    unfold stepOwn
    cases task with
    | fill id => exact absurd rfl (h id)
    | heartbeat loop =>
      dsimp only
      split
      next => exact .refl _
      next => exact .of_fills rfl rfl
    | round id =>
      dsimp only
      split
      next => exact .refl _
      next r _ => exact r.step_tended a.toExchanger m
    | request fill peer => exact .refl _
    | probe loop => exact .refl _
  have hcrash : ∀ b : Agent, (b.crash task).toExchanger = b.toExchanger := by
    intro b
    cases task with
    | fill id => exact absurd rfl (h id)
    | heartbeat loop => rfl
    | request fill peer => rfl
    | probe loop => rfl
    | round id => rfl
  unfold step
  dsimp only
  split
  next =>
    rw [hcrash]
    exact hown
  next => exact hown

/-- A move that is no step of a fill and carries none of its requests tends the fills. -/
theorem act_tended (a : Agent) (m : Moment) (hfill : ∀ id, v ≠ .task (.fill id))
    (hcarried : ∀ fill peer transit, v ≠ .carried fill peer transit) :
    a.toExchanger.Tended (a.act m v).toExchanger := by
  cases v with
  | task task => exact a.step_tended m fun id h => hfill id (congrArg Move.task h)
  | drive d => exact a.driven_tended m.now d
  | carried fill peer transit => exact absurd rfl (hcarried fill peer transit)
  | connect peer => exact a.connect_tended peer
  | drop round => exact a.dropRound_tended round
  | startFill kind key targets => exact a.toExchanger.startFill_tended kind key targets
  | cancelFill fill keep =>
    cases keep with
    | true => exact a.toExchanger.cancelFill_tended fill
    | false => exact a.toExchanger.releaseFill_tended fill
  | cancelAll => exact a.toExchanger.cancelAll_tended
  | shutDown => exact a.toExchanger.cancelAll_tended
  | _ => exact .of_fills rfl rfl

/-- A step of a fill leaves it stepped or crashed, and the others as they are. -/
theorem fill?_act_fill (h : (a.act m (.task (.fill id))).fill? other = some f') :
    (other = id ∧ ∃ f, a.fill? id = some f ∧ (f' = (f.step a.node m).value.1 ∨
      f' = (f.step a.node m).value.1.ended .crashed)) ∨
    other ≠ id ∧ a.fill? other = some f' := by
  have hstepped : ∀ {g}, (a.toExchanger.stepFill id m).value.fill? other = some g →
      (other = id ∧ ∃ f, a.fill? id = some f ∧ g = (f.step a.node m).value.1) ∨
        other ≠ id ∧ a.fill? other = some g := fun hmem => fill?_stepFill hmem
  have hwhole : (a.toExchanger.stepFill id m).value.fill? other = some f' →
      (other = id ∧ ∃ f, a.fill? id = some f ∧ (f' = (f.step a.node m).value.1 ∨
        f' = (f.step a.node m).value.1.ended .crashed)) ∨
      other ≠ id ∧ a.fill? other = some f' := by
    intro hmem
    rcases hstepped hmem with ⟨hid, f, hf, heq⟩ | hold
    · exact Or.inl ⟨hid, f, hf, Or.inl heq⟩
    · exact Or.inr hold
  unfold act step at h
  dsimp only at h
  split at h
  next =>
    have hcrashed : ((a.toExchanger.stepFill id m).value.crashFill id).fill? other = some f' := h
    unfold crashFill at hcrashed
    split at hcrashed
    next => exact hwhole hcrashed
    next g hg =>
      rcases fill?_keepFill hcrashed with ⟨rfl, rfl⟩ | ⟨_, hold⟩
      · rcases hstepped hg with ⟨_, f, hf, rfl⟩ | ⟨hne, _⟩
        · exact Or.inl ⟨rfl, f, hf, Or.inr rfl⟩
        · exact absurd rfl hne
      · exact hwhole hold
  next => exact hwhole h

theorem moved_of_stepFill (h : (a.act m (.task (.fill id))).fill? other = some f') :
    ∃ f, a.fill? other = some f ∧ f.Moved m a.node other (.task (.fill id)) f' := by
  rcases fill?_act_fill h with ⟨rfl, f, hf, rfl | rfl⟩ | ⟨_, hold⟩
  · exact ⟨f, hf, .stepped⟩
  · exact ⟨f, hf, .crashed⟩
  · exact ⟨f', hold, .marked _ f'.cancelled f'.held fun hc => hc⟩

theorem moved_of_carried {peer : Address} {transit : Transit}
    (h : (a.act m (.carried id peer transit)).fill? other = some f') :
    ∃ f, a.fill? other = some f ∧ f.Moved m a.node other (.carried id peer transit) f' := by
  have hset : (a.toExchanger.setTransit id peer transit).fill? other = some f' := h
  unfold setTransit at hset
  split at hset
  next => exact ⟨f', hset, .marked _ f'.cancelled f'.held fun hc => hc⟩
  next f hf =>
    rcases fill?_setFill hset with ⟨rfl, rfl⟩ | ⟨_, hold⟩
    · exact ⟨f, hf, .carried peer transit⟩
    · exact ⟨f', hold, .marked _ f'.cancelled f'.held fun hc => hc⟩

theorem nextFill_stepFill (a : Agent) (m : Moment) (id : Nat) :
    (a.act m (.task (.fill id))).nextFill = a.nextFill := by
  have hstepped : (a.toExchanger.stepFill id m).value.nextFill = a.nextFill :=
    stepFill_nextFill _ _ _
  unfold act step
  dsimp only
  split
  next => exact (crashFill_nextFill _ _).trans hstepped
  next => exact hstepped

theorem nextFill_le_act (a : Agent) (m : Moment) (v : Move) :
    a.nextFill ≤ (a.act m v).nextFill := by
  by_cases hfill : ∃ id, v = .task (.fill id)
  · obtain ⟨id, rfl⟩ := hfill
    exact Nat.le_of_eq (a.nextFill_stepFill m id).symm
  · by_cases hcarried : ∃ fill peer transit, v = .carried fill peer transit
    · obtain ⟨fill, peer, transit, rfl⟩ := hcarried
      exact Nat.le_of_eq (setTransit_nextFill _ _ _ _).symm
    · exact (a.act_tended m (fun id hv => hfill ⟨id, hv⟩)
        fun fill peer transit hv => hcarried ⟨fill, peer, transit, hv⟩).nextFill

/-- A fill of an agent after a move is one from before, moved, or a fresh one with a new number. -/
theorem fill_act (h : (a.act m v).fill? id = some f') :
    (∃ f, a.fill? id = some f ∧ f.Moved m a.node id v f') ∨
    (a.nextFill ≤ id ∧ id < (a.act m v).nextFill ∧ f'.Fresh) := by
  by_cases hfill : ∃ id, v = .task (.fill id)
  · obtain ⟨other, rfl⟩ := hfill
    exact Or.inl (moved_of_stepFill h)
  · by_cases hcarried : ∃ fill peer transit, v = .carried fill peer transit
    · obtain ⟨fill, peer, transit, rfl⟩ := hcarried
      exact Or.inl (moved_of_carried h)
    · have htended := a.act_tended m (fun id hv => hfill ⟨id, hv⟩)
        fun fill peer transit hv => hcarried ⟨fill, peer, transit, hv⟩
      rcases htended.fills id f' h with ⟨f, cancelled, held, hf, hkeeps, rfl⟩ | hfresh
      · exact Or.inl ⟨f, hf, .marked v cancelled held hkeeps⟩
      · exact Or.inr hfresh

end Agent

end Adjudication
