import Adjudication.Proofs.DrivenNodes

namespace Adjudication

theorem Agent.outcome?_startRound (a : Agent) (plan : PhasePlan) (signature : Signature) (now : Nat) :
    (a.startRound plan signature now).2.outcome? a.nextRound = none := by
  rw [outcome?, round?, startRound, Assoc.get?_insert_self]
  rfl

namespace Driver

variable {σ : Type} {d : Driver σ} {a : Agent} {s : σ} {now round since : Nat} {outcome : RoundOutcome}

/-- A driver pauses, its round has ended or is running, or it has stopped. -/
theorem stage_cases (d : Driver σ) (a : Agent) : d.stage.IsPause ∨
    (∃ round since outcome, d.stage = .inRound round since ∧ a.outcome? round = some outcome) ∨
    (∃ round since, d.stage = .inRound round since ∧ a.outcome? round = none) ∨ d.stage = .stopped := by
  cases d.stage with
  | starting | planning | sleeping => exact Or.inl trivial
  | inRound round since =>
    cases hended : a.outcome? round with
    | some outcome => exact Or.inr (Or.inl ⟨round, since, outcome, rfl, hended⟩)
    | none => exact Or.inr (Or.inr (Or.inl ⟨round, since, rfl, hended⟩))
  | stopped => exact Or.inr (Or.inr (Or.inr rfl))

theorem step_of_pause (h : d.stage.IsPause) : (d.step a s now).value = (d.plan a s now).value := by
  unfold step
  cases hstage : d.stage with
  | starting => rfl
  | planning => rfl
  | sleeping wake =>
    dsimp only
    by_cases hsignalled : d.signalled = true
    · rw [if_pos hsignalled, plan, if_pos hsignalled]
      rfl
    · rw [if_neg hsignalled]
  | inRound round since =>
    rw [hstage] at h
    exact h.elim
  | stopped =>
    rw [hstage] at h
    exact h.elim

theorem step_of_ended (h : d.stage = .inRound round since) (hended : a.outcome? round = some outcome) :
    (d.step a s now).value = (d.conclude (a.dropRound round) s now outcome (now - since)).value := by
  unfold step
  simp only [h, hended]

theorem step_of_running (h : d.stage = .inRound round since) (hrunning : a.outcome? round = none) :
    (d.step a s now).value =
      if d.signalled then ({ d with stage := .stopped }, a.dropRound round, s) else (d, a, s) := by
  unfold step
  simp only [h, hrunning]
  split
  next => rfl
  next => rfl

theorem step_of_stopped (h : d.stage = .stopped) : (d.step a s now).value = (d, a, s) := by
  unfold step
  simp only [h]
  rfl

theorem plan_of_signalled (h : d.signalled = true) :
    (d.plan a s now).value = ({ d with stage := .stopped }, a, s) := by
  unfold plan
  rw [if_pos h]
  rfl

theorem plan_of_none (h : d.signalled = false) (hidle : (d.app.plan a.node.position s).1 = none) :
    (d.plan a s now).value = (d.pause now a.node.config.driver.idleDelay,
      a.setNode { a.node with position := (d.app.plan a.node.position s).2.1 },
      (d.app.plan a.node.position s).2.2) := by
  unfold plan
  rw [h, if_neg Bool.false_ne_true]
  dsimp only
  rw [hidle]
  rfl

theorem plan_of_some {planned : PhasePlan} (h : d.signalled = false)
    (hplanned : (d.app.plan a.node.position s).1 = some planned) :
    (d.plan a s now).value = ({ d with stage := .inRound a.nextRound now },
      ((a.setNode { a.node with position := (d.app.plan a.node.position s).2.1 }).startRound planned
        (a.node.signContribution planned.payload) now).2,
      (d.app.plan a.node.position s).2.2) := by
  unfold plan
  rw [h, if_neg Bool.false_ne_true]
  dsimp only
  rw [hplanned]
  rfl

/-- How long a driver pauses after an outcome. -/
def delayAfter (a : Agent) (outcome : RoundOutcome) : Nat :=
  if outcome.isFinalized then 0 else a.node.config.driver.retryDelay

/-- An outcome counted and handed over. -/
def counting (d : Driver σ) (outcome : RoundOutcome) : Driver σ :=
  { d with
    finalized := d.finalized + if outcome.isFinalized then 1 else 0
    failed := d.failed + if outcome.isFinalized then 0 else 1
    accepted := outcome :: d.accepted }

theorem conclude_value (d : Driver σ) (a : Agent) (s : σ) (now : Nat) (outcome : RoundOutcome)
    (elapsed : Nat) : (d.conclude a s now outcome elapsed).value =
      let done := (d.app.accept outcome elapsed a.node.position s).value.2
      ((d.counting outcome).pause now (delayAfter a outcome),
        a.setNode { a.node with position := done.1 }, done.2) := by
  unfold conclude
  cases outcome with
  | finalized key entries digest =>
    simp only [Noted.value_bind, Noted.value_pure]
    split <;> rfl
  | failed key reason =>
    simp only [Noted.value_bind, Noted.value_pure]
    split <;> rfl

/-- The outcome that the next step of a driver hands over. -/
def handed? (d : Driver σ) (a : Agent) : Option RoundOutcome :=
  match d.stage with
  | .inRound round _ => a.outcome? round
  | _ => none

theorem handed?_of_pause (h : d.stage.IsPause) (a : Agent) : d.handed? a = none := by
  unfold handed?
  split
  next hstage =>
    rw [hstage] at h
    exact h.elim
  next => rfl

theorem handed?_inRound (h : d.stage = .inRound round since) (a : Agent) :
    d.handed? a = a.outcome? round := by
  unfold handed?
  rw [h]

theorem handed?_of_stopped (h : d.stage = .stopped) (a : Agent) : d.handed? a = none := by
  unfold handed?
  rw [h]

/-- An outcome that is due is handed over at the next step, and none besides. -/
theorem accepted_step (d : Driver σ) (a : Agent) (s : σ) (now : Nat) :
    (d.step a s now).value.1.accepted = (d.handed? a).toList ++ d.accepted := by
  rcases d.stage_cases a with hpause | ⟨round, since, outcome, hstage, hended⟩ |
    ⟨round, since, hstage, hrunning⟩ | hstopped
  · rw [step_of_pause hpause, handed?_of_pause hpause]
    unfold plan
    split
    next => rfl
    next =>
      dsimp only
      split
      next => rfl
      next => rfl
  · rw [handed?_inRound hstage, hended, step_of_ended hstage hended, conclude_value]
    rfl
  · rw [handed?_inRound hstage, hrunning, step_of_running hstage hrunning]
    split
    next => rfl
    next => rfl
  · rw [step_of_stopped hstopped, handed?_of_stopped hstopped]
    rfl

/-- A driver is not kept waiting with an outcome. -/
theorem readyAt_of_handed? (h : d.handed? a = some outcome) : d.readyAt a = some 0 := by
  unfold handed? at h
  split at h
  next round since hstage =>
    unfold readyAt
    simp [hstage, h]
  next => cases h

end Driver

/-- What the application keeps of `τ` is shown in `σ`: its plans and what it makes of outcomes are the same,
only what it says to an outcome may differ. -/
structure Application.Reflects {σ τ : Type} (f : τ → σ) (app : Application τ) (app' : Application σ) :
    Prop where
  plan : ∀ p s, app'.plan p (f s) = ((app.plan p s).1, (app.plan p s).2.1, f (app.plan p s).2.2)
  accept : ∀ outcome elapsed p s, (app'.accept outcome elapsed p (f s)).value.2 =
    ((app.accept outcome elapsed p s).value.2.1, f (app.accept outcome elapsed p s).value.2.2)

namespace Driver

variable {σ τ : Type} {f : τ → σ} {d : Driver τ} {app' : Application σ}

/-- The driver with another application. -/
def serving (d : Driver τ) (app' : Application σ) : Driver σ where
  app := app'
  signalled := d.signalled
  stage := d.stage
  finalized := d.finalized
  failed := d.failed
  accepted := d.accepted

theorem plan_reflects (h : d.app.Reflects f app') (a : Agent) (s : τ) (now : Nat) :
    ((d.serving app').plan a (f s) now).value =
      ((d.plan a s now).value.1.serving app', (d.plan a s now).value.2.1, f (d.plan a s now).value.2.2) := by
  have hsame : (d.serving app').app.plan a.node.position (f s) =
      ((d.app.plan a.node.position s).1, (d.app.plan a.node.position s).2.1,
        f (d.app.plan a.node.position s).2.2) := h.plan a.node.position s
  cases hsignalled : d.signalled with
  | true =>
    rw [plan_of_signalled hsignalled, plan_of_signalled (d := d.serving app') hsignalled]
    rfl
  | false =>
    cases hplanned : (d.app.plan a.node.position s).1 with
    | none =>
      have hplanned' : ((d.serving app').app.plan a.node.position (f s)).1 = none := by
        rw [hsame]
        exact hplanned
      rw [plan_of_none hsignalled hplanned, plan_of_none (d := d.serving app') hsignalled hplanned',
        hsame]
      rfl
    | some planned =>
      have hplanned' : ((d.serving app').app.plan a.node.position (f s)).1 = some planned := by
        rw [hsame]
        exact hplanned
      rw [plan_of_some hsignalled hplanned, plan_of_some (d := d.serving app') hsignalled hplanned',
        hsame]
      rfl

/-- What an application says to outcomes has no bearing on the steps of its driver. -/
theorem step_reflects (h : d.app.Reflects f app') (a : Agent) (s : τ) (now : Nat) :
    ((d.serving app').step a (f s) now).value =
      ((d.step a s now).value.1.serving app', (d.step a s now).value.2.1, f (d.step a s now).value.2.2) := by
  rcases d.stage_cases a with hpause | ⟨round, since, outcome, hstage, hended⟩ |
    ⟨round, since, hstage, hrunning⟩ | hstopped
  · rw [step_of_pause hpause, step_of_pause (d := d.serving app') hpause]
    exact plan_reflects h a s now
  · have hsame : ((d.serving app').app.accept outcome (now - since) (a.dropRound round).node.position
        (f s)).value.2 = _ := h.accept outcome (now - since) (a.dropRound round).node.position s
    rw [step_of_ended hstage hended, step_of_ended (d := d.serving app') hstage hended, conclude_value,
      conclude_value]
    dsimp only
    rw [hsame]
    rfl
  · rw [step_of_running hstage hrunning, step_of_running (d := d.serving app') hstage hrunning]
    show (if d.signalled then _ else _) = _
    split
    next => rfl
    next => rfl
  · rw [step_of_stopped hstopped, step_of_stopped (d := d.serving app') hstopped]

end Driver

theorem RoundRun.outcome?_step {r : RoundRun} {outcome : RoundOutcome} (h : r.outcome? = some outcome)
    (x : Exchanger) (m : Moment) : (r.step x m).value.1.outcome? = some outcome := by
  have hended := h
  unfold outcome? at hended
  split at hended
  next hstage =>
    unfold step
    simp only [hstage]
    exact h
  next => cases hended

/-- No move of an agent that leaves driving alone undoes the end of a round. -/
theorem Agent.outcome?_act {a : Agent} {id : Nat} {outcome : RoundOutcome} (m : Moment) {v : Move}
    (hv : v.Apart) (h : a.outcome? id = some outcome) : (a.act m v).outcome? id = some outcome := by
  rcases a.apart_cases m hv with ⟨turning, r, rfl, turned⟩ | ⟨_, aside⟩
  · by_cases hid : id = turning
    · subst hid
      rw [outcome?, turned.before] at h
      rw [outcome?, turned.after]
      exact RoundRun.outcome?_step h _ _
    · rw [outcome?, turned.others id hid]
      exact h
  · rw [outcome?, round?, aside.rounds]
    exact h

theorem Agent.outcome?_run {a : Agent} {id : Nat} {outcome : RoundOutcome} {script : Script}
    (hscript : ∀ v ∈ script, v.2.Apart) (h : a.outcome? id = some outcome) :
    (a.run script).outcome? id = some outcome := by
  induction script generalizing a with
  | nil => exact h
  | cons v script ih =>
    obtain ⟨hfirst, hlater⟩ := List.forall_mem_cons.mp hscript
    exact ih hlater (outcome?_act v.1 hfirst h)

end Adjudication
