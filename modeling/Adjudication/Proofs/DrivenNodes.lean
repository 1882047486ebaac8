import Adjudication.Devnet
import Adjudication.Proofs.OwnContributions

namespace Adjudication

deriving instance DecidableEq for PhasePlan

/-- What passes between a driver and its application. -/
inductive Remark
  /-- A plan for a phase of this height. -/
  | planned (height : Nat) (plan : PhasePlan)
  | accepted (outcome : RoundOutcome)
deriving DecidableEq

def DriverStage.IsPause : DriverStage → Prop
  | .starting | .planning | .sleeping _ => True
  | .inRound .. | .stopped => False

namespace Driver

variable {σ : Type}

/-- What the next step of a driver has to tell. -/
def remark? (d : Driver σ) (a : Agent) (s : σ) : Option Remark :=
  match d.stage with
  | .inRound round _ => (a.outcome? round).map .accepted
  | .stopped => none
  | .starting | .planning | .sleeping _ =>
    if d.signalled then none
    else (d.app.plan a.node.position s).1.map (.planned (a.node.position.height + 1))

/-- A driver that has handed over an outcome pauses. -/
structure Concluded (d : Driver σ) (outcome : RoundOutcome) (d' : Driver σ) : Prop where
  app : d'.app = d.app
  signalled : d'.signalled = d.signalled
  pauses : d'.stage.IsPause
  accepted : d'.accepted = outcome :: d.accepted

/-- A step of a driver, of its agent and of what the application keeps, with what it has to tell. -/
inductive Stepped (now : Nat) (d : Driver σ) (a : Agent) (s : σ) :
    Option Remark → Driver σ → Agent → σ → Prop
  | stay (was : ¬ d.stage.IsPause) : Stepped now d a s none d a s
  | stop (was : d.stage.IsPause) : Stepped now d a s none { d with stage := .stopped } a s
  | cut (round since : Nat) (was : d.stage = .inRound round since)
      (running : a.outcome? round = none) :
      Stepped now d a s none { d with stage := .stopped } (a.dropRound round) s
  | wait (delay : Nat) (was : d.stage.IsPause) (idle : (d.app.plan a.node.position s).1 = none) :
      Stepped now d a s none (d.pause now delay)
        (a.setNode { a.node with position := (d.app.plan a.node.position s).2.1 })
        (d.app.plan a.node.position s).2.2
  | plan (plan : PhasePlan) (was : d.stage.IsPause)
      (planned : (d.app.plan a.node.position s).1 = some plan) :
      Stepped now d a s (some (.planned (a.node.position.height + 1) plan))
        { d with stage := .inRound a.nextRound now }
        ((a.setNode { a.node with position := (d.app.plan a.node.position s).2.1 }).startRound plan
          (a.node.signContribution plan.payload) now).2
        (d.app.plan a.node.position s).2.2
  | conclude (round since : Nat) (outcome : RoundOutcome) (d' : Driver σ)
      (was : d.stage = .inRound round since) (ended : a.outcome? round = some outcome)
      (concluded : d.Concluded outcome d') :
      Stepped now d a s (some (.accepted outcome)) d'
        ((a.dropRound round).setNode { (a.dropRound round).node with
          position := (d.app.accept outcome (now - since) a.node.position s).value.2.1 })
        (d.app.accept outcome (now - since) a.node.position s).value.2.2

theorem Stepped.app {now : Nat} {d d' : Driver σ} {a a' : Agent} {s s' : σ} {remark : Option Remark}
    (h : Stepped now d a s remark d' a' s') : d'.app = d.app := by
  cases h with
  | conclude round since outcome d' was ended concluded => exact concluded.app
  | _ => rfl

theorem pause_isPause (d : Driver σ) (now delay : Nat) : (d.pause now delay).stage.IsPause := by
  unfold pause
  dsimp only
  split
  · trivial
  · trivial

variable {now : Nat} {d : Driver σ} {a : Agent} {s : σ}

theorem plan_stepped (was : d.stage.IsPause) : Stepped now d a s
    (if d.signalled then none
      else (d.app.plan a.node.position s).1.map (.planned (a.node.position.height + 1)))
    (d.plan a s now).value.1 (d.plan a s now).value.2.1 (d.plan a s now).value.2.2 := by
  unfold Driver.plan
  split
  next => exact .stop was
  next =>
    dsimp only
    cases hplan : (d.app.plan a.node.position s).1 with
    | none => exact .wait _ was hplan
    | some plan => exact .plan plan was hplan

theorem conclude_concluded (d : Driver σ) (a : Agent) (s : σ) (now : Nat) (outcome : RoundOutcome) (elapsed : Nat) :
    d.Concluded outcome (d.conclude a s now outcome elapsed).value.1 ∧
      (d.conclude a s now outcome elapsed).value.2.1 = a.setNode { a.node with
        position := (d.app.accept outcome elapsed a.node.position s).value.2.1 } ∧
      (d.conclude a s now outcome elapsed).value.2.2 =
        (d.app.accept outcome elapsed a.node.position s).value.2.2 := by
  unfold Driver.conclude
  cases outcome with
  | finalized key entries digest =>
    simp only [Noted.value_bind, Noted.value_pure]
    split
    next => exact ⟨⟨rfl, rfl, pause_isPause _ _ _, rfl⟩, rfl, rfl⟩
    next => exact ⟨⟨rfl, rfl, pause_isPause _ _ _, rfl⟩, rfl, rfl⟩
  | failed key reason =>
    simp only [Noted.value_bind, Noted.value_pure]
    split
    next => exact ⟨⟨rfl, rfl, pause_isPause _ _ _, rfl⟩, rfl, rfl⟩
    next => exact ⟨⟨rfl, rfl, pause_isPause _ _ _, rfl⟩, rfl, rfl⟩

/-- Every step of a driver is of one of these kinds. -/
theorem step_stepped (d : Driver σ) (a : Agent) (s : σ) (now : Nat) :
    Stepped now d a s (d.remark? a s) (d.step a s now).value.1 (d.step a s now).value.2.1
      (d.step a s now).value.2.2 := by
  unfold Driver.step remark?
  cases was : d.stage with
  | starting => exact plan_stepped (by rw [was]; trivial)
  | planning => exact plan_stepped (by rw [was]; trivial)
  | inRound round since =>
    dsimp only
    cases hended : a.outcome? round with
    | some outcome =>
      obtain ⟨hconcluded, hagent, hkept⟩ :=
        d.conclude_concluded (a.dropRound round) s now outcome (now - since)
      have hconclude : Stepped now d a s _ _ _ _ :=
        .conclude round since outcome _ was hended hconcluded
      rw [a.dropRound_node round] at hagent hkept hconclude
      dsimp only
      rw [hagent, hkept]
      exact hconclude
    | none =>
      dsimp only
      split
      next => exact .cut round since was hended
      next => exact .stay (by rw [was]; exact id)
  | sleeping wake =>
    have paused : d.stage.IsPause := by rw [was]; trivial
    dsimp only
    by_cases hsignalled : d.signalled = true
    · rw [if_pos hsignalled, if_pos hsignalled]
      exact .stop paused
    · have planned : Stepped now d a s _ _ _ _ := plan_stepped paused
      rw [if_neg hsignalled] at planned
      rw [if_neg hsignalled, if_neg hsignalled]
      exact planned
  | stopped => exact .stay (by rw [was]; exact id)

end Driver

namespace Devnet

/-- A plan is for the next phase and repeats the position's draw, which in the first phase is a new one;
without a plan the position stays. -/
theorem plan_cases (p : Position) (s : AppState) :
    ((plan p s).1 = none ∧ (plan p s).2.1 = p) ∨
    ∃ planned, (plan p s).1 = some planned ∧ planned.phase = p.nextPhase ∧
      planned.payload = payload (p.height + 1) planned.phase (plan p s).2.1.draw ∧
      ((planned.phase = 0 ∧ ∃ draw, (plan p s).2.1 = p.setDraw draw none) ∨
        (planned.phase ≠ 0 ∧ (plan p s).2.1 = p)) := by
  unfold plan
  by_cases hlast : phases ≤ p.nextPhase
  · rw [if_pos hlast]
    exact Or.inl ⟨rfl, rfl⟩
  · rw [if_neg hlast]
    by_cases hfirst : p.nextPhase = 0
    · rw [if_pos hfirst]
      obtain ⟨draw, entropy⟩ := s.entropy.next
      exact Or.inr ⟨_, rfl, rfl, rfl, Or.inl ⟨hfirst, draw, rfl⟩⟩
    · rw [if_neg hfirst]
      exact Or.inr ⟨_, rfl, rfl, rfl, Or.inr ⟨hfirst, rfl⟩⟩

theorem plan_keeps (p : Position) (s : AppState) : (plan p s).2.1.height = p.height ∧
    (plan p s).2.1.phase = p.phase ∧ (plan p s).2.1.nextPhase = p.nextPhase := by
  rcases plan_cases p s with ⟨_, hsame⟩ | ⟨_, _, _, _, ⟨_, draw, hdrawn⟩ | ⟨_, hsame⟩⟩
  · rw [hsame]
    exact ⟨rfl, rfl, rfl⟩
  · rw [hdrawn]
    exact ⟨rfl, rfl, rfl⟩
  · rw [hsame]
    exact ⟨rfl, rfl, rfl⟩

theorem plan_phase {p : Position} {s : AppState} {planned : PhasePlan}
    (h : (plan p s).1 = some planned) : planned.phase = p.nextPhase := by
  rcases plan_cases p s with ⟨hnone, _⟩ | ⟨planned', hplanned, hphase, _⟩
  · cases hnone.symm.trans h
  · cases hplanned.symm.trans h
    exact hphase

/-- A plan repeats the draw of the position, which only a plan for the first phase changes. -/
theorem plan_payload {p : Position} {s : AppState} {planned : PhasePlan}
    (h : (plan p s).1 = some planned) :
    planned.payload = payload (p.height + 1) planned.phase (plan p s).2.1.draw ∧
      (planned.phase ≠ 0 → (plan p s).2.1 = p) := by
  rcases plan_cases p s with ⟨hnone, _⟩ | ⟨planned', hplanned, _, hpayload, hposition⟩
  · cases hnone.symm.trans h
  · cases hplanned.symm.trans h
    refine ⟨hpayload, fun hlater => ?_⟩
    rcases hposition with ⟨hfirst, _⟩ | ⟨_, hsame⟩
    · exact absurd hfirst hlater
    · exact hsame

/-- Accepting an outcome raises the height to that of its key if that is a later one, or leaves the
position. -/
theorem accept_position (address : Address) (outcome : RoundOutcome) (elapsed : Nat) (p : Position)
    (s : AppState) :
    (accept address outcome elapsed p s).value.2.1 = p ∨
      (phases ≤ outcome.key.phase + 1 ∧ p.height < outcome.key.height ∧
        (accept address outcome elapsed p s).value.2.1 = { height := outcome.key.height }) := by
  cases outcome with
  | failed key reason => exact Or.inl rfl
  | finalized key entries digest =>
    unfold accept
    dsimp only
    by_cases hlast : key.phase + 1 < phases
    · rw [if_pos hlast]
      exact Or.inl rfl
    · rw [if_neg hlast]
      unfold commit
      split
      next => exact Or.inl rfl
      next producer _ =>
        unfold Position.advanceHeight
        by_cases hold : key.height ≤ p.height
        · simp only [if_pos hold]
          exact Or.inl rfl
        · simp only [if_neg hold]
          exact Or.inr ⟨Nat.le_of_not_lt hlast, Nat.lt_of_not_le hold, rfl⟩

end Devnet

namespace RoundRun

/-- How the round of a driven node stands to the position. -/
structure Fits (r : RoundRun) (p : Position) : Prop where
  scheduled : r.stage = .scheduled → r.phase = p.nextPhase
  entered : r.stage ≠ .scheduled → r.phase = p.phase ∧ r.key = ⟨p.height + 1, r.phase⟩
  stays : r.verdict? ≠ some .heightMoved
  finalized : r.result? ≠ none → p.isFinalized = true
  outcome : ∀ o, r.outcome? = some o → o.key = r.key

variable {m : Moment} {r r' : RoundRun} {n n' : Node} {goal : Goal} {stage : RoundStage}
  {c : Commitment}

theorem Fits.of_scheduled {p : Position} (hs : r.stage = .scheduled) (hphase : r.phase = p.nextPhase) :
    r.Fits p where
  scheduled _ := hphase
  entered hbegun := absurd hs hbegun
  stays hverdict := by simp [verdict?, hs] at hverdict
  finalized hresult := by simp [result?, hs] at hresult
  outcome o ho := by simp [outcome?, hs] at ho

theorem Looked.ne_scheduled (h : Looked r n m goal stage) : stage ≠ .scheduled := by
  cases h <;> simp

theorem Looked.outcome_key (h : Looked r n m goal stage) (o : RoundOutcome)
    (ho : { r with stage }.outcome? = some o) : o.key = r.key := by
  cases h with
  | pending => cases ho
  | settled => cases ho
  | deserted time ready members =>
    cases ho
    rfl

theorem sight_ne_heightMoved {since : Nat} (hkey : n.position.height + 1 = r.key.height) :
    r.sight n m goal since ≠ .settled .heightMoved := by
  have hstays : n.heightMoved r.key = false := by simp [Node.heightMoved, hkey]
  intro hseen
  cases goal with
  | collection =>
    simp only [sight, Node.pollCollection, hstays, Bool.false_eq_true, ↓reduceIte] at hseen
    split at hseen
    next => cases hseen
    next =>
      split at hseen
      next => split at hseen <;> cases hseen
      next => cases hseen
  | tally c =>
    simp only [sight, Node.pollTally, hstays, Bool.false_eq_true, ↓reduceIte] at hseen
    repeat (split at hseen; next => cases hseen)
    cases hseen

/-- What a round sees at its own height lets it stay in its phase. -/
theorem Looked.fits (h : Looked r n m goal stage) (hphase : r.phase = n.position.phase)
    (hkey : r.key = ⟨n.position.height + 1, r.phase⟩) : { r with stage }.Fits n.position where
  scheduled hs := absurd hs h.ne_scheduled
  entered _ := ⟨hphase, hkey⟩
  stays hverdict := by
    obtain ⟨since, hseen⟩ := h.settled_of_verdict? hverdict
    exact sight_ne_heightMoved (by rw [hkey]) hseen
  finalized hresult := absurd h.result?_eq_none hresult
  outcome := h.outcome_key

theorem Closing.ne_scheduled (h : Closing r c stage) : stage ≠ .scheduled := by
  cases h <;> simp

theorem Closing.outcome_key (h : Closing r c stage) (o : RoundOutcome)
    (ho : { r with stage }.outcome? = some o) : o.key = r.key := by
  cases h with
  | waiting => cases ho
  | done time ready =>
    cases ho
    rfl

theorem Closing.fits (h : Closing r c stage) (hphase : r.phase = n.position.phase)
    (hkey : r.key = ⟨n.position.height + 1, r.phase⟩) (hfinalized : n.position.isFinalized = true) :
    { r with stage }.Fits n.position where
  scheduled hs := absurd hs h.ne_scheduled
  entered _ := ⟨hphase, hkey⟩
  stays hverdict := by cases h <;> cases hverdict
  finalized _ := hfinalized
  outcome := h.outcome_key

theorem Fits.finalizePhase (h : r.Fits n.position) (hbegun : r.stage ≠ .scheduled) :
    (n.position.finalizePhase (r.key.height - 1) r.phase).value.2 =
      { n.position with status := .finalized } := by
  obtain ⟨hphase, hkey⟩ := h.entered hbegun
  unfold Position.finalizePhase
  rw [hkey, if_pos ⟨by simp, hphase.symm⟩]
  rfl

/-- A round goes on to fit the position as it takes its turns. -/
theorem Turn.fits (t : Turn m r n r' n') (h : r.Fits n.position) : r'.Fits n'.position := by
  cases t with
  | enter ready stage starts looked => exact looked.fits rfl rfl
  | look goal since fill wake watching stage was looked =>
    obtain ⟨hphase, hkey⟩ := h.entered (by simp [was])
    exact looked.fits hphase hkey
  | commit goal fill count need waited stage was looked =>
    obtain ⟨hphase, hkey⟩ := h.entered (by simp [was])
    exact looked.fits hphase hkey
  | conclude c fill agreeing need stage was closing =>
    have hbegun : r.stage ≠ .scheduled := by simp [was]
    obtain ⟨hphase, hkey⟩ := h.entered hbegun
    rw [h.finalizePhase hbegun]
    have concluded := closing.fits (n := { n with position := { n.position with status := .finalized } })
      hphase hkey rfl
    exact concluded
  | catchUp c deadline wake stage was closing =>
    obtain ⟨hphase, hkey⟩ := h.entered (by simp [was])
    exact closing.fits hphase hkey (h.finalized (by simp [result?, was]))
  | giveUp goal fill verdict reason time ready was =>
    have failed : ∀ o, ({ r with stage := .ended (.failed r.key reason) time ready } : RoundRun).outcome? =
        some o → o.key = r.key := by
      rintro o ho
      cases ho
      rfl
    exact {
      scheduled := fun hs => by cases hs
      entered := fun _ => h.entered (by simp [was])
      stays := fun hverdict => by cases hverdict
      finalized := fun hresult => absurd rfl hresult
      outcome := failed }
  | idle => exact h

/-- The turn of a round that fits enters its phase, or finalizes it, or leaves the position. -/
theorem Turn.position_cases (t : Turn m r n r' n') (h : r.Fits n.position) :
    n'.position = n.position ∨ n'.position = { n.position with status := .finalized } ∨
      (r.stage = .scheduled ∧ n'.position = n.position.beginPhase r.phase) := by
  cases t with
  | enter ready stage starts looked =>
    refine Or.inr (Or.inr ⟨?_, rfl⟩)
    cases hs : r.stage with
    | scheduled => rfl
    | leaving goal fill verdict =>
      cases verdict with
      | heightMoved => exact absurd (by simp [verdict?, hs]) h.stays
      | _ => simp [StartsOver, hs] at starts
    | _ => simp [StartsOver, hs] at starts
  | conclude c fill agreeing need stage was closing =>
    exact Or.inr (Or.inl (h.finalizePhase (by simp [was])))
  | _ => exact Or.inl rfl

end RoundRun

/-- An agent with the driver of its rounds, and what has passed between the driver and its application,
in order. -/
structure Station where
  agent : Agent
  driver : Driver AppState
  story : List Remark := []

inductive Deed
  | drive
  /-- The shutdown signal. -/
  | signal
  | apart (v : Move) (h : v.Apart)

namespace Station

def position (s : Station) : Position := s.agent.node.position

def act (s : Station) (m : Moment) : Deed → Station
  | .drive =>
    let done := (s.driver.step s.agent s.agent.appState m.now).value
    { agent := { done.2.1 with appState := done.2.2 }
      driver := done.1
      story := s.story ++ (s.driver.remark? s.agent s.agent.appState).toList }
  | .signal => { s with driver := { s.driver with signalled := true } }
  | .apart v _ => { s with agent := s.agent.act m v }

def run (s : Station) (deeds : List (Moment × Deed)) : Station :=
  deeds.foldl (fun s d => s.act d.1 d.2) s

theorem run_snoc (s : Station) (deeds : List (Moment × Deed)) (m : Moment) (deed : Deed) :
    s.run (deeds ++ [(m, deed)]) = (s.run deeds).act m deed := by
  rw [run, List.foldl_append]
  rfl

/-- A node of the development network at its start. -/
structure Fresh (s : Station) : Prop where
  blank : s.agent.Blank
  fills : s.agent.fills = []
  row : s.agent.node.table.get? s.agent.address = none
  position : ∃ height, s.position = { height }
  app : s.driver.app = Devnet.application s.agent.address
  stage : s.driver.stage = .starting
  story : s.story = []

/-- There is no round but the one that the driver waits for, and that fits the position. -/
structure Orderly (s : Station) : Prop where
  app : s.driver.app = Devnet.application s.agent.address
  row : s.agent.node.table.get? s.agent.address = none
  waited : ∀ id r, s.agent.round? id = some r → ∃ since, s.driver.stage = .inRound id since
  fits : ∀ id r, s.agent.round? id = some r → r.Fits s.position

variable {s : Station} {m : Moment} {deed : Deed} {v : Move} {id : Nat} {r : RoundRun}

theorem Fresh.orderly (h : s.Fresh) : s.Orderly where
  app := h.app
  row := h.row
  waited id r hr := by
    rw [Agent.round?, h.blank.rounds] at hr
    cases hr
  fits id r hr := by
    rw [Agent.round?, h.blank.rounds] at hr
    cases hr

theorem Orderly.round?_of_pause (h : s.Orderly) (hpause : s.driver.stage.IsPause) (id : Nat) :
    s.agent.round? id = none := by
  cases hr : s.agent.round? id with
  | none => rfl
  | some r =>
    obtain ⟨since, hs⟩ := h.waited id r hr
    rw [hs] at hpause
    exact hpause.elim

theorem Orderly.round?_of_drop (h : s.Orderly) {round since : Nat}
    (hs : s.driver.stage = .inRound round since) (id : Nat) :
    (s.agent.dropRound round).round? id = none := by
  by_cases hid : id = round
  · subst id
    exact Assoc.get?_erase_self _ _
  · cases hr : (s.agent.dropRound round).round? id with
    | none => rfl
    | some r =>
      obtain ⟨_, hs'⟩ := h.waited id r (Agent.round?_dropRound hr)
      cases hs.symm.trans hs'
      exact absurd rfl hid

theorem address_act (s : Station) (m : Moment) (deed : Deed) :
    (s.act m deed).agent.address = s.agent.address := by
  cases deed with
  | drive => exact s.agent.address_act m (.drive s.driver)
  | signal => rfl
  | apart v _ => exact s.agent.address_act m v

theorem row_act (h : s.agent.node.table.get? s.agent.address = none) (m : Moment) (deed : Deed) :
    (s.act m deed).agent.node.table.get? (s.act m deed).agent.address = none := by
  rw [address_act]
  cases deed with
  | drive => exact Agent.row_act h m (.drive s.driver)
  | signal => exact h
  | apart v _ => exact Agent.row_act h m v

theorem app_act (s : Station) (m : Moment) (deed : Deed) : (s.act m deed).driver.app = s.driver.app := by
  cases deed with
  | drive => exact (s.driver.step_stepped s.agent s.agent.appState m.now).app
  | signal => rfl
  | apart v hv => rfl

/-- What a deed makes of an orderly station, its caches aside. -/
inductive Deal (m : Moment) (s s' : Station) : Prop
  | quiet (story : s'.story = s.story) (position : s'.position = s.position)
      (rounds : ∀ id r, s'.agent.round? id = some r →
        s.agent.round? id = some r ∧ s'.driver.stage = s.driver.stage)
      (pauses : s'.driver.stage.IsPause → s.driver.stage.IsPause)
      (untouched : ∀ k, s.agent.Untouched k → s'.agent.Untouched k)
      (rests : ∀ id since, s'.driver.stage = .inRound id since → s.driver.stage = .inRound id since)
  | plan (plan : PhasePlan) (was : s.driver.stage.IsPause)
      (planned : (Devnet.plan s.position s.agent.appState).1 = some plan)
      (story : s'.story = s.story ++ [.planned (s.position.height + 1) plan])
      (position : s'.position = (Devnet.plan s.position s.agent.appState).2.1)
      (rounds : ∀ id r, s'.agent.round? id = some r →
        (∃ since, s'.driver.stage = .inRound id since) ∧ r.stage = .scheduled ∧
          r.phase = plan.phase ∧ r.contribution.value = plan.payload)
      (busy : ¬ s'.driver.stage.IsPause)
      (untouched : ∀ k, s.agent.Untouched k → s'.agent.Untouched k)
  | accept (id : Nat) (r : RoundRun) (outcome : RoundOutcome) (was : s.agent.round? id = some r)
      (ended : r.outcome? = some outcome) (story : s'.story = s.story ++ [.accepted outcome])
      (position : s'.position = s.position ∨ (Devnet.phases ≤ outcome.key.phase + 1 ∧
        s.position.height < outcome.key.height ∧ s'.position = { height := outcome.key.height }))
      (rounds : ∀ id, s'.agent.round? id = none)
      (untouched : ∀ k, s.agent.Untouched k → s'.agent.Untouched k) (pauses : s'.driver.stage.IsPause)
      (effect : ∃ elapsed, s'.position =
        (Devnet.accept s.agent.address outcome elapsed s.position s.agent.appState).value.2.1)
  | turn (id : Nat) (r : RoundRun) (turned : s.agent.Turned m s'.agent id r)
      (driver : s'.driver = s.driver) (story : s'.story = s.story)
      (untouched : ∀ k, k ≠ ⟨s.position.height + 1, r.phase⟩ → s.agent.Untouched k →
        s'.agent.Untouched k)

/-- A step of the driver finds no round but the one it waits for, and drops that as it goes on. -/
theorem Orderly.deal_of_stepped (h : s.Orderly) {remark : Option Remark} {d : Driver AppState}
    {a : Agent} {kept : AppState}
    (stepped : Driver.Stepped m.now s.driver s.agent s.agent.appState remark d a kept)
    (untouched : ∀ k, s.agent.Untouched k → ({ a with appState := kept } : Agent).Untouched k) :
    Deal m s ⟨{ a with appState := kept }, d, s.story ++ remark.toList⟩ := by
  have happ := h.app
  have none_of {id : Nat} {r : RoundRun} (hnone : ∀ id, a.round? id = none)
      (hr : a.round? id = some r) : False := by
    cases (hnone id).symm.trans hr
  cases stepped with
  | stay =>
    exact .quiet (List.append_nil _) rfl (fun _ _ hr => ⟨hr, rfl⟩) id untouched fun _ _ => id
  | stop was =>
    exact .quiet (List.append_nil _) rfl (fun _ _ hr => (none_of (h.round?_of_pause was) hr).elim)
      (fun _ => was) untouched (nofun)
  | cut round since was =>
    exact .quiet (List.append_nil _) (congrArg Node.position (s.agent.dropRound_node round))
      (fun _ _ hr => (none_of (h.round?_of_drop was) hr).elim) False.elim untouched (nofun)
  | wait delay was idle =>
    have hpaused : ∀ id since, (s.driver.pause m.now delay).stage ≠ .inRound id since := by
      intro id since hs
      have hpause := s.driver.pause_isPause m.now delay
      rw [hs] at hpause
      exact hpause
    refine .quiet (List.append_nil _) ?_
      (fun _ _ hr => (none_of (h.round?_of_pause was) hr).elim) (fun _ => was) untouched
      (fun id since hs => absurd hs (hpaused id since))
    rw [happ] at idle
    rcases Devnet.plan_cases s.position s.agent.appState with ⟨_, hsame⟩ | ⟨plan, hplan, _⟩
    · show (s.driver.app.plan s.position s.agent.appState).2.1 = s.position
      rw [happ]
      exact hsame
    · cases hplan.symm.trans idle
  | plan plan was planned =>
    rw [happ] at planned
    refine .plan plan was planned rfl ?_ (fun id r hr => ?_) id untouched
    · show (s.driver.app.plan s.position s.agent.appState).2.1 = _
      rw [happ]
      rfl
    · have hnew : Assoc.get? id (Assoc.insert s.agent.nextRound _ s.agent.rounds) = some r := hr
      by_cases hid : id = s.agent.nextRound
      · subst hid
        rw [Assoc.get?_insert_self] at hnew
        cases hnew
        exact ⟨⟨m.now, rfl⟩, rfl, rfl, rfl⟩
      · rw [Assoc.get?_insert_of_ne hid] at hnew
        cases (h.round?_of_pause was id).symm.trans hnew
  | conclude round since outcome d was ended concluded =>
    obtain ⟨r, hr, houtcome⟩ := Option.bind_eq_some_iff.mp ended
    have heffect : (s.driver.app.accept outcome (m.now - since) s.position s.agent.appState).value.2.1 =
        (Devnet.accept s.agent.address outcome (m.now - since) s.position s.agent.appState).value.2.1 := by
      rw [happ]
      rfl
    have hposition := Devnet.accept_position s.agent.address outcome (m.now - since) s.position
      s.agent.appState
    rw [← heffect] at hposition
    exact .accept round r outcome hr houtcome rfl hposition (h.round?_of_drop was) untouched
      concluded.pauses ⟨m.now - since, heffect⟩

theorem Orderly.deal (h : s.Orderly) (m : Moment) (deed : Deed) : Deal m s (s.act m deed) := by
  cases deed with
  | drive =>
    exact h.deal_of_stepped (s.driver.step_stepped s.agent s.agent.appState m.now)
      fun _ hk => hk.driven m.now s.driver
  | signal => exact .quiet rfl rfl (fun _ _ hr => ⟨hr, rfl⟩) id (fun _ hk => hk) fun _ _ => id
  | apart v hv =>
    rcases s.agent.apart_cases m hv with ⟨id, r, rfl, turned⟩ | ⟨hidle, aside⟩
    · refine .turn id r turned rfl rfl fun k hk hkept => hkept.act h.row hv ?_
      rintro other r' ⟨⟩ hr'
      cases hr'.symm.trans turned.before
      exact hk
    · refine .quiet rfl aside.node.position_eq (fun id r hr => ⟨?_, rfl⟩) id (fun k hkept =>
        hkept.act h.row hv fun id r hround hr => ?_) fun _ _ => id
      · exact (congrArg (Assoc.get? id) aside.rounds).symm.trans hr
      · cases (hidle id hround).symm.trans hr

variable {s' : Station}

/-- The round in its turn is the only one. -/
theorem Orderly.turned_round (h : s.Orderly) (turned : s.agent.Turned m s'.agent id r) {other : Nat}
    {r' : RoundRun} (hr' : s'.agent.round? other = some r') :
    other = id ∧ RoundRun.Turn m r s.agent.node r' s'.agent.node := by
  by_cases hid : other = id
  · subst other
    have hturn := turned.turn
    cases turned.after.symm.trans hr'
    exact ⟨rfl, hturn⟩
  · obtain ⟨_, hs⟩ := h.waited id r turned.before
    obtain ⟨_, hs'⟩ := h.waited other r' ((turned.others other hid).symm.trans hr')
    cases hs.symm.trans hs'
    exact absurd rfl hid

theorem Orderly.act (h : s.Orderly) (m : Moment) (deed : Deed) : (s.act m deed).Orderly := by
  have happ : (s.act m deed).driver.app = Devnet.application (s.act m deed).agent.address := by
    rw [app_act, address_act]
    exact h.app
  have hrow := row_act h.row m deed
  cases h.deal m deed with
  | quiet story position rounds =>
    refine ⟨happ, hrow, fun id r hr => ?_, fun id r hr => ?_⟩
    · obtain ⟨hbefore, hstage⟩ := rounds id r hr
      rw [hstage]
      exact h.waited id r hbefore
    · rw [position]
      exact h.fits id r (rounds id r hr).1
  | plan plan was planned story position rounds =>
    refine ⟨happ, hrow, fun id r hr => (rounds id r hr).1, fun id r hr => ?_⟩
    obtain ⟨_, hscheduled, hphase, _⟩ := rounds id r hr
    rw [position]
    have hnext := (Devnet.plan_keeps s.position s.agent.appState).2.2
    exact .of_scheduled hscheduled (hphase.trans ((Devnet.plan_phase planned).trans hnext.symm))
  | accept id r outcome was ended story position rounds =>
    refine ⟨happ, hrow, fun id r hr => ?_, fun id r hr => ?_⟩
    · cases (rounds id).symm.trans hr
    · cases (rounds id).symm.trans hr
  | turn id r turned driver =>
    refine ⟨happ, hrow, fun other r' hr' => ?_, fun other r' hr' => ?_⟩
    · obtain ⟨rfl, _⟩ := h.turned_round turned hr'
      rw [driver]
      exact h.waited _ r turned.before
    · obtain ⟨_, hturn⟩ := h.turned_round turned hr'
      exact hturn.fits (h.fits id r turned.before)

end Station

end Adjudication
