import Adjudication.Proofs.DriverSteps

namespace Adjudication

/-- What is booked of the dealings of a driver. -/
inductive Item
  | asked (plan : Option PhasePlan)
  /-- The round that the driver waits for has ended. -/
  | completed (outcome : RoundOutcome)
  | accepted (outcome : RoundOutcome)
deriving DecidableEq

namespace Item

def completed? : Item → Option RoundOutcome
  | .completed outcome => some outcome
  | _ => none

def accepted? : Item → Option RoundOutcome
  | .accepted outcome => some outcome
  | _ => none

end Item

/-- The application with its calls booked, in the order they come. -/
def Application.booked {σ : Type} (app : Application σ) : Application (σ × List Item) where
  plan p s :=
    let (planned, position, kept) := app.plan p s.1
    (planned, position, kept, s.2 ++ [.asked planned])
  accept outcome elapsed p s := do
    let (result, position, kept) ← app.accept outcome elapsed p s.1
    return (result, position, kept, s.2 ++ [.accepted outcome])

theorem Application.Reflects.booked {σ : Type} {app app' : Application σ} (h : app.Reflects id app') :
    app.booked.Reflects id app'.booked where
  plan p s := by
    have hsame := h.plan p s.1
    simp only [id_eq] at hsame
    simp only [Application.booked, id_eq, hsame]
  accept outcome elapsed p s := by
    have hsame := h.accept outcome elapsed p s.1
    simp only [id_eq] at hsame
    simp only [Application.booked, Noted.value_bind, Noted.value_pure, id_eq, hsame]

/-- The books are not for the application to see. -/
theorem Application.booked_reflects {σ : Type} (app : Application σ) :
    app.booked.Reflects Prod.fst app where
  plan _ _ := rfl
  accept outcome elapsed p s := by
    simp only [Application.booked, Noted.value_bind, Noted.value_pure]

/-- Books that are settled: of every round that was planned the end and the handing over are booked behind
the plan, before anything else. -/
inductive Settled : List Item → Prop
  | nil : Settled []
  | idle {items : List Item} (earlier : Settled items) : Settled (items ++ [.asked none])
  | round {items : List Item} (plan : PhasePlan) (outcome : RoundOutcome) (earlier : Settled items) :
      Settled (items ++ [.asked (some plan), .completed outcome, .accepted outcome])

theorem Settled.completed_eq {items : List Item} (h : Settled items) :
    items.filterMap Item.completed? = items.filterMap Item.accepted? := by
  induction h with
  | nil => rfl
  | idle _ ih => simp [Item.completed?, Item.accepted?, List.filterMap_cons, ih]
  | round plan outcome _ ih => simp [Item.completed?, Item.accepted?, List.filterMap_cons, ih]

/-- A driver at its desk: the agent it drives, and what its application keeps, the books among it. -/
structure Desk (σ : Type) where
  agent : Agent
  driver : Driver (σ × List Item)
  kept : σ × List Item

namespace Desk

variable {σ : Type}

inductive Deed
  /-- The driver takes a step. -/
  | step (now : Nat)
  /-- The shutdown signal comes. -/
  | signal
  /-- The agent is like this after what has happened to it besides. -/
  | elapse (agent : Agent)

def ledger (r : Desk σ) : List Item := r.kept.2

/-- What is booked of the driver's round when the agent has become another. -/
def ending? (r : Desk σ) (after : Agent) : Option Item :=
  match r.driver.handed? r.agent with
  | some _ => none
  | none => (r.driver.handed? after).map .completed

def deal (r : Desk σ) : Deed → Desk σ
  | .step now =>
    let done := (r.driver.step r.agent r.kept now).value
    ⟨done.2.1, done.1, done.2.2⟩
  | .signal => { r with driver.signalled := true }
  | .elapse agent => { r with agent, kept := (r.kept.1, r.ledger ++ (r.ending? agent).toList) }

def run (r : Desk σ) (deeds : List Deed) : Desk σ := deeds.foldl deal r

/-- The driver before its first step. -/
def opening (app : Application σ) (a : Agent) (kept : σ) : Desk σ := ⟨a, { app := app.booked }, kept, []⟩

/-- What has ended for the driver does not begin again or end otherwise. -/
def Fair (r : Desk σ) : Deed → Prop
  | .elapse agent => ∀ outcome, r.driver.handed? r.agent = some outcome →
      r.driver.handed? agent = some outcome
  | _ => True

/-- All deeds are fair where they are done. -/
def FairAll (r : Desk σ) : List Deed → Prop
  | [] => True
  | deed :: rest => r.Fair deed ∧ (r.deal deed).FairAll rest

def completed (r : Desk σ) : List RoundOutcome := r.ledger.filterMap Item.completed?

def accepted (r : Desk σ) : List RoundOutcome := r.ledger.filterMap Item.accepted?

/-- What is booked of the round in work; of one that the signal cut off there is only the plan. -/
def Owes (r : Desk σ) (items : List Item) : Prop :=
  match r.driver.stage with
  | .inRound round _ =>
    ∃ plan, items = .asked (some plan) :: ((r.agent.outcome? round).map Item.completed).toList
  | .stopped => items = [] ∨ ∃ plan, items = [.asked (some plan)]
  | _ => items = []

structure Balanced (app : Application σ) (r : Desk σ) : Prop where
  booked : r.driver.app = app.booked
  ledger : ∃ settled items, r.ledger = settled ++ items ∧ Settled settled ∧ r.Owes items
  handed : r.driver.accepted.reverse = r.accepted
  finalized : r.driver.finalized = r.accepted.countP fun outcome => outcome.isFinalized
  failed : r.driver.failed = r.accepted.countP fun outcome => !outcome.isFinalized

variable {app : Application σ} {r : Desk σ} {items : List Item}

theorem owes_of_pause (h : r.driver.stage.IsPause) : r.Owes items ↔ items = [] := by
  unfold Owes
  split
  next hstage =>
    rw [hstage] at h
    exact h.elim
  next hstage =>
    rw [hstage] at h
    exact h.elim
  next => rfl

variable {round since : Nat}

theorem owes_inRound (h : r.driver.stage = .inRound round since) :
    r.Owes items ↔
      ∃ plan, items = .asked (some plan) :: ((r.agent.outcome? round).map Item.completed).toList := by
  unfold Owes
  rw [h]

theorem owes_of_running (h : r.driver.stage = .inRound round since)
    (hrunning : r.agent.outcome? round = none) (plan : PhasePlan) : r.Owes [.asked (some plan)] := by
  rw [owes_inRound h, hrunning]
  exact ⟨plan, rfl⟩

theorem owes_of_stopped (h : r.driver.stage = .stopped) :
    r.Owes items ↔ items = [] ∨ ∃ plan, items = [.asked (some plan)] := by
  unfold Owes
  rw [h]

theorem deal_step_of_stopped (h : r.driver.stage = .stopped) (now : Nat) : r.deal (.step now) = r := by
  simp only [deal, Driver.step_of_stopped h]

/-- The end of the round in work is booked once, behind its plan. -/
theorem Owes.elapse (h : r.Owes items) {agent : Agent} (hfair : r.Fair (.elapse agent)) :
    (r.deal (.elapse agent)).Owes (items ++ (r.ending? agent).toList) := by
  have hidle : (∀ a, r.driver.handed? a = none) → items ++ (r.ending? agent).toList = items := by
    intro hnone
    unfold ending?
    simp only [hnone, Option.map_none, Option.toList_none, List.append_nil]
  cases hstage : r.driver.stage with
  | inRound round since =>
    obtain ⟨plan, rfl⟩ := (owes_inRound hstage).mp h
    have hafter : (r.deal (.elapse agent)).driver.stage = .inRound round since := hstage
    have hhanded := Driver.handed?_inRound hstage
    refine (owes_inRound hafter).mpr ⟨plan, ?_⟩
    unfold Fair at hfair
    unfold ending?
    simp only [hhanded] at hfair ⊢
    cases hended : r.agent.outcome? round with
    | some outcome =>
      have hstill : (r.deal (.elapse agent)).agent.outcome? round = some outcome := hfair outcome hended
      rw [hstill]
      rfl
    | none => rfl
  | stopped =>
    have hafter : (r.deal (.elapse agent)).driver.stage = .stopped := hstage
    rw [hidle (Driver.handed?_of_stopped hstage)]
    exact (owes_of_stopped hafter).mpr ((owes_of_stopped hstage).mp h)
  | starting | planning | sleeping =>
    have hpause : r.driver.stage.IsPause := by
      rw [hstage]
      trivial
    have hafter : (r.deal (.elapse agent)).driver.stage.IsPause := hpause
    rw [hidle (Driver.handed?_of_pause hpause)]
    exact (owes_of_pause hafter).mpr ((owes_of_pause hpause).mp h)

theorem balanced_opening (app : Application σ) (a : Agent) (kept : σ) :
    (opening app a kept).Balanced app where
  booked := rfl
  ledger := ⟨[], [], rfl, .nil, rfl⟩
  handed := rfl
  finalized := rfl
  failed := rfl

theorem Owes.completed_eq (h : r.Owes items) :
    items.filterMap Item.completed? = (r.driver.handed? r.agent).toList ∧
      items.filterMap Item.accepted? = [] := by
  unfold Owes at h
  unfold Driver.handed?
  cases hstage : r.driver.stage with
  | inRound round since =>
    simp only [hstage] at h ⊢
    obtain ⟨plan, rfl⟩ := h
    cases r.agent.outcome? round with
    | none => exact ⟨rfl, rfl⟩
    | some outcome => exact ⟨rfl, rfl⟩
  | stopped =>
    simp only [hstage] at h ⊢
    rcases h with rfl | ⟨plan, rfl⟩
    · exact ⟨rfl, rfl⟩
    · exact ⟨rfl, rfl⟩
  | starting | planning | sleeping =>
    simp only [hstage] at h ⊢
    subst h
    exact ⟨rfl, rfl⟩

/-- All that has ended was handed over, in the order in which it ended, but for an outcome that the driver
hands over next. -/
theorem Balanced.completed_eq (h : r.Balanced app) :
    r.completed = r.accepted ++ (r.driver.handed? r.agent).toList := by
  obtain ⟨settled, items, hledger, hsettled, howes⟩ := h.ledger
  obtain ⟨hcompleted, haccepted⟩ := howes.completed_eq
  rw [completed, accepted, hledger, List.filterMap_append, List.filterMap_append, hsettled.completed_eq,
    hcompleted, haccepted, List.append_nil]

/-- The agent and the driver change, and nothing is handed over. -/
theorem Balanced.of_driver (h : r.Balanced app) {r' : Desk σ} (more : List Item)
    (happ : r'.driver.app = r.driver.app) (haccepted : r'.driver.accepted = r.driver.accepted)
    (hfinalized : r'.driver.finalized = r.driver.finalized) (hfailed : r'.driver.failed = r.driver.failed)
    (hledger : r'.ledger = r.ledger ++ more) (hmore : more.filterMap Item.accepted? = [])
    (howes : ∀ settled items, Settled settled → r.Owes items →
      ∃ settled' items', settled ++ items ++ more = settled' ++ items' ∧ Settled settled' ∧ r'.Owes items') :
    r'.Balanced app := by
  have hsame : r'.accepted = r.accepted := by
    rw [accepted, accepted, hledger, List.filterMap_append, hmore, List.append_nil]
  refine ⟨happ.trans h.booked, ?_, ?_, ?_, ?_⟩
  · obtain ⟨settled, items, hitems, hsettled, hitemsOwed⟩ := h.ledger
    rw [hledger, hitems]
    exact howes settled items hsettled hitemsOwed
  · rw [haccepted, hsame, h.handed]
  · rw [hfinalized, hsame, h.finalized]
  · rw [hfailed, hsame, h.failed]

/-- A pausing driver stops, or it asks for a plan. -/
theorem Balanced.step_of_pause (h : r.Balanced app) (hpause : r.driver.stage.IsPause) (now : Nat) :
    (r.deal (.step now)).Balanced app := by
  have hstep : (r.driver.step r.agent r.kept now).value = _ := Driver.step_of_pause hpause
  have hplan : r.driver.app.plan r.agent.node.position r.kept =
      app.booked.plan r.agent.node.position r.kept := by rw [h.booked]
  cases hsignalled : r.driver.signalled with
  | true =>
    rw [Driver.plan_of_signalled hsignalled] at hstep
    simp only [deal, hstep]
    refine h.of_driver [] rfl rfl rfl rfl (List.append_nil _).symm rfl ?_
    intro settled items hsettled howes
    rw [(owes_of_pause hpause).mp howes]
    exact ⟨settled, [], by simp, hsettled, Or.inl rfl⟩
  | false =>
    cases hplanned : (app.plan r.agent.node.position r.kept.1).1 with
    | none =>
      have hnone : (r.driver.app.plan r.agent.node.position r.kept).1 = none := by
        rw [hplan]
        exact hplanned
      rw [Driver.plan_of_none hsignalled hnone] at hstep
      simp only [deal, hstep]
      refine h.of_driver [.asked none] rfl rfl rfl rfl ?_ rfl ?_
      · show (r.driver.app.plan r.agent.node.position r.kept).2.2.2 = _
        rw [hplan, ← hplanned]
        rfl
      · intro settled items hsettled howes
        rw [(owes_of_pause hpause).mp howes]
        refine ⟨settled ++ [.asked none], [], by simp, .idle hsettled, ?_⟩
        exact (owes_of_pause (Driver.pause_isPause _ _ _)).mpr rfl
    | some plan =>
      have hsome : (r.driver.app.plan r.agent.node.position r.kept).1 = some plan := by
        rw [hplan]
        exact hplanned
      rw [Driver.plan_of_some hsignalled hsome] at hstep
      simp only [deal, hstep]
      refine h.of_driver [.asked (some plan)] rfl rfl rfl rfl ?_ rfl ?_
      · show (r.driver.app.plan r.agent.node.position r.kept).2.2.2 = _
        rw [hplan, ← hplanned]
        rfl
      · intro settled items hsettled howes
        rw [(owes_of_pause hpause).mp howes]
        exact ⟨settled, [.asked (some plan)], by simp, hsettled,
          owes_of_running rfl (Agent.outcome?_startRound _ plan _ now) plan⟩

/-- An outcome is counted and handed over, and then the books are settled. -/
theorem Balanced.step_of_ended (h : r.Balanced app) (hstage : r.driver.stage = .inRound round since)
    {outcome : RoundOutcome} (hended : r.agent.outcome? round = some outcome) (now : Nat) :
    (r.deal (.step now)).Balanced app := by
  have hstep : (r.driver.step r.agent r.kept now).value = _ := Driver.step_of_ended hstage hended
  rw [Driver.conclude_value] at hstep
  have hledger : (r.deal (.step now)).ledger = r.ledger ++ [.accepted outcome] := by
    show (r.driver.step r.agent r.kept now).value.2.2.2 = _
    rw [hstep, h.booked]
    rfl
  have hdriver : (r.deal (.step now)).driver =
      (r.driver.counting outcome).pause now (Driver.delayAfter (r.agent.dropRound round) outcome) := by
    show (r.driver.step r.agent r.kept now).value.1 = _
    rw [hstep]
  have haccepted : (r.deal (.step now)).accepted = r.accepted ++ [outcome] := by
    rw [accepted, hledger, List.filterMap_append]
    rfl
  refine ⟨by rw [hdriver]; exact h.booked, ?_, ?_, ?_, ?_⟩
  · obtain ⟨settled, items, hitems, hsettled, howes⟩ := h.ledger
    obtain ⟨plan, rfl⟩ := (owes_inRound hstage).mp howes
    rw [hledger, hitems, hended]
    refine ⟨settled ++ [.asked (some plan), .completed outcome, .accepted outcome], [], by simp,
      .round plan outcome hsettled, ?_⟩
    refine (owes_of_pause ?_).mpr rfl
    rw [hdriver]
    exact Driver.pause_isPause _ _ _
  · rw [hdriver, haccepted, ← h.handed]
    exact List.reverse_cons
  · rw [hdriver, haccepted, List.countP_append, ← h.finalized, List.countP_singleton]
    rfl
  · rw [hdriver, haccepted, List.countP_append, ← h.failed, List.countP_singleton]
    cases hfinalized : outcome.isFinalized <;> simp [Driver.pause, Driver.counting, hfinalized]

/-- A round in work goes on, or the signal cuts it off. -/
theorem Balanced.step_of_running (h : r.Balanced app) (hstage : r.driver.stage = .inRound round since)
    (hrunning : r.agent.outcome? round = none) (now : Nat) : (r.deal (.step now)).Balanced app := by
  have hstep : (r.driver.step r.agent r.kept now).value = _ := Driver.step_of_running hstage hrunning
  split at hstep
  next =>
    simp only [deal, hstep]
    refine h.of_driver [] rfl rfl rfl rfl (List.append_nil _).symm rfl ?_
    intro settled items hsettled howes
    obtain ⟨plan, rfl⟩ := (owes_inRound hstage).mp howes
    rw [hrunning, List.append_nil]
    exact ⟨settled, [.asked (some plan)], rfl, hsettled, (owes_of_stopped rfl).mpr (Or.inr ⟨plan, rfl⟩)⟩
  next =>
    simp only [deal, hstep]
    exact h

theorem Balanced.step (h : r.Balanced app) (now : Nat) : (r.deal (.step now)).Balanced app := by
  rcases r.driver.stage_cases r.agent with hpause | ⟨round, since, outcome, hstage, hended⟩ |
    ⟨round, since, hstage, hrunning⟩ | hstopped
  · exact h.step_of_pause hpause now
  · exact h.step_of_ended hstage hended now
  · exact h.step_of_running hstage hrunning now
  · rw [deal_step_of_stopped hstopped]
    exact h

theorem Balanced.elapse (h : r.Balanced app) {agent : Agent} (hfair : r.Fair (.elapse agent)) :
    (r.deal (.elapse agent)).Balanced app := by
  refine h.of_driver (r.ending? agent).toList rfl rfl rfl rfl rfl ?_ ?_
  · unfold ending?
    split
    next => rfl
    next => cases r.driver.handed? agent <;> rfl
  · intro settled items hsettled howes
    refine ⟨settled, items ++ (r.ending? agent).toList, List.append_assoc _ _ _, hsettled, ?_⟩
    exact howes.elapse hfair

theorem Balanced.deal (h : r.Balanced app) {deed : Deed} (hfair : r.Fair deed) :
    (r.deal deed).Balanced app := by
  cases deed with
  | step now => exact h.step now
  | signal => exact ⟨h.booked, h.ledger, h.handed, h.finalized, h.failed⟩
  | elapse agent => exact h.elapse hfair

theorem Balanced.run (h : r.Balanced app) {deeds : List Deed} (hfair : r.FairAll deeds) :
    (r.run deeds).Balanced app := by
  induction deeds generalizing r with
  | nil => exact h
  | cons deed deeds ih => exact ih (h.deal hfair.1) hfair.2

theorem fair_of_run (r : Desk σ) {script : Script} (hscript : ∀ v ∈ script, v.2.Apart) :
    r.Fair (.elapse (r.agent.run script)) := by
  intro outcome hended
  unfold Driver.handed? at hended ⊢
  split at hended
  next => exact Agent.outcome?_run hscript hended
  next => cases hended

theorem Balanced.accepted_step (h : r.Balanced app) (now : Nat) :
    (r.deal (.step now)).accepted = r.completed := by
  have hnext : (r.deal (.step now)).driver.accepted =
      (r.driver.handed? r.agent).toList ++ r.driver.accepted := Driver.accepted_step _ _ _ _
  rw [← (h.step now).handed, hnext, List.reverse_append, h.handed, h.completed_eq]
  cases r.driver.handed? r.agent <;> rfl

theorem deal_of_stopped (h : r.driver.stage = .stopped) (deed : Deed) :
    (r.deal deed).driver.stage = .stopped ∧ (r.deal deed).ledger = r.ledger := by
  cases deed with
  | step now =>
    rw [deal_step_of_stopped h]
    exact ⟨h, rfl⟩
  | signal => exact ⟨h, rfl⟩
  | elapse agent =>
    have hnothing : r.ending? agent = none := by
      unfold ending?
      simp only [Driver.handed?_of_stopped h, Option.map_none]
    refine ⟨h, ?_⟩
    show r.ledger ++ (r.ending? agent).toList = r.ledger
    rw [hnothing]
    exact List.append_nil _

theorem ledger_run_of_stopped (h : r.driver.stage = .stopped) (deeds : List Deed) :
    (r.run deeds).ledger = r.ledger := by
  induction deeds generalizing r with
  | nil => rfl
  | cons deed deeds ih =>
    obtain ⟨hstopped, hledger⟩ := deal_of_stopped h deed
    exact (ih hstopped).trans hledger

/-- What there is to say of a driver and its books at any time. -/
structure Accounted (app : Application σ) (r : Desk σ) : Prop extends r.Balanced app where
  /-- The driver does what it does without books. -/
  unseen : ∀ now, ((r.driver.serving app).step r.agent r.kept.1 now).value =
    ((r.deal (.step now)).driver.serving app, (r.deal (.step now)).agent, (r.deal (.step now)).kept.1)
  completed : r.completed = r.accepted ++ (r.driver.handed? r.agent).toList
  ready : ∀ outcome, r.driver.handed? r.agent = some outcome → r.driver.readyAt r.agent = some 0
  next : ∀ now, (r.deal (.step now)).accepted = r.completed
  stopped : r.driver.stage = .stopped → ∀ later, (r.run later).ledger = r.ledger

theorem Balanced.accounted (h : r.Balanced app) : r.Accounted app where
  toBalanced := h
  unseen now := by
    have hreflects : r.driver.app.Reflects Prod.fst app := by
      rw [h.booked]
      exact app.booked_reflects
    exact Driver.step_reflects hreflects r.agent r.kept now
  completed := h.completed_eq
  ready _ := Driver.readyAt_of_handed?
  next := h.accepted_step
  stopped := ledger_run_of_stopped

/-- The desk with another application. -/
def serving (r : Desk σ) (app' : Application (σ × List Item)) : Desk σ :=
  { r with driver := r.driver.serving app' }

variable {app' : Application (σ × List Item)}

theorem deal_app (r : Desk σ) (deed : Deed) : (r.deal deed).driver.app = r.driver.app := by
  cases deed with
  | step now => exact (Driver.step_stepped r.driver r.agent r.kept now).app
  | signal => rfl
  | elapse agent => rfl

theorem deal_serving (h : r.driver.app.Reflects id app') (deed : Deed) :
    (r.serving app').deal deed = (r.deal deed).serving app' := by
  cases deed with
  | step now =>
    have hstep : ((r.driver.serving app').step r.agent r.kept now).value = _ :=
      Driver.step_reflects h r.agent r.kept now
    simp only [deal, serving, hstep, id_eq]
  | signal => rfl
  | elapse agent => rfl

theorem run_serving (h : r.driver.app.Reflects id app') (deeds : List Deed) :
    (r.serving app').run deeds = (r.run deeds).serving app' := by
  induction deeds generalizing r with
  | nil => rfl
  | cons deed deeds ih =>
    have hlater : (r.deal deed).driver.app.Reflects id app' := by
      rw [r.deal_app]
      exact h
    show ((r.serving app').deal deed).run deeds = ((r.deal deed).run deeds).serving app'
    rw [deal_serving h, ih hlater]

/-- The books of a driver are in order at any time, and they are those of any application that only
says other things to the outcomes. -/
theorem books_in_order (app : Application σ) (a : Agent) (kept : σ) {deeds : List Deed}
    (hfair : (opening app a kept).FairAll deeds) :
    ((opening app a kept).run deeds).Accounted app ∧
      ∀ app' : Application σ, app.Reflects id app' →
        (opening app' a kept).run deeds = ((opening app a kept).run deeds).serving app'.booked := by
  refine ⟨((balanced_opening app a kept).run hfair).accounted, fun app' hreflects => ?_⟩
  exact run_serving (r := opening app a kept) hreflects.booked deeds

end Desk

namespace SourDesk

def lone : Agent := .plain "a"

/-- An application that rejects every outcome. -/
def sour : Application AppState where
  plan := Devnet.plan
  accept outcome elapsed p s := do
    let done ← Devnet.accept "a" outcome elapsed p s
    return (.error (.application "not now"), done.2)

theorem reflects_sour : (Devnet.application "a").Reflects id sour where
  plan _ _ := rfl
  accept outcome elapsed p s := by
    simp only [sour, Noted.value_bind, Noted.value_pure]
    rfl

def opened : Desk AppState := .opening (Devnet.application "a") lone lone.appState

/-- The first round waits in vain for a second member. -/
def script : Script :=
  let members : Members := .ofList ["a", "b"]
  [(⟨0, 0, members, 0⟩, .task (.round 0)), (⟨30000, 30000, members, 0⟩, .task (.round 0)),
    (⟨30000, 30000, members, 0⟩, .task (.fill 0)), (⟨30000, 30000, members, 0⟩, .task (.round 0))]

def deeds : List Desk.Deed :=
  [.step 0, .elapse ((opened.deal (.step 0)).agent.run script), .step 30000, .step 30500, .signal,
    .step 30600]

theorem opened_fair : opened.FairAll deeds := by
  have hscript : ∀ v ∈ script, v.2.Apart := by simp [script, Move.Apart]
  exact ⟨trivial, Desk.fair_of_run _ hscript, trivial, trivial, trivial, trivial, trivial⟩

theorem opened_accepted : (opened.run deeds).accepted =
    [.failed ⟨1, 0⟩ (.insufficientContributions 1 2)] := by
  decide +kernel

theorem opened_ledger : (opened.run deeds).driver.stage = .stopped ∧
    (opened.run deeds).ledger.length = 4 := by
  decide +kernel

/-- The failure is handed over, the round after it is cut off and is not. -/
theorem sour_books_in_order : opened.FairAll deeds ∧
    (opened.run deeds).Accounted (Devnet.application "a") ∧
    (Desk.opening sour lone lone.appState).run deeds = (opened.run deeds).serving sour.booked ∧
    (opened.run deeds).driver.failed = 1 ∧
    (opened.run deeds).driver.stage = .stopped ∧ (opened.run deeds).ledger.length = 4 := by
  obtain ⟨haccounted, hsame⟩ :=
    Desk.books_in_order (Devnet.application "a") lone lone.appState opened_fair
  have hfailed : (opened.run deeds).driver.failed =
      (opened.run deeds).accepted.countP fun outcome => !outcome.isFinalized := haccounted.failed
  rw [opened_accepted] at hfailed
  exact ⟨opened_fair, haccounted, hsame sour reflects_sour, hfailed, opened_ledger⟩

end SourDesk

end Adjudication
