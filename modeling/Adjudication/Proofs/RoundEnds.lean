import Adjudication.Proofs.RoundDeadlines

namespace Adjudication

/-- What the course of a round comes to. -/
structure Course.Bounded (p : Pace) (base id : Nat) (s : Course) : Prop where
  pauses : 1 ≤ p.poll
  /-- There are boundedly many looks, by how often the height has changed. -/
  looks : s.looks.length ≤ (s.changes + 1) * p.quota + p.catchUp + 1
  /-- A look at or after the deadline of its loop is the last one of the loop. -/
  inTime : InTime p.limit s.looks
  /-- The looks of a loop are a pause apart, all but one for each fill. -/
  early : ∀ kind fill, earlyLooks p.poll (.filling kind fill) s.looks ≤ 1
  steady : earlyLooks p.poll .catchingUp s.looks = 0
  /-- Before its end the round, or a fill that it waits for, has something to do. -/
  due : s.agent.outcome? id = none → (∃ t, (t, .round id) ∈ s.agent.agenda) ∨
    ∃ fill ∈ s.fills, (0, .fill fill) ∈ s.agent.agenda
  /-- The end comes by a time, by how often the height has changed. -/
  ends : base + (s.changes + 1) * p.span + p.catchUp + p.poll < s.now →
    (s.agent.outcome? id).isSome
  cancelled : (s.agent.outcome? id).isSome → ∀ fill ∈ s.fills, s.agent.Dismissed fill

variable {p : Pace} {base id : Nat} {s : Course} {key : RoundKey} {stage : RoundStage} {r : RoundRun}

theorem Standing.count (h : Standing p base s key stage) (hpoll : 1 ≤ p.poll) :
    s.looks.length ≤ (s.changes + 1) * p.quota + p.catchUp + 1 := by
  have hmono : ∀ n ≤ s.changes, (n + 1) * p.quota ≤ (s.changes + 1) * p.quota :=
    fun n hn => Nat.mul_le_mul_right _ (Nat.succ_le_succ hn)
  cases stage with
  | scheduled => simp [h.2]
  | polling goal since fill wake watching =>
    obtain ⟨n, q, last, hlooking⟩ := h
    have hle := hmono n hlooking.tried.1
    have hfew := hlooking.few hpoll
    have hcount := hlooking.count
    have hprior := p.prior_le goal
    rw [Nat.succ_mul] at hle
    omega
  | leaving goal fill verdict =>
    obtain ⟨n, hleaving⟩ := h
    have hle := hmono n hleaving.tried.1
    have hcount := hleaving.count
    have hprior := p.prior_le goal
    rw [Nat.succ_mul] at hle
    omega
  | catchingUp c deadline wake =>
    obtain ⟨n, q, last, hawaiting⟩ := h
    have hle := hmono n hawaiting.tried
    have hfew := hawaiting.few hpoll
    have hcount := hawaiting.count
    omega
  | ended outcome time ready =>
    obtain ⟨n, hended⟩ := h
    have hle := hmono n hended.tried
    have hcount := hended.count
    omega

theorem Looking.wake_le {goal : Goal} {since fill wake : Nat} {watching : Bool} {n q last : Nat}
    (h : Looking p base s key goal since fill wake watching n q last) :
    wake ≤ base + (s.changes + 1) * p.span + p.catchUp + p.poll := by
  have hle : (n + 1) * p.span ≤ (s.changes + 1) * p.span :=
    Nat.mul_le_mul_right _ (Nat.succ_le_succ h.tried.1)
  have hbegan := h.began
  have hwoke := h.woke
  have hearly := h.early
  have hlead := p.lead_le goal
  rw [Nat.succ_mul] at hle
  omega

theorem Awaiting.wake_le {deadline wake n q last : Nat}
    (h : Awaiting p base s deadline wake n q last) :
    wake ≤ base + (s.changes + 1) * p.span + p.catchUp + p.poll := by
  have hle : (n + 1) * p.span ≤ (s.changes + 1) * p.span :=
    Nat.mul_le_mul_right _ (Nat.succ_le_succ h.tried)
  have hends := h.ends
  have hwoke := h.woke
  have hearly := h.early
  omega

/-- A round that is not at its end has time left. -/
theorem Standing.now_le (h : Standing p base s key stage)
    (hopen : ∀ outcome time ready, stage ≠ .ended outcome time ready) :
    s.now ≤ base + (s.changes + 1) * p.span + p.catchUp + p.poll := by
  cases stage with
  | scheduled =>
    have hearly := h.1
    omega
  | polling goal since fill wake watching =>
    obtain ⟨n, q, last, hlooking⟩ := h
    exact Nat.le_trans hlooking.due hlooking.wake_le
  | leaving goal fill verdict =>
    obtain ⟨n, hleaving⟩ := h
    have hle : (n + 1) * p.span ≤ (s.changes + 1) * p.span :=
      Nat.mul_le_mul_right _ (Nat.succ_le_succ hleaving.tried.1)
    have hlate := hleaving.late
    have hlead := p.lead_le goal
    rw [Nat.succ_mul] at hle
    omega
  | catchingUp c deadline wake =>
    obtain ⟨n, q, last, hawaiting⟩ := h
    exact Nat.le_trans hawaiting.due hawaiting.wake_le
  | ended outcome time ready => exact absurd rfl (hopen outcome time ready)

namespace Course

theorem Keeps.outcome?_eq (h : Keeps p base s id r) : s.agent.outcome? id = r.outcome? := by
  rw [Agent.outcome?, h.round]
  rfl

/-- A round that is not at its end has something to do, or waits for a fill that has. -/
theorem Keeps.ready_or_due (h : Keeps p base s id r) (hopen : r.outcome? = none) :
    (∃ t, r.readyAt s.agent.toExchanger = some t) ∨ ∃ fill ∈ s.fills, (0, .fill fill) ∈ s.agent.agenda := by
  have hstanding := h.standing
  cases hs : r.stage with
  | scheduled => exact Or.inl ⟨r.startsAt, by rw [RoundRun.readyAt, hs]⟩
  | polling goal since fill wake watching =>
    refine Or.inl ?_
    by_cases hended : (watching && s.agent.isFillEnded fill) = true
    · exact ⟨0, by simp only [RoundRun.readyAt, hs, if_pos hended]⟩
    · exact ⟨wake, by simp only [RoundRun.readyAt, hs, if_neg hended]⟩
  | leaving goal fill verdict =>
    rw [hs] at hstanding
    obtain ⟨n, hleaving⟩ := hstanding
    rcases ready_or_due_of_leaving hs hleaving.dismissed with hready | hfill
    · exact Or.inl ⟨0, hready⟩
    · exact Or.inr ⟨fill, hleaving.opened, hfill⟩
  | catchingUp c deadline wake => exact Or.inl ⟨wake, by rw [RoundRun.readyAt, hs]⟩
  | ended outcome time ready => simp [RoundRun.outcome?, hs] at hopen

theorem Keeps.due (h : Keeps p base s id r) (hopen : s.agent.outcome? id = none) :
    (∃ t, (t, .round id) ∈ s.agent.agenda) ∨ ∃ fill ∈ s.fills, (0, .fill fill) ∈ s.agent.agenda := by
  rw [h.outcome?_eq] at hopen
  rcases h.ready_or_due hopen with ⟨t, hready⟩ | hfill
  · exact Or.inl ⟨t, Agent.round_mem_agenda h.round hready⟩
  · exact Or.inr hfill

/-- What a round has to do next, it has to do within its time. -/
theorem Keeps.readyAt_le (h : Keeps p base s id r) {t : Nat}
    (ht : r.readyAt s.agent.toExchanger = some t) :
    t ≤ base + (s.changes + 1) * p.span + p.catchUp + p.poll := by
  have hstanding := h.standing
  cases hs : r.stage with
  | scheduled =>
    simp only [RoundRun.readyAt, hs, Option.some.injEq] at ht
    have hstarts := h.starts
    omega
  | polling goal since fill wake watching =>
    rw [hs] at hstanding
    obtain ⟨n, q, last, hlooking⟩ := hstanding
    have hwake := hlooking.wake_le
    simp only [RoundRun.readyAt, hs] at ht
    split at ht
    next =>
      cases ht
      exact Nat.zero_le _
    next =>
      cases ht
      exact hwake
  | leaving goal fill verdict =>
    simp only [RoundRun.readyAt, hs] at ht
    split at ht
    next =>
      cases ht
      exact Nat.zero_le _
    next => cases ht
  | catchingUp c deadline wake =>
    rw [hs] at hstanding
    obtain ⟨n, q, last, hawaiting⟩ := hstanding
    simp only [RoundRun.readyAt, hs, Option.some.injEq] at ht
    rw [← ht]
    exact hawaiting.wake_le
  | ended outcome time ready => simp [RoundRun.readyAt, hs] at ht

theorem Keeps.bounded (h : Keeps p base s id r) (hpoll : 1 ≤ p.poll) : s.Bounded p base id where
  pauses := hpoll
  looks := h.standing.count hpoll
  inTime := h.inTime
  early := h.early
  steady := h.steady
  due := h.due
  ends hlate := by
    rw [h.outcome?_eq]
    unfold RoundRun.outcome?
    split
    next => rfl
    next hopen =>
      have hnow := h.standing.now_le hopen
      omega
  cancelled hended := by
    rw [h.outcome?_eq] at hended
    refine h.dismissed (not_looksFor fun goal since fill wake watching hs => ?_)
    simp [RoundRun.outcome?, hs] at hended

end Course

namespace Agent

variable {a : Agent} {now : Nat} {script : Script} {m : Moment} {v : Move}

/-- A round is left as it is by a move that is no step of it, unless it is dropped. -/
theorem round?_act (hv : v.isStep id = false) (hid : id < a.nextRound)
    (hkept : ((a.act m v).round? id).isSome) : (a.act m v).round? id = a.round? id := by
  rcases act_cases a m v with ⟨other, r, rfl, turned⟩ | between
  · refine turned.others id fun hsame => ?_
    subst hsame
    simp [Move.isStep] at hv
  · rcases between.rounds id with hsame | hnone | ⟨hle, _⟩
    · exact hsame
    · simp [hnone] at hkept
    · omega

theorem round?_before (hid : id < a.nextRound) (hkept : ((a.act m v).round? id).isSome) :
    (a.round? id).isSome := by
  cases hv : v.isStep id with
  | false =>
    rw [← round?_act hv hid hkept]
    exact hkept
  | true =>
    rw [Move.eq_of_isStep hv] at hkept
    cases hr : a.round? id with
    | some r => rfl
    | none =>
      rcases act_cases a m (.task (.round id)) with ⟨other, r, hsame, turned⟩ | between
      · cases hsame
        cases hr.symm.trans turned.before
      · rcases between.rounds id with hsame | hnone | ⟨hle, _⟩
        · rw [hsame, hr] at hkept
          exact hkept
        · rw [hnone] at hkept
          exact hkept
        · omega

theorem keeps_course (hnumbered : a.Numbered) (hround : a.round? id = some r)
    (hscheduled : r.stage = .scheduled) (hpunctual : Punctual now a script)
    (hkept : ((a.run script).round? id).isSome) :
    ∃ r', (a.course id now script).Keeps (r.pace a.node.config.round) (max r.startsAt now) id r' := by
  have hphased : Phased id r.phase a := by
    refine ⟨hnumbered id r hround, fun r' hr' => ?_⟩
    rw [Option.some.inj (hround.symm.trans hr')]
  have hpoll : 1 ≤ (r.pace a.node.config.round).poll := Nat.le_max_right _ _
  induction script using List.reverseRecOn with
  | nil =>
    refine ⟨r, hround, rfl, Nat.le_max_left _ _, ?_, ?_, ?_, ?_, rfl, ?_, ?_⟩
    · simp
    · simp
    · intro later l earlier hsplit
      simp at hsplit
    · intro kind fill
      exact Nat.zero_le _
    · simp
    · rw [hscheduled]
      exact ⟨Nat.le_max_right _ _, rfl⟩
  | append_singleton script v ih =>
    obtain ⟨hbefore, htime⟩ := punctual_snoc id hpunctual
    have hid := (hphased.run script).1
    rw [run_append] at hkept
    obtain ⟨r', hkeeps⟩ := ih hbefore (round?_before hid hkept)
    rw [← course_agent a id now script] at htime hid hkept
    rw [course_snoc]
    obtain ⟨m, v⟩ := v
    cases hv : v.isStep id with
    | true =>
      cases Move.eq_of_isStep hv
      exact hkeeps.step htime hpoll
    | false =>
      exact ⟨r', hkeeps.other htime hv ((round?_act hv hid hkept).trans hkeeps.round)⟩

/-- A round ends. However its node, its peers, its members and its heights behave, the course of a round
in virtual time is bounded. -/
theorem round_bounded {before : Script} (hblank : a.Blank)
    (hround : (a.run before).round? id = some r) (hscheduled : r.stage = .scheduled)
    (hpunctual : Punctual now (a.run before) script)
    (hkept : (((a.run before).run script).round? id).isSome) :
    ((a.run before).course id now script).Bounded (r.pace (a.run before).node.config.round)
      (max r.startsAt now) id := by
  obtain ⟨r', hkeeps⟩ :=
    keeps_course (hblank.numbered.run before) hround hscheduled hpunctual hkept
  exact hkeeps.bounded (Nat.le_max_right _ _)

end Agent

namespace SilentPeer

def moment (now : Nat) : Moment := ⟨now, now, .ofList ["a", "b"], 0⟩

/-- A node that collects for two milliseconds and has no pause set, with a round to start. -/
def node : Agent :=
  .fresh (.plain "a") plainVerifier { round := { initialCollection := 2, pollSetting := 0 } } {}
    (.ofSeed 1) .logging ⟨.ofSeed 2, {}⟩

def contribution : SignedEntry := ⟨"x", (Signer.plain "a").sign (contributionMessage "x")⟩

def opening : Script := [(moment 0, .start ⟨0, .initial, "x", 5⟩ contribution.signature 0)]

/-- The other member says nothing, so the third look is the last. -/
def attempt : Script := [
  (moment 0, .task (.round 0)),
  (moment 0, .task (.fill 0)),
  (moment 1, .task (.round 0)),
  (moment 1, .task (.fill 0)),
  (moment 2, .task (.round 0)),
  (moment 2, .task (.fill 0)),
  (moment 2, .task (.round 0))]

theorem attempt_bounded :
    (((node.run opening).run attempt).outcome? 0 =
      some (.failed ⟨1, 0⟩ (.insufficientContributions 1 2))) ∧
    ((node.run opening).course 0 0 attempt).looks =
      [⟨.filling .contribution 0, 2⟩, ⟨.filling .contribution 0, 1⟩, ⟨.filling .contribution 0, 0⟩] ∧
    ((node.run opening).course 0 0 attempt).Bounded ⟨2, 5, Limits.catchUp, 1⟩ 0 0 := by
  have hround : (node.run opening).round? 0 = some
      { phase := 0, contribution, finalizeTimeout := 5, kind := .initial, startsAt := 0 } := rfl
  refine ⟨by decide +kernel, by decide +kernel, ?_⟩
  exact Agent.round_bounded (Agent.fresh_blank ..) hround rfl (by decide +kernel) (by decide +kernel)

end SilentPeer

end Adjudication
