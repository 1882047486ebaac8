import Adjudication.Proofs.RoundCourses

namespace Adjudication

namespace Pace

/-- How long after the start of an attempt the loop of a goal begins at the latest. -/
def lead (p : Pace) : Goal → Nat
  | .collection => 0
  | .tally _ => p.collection + p.poll

/-- How many looks of an attempt come before those of a goal at most. -/
def prior (p : Pace) : Goal → Nat
  | .collection => 0
  | .tally _ => p.collection + 2

theorem lead_le (p : Pace) (goal : Goal) : p.lead goal + p.patience goal + p.poll ≤ p.span := by
  cases goal with
  | collection => simp only [lead, patience, span]; omega
  | tally c => simp only [lead, patience, span]; omega

theorem prior_le (p : Pace) (goal : Goal) : p.prior goal + p.patience goal + 2 ≤ p.quota := by
  cases goal with
  | collection => simp only [prior, patience, quota]; omega
  | tally c => simp only [prior, patience, quota]; omega

theorem limit_loop (p : Pace) (goal : Goal) (fill : Nat) :
    p.limit (goal.loop fill) = p.patience goal := by
  cases goal <;> rfl

/-- So many looks with a pause after each fit into a time. -/
theorem lt_of_paced {p : Pace} (hpoll : 1 ≤ p.poll) {q limit k : Nat}
    (hpaced : q * p.poll < limit + k * p.poll) : q < limit + k := by
  by_contra hle
  have hmul : (limit + k) * p.poll ≤ q * p.poll := Nat.mul_le_mul_right _ (Nat.le_of_not_lt hle)
  have hlimit : limit * 1 ≤ limit * p.poll := Nat.mul_le_mul_left _ hpoll
  rw [Nat.add_mul] at hmul
  omega

end Pace

variable (p : Pace) (base : Nat) (s : Course) (key : RoundKey)

/-- A round in its attempt after `n` others, each of which a change of the height has ended. -/
def Tried (n : Nat) : Prop :=
  n ≤ s.changes ∧ (s.agent.node.heightMoved key = true → n + 1 ≤ s.changes)

/-- A round that looks for a goal: its last look was before the deadline, and `q` looks of the loop, all
but the one that came early, have each taken a pause. -/
structure Looking (goal : Goal) (since fill wake : Nat) (watching : Bool) (n q last : Nat) : Prop where
  tried : Tried s key n
  began : since ≤ base + n * p.span + p.lead goal
  seen : s.looks.head? = some ⟨goal.loop fill, last⟩
  woke : wake = last + p.poll
  early : last < since + p.patience goal
  passed : last ≤ s.now
  due : s.now ≤ wake
  within : ∀ l ∈ s.looks, l.loop = goal.loop fill → since ≤ l.time ∧ l.time < since + p.patience goal
  unclosed : ∀ l ∈ s.looks, l.loop ≠ .catchingUp
  opened : fill ∈ s.fills
  exited : watching = false → s.agent.isFillEnded fill = true
  wakes : earlyLooks p.poll (goal.loop fill) s.looks ≤ if watching then 0 else 1
  count : s.looks.length ≤ n * p.quota + p.prior goal + q
  paced : q * p.poll + since ≤ wake + if watching then 0 else p.poll

/-- A round that leaves a loop, as soon as its fill has exited. -/
structure Leaving (goal : Goal) (fill : Nat) (verdict : Verdict) (n : Nat) : Prop where
  tried : Tried s key n
  moved : verdict = .heightMoved → n + 1 ≤ s.changes
  late : s.now ≤ base + n * p.span + p.lead goal + p.patience goal + p.poll
  apt : RoundRun.Apt goal verdict
  unclosed : ∀ l ∈ s.looks, l.loop ≠ .catchingUp
  opened : fill ∈ s.fills
  dismissed : s.agent.Dismissed fill
  count : s.looks.length ≤ n * p.quota + p.prior goal + p.patience goal + 2

/-- A round that waits for peers that are behind. -/
structure Awaiting (deadline wake : Nat) (n q last : Nat) : Prop where
  tried : n ≤ s.changes
  ends : deadline ≤ base + (n + 1) * p.span + p.catchUp
  seen : s.looks.head? = some ⟨.catchingUp, last⟩
  woke : wake = last + p.poll
  early : last < deadline
  due : s.now ≤ wake
  within : ∀ l ∈ s.looks, l.loop = .catchingUp → deadline ≤ l.time + p.catchUp ∧ l.time < deadline
  count : s.looks.length ≤ (n + 1) * p.quota + q
  paced : q * p.poll + deadline ≤ wake + p.catchUp

structure Ended (time n : Nat) : Prop where
  tried : n ≤ s.changes
  late : time ≤ base + (n + 1) * p.span + p.catchUp + p.poll
  count : s.looks.length ≤ (n + 1) * p.quota + p.catchUp + 1

def Standing : RoundStage → Prop
  | .scheduled => s.now ≤ base ∧ s.looks = []
  | .polling goal since fill wake watching =>
    ∃ n q last, Looking p base s key goal since fill wake watching n q last
  | .leaving goal fill verdict => ∃ n, Leaving p base s key goal fill verdict n
  | .catchingUp _ deadline wake => ∃ n q last, Awaiting p base s deadline wake n q last
  | .ended _ time _ => ∃ n, Ended p base s time n

/-- The fill is that of the loop that the round is in. -/
def RoundRun.LooksFor (r : RoundRun) (fill : Nat) : Prop :=
  ∃ goal since wake watching, r.stage = .polling goal since fill wake watching

/-- What is kept of a round on its course. -/
structure Course.Keeps (id : Nat) (r : RoundRun) : Prop where
  round : s.agent.round? id = some r
  pace : r.pace s.agent.node.config.round = p
  starts : r.startsAt ≤ base
  numbered : ∀ fill ∈ s.fills, fill < s.agent.nextFill
  looked : ∀ l ∈ s.looks, ∀ kind fill, l.loop = .filling kind fill → fill ∈ s.fills
  inTime : InTime p.limit s.looks
  early : ∀ kind fill, earlyLooks p.poll (.filling kind fill) s.looks ≤ 1
  steady : earlyLooks p.poll .catchingUp s.looks = 0
  fills : ∀ fill ∈ s.fills, s.agent.Dismissed fill ∨ r.LooksFor fill
  standing : Standing p base s r.key r.stage

variable {p base s key} {id : Nat} {r r' : RoundRun} {m : Moment} {v : Move}

/-- Only so many looks fit into the time of a loop. -/
theorem Looking.few {goal : Goal} {since fill wake : Nat} {watching : Bool} {n q last : Nat}
    (hpoll : 1 ≤ p.poll) (h : Looking p base s key goal since fill wake watching n q last) :
    q ≤ p.patience goal + 1 := by
  have hwoke := h.woke
  have hearly := h.early
  have hpaced := h.paced
  have hfit : q * p.poll < p.patience goal + 2 * p.poll := by
    cases watching <;> simp at hpaced <;> omega
  exact Nat.le_of_lt_succ (Pace.lt_of_paced hpoll hfit)

theorem Awaiting.few {deadline wake n q last : Nat} (hpoll : 1 ≤ p.poll)
    (h : Awaiting p base s deadline wake n q last) : q ≤ p.catchUp := by
  have hwoke := h.woke
  have hearly := h.early
  have hpaced := h.paced
  exact Nat.le_of_lt_succ (Pace.lt_of_paced (k := 1) hpoll (by omega))

theorem Agent.round_mem_agenda {a : Agent} {t : Nat} (hr : a.round? id = some r)
    (ht : r.readyAt a.toExchanger = some t) : (t, .round id) ∈ a.agenda := by
  have hmem : (id, r) ∈ a.rounds := Assoc.mem_of_get? hr
  unfold Agent.agenda
  refine List.mem_append_right _ (List.mem_filterMap.mpr ⟨(id, r), hmem, ?_⟩)
  rw [ht]
  rfl

theorem Agent.fill_mem_agenda {a : Agent} {f : Fill} {fill t : Nat} (hf : a.fill? fill = some f)
    (ht : f.readyAt = some t) : (t, .fill fill) ∈ a.agenda := by
  have hmem : (fill, f) ∈ a.fills := Assoc.mem_of_get? hf
  have hready : (t, Task.fill fill) ∈ a.fills.filterMap fun f => f.2.readyAt.map fun t => (t, .fill f.1) := by
    refine List.mem_filterMap.mpr ⟨(fill, f), hmem, ?_⟩
    rw [ht]
    rfl
  unfold Agent.agenda
  exact List.mem_append_left _ (List.mem_append_left _ (List.mem_append_right _ hready))

/-- A cancelled fill that has not ended is due at once. -/
theorem Fill.readyAt_of_cancelled {f : Fill} (hc : f.cancelled = true) (he : f.isEnded = false) :
    f.readyAt = some 0 := by
  unfold isEnded at he
  unfold readyAt
  split
  next => rfl
  next => simp [hc]
  next hstarting hwaiting =>
    cases hs : f.stage with
    | starting => exact absurd hs hstarting
    | waiting missing wake => exact absurd hs (hwaiting missing wake)
    | complete | stopped | crashed => simp [hs, FillStage.isEnd] at he

/-- While a round waits for a cancelled fill to exit, one of the two is due at once. -/
theorem ready_or_due_of_leaving {a : Agent} {goal : Goal} {fill : Nat} {verdict : Verdict}
    (hs : r.stage = .leaving goal fill verdict) (hd : a.Dismissed fill) :
    r.readyAt a.toExchanger = some 0 ∨ (0, .fill fill) ∈ a.agenda := by
  by_cases hended : a.isFillEnded fill = true
  · exact Or.inl (by simp [RoundRun.readyAt, hs, hended])
  · rw [Agent.isFillEnded_iff] at hended
    obtain ⟨f, hf, hne⟩ : ∃ f, a.fill? fill = some f ∧ f.isEnded = false := by
      simpa using hended
    exact Or.inr (Agent.fill_mem_agenda hf (Fill.readyAt_of_cancelled (hd f hf) hne))

namespace Course

theorem changes_le_next (s : Course) (id : Nat) (v : Moment × Move) :
    s.changes ≤ (s.next id v).changes := by
  unfold next
  dsimp only
  split <;> omega

theorem tried_next {n : Nat} (h : Tried s key n) (id : Nat) (v : Moment × Move) :
    Tried (s.next id v) key n := by
  obtain ⟨htried, hmoved⟩ := h
  refine ⟨Nat.le_trans htried (s.changes_le_next id v), fun hafter => ?_⟩
  unfold next at hafter ⊢
  dsimp only at hafter ⊢
  split
  next hsame =>
    unfold Node.heightMoved at hafter hmoved
    rw [hsame] at hafter
    exact hmoved hafter
  next => omega

theorem next_looks (hv : v.isStep id = false) : (s.next id (m, v)).looks = s.looks := by
  simp [next, hv]

theorem next_fills (hv : v.isStep id = false) : (s.next id (m, v)).fills = s.fills := by
  simp [next, hv]

theorem Keeps.now_le (h : Keeps p base s id r) (htime : Agent.OnTime s.now s.agent m v) {t : Nat}
    (ht : r.readyAt s.agent.toExchanger = some t) : m.now ≤ max s.now t :=
  htime.2.1 _ (Agent.round_mem_agenda h.round ht)

/-- Time does not pass a round's next look. -/
theorem Keeps.now_le_wake (h : Keeps p base s id r) (htime : Agent.OnTime s.now s.agent m v)
    {goal : Goal} {since fill wake : Nat} {watching : Bool}
    (hs : r.stage = .polling goal since fill wake watching) (hdue : s.now ≤ wake) :
    m.now ≤ wake := by
  by_cases hearly : (watching && s.agent.isFillEnded fill) = true
  · have hready := h.now_le htime (t := 0) (by simp only [RoundRun.readyAt, hs, if_pos hearly])
    omega
  · have hready := h.now_le htime (t := wake) (by simp only [RoundRun.readyAt, hs, if_neg hearly])
    omega

/-- Time stands still while a round waits for its fill to exit. -/
theorem Keeps.now_le_of_leaving (h : Keeps p base s id r)
    (htime : Agent.OnTime s.now s.agent m v) {goal : Goal} {fill : Nat} {verdict : Verdict}
    (hs : r.stage = .leaving goal fill verdict) (hd : s.agent.Dismissed fill) : m.now ≤ s.now := by
  rcases ready_or_due_of_leaving hs hd with hready | hmem
  · have hround := h.now_le htime hready
    omega
  · have hfill := htime.2.1 _ hmem
    omega

theorem Keeps.standing_other (h : Keeps p base s id r) (htime : Agent.OnTime s.now s.agent m v)
    (hv : v.isStep id = false) : Standing p base (s.next id (m, v)) r.key r.stage := by
  have hlooks := next_looks (s := s) (m := m) hv
  have hfills := next_fills (s := s) (m := m) hv
  have hchanges := s.changes_le_next id (m, v)
  have hstanding := h.standing
  cases hs : r.stage with
  | scheduled =>
    rw [hs] at hstanding
    obtain ⟨hearly, hunseen⟩ := hstanding
    have hready := h.now_le htime (t := r.startsAt) (by rw [RoundRun.readyAt, hs])
    have hstarts := h.starts
    have hnow : m.now ≤ base := by omega
    exact ⟨hnow, hlooks.trans hunseen⟩
  | polling goal since fill wake watching =>
    rw [hs] at hstanding
    obtain ⟨n, q, last, hlooking⟩ := hstanding
    have hexited : watching = false → (s.next id (m, v)).agent.isFillEnded fill = true :=
      fun hwatching => Agent.isFillEnded_act (h.numbered fill hlooking.opened)
        (hlooking.exited hwatching) m v
    exact ⟨n, q, last, tried_next hlooking.tried id (m, v), hlooking.began, hlooks ▸ hlooking.seen,
      hlooking.woke, hlooking.early, Nat.le_trans hlooking.passed htime.1,
      h.now_le_wake htime hs hlooking.due, hlooks ▸ hlooking.within, hlooks ▸ hlooking.unclosed,
      hfills ▸ hlooking.opened, hexited, hlooks ▸ hlooking.wakes, hlooks ▸ hlooking.count,
      hlooking.paced⟩
  | leaving goal fill verdict =>
    rw [hs] at hstanding
    obtain ⟨n, hleaving⟩ := hstanding
    have hstill := h.now_le_of_leaving htime hs hleaving.dismissed
    have hdismissed : (s.next id (m, v)).agent.Dismissed fill :=
      Agent.dismissed_act (h.numbered fill hleaving.opened) hleaving.dismissed m v
    exact ⟨n, tried_next hleaving.tried id (m, v),
      fun hmoved => Nat.le_trans (hleaving.moved hmoved) hchanges,
      Nat.le_trans hstill hleaving.late, hleaving.apt, hlooks ▸ hleaving.unclosed,
      hfills ▸ hleaving.opened, hdismissed, hlooks ▸ hleaving.count⟩
  | catchingUp c deadline wake =>
    rw [hs] at hstanding
    obtain ⟨n, q, last, hawaiting⟩ := hstanding
    have hready := h.now_le htime (t := wake) (by rw [RoundRun.readyAt, hs])
    have hbefore := hawaiting.due
    have hwake : m.now ≤ wake := by omega
    exact ⟨n, q, last, Nat.le_trans hawaiting.tried hchanges, hawaiting.ends,
      hlooks ▸ hawaiting.seen, hawaiting.woke, hawaiting.early, hwake, hlooks ▸ hawaiting.within,
      hlooks ▸ hawaiting.count, hawaiting.paced⟩
  | ended outcome time ready =>
    rw [hs] at hstanding
    obtain ⟨n, hended⟩ := hstanding
    exact ⟨n, Nat.le_trans hended.tried hchanges, hended.late, hlooks ▸ hended.count⟩

theorem Keeps.other (h : Keeps p base s id r) (htime : Agent.OnTime s.now s.agent m v)
    (hv : v.isStep id = false) (hround : (s.agent.act m v).round? id = some r) :
    Keeps p base (s.next id (m, v)) id r := by
  have hlooks := next_looks (s := s) (m := m) hv
  have hfills := next_fills (s := s) (m := m) hv
  have hpace : r.pace (s.agent.act m v).node.config.round = p := by
    rw [s.agent.config_act m v]
    exact h.pace
  refine ⟨hround, hpace, h.starts, ?_, ?_, hlooks ▸ h.inTime, hlooks ▸ h.early, hlooks ▸ h.steady,
    ?_, h.standing_other htime hv⟩
  · rw [hfills]
    exact fun fill hfill => Nat.lt_of_lt_of_le (h.numbered fill hfill) (s.agent.nextFill_le_act m v)
  · rw [hlooks, hfills]
    exact h.looked
  · rw [hfills]
    intro fill hfill
    refine (h.fills fill hfill).imp_left fun hdismissed => ?_
    exact Agent.dismissed_act (h.numbered fill hfill) hdismissed m v

end Course

end Adjudication
