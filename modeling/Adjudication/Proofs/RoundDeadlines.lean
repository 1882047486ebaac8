import Adjudication.Proofs.RoundStanding

namespace Adjudication.Course

variable {p : Pace} {base : Nat} {s : Course} {key : RoundKey} {id : Nat} {r r' : RoundRun} {m : Moment}
  {s' : Course} {x x' : Exchanger} {goal : Goal} {since fill n q : Nat} {stage : RoundStage}

/-- A look for a goal, when `q` looks of its loop, all but an early one, have each taken a pause. -/
structure Facing (p : Pace) (base : Nat) (s : Course) (key : RoundKey) (goal : Goal)
    (since fill : Nat) (before : List Look) (exited : Bool) (n q : Nat) : Prop where
  tried : Tried s key n
  began : since ≤ base + n * p.span + p.lead goal
  passed : since ≤ s.now
  late : s.now ≤ since + p.patience goal + p.poll
  within : ∀ l ∈ before, l.loop = goal.loop fill → since ≤ l.time ∧ l.time < since + p.patience goal
  unclosed : ∀ l ∈ before, l.loop ≠ .catchingUp
  few : q ≤ p.patience goal + 1
  count : before.length ≤ n * p.quota + p.prior goal + q
  wakes : earlyLooks p.poll (goal.loop fill) (⟨goal.loop fill, s.now⟩ :: before) ≤
    if exited then 1 else 0
  paced : q * p.poll + since ≤ s.now + if exited then p.poll else 0

/-- Where a look leaves the round. -/
theorem Facing.standing {before : List Look}
    (h : Facing p base s key goal since fill before (x.isFillEnded fill) n q)
    (hseen : RoundRun.Seen m r x goal since fill stage s.agent.toExchanger) (hkey : r.key = key)
    (hpace : r.pace x.node.config.round = p) (hnow : m.now = s.now) (hopened : fill ∈ s.fills)
    (hlooks : s.looks = ⟨goal.loop fill, s.now⟩ :: before) : Standing p base s key stage := by
  have hnode := hseen.node_eq
  have hlead := p.lead_le goal
  have hprior := p.prior_le goal
  have hbegan := h.began
  have hcount := h.count
  have hunclosed : ∀ l ∈ s.looks, l.loop ≠ .catchingUp := by
    rw [hlooks]
    rintro l (_ | ⟨_, hl⟩)
    · exact Loop.noConfusion
    · exact h.unclosed l hl
  have hlength : s.looks.length = before.length + 1 := by
    rw [hlooks]
    rfl
  generalize hx' : s.agent.toExchanger = x' at hseen hnode
  cases hseen with
  | pending early =>
    have hpoll : x.node.config.round.poll = p.poll := congrArg Pace.poll hpace
    rw [hpace, hnow] at early
    rw [hpoll, hnow]
    generalize hexited : x.isFillEnded fill = exited at h
    refine ⟨n, q + 1, s.now, h.tried, h.began, ?_, rfl, early, Nat.le_refl _, Nat.le_add_right _ _,
      ?_, hunclosed, hopened, ?_, ?_, ?_, ?_⟩
    · rw [hlooks]
      rfl
    · rw [hlooks]
      rintro l (_ | ⟨_, hl⟩) hloop
      · exact ⟨h.passed, early⟩
      · exact h.within l hl hloop
    · intro hwatching
      rw [hx', hexited]
      simpa using hwatching
    · rw [hlooks]
      have hwakes := h.wakes
      cases exited <;> simpa using hwakes
    · omega
    · have hpaced := h.paced
      rw [Nat.succ_mul]
      cases exited <;> simp at hpaced ⊢ <;> omega
  | settled verdict moved apt =>
    have hfew := h.few
    have hlate := h.late
    refine ⟨n, h.tried, fun hverdict => h.tried.2 ?_, by omega, apt, hunclosed, hopened, ?_, by omega⟩
    · rw [hx', hnode, ← hkey]
      exact moved hverdict
    · rw [hx']
      exact x.cancelFill_dismissed fill
  | deserted ready members =>
    have hfew := h.few
    have hlate := h.late
    refine ⟨n, h.tried.1, ?_, ?_⟩
    · rw [hnow, Nat.succ_mul]
      omega
    · rw [Nat.succ_mul]
      omega

/-- The course after a step of the round, but for the look that the step takes. -/
structure Follows (p : Pace) (base : Nat) (s s' : Course) (m : Moment) (id : Nat) (r' : RoundRun) :
    Prop where
  round : s'.agent.round? id = some r'
  now : m.now = s'.now
  changes : s'.changes = s.changes
  pace : r'.pace s'.agent.node.config.round = p
  starts : r'.startsAt ≤ base
  tended : s.agent.toExchanger.Tended s'.agent.toExchanger
  kept : ∀ fill ∈ s.fills, fill ∈ s'.fills
  fills : ∀ fill ∈ s'.fills, fill ∈ s.fills ∨ s.agent.nextFill ≤ fill ∧ fill < s'.agent.nextFill

theorem Follows.numbered (f : Follows p base s s' m id r') (h : Keeps p base s id r) :
    ∀ fill ∈ s'.fills, fill < s'.agent.nextFill := by
  intro fill hfill
  rcases f.fills fill hfill with hold | ⟨_, hlt⟩
  · exact Nat.lt_of_lt_of_le (h.numbered fill hold) f.tended.nextFill
  · exact hlt

/-- Only the fill of the loop that the round is in may not have been cancelled. -/
theorem Keeps.dismissed (h : Keeps p base s id r) (hlooks : ∀ fill, ¬ r.LooksFor fill) :
    ∀ fill ∈ s.fills, s.agent.Dismissed fill :=
  fun fill hfill => (h.fills fill hfill).resolve_right (hlooks fill)

theorem not_looksFor (hs : ∀ goal since fill wake watching,
    r.stage ≠ .polling goal since fill wake watching) (fill : Nat) : ¬ r.LooksFor fill := by
  rintro ⟨goal, since, wake, watching, hpolling⟩
  exact hs _ _ _ _ _ hpolling

theorem Follows.dismissed (f : Follows p base s s' m id r') (h : Keeps p base s id r) {fill : Nat}
    (hfill : fill ∈ s.fills) (hd : s.agent.Dismissed fill) : s'.agent.Dismissed fill :=
  f.tended.dismissed (h.numbered fill hfill) hd

/-- After a step that takes no look and starts no fill, a round that was in no loop is at its end. -/
theorem Keeps.of_unseen (h : Keeps p base s id r) (f : Follows p base s s' m id r')
    (hlooks : s'.looks = s.looks) (hidle : ∀ fill, ¬ r.LooksFor fill)
    (hnext : s'.agent.nextFill = s.agent.nextFill) (hstanding : Standing p base s' r'.key r'.stage) :
    Keeps p base s' id r' := by
  have hold : ∀ fill ∈ s'.fills, fill ∈ s.fills := by
    intro fill hfill
    rcases f.fills fill hfill with hold | ⟨hle, hlt⟩
    · exact hold
    · omega
  refine ⟨f.round, f.pace, f.starts, f.numbered h, ?_, hlooks ▸ h.inTime, hlooks ▸ h.early,
    hlooks ▸ h.steady, ?_, hstanding⟩
  · rw [hlooks]
    exact fun l hl kind fill hloop => f.kept fill (h.looked l hl kind fill hloop)
  · intro fill hfill
    exact Or.inl (f.dismissed h (hold fill hfill) (h.dismissed hidle fill (hold fill hfill)))

/-- What a look adds to the looks before it. -/
theorem Keeps.of_seen (h : Keeps p base s id r) (f : Follows p base s s' m id r') {l : Look}
    (hlooks : s'.looks = l :: s.looks)
    (hopened : ∀ kind fill, l.loop = .filling kind fill → fill ∈ s'.fills)
    (hin : ∀ l₁ ∈ s.looks, l₁.loop = l.loop → ∀ l₀ ∈ s.looks, l₀.loop = l.loop →
      l₁.time < l₀.time + p.limit l.loop)
    (hearly : earlyLooks p.poll l.loop (l :: s.looks) ≤ if l.loop = .catchingUp then 0 else 1)
    (hfills : ∀ fill ∈ s'.fills, s'.agent.Dismissed fill ∨ r'.LooksFor fill)
    (hstanding : Standing p base s' r'.key r'.stage) : Keeps p base s' id r' := by
  refine ⟨f.round, f.pace, f.starts, f.numbered h, ?_, ?_, ?_, ?_, hfills, hstanding⟩
  · rw [hlooks]
    rintro l' (_ | ⟨_, hl'⟩) kind fill hloop
    · exact hopened kind fill hloop
    · exact f.kept fill (h.looked l' hl' kind fill hloop)
  · rw [hlooks]
    exact h.inTime.cons hin
  · intro kind fill
    rw [hlooks]
    by_cases hloop : l.loop = .filling kind fill
    · rw [hloop, if_neg Loop.noConfusion] at hearly
      exact hearly
    · rw [earlyLooks_cons_of_ne _ hloop]
      exact h.early kind fill
  · rw [hlooks]
    by_cases hloop : l.loop = .catchingUp
    · rw [hloop, if_pos rfl] at hearly
      exact Nat.le_zero.mp hearly
    · rw [earlyLooks_cons_of_ne _ hloop]
      exact h.steady

variable {r₁ : RoundRun}

/-- What a look for a goal leaves. -/
theorem Keeps.of_facing (h : Keeps p base s id r)
    (f : Follows p base s s' m id { r₁ with stage })
    (hfacing : Facing p base s' r₁.key goal since fill s.looks (x.isFillEnded fill) n q)
    (hseen : RoundRun.Seen m r₁ x goal since fill stage s'.agent.toExchanger)
    (hpace : r₁.pace x.node.config.round = p) (hopened : fill ∈ s'.fills)
    (hlooks : s'.looks = ⟨goal.loop fill, s'.now⟩ :: s.looks)
    (hothers : ∀ other ∈ s'.fills, other = fill ∨ s'.agent.Dismissed other) :
    Keeps p base s' id { r₁ with stage } := by
  refine h.of_seen f hlooks ?_ ?_ ?_ ?_ ?_
  · rintro kind other ⟨⟩
    exact hopened
  · intro l₁ hl₁ hloop₁ l₀ hl₀ hloop₀
    have hlast := (hfacing.within l₁ hl₁ hloop₁).2
    have hfirst := (hfacing.within l₀ hl₀ hloop₀).1
    rw [p.limit_loop goal fill]
    omega
  · rw [if_neg Loop.noConfusion]
    refine Nat.le_trans hfacing.wakes ?_
    split <;> omega
  · intro other hother
    rcases hothers other hother with rfl | hdismissed
    · generalize s'.agent.toExchanger = x' at hseen ⊢
      cases hseen with
      | pending early => exact Or.inr ⟨goal, since, _, _, rfl⟩
      | settled => exact Or.inl (x.cancelFill_dismissed other)
      | deserted => exact Or.inl (x.releaseFill_dismissed other)
    · exact Or.inl hdismissed
  · exact hfacing.standing hseen rfl hpace f.now hopened hlooks

theorem loop?_of_seen (hseen : RoundRun.Seen m r x goal since fill stage x')
    (hmembers : m.members.size ≠ 0) : stage.loop? = some (goal.loop fill) := by
  cases hseen with
  | pending => rfl
  | settled => rfl
  | deserted ready hnone => exact absurd hnone hmembers

/-- What the start of a loop leaves. -/
theorem Keeps.of_opens (h : Keeps p base s id r) (f : Follows p base s s' m id { r₁ with stage })
    (hidle : ∀ fill, ¬ r.LooksFor fill) (readied : RoundRun.Readied s.agent.toExchanger x)
    (opens : RoundRun.Opens m r₁ x goal stage s'.agent.toExchanger)
    (hpace : r₁.pace x.node.config.round = p) (htried : Tried s' r₁.key n)
    (hbegan : m.now ≤ base + n * p.span + p.lead goal)
    (hcount : s.looks.length ≤ n * p.quota + p.prior goal)
    (hunclosed : ∀ l ∈ s.looks, l.loop ≠ .catchingUp)
    (hlooks : s'.looks = (stage.loop?.map fun loop => ⟨loop, m.now⟩).toList ++ s.looks)
    (hstarted : ∀ fill, s.agent.nextFill ≤ fill → fill < s'.agent.nextFill → fill ∈ s'.fills) :
    Keeps p base s' id { r₁ with stage } := by
  have hlead := p.lead_le goal
  have hprior := p.prior_le goal
  cases opens with
  | deserted ready =>
    refine h.of_unseen f hlooks hidle readied.nextFill ⟨n, htried.1, ?_, ?_⟩
    · rw [Nat.succ_mul]
      omega
    · rw [hlooks, Nat.succ_mul]
      simp only [RoundStage.loop?, Option.map_none, Option.toList_none, List.nil_append]
      omega
  | looked _ _ members seen =>
    have hnextFill : s'.agent.nextFill = s.agent.nextFill + 1 :=
      seen.nextFill_eq.trans (congrArg (· + 1) readied.nextFill)
    have hfresh : ∀ l ∈ s.looks, l.loop ≠ goal.loop x.nextFill := by
      intro l hl hloop
      have hlt := h.numbered _ (h.looked l hl _ _ hloop)
      have hnext := readied.nextFill
      omega
    have hloop := loop?_of_seen seen members
    have hopened : x.nextFill ∈ s'.fills := by
      refine hstarted _ (Nat.le_of_eq readied.nextFill.symm) ?_
      have hnext := readied.nextFill
      omega
    have hlooked : s'.looks = ⟨goal.loop x.nextFill, s'.now⟩ :: s.looks := by
      rw [hlooks, hloop, f.now]
      rfl
    have hwakes : earlyLooks p.poll (goal.loop x.nextFill)
        (⟨goal.loop x.nextFill, s'.now⟩ :: s.looks) = 0 := by
      rw [earlyLooks_cons_of_late, earlyLooks_eq_zero hfresh]
      intro l hl hsame
      exact absurd hsame (hfresh l (List.mem_of_mem_head? hl))
    refine h.of_facing (n := n) (q := 0) f ?_ seen hpace hopened hlooked ?_
    · have hnow := f.now
      refine ⟨htried, hbegan, Nat.le_of_eq hnow, by omega, fun l hl hsame => ?_, hunclosed,
        Nat.zero_le _, hcount, ?_, by omega⟩
      · exact absurd hsame (hfresh l hl)
      · rw [hwakes]
        exact Nat.zero_le _
    · intro other hother
      rcases f.fills other hother with hold | ⟨hle, hlt⟩
      · exact Or.inr (f.dismissed h hold (h.dismissed hidle other hold))
      · refine Or.inl ?_
        have hnext := readied.nextFill
        omega

theorem isDue_round (htime : Agent.OnTime s.now s.agent m (.task (.round id)))
    (hr : s.agent.round? id = some r) : ∃ t, r.readyAt s.agent.toExchanger = some t ∧ t ≤ m.now := by
  have hdue := htime.2.2
  simp only [Move.isDue, hr, Option.all_some, Option.any_eq_true, decide_eq_true_eq] at hdue
  exact hdue

/-- When a round looks for a goal again, it is the time that it set, or its fill has ended and it had
been waiting for that. -/
theorem Keeps.facing {wake last : Nat} {watching : Bool} (h : Keeps p base s id r)
    (htime : Agent.OnTime s.now s.agent m (.task (.round id))) (hpoll : 1 ≤ p.poll)
    (hs : r.stage = .polling goal since fill wake watching)
    (hlooking : Looking p base s r.key goal since fill wake watching n q last) :
    Facing p base (s.next id (m, .task (.round id))) r.key goal since fill s.looks
      (s.agent.isFillEnded fill) n q := by
  have hwake := h.now_le_wake htime hs hlooking.due
  have hwoke := hlooking.woke
  have hearly := hlooking.early
  have hpassed := hlooking.passed
  have hforward := htime.1
  have hpaced := hlooking.paced
  have hsince : since ≤ last :=
    (hlooking.within _ (List.mem_of_mem_head? hlooking.seen) rfl).1
  have hdue : (watching = true ∧ s.agent.isFillEnded fill = true) ∨ wake ≤ m.now := by
    obtain ⟨t, ht, hle⟩ := isDue_round htime h.round
    simp only [RoundRun.readyAt, hs] at ht
    split at ht
    next hended => exact Or.inl (by simpa using hended)
    next =>
      cases ht
      exact Or.inr hle
  have hlate : wake ≤ m.now →
      earlyLooks p.poll (goal.loop fill) (⟨goal.loop fill, m.now⟩ :: s.looks) =
        earlyLooks p.poll (goal.loop fill) s.looks := by
    intro hle
    refine earlyLooks_cons_of_late fun l hl _ => ?_
    rw [hlooking.seen] at hl
    cases hl
    show last + p.poll ≤ m.now
    omega
  refine ⟨tried_next hlooking.tried id _, hlooking.began, ?_, ?_, hlooking.within, hlooking.unclosed,
    hlooking.few hpoll, hlooking.count, ?_, ?_⟩
  · show since ≤ m.now
    omega
  · show m.now ≤ _
    omega
  · show earlyLooks p.poll (goal.loop fill) (⟨goal.loop fill, m.now⟩ :: s.looks) ≤ _
    have hwakes := hlooking.wakes
    rcases hdue with ⟨rfl, hended⟩ | hle
    · have hmore := earlyLooks_cons_le p.poll (goal.loop fill) ⟨goal.loop fill, m.now⟩ s.looks
      rw [if_pos hended]
      rw [if_pos rfl] at hwakes
      omega
    · rw [hlate hle]
      cases watching with
      | true =>
        rw [if_pos rfl] at hwakes
        omega
      | false =>
        rw [if_pos (hlooking.exited rfl)]
        exact hwakes
  · show q * p.poll + since ≤ m.now + _
    rcases hdue with ⟨rfl, hended⟩ | hle
    · rw [if_pos hended]
      rw [if_pos rfl] at hpaced
      omega
    · cases watching with
      | true =>
        rw [if_pos rfl] at hpaced
        omega
      | false =>
        rw [if_pos (hlooking.exited rfl)]
        simp only [Bool.false_eq_true, if_false] at hpaced
        omega

/-- What a look for peers that are behind leaves. -/
theorem Keeps.of_awaits {c : Commitment} {deadline : Nat} (h : Keeps p base s id r)
    (f : Follows p base s s' m id { r with stage }) (hidle : ∀ fill, ¬ r.LooksFor fill)
    (awaits : RoundRun.Awaits m r x c deadline stage) (hpace : r.pace x.node.config.round = p)
    (hlooks : s'.looks = ⟨.catchingUp, m.now⟩ :: s.looks)
    (hnext : s'.agent.nextFill = s.agent.nextFill) (htried : n ≤ s'.changes)
    (hends : deadline ≤ base + (n + 1) * p.span + p.catchUp)
    (hlate : m.now ≤ base + (n + 1) * p.span + p.catchUp + p.poll) (hfew : q ≤ p.catchUp)
    (hcount : s.looks.length ≤ (n + 1) * p.quota + q)
    (hpaced : q * p.poll + deadline ≤ m.now + p.catchUp)
    (hwithin : ∀ l ∈ s.looks, l.loop = .catchingUp → deadline ≤ l.time + p.catchUp ∧ l.time < deadline)
    (hwoke : ∀ l ∈ s.looks.head?, l.loop = .catchingUp → l.time + p.poll ≤ m.now) :
    Keeps p base s' id { r with stage } := by
  have hlength : s'.looks.length = s.looks.length + 1 := by
    rw [hlooks]
    rfl
  refine h.of_seen f hlooks ?_ ?_ ?_ ?_ ?_
  · rintro kind fill ⟨⟩
  · intro l₁ hl₁ hloop₁ l₀ hl₀ hloop₀
    have hlast := (hwithin l₁ hl₁ hloop₁).2
    have hfirst := (hwithin l₀ hl₀ hloop₀).1
    show l₁.time < l₀.time + p.catchUp
    omega
  · rw [if_pos rfl]
    exact Nat.le_of_eq ((earlyLooks_cons_of_late hwoke).trans h.steady)
  · intro fill hfill
    refine Or.inl ?_
    rcases f.fills fill hfill with hold | ⟨hle, hlt⟩
    · exact f.dismissed h hold (h.dismissed hidle fill hold)
    · omega
  · cases awaits with
    | waiting early =>
      have hpoll : x.node.config.round.poll = p.poll := congrArg Pace.poll hpace
      have hnow := f.now
      refine ⟨n, q + 1, m.now, htried, hends, ?_, by rw [hpoll], early, by omega, ?_, by omega, ?_⟩
      · rw [hlooks]
        rfl
      · rw [hlooks]
        rintro l (_ | ⟨_, hl⟩) hloop
        · refine ⟨?_, early⟩
          show deadline ≤ m.now + p.catchUp
          omega
        · exact hwithin l hl hloop
      · rw [hpoll, Nat.succ_mul]
        omega
    | done ready => exact ⟨n, htried, hlate, by omega⟩

/-- The fill of a stage that a round leaves has exited, so a round that starts over does so at once. -/
theorem Keeps.startsOver (h : Keeps p base s id r)
    (htime : Agent.OnTime s.now s.agent m (.task (.round id))) (hs : RoundRun.StartsOver r.stage) :
    (∀ fill, ¬ r.LooksFor fill) ∧ (∀ l ∈ s.looks, l.loop ≠ .catchingUp) ∧ ∃ n, n ≤ s.changes ∧
      m.now ≤ base + n * p.span ∧ s.looks.length ≤ n * p.quota := by
  have hstanding := h.standing
  cases hstage : r.stage with
  | scheduled =>
    rw [hstage] at hstanding
    obtain ⟨hearly, hunseen⟩ := hstanding
    have hready := h.now_le htime (t := r.startsAt) (by rw [RoundRun.readyAt, hstage])
    have hstarts := h.starts
    refine ⟨not_looksFor (by simp [hstage]), by simp [hunseen], 0, Nat.zero_le _, by omega, ?_⟩
    simp [hunseen]
  | leaving goal fill verdict =>
    rw [hstage] at hstanding hs
    obtain ⟨n, hleaving⟩ := hstanding
    cases verdict with
    | heightMoved =>
      have hstill := h.now_le_of_leaving htime hstage hleaving.dismissed
      have hlate := hleaving.late
      have hcount := hleaving.count
      have hlead := p.lead_le goal
      have hprior := p.prior_le goal
      refine ⟨not_looksFor (by simp [hstage]), hleaving.unclosed, n + 1, hleaving.moved rfl, ?_, ?_⟩
      · rw [Nat.succ_mul]
        omega
      · rw [Nat.succ_mul]
        omega
    | _ => exact hs.elim
  | _ =>
    rw [hstage] at hs
    exact hs.elim

theorem lookIn?_of_opens {before : RoundStage}
    (hs : before = .scheduled ∨ ∃ goal fill verdict, before = .leaving goal fill verdict)
    (opens : RoundRun.Opens m r x goal stage x') : before.lookIn? stage = stage.loop? := by
  have hfailed : ∀ key reason time ready,
      before.lookIn? (.ended (.failed key reason) time ready) = none := by
    intro key reason time ready
    rcases hs with rfl | ⟨goal, fill, verdict, rfl⟩ <;> rfl
  cases opens with
  | deserted => exact hfailed _ _ _ _
  | looked stage x' members seen =>
    cases seen with
    | pending => rcases hs with rfl | ⟨goal, fill, verdict, rfl⟩ <;> rfl
    | settled => rcases hs with rfl | ⟨goal, fill, verdict, rfl⟩ <;> rfl
    | deserted => exact hfailed _ _ _ _

theorem lookIn?_of_seen {wake : Nat} {watching : Bool}
    (seen : RoundRun.Seen m r x goal since fill stage x') :
    (RoundStage.polling goal since fill wake watching).lookIn? stage = some (goal.loop fill) := by
  cases seen <;> rfl

theorem lookIn?_of_awaits {before : RoundStage} {c : Commitment} {deadline : Nat}
    (hs : (∃ goal fill verdict, before = .leaving goal fill verdict) ∨
      ∃ c deadline wake, before = .catchingUp c deadline wake)
    (awaits : RoundRun.Awaits m r x c deadline stage) : before.lookIn? stage = some .catchingUp := by
  rcases hs with ⟨goal, fill, verdict, rfl⟩ | ⟨c', deadline', wake, rfl⟩
  · cases awaits <;> rfl
  · cases awaits <;> rfl

theorem next_step_looks (hr : s.agent.round? id = some r)
    (hr' : (s.agent.act m (.task (.round id))).round? id = some r') :
    (s.next id (m, .task (.round id))).looks =
      ((r.stage.lookIn? r'.stage).map fun loop => ⟨loop, m.now⟩).toList ++ s.looks := by
  have hstep : (Move.task (.round id)).isStep id = true := decide_eq_true rfl
  simp only [next, hstep, if_true, Agent.lookIn?, hr, hr', Option.bind_some]

theorem mem_next_step_fills {fill : Nat} :
    fill ∈ (s.next id (m, .task (.round id))).fills ↔
      (s.agent.nextFill ≤ fill ∧ fill < (s.agent.act m (.task (.round id))).nextFill) ∨
        fill ∈ s.fills := by
  have hstep : (Move.task (.round id)).isStep id = true := decide_eq_true rfl
  simp only [next, hstep, if_true, List.mem_append, List.mem_range'_1]
  refine or_congr_left ⟨?_, ?_⟩
  · rintro ⟨hle, hlt⟩
    exact ⟨hle, by omega⟩
  · rintro ⟨hle, hlt⟩
    exact ⟨hle, by omega⟩

theorem Keeps.follows (h : Keeps p base s id r)
    (hr' : (s.agent.act m (.task (.round id))).round? id = some r')
    (stride : RoundRun.Stride m r s.agent.toExchanger r'
      (s.agent.act m (.task (.round id))).toExchanger)
    (tended : s.agent.toExchanger.Tended (s.agent.act m (.task (.round id))).toExchanger) :
    Follows p base s (s.next id (m, .task (.round id))) m id r' where
  round := hr'
  now := rfl
  changes := if_pos stride.height_eq
  pace := by
    have hconfig := s.agent.config_act m (.task (.round id))
    show r'.pace (s.agent.act m (.task (.round id))).node.config.round = p
    rw [hconfig, (stride.times_eq _).1]
    exact h.pace
  starts := by
    rw [(stride.times_eq s.agent.node.config.round).2]
    exact h.starts
  tended := tended
  kept _ hfill := mem_next_step_fills.mpr (Or.inr hfill)
  fills _ hfill := (mem_next_step_fills.mp hfill).symm

variable {c : Commitment} {x₀ : Exchanger}

theorem Keeps.enter (h : Keeps p base s id r)
    (htime : Agent.OnTime s.now s.agent m (.task (.round id)))
    (f : Follows p base s s' m id
      { r with key := ⟨x₀.node.position.height + 1, r.phase⟩, stage })
    (starts : RoundRun.StartsOver r.stage) (readied : RoundRun.Readied s.agent.toExchanger x₀)
    (opens : RoundRun.Opens m { r with key := ⟨x₀.node.position.height + 1, r.phase⟩ } x₀ .collection
      stage s'.agent.toExchanger)
    (hlooks : s'.looks = ((r.stage.lookIn? stage).map fun loop => ⟨loop, m.now⟩).toList ++ s.looks)
    (hstarted : ∀ fill, s.agent.nextFill ≤ fill → fill < s'.agent.nextFill → fill ∈ s'.fills) :
    Keeps p base s' id { r with key := ⟨x₀.node.position.height + 1, r.phase⟩, stage } := by
  obtain ⟨hidle, hunclosed, n, htried, hbegan, hcount⟩ := h.startsOver htime starts
  have hstage : r.stage = .scheduled ∨ ∃ goal fill verdict, r.stage = .leaving goal fill verdict := by
    cases hs : r.stage with
    | scheduled => exact Or.inl rfl
    | leaving goal fill verdict => exact Or.inr ⟨goal, fill, verdict, rfl⟩
    | _ =>
      rw [hs] at starts
      exact starts.elim
  have hpace : r.pace x₀.node.config.round = p := by
    rw [readied.config]
    exact h.pace
  have hunmoved : s'.agent.node.heightMoved ⟨x₀.node.position.height + 1, r.phase⟩ = false := by
    simp [Node.heightMoved, opens.node_eq]
  rw [lookIn?_of_opens hstage opens] at hlooks
  refine h.of_opens f hidle readied opens hpace ⟨f.changes ▸ htried, fun hmoved => ?_⟩ hbegan hcount
    hunclosed hlooks hstarted
  cases hunmoved.symm.trans hmoved

theorem Keeps.look {wake : Nat} {watching : Bool} (h : Keeps p base s id r)
    (htime : Agent.OnTime s.now s.agent m (.task (.round id))) (hpoll : 1 ≤ p.poll)
    (f : Follows p base s (s.next id (m, .task (.round id))) m id { r with stage })
    (was : r.stage = .polling goal since fill wake watching)
    (seen : RoundRun.Seen m r s.agent.toExchanger goal since fill stage
      (s.next id (m, .task (.round id))).agent.toExchanger)
    (hlooks : (s.next id (m, .task (.round id))).looks =
      ((r.stage.lookIn? stage).map fun loop => ⟨loop, m.now⟩).toList ++ s.looks) :
    Keeps p base (s.next id (m, .task (.round id))) id { r with stage } := by
  have hstanding := h.standing
  rw [was] at hstanding hlooks
  obtain ⟨n, q, last, hlooking⟩ := hstanding
  rw [lookIn?_of_seen seen] at hlooks
  refine h.of_facing f (h.facing htime hpoll was hlooking) seen h.pace
    (f.kept fill hlooking.opened) hlooks fun other hother => ?_
  have hnext := seen.nextFill_eq
  rcases f.fills other hother with hold | ⟨hle, hlt⟩
  · rcases h.fills other hold with hdismissed | ⟨_, _, _, _, hlooksFor⟩
    · exact Or.inr (f.dismissed h hold hdismissed)
    · cases was.symm.trans hlooksFor
      exact Or.inl rfl
  · omega

theorem Keeps.commit {count need waited : Nat} (h : Keeps p base s id r)
    (htime : Agent.OnTime s.now s.agent m (.task (.round id)))
    (f : Follows p base s (s.next id (m, .task (.round id))) m id { r with stage })
    (was : r.stage = .leaving goal fill (.collected count need waited))
    (readied : RoundRun.Readied s.agent.toExchanger x₀)
    (opens : RoundRun.Opens m r x₀ (.tally c) stage
      (s.next id (m, .task (.round id))).agent.toExchanger)
    (hlooks : (s.next id (m, .task (.round id))).looks =
      ((r.stage.lookIn? stage).map fun loop => ⟨loop, m.now⟩).toList ++ s.looks) :
    Keeps p base (s.next id (m, .task (.round id))) id { r with stage } := by
  have hstanding := h.standing
  rw [was] at hstanding hlooks
  obtain ⟨n, hleaving⟩ := hstanding
  have hapt := hleaving.apt
  cases goal with
  | tally c' => exact hapt.elim
  | collection =>
    have hstill := h.now_le_of_leaving htime was hleaving.dismissed
    have hlate := hleaving.late
    have hcount := hleaving.count
    have hpace : r.pace x₀.node.config.round = p := by
      rw [readied.config]
      exact h.pace
    rw [lookIn?_of_opens (Or.inr ⟨_, _, _, rfl⟩) opens] at hlooks
    refine h.of_opens f (not_looksFor (by simp [was])) readied opens hpace
      (tried_next hleaving.tried id _) ?_ ?_ hleaving.unclosed hlooks
      fun fill hle hlt => mem_next_step_fills.mpr (Or.inl ⟨hle, hlt⟩)
    · simp only [Pace.lead, Pace.patience] at hlate ⊢
      omega
    · simp only [Pace.prior, Pace.patience] at hcount ⊢
      omega

theorem Keeps.conclude {agreeing need : Nat} (h : Keeps p base s id r)
    (htime : Agent.OnTime s.now s.agent m (.task (.round id)))
    (f : Follows p base s s' m id { r with stage })
    (was : r.stage = .leaving (.tally c) fill (.agreed agreeing need))
    (readied : RoundRun.Readied s.agent.toExchanger s'.agent.toExchanger)
    (awaits : RoundRun.Awaits m r s'.agent.toExchanger c
      (m.now + s.agent.node.config.round.catchUp) stage)
    (hlooks : s'.looks = ((r.stage.lookIn? stage).map fun loop => ⟨loop, m.now⟩).toList ++ s.looks) :
    Keeps p base s' id { r with stage } := by
  have hstanding := h.standing
  rw [was] at hstanding hlooks
  obtain ⟨n, hleaving⟩ := hstanding
  have hstill := h.now_le_of_leaving htime was hleaving.dismissed
  have hlate := hleaving.late
  have hcount := hleaving.count
  have hcatchUp : s.agent.node.config.round.catchUp = p.catchUp := congrArg Pace.catchUp h.pace
  have hpace : r.pace s'.agent.node.config.round = p := by
    rw [readied.config]
    exact h.pace
  have hlead := p.lead_le (.tally c)
  have hprior := p.prior_le (.tally c)
  have hspan : (n + 1) * p.span = n * p.span + p.span := Nat.succ_mul _ _
  have hquota : (n + 1) * p.quota = n * p.quota + p.quota := Nat.succ_mul _ _
  rw [lookIn?_of_awaits (Or.inl ⟨_, _, _, rfl⟩) awaits] at hlooks
  exact h.of_awaits (n := n) (q := 0) f (not_looksFor (by simp [was])) awaits hpace hlooks
    readied.nextFill (f.changes ▸ hleaving.tried.1) (by omega) (by omega) (Nat.zero_le _) (by omega)
    (by omega) (fun l hl hloop => absurd hloop (hleaving.unclosed l hl))
    fun l hl hloop => absurd hloop (hleaving.unclosed l (List.mem_of_mem_head? hl))

theorem Keeps.catchUp {deadline wake : Nat} (h : Keeps p base s id r)
    (htime : Agent.OnTime s.now s.agent m (.task (.round id))) (hpoll : 1 ≤ p.poll)
    (f : Follows p base s s' m id { r with stage })
    (was : r.stage = .catchingUp c deadline wake)
    (awaits : RoundRun.Awaits m r s.agent.toExchanger c deadline stage)
    (hnext : s'.agent.nextFill = s.agent.nextFill)
    (hlooks : s'.looks = ((r.stage.lookIn? stage).map fun loop => ⟨loop, m.now⟩).toList ++ s.looks) :
    Keeps p base s' id { r with stage } := by
  have hstanding := h.standing
  rw [was] at hstanding hlooks
  obtain ⟨n, q, last, hawaiting⟩ := hstanding
  have hwoke := hawaiting.woke
  have hearly := hawaiting.early
  have hends := hawaiting.ends
  have hpaced := hawaiting.paced
  have hdue := hawaiting.due
  have hready := h.now_le htime (t := wake) (by rw [RoundRun.readyAt, was])
  have hwake : m.now = wake := by
    obtain ⟨t, ht, hle⟩ := isDue_round htime h.round
    simp only [RoundRun.readyAt, was] at ht
    cases ht
    omega
  have hhead : ∀ l ∈ s.looks.head?, l.loop = .catchingUp → l.time + p.poll ≤ m.now := by
    intro l hl _
    rw [hawaiting.seen] at hl
    cases hl
    show last + p.poll ≤ m.now
    omega
  rw [lookIn?_of_awaits (Or.inr ⟨_, _, _, rfl⟩) awaits] at hlooks
  exact h.of_awaits (n := n) (q := q) f (not_looksFor (by simp [was])) awaits h.pace hlooks hnext
    (f.changes ▸ hawaiting.tried) hends (by omega) (hawaiting.few hpoll) hawaiting.count (by omega)
    hawaiting.within hhead

theorem Keeps.giveUp {verdict : Verdict} {reason : RoundFailure} {ready : Bool}
    (h : Keeps p base s id r) (htime : Agent.OnTime s.now s.agent m (.task (.round id)))
    (f : Follows p base s s' m id { r with stage := .ended (.failed r.key reason) m.now ready })
    (was : r.stage = .leaving goal fill verdict)
    (hnext : s'.agent.nextFill = s.agent.nextFill)
    (hlooks : s'.looks = s.looks) :
    Keeps p base s' id { r with stage := .ended (.failed r.key reason) m.now ready } := by
  have hstanding := h.standing
  rw [was] at hstanding
  obtain ⟨n, hleaving⟩ := hstanding
  have hstill := h.now_le_of_leaving htime was hleaving.dismissed
  have hlate := hleaving.late
  have hcount := hleaving.count
  have hlead := p.lead_le goal
  have hprior := p.prior_le goal
  refine h.of_unseen f hlooks (not_looksFor (by simp [was])) hnext
    ⟨n, f.changes ▸ hleaving.tried.1, ?_, ?_⟩
  · rw [Nat.succ_mul]
    omega
  · rw [hlooks, Nat.succ_mul]
    omega

/-- The round's own step keeps what is known of it, whichever stride it is. -/
theorem Keeps.of_stride (h : Keeps p base s id r)
    (htime : Agent.OnTime s.now s.agent m (.task (.round id))) (hpoll : 1 ≤ p.poll)
    (stride : RoundRun.Stride m r s.agent.toExchanger r' x')
    (hx : (s.next id (m, .task (.round id))).agent.toExchanger = x')
    (f : Follows p base s (s.next id (m, .task (.round id))) m id r')
    (hlooks : (s.next id (m, .task (.round id))).looks =
      ((r.stage.lookIn? r'.stage).map fun loop => ⟨loop, m.now⟩).toList ++ s.looks) :
    Keeps p base (s.next id (m, .task (.round id))) id r' := by
  cases stride with
  | enter x₀ stage x' starts readied opens =>
    subst hx
    exact h.enter htime f starts readied opens hlooks
      fun fill hle hlt => mem_next_step_fills.mpr (Or.inl ⟨hle, hlt⟩)
  | look goal since fill wake watching stage x' was seen =>
    subst hx
    exact h.look htime hpoll f was seen hlooks
  | commit goal fill count need waited c x₀ stage x' was readied opens =>
    subst hx
    exact h.commit htime f was readied opens hlooks
  | conclude c fill agreeing need x₀ stage was readied awaits =>
    subst hx
    exact h.conclude htime f was readied awaits hlooks
  | catchUp c deadline wake stage was awaits =>
    exact h.catchUp htime hpoll f was awaits (congrArg Exchanger.nextFill hx) hlooks
  | giveUp goal fill verdict reason ready x₀ was readied =>
    have hnext := (congrArg Exchanger.nextFill hx).trans readied.nextFill
    rw [was] at hlooks
    exact h.giveUp htime f was hnext hlooks
  | idle x₀ was readied =>
    rcases was with ⟨outcome, time, ready, was⟩ | ⟨fill, agreeing, need, was⟩
    · obtain ⟨t, ht, _⟩ := isDue_round htime h.round
      simp [RoundRun.readyAt, was] at ht
    · have hstanding := h.standing
      rw [was] at hstanding
      obtain ⟨n, hleaving⟩ := hstanding
      exact hleaving.apt.elim

theorem Keeps.step (h : Keeps p base s id r)
    (htime : Agent.OnTime s.now s.agent m (.task (.round id))) (hpoll : 1 ≤ p.poll) :
    ∃ r', Keeps p base (s.next id (m, .task (.round id))) id r' := by
  have turned := Agent.turned_act (m := m) h.round
  have hx := Agent.exchanger_act_round (m := m) h.round
  have stride := r.step_stride s.agent.toExchanger m
  have tended := r.step_tended s.agent.toExchanger m
  rw [← hx] at stride tended
  exact ⟨_, h.of_stride htime hpoll stride rfl (h.follows turned.after stride tended)
    (next_step_looks h.round turned.after)⟩

end Adjudication.Course
