import Adjudication.Proofs.DrivenNodes

namespace Adjudication

/-- The payloads that were planned for the first phase of a height. -/
def attempts (height : Nat) (story : List Remark) : List String :=
  story.filterMap fun
    | .planned h plan => if h = height ∧ plan.phase = 0 then some plan.payload else none
    | .accepted _ => none

section Attempts

variable {height : Nat} {story after : List Remark} {plan : PhasePlan} {outcome : RoundOutcome}

@[simp] theorem attempts_append : attempts height (story ++ after) =
    attempts height story ++ attempts height after := List.filterMap_append

@[simp] theorem attempts_accepted : attempts height [.accepted outcome] = [] := rfl

theorem attempts_planned_first (hfirst : plan.phase = 0) :
    attempts height [.planned height plan] = [plan.payload] := by
  simp [attempts, hfirst]

theorem attempts_planned_later (hlater : plan.phase ≠ 0) :
    attempts height [.planned height plan] = [] := by
  simp [attempts, hlater]

theorem attempts_eq_nil (h : ∀ plan, .planned height plan ∈ story → plan.phase ≠ 0) :
    attempts height story = [] := by
  refine List.filterMap_eq_nil_iff.mpr fun remark hremark => ?_
  cases remark with
  | accepted outcome => rfl
  | planned height' plan =>
    dsimp only
    rw [if_neg]
    rintro ⟨rfl, hfirst⟩
    exact h plan hremark hfirst

end Attempts

/-- The key of the phase to work on next. -/
def Position.nextKey (p : Position) : RoundKey := ⟨p.height + 1, p.nextPhase⟩

namespace RoundRun

variable {m : Moment} {r r' : RoundRun} {n n' : Node}

/-- The turn of a round that fits keeps the height and the draw, and does not go back in the phases. -/
theorem Turn.position_keeps (t : Turn m r n r' n') (h : r.Fits n.position) :
    n'.position.height = n.position.height ∧ n'.position.draw = n.position.draw ∧
      n.position.phase ≤ n'.position.phase ∧ n.position.nextPhase ≤ n'.position.nextPhase := by
  rcases t.position_cases h with hsame | hfinalized | ⟨hscheduled, hbegun⟩
  · rw [hsame]
    exact ⟨rfl, rfl, le_rfl, le_rfl⟩
  · rw [hfinalized]
    refine ⟨rfl, rfl, le_rfl, ?_⟩
    unfold Position.nextPhase Position.isFinalized
    split <;> simp
  · have hphase := h.scheduled hscheduled
    have hle : n.position.phase ≤ n.position.nextPhase := by
      unfold Position.nextPhase
      split <;> omega
    rw [hbegun]
    refine ⟨rfl, rfl, ?_, ?_⟩
    · show n.position.phase ≤ r.phase
      omega
    · show n.position.nextPhase ≤ r.phase
      omega

variable {entries : List (Address × String)}

/-- The round has committed to the entries, or has finalized them. -/
def Stands (entries : List (Address × String)) (r : RoundRun) : Prop :=
  (∃ c, r.goal? = some (.tally c) ∧ c.values = entries) ∨ ∃ key digest, Closed key entries digest r

theorem Stands.ne_scheduled (h : Stands entries r) : r.stage ≠ .scheduled := by
  rcases h with ⟨c, hgoal, _⟩ | ⟨key, digest, hclosed⟩
  · exact ne_scheduled_of_goal? hgoal
  · exact hclosed.ne_scheduled

theorem Turn.entered_of_scheduled (t : Turn m r n r' n') (hs : r.stage = .scheduled) :
    ∃ ready, n' = r.entered { n with ready } := by
  cases t with
  | enter ready => exact ⟨ready, rfl⟩
  | look goal since fill wake watching stage was => cases hs.symm.trans was
  | commit goal fill count need waited stage was => cases hs.symm.trans was
  | conclude c fill agreeing need stage was => cases hs.symm.trans was
  | catchUp c deadline wake stage was => cases hs.symm.trans was
  | giveUp goal fill verdict reason time ready was => cases hs.symm.trans was
  | idle was =>
    rcases was with ⟨_, _, _, was⟩ | ⟨_, _, _, was⟩
    · cases hs.symm.trans was
    · cases hs.symm.trans was

/-- A round comes to stand by entries as it commits to what it has collected. -/
theorem Turn.of_stands (t : Turn m r n r' n') (h : Stands entries r') :
    Stands entries r ∨ r.stage ≠ .scheduled ∧ entries = (r.collected n).values := by
  rcases h with ⟨c, hgoal, rfl⟩ | ⟨key, digest, hclosed⟩
  · rcases t.goal?_cases hgoal with ⟨_, hbefore⟩ | ⟨hcollection, _⟩ | ⟨htally, _, goal, hgathered⟩
    · exact Or.inl (Or.inl ⟨c, hbefore, rfl⟩)
    · cases hcollection
    · cases htally
      exact Or.inr ⟨ne_scheduled_of_goal? hgathered.2.1, rfl⟩
  · by_cases hbefore : Closed key entries digest r
    · exact Or.inl (Or.inr ⟨key, digest, hbefore⟩)
    · obtain ⟨c, rfl, _, hagreed⟩ := t.of_closed hclosed hbefore
      exact Or.inl (Or.inl ⟨c, hagreed.2.1, rfl⟩)

/-- What a round collects from an address is what the node then has from it under the key. -/
theorem get?_of_mem_collected {x : Address} {value : String} (hmem : (x, value) ∈ (r.collected n).values) :
    ∃ e, n.caches.contributions.get? r.key x = some e ∧ e.value = value := by
  obtain ⟨⟨x', e⟩, hentry, heq⟩ := List.mem_map.mp hmem
  cases heq
  exact ⟨e, Cache.mem_entries_iff.mp hentry, rfl⟩

end RoundRun

theorem Devnet.nextKey_plan (p : Position) (s : AppState) : (plan p s).2.1.nextKey = p.nextKey := by
  obtain ⟨hheight, _, hnext⟩ := plan_keeps p s
  rw [Position.nextKey, hheight, hnext]
  rfl

namespace Station

variable {m : Moment} {s s' : Station}

theorem Orderly.nextKey_le (h : s.Orderly) (deal : Deal m s s') :
    ¬ s'.position.nextKey < s.position.nextKey := by
  cases deal with
  | quiet story position =>
    rw [position]
    exact RoundKey.lt_irrefl _
  | plan plan was planned story position =>
    rw [position, Devnet.nextKey_plan]
    exact RoundKey.lt_irrefl _
  | accept id r outcome was ended story position =>
    rcases position with hsame | ⟨_, hheight, hraised⟩
    · rw [hsame]
      exact RoundKey.lt_irrefl _
    · rw [hraised]
      simp only [Position.nextKey, RoundKey.lt_def]
      omega
  | turn id r turned =>
    have hturn := turned.turn
    obtain ⟨hheight, _, _, hphase⟩ := hturn.position_keeps (h.fits id r turned.before)
    simp only [Position.nextKey, RoundKey.lt_def, position]
    omega

/-- Whatever was planned is not beyond the next key, and whatever was finalized is before it. -/
structure Past (s : Station) : Prop where
  planned : ∀ height plan, .planned height plan ∈ s.story → ¬ s.position.nextKey < ⟨height, plan.phase⟩
  finalized : ∀ key entries digest, .accepted (.finalized key entries digest) ∈ s.story →
    key < s.position.nextKey

/-- A round that ended has the key in work, and is behind the next key if it was finalized. -/
theorem Orderly.outcome_key (h : s.Orderly) {id : Nat} {r : RoundRun} {outcome : RoundOutcome}
    (was : s.agent.round? id = some r) (ended : r.outcome? = some outcome) :
    outcome.key = s.position.activeKey ∧
      (outcome.isFinalized = true → outcome.key < s.position.nextKey) := by
  have fits := h.fits id r was
  have hbegun : r.stage ≠ .scheduled := by
    intro hs
    simp [RoundRun.outcome?, hs] at ended
  obtain ⟨hphase, hkey⟩ := fits.entered hbegun
  have hactive : outcome.key = s.position.activeKey := by
    rw [fits.outcome outcome ended, hkey, hphase]
    rfl
  refine ⟨hactive, fun hfinalized => ?_⟩
  cases outcome with
  | failed key reason => cases hfinalized
  | finalized key entries digest =>
    have hresult : r.result? ≠ none := by
      rw [RoundRun.closed_of_outcome? ended]
      exact Option.some_ne_none _
    have hnext : s.position.nextPhase = s.position.phase + 1 := if_pos (fits.finalized hresult)
    rw [hactive]
    refine RoundKey.lt_def.mpr (Or.inr ⟨rfl, ?_⟩)
    show s.position.phase < s.position.nextPhase
    omega

/-- What a deed adds to the story is the plan for the next phase or the outcome of a round. -/
theorem Deal.mem_story (deal : Deal m s s') {remark : Remark} (hmem : remark ∈ s'.story) :
    remark ∈ s.story ∨
    (∃ plan, remark = .planned (s.position.height + 1) plan ∧
      (Devnet.plan s.position s.agent.appState).1 = some plan) ∨
    ∃ id r outcome, remark = .accepted outcome ∧ s.agent.round? id = some r ∧
      r.outcome? = some outcome := by
  cases deal with
  | quiet story => exact Or.inl (story ▸ hmem)
  | turn id r turned driver story => exact Or.inl (story ▸ hmem)
  | plan plan was planned story =>
    rw [story, List.mem_append, List.mem_singleton] at hmem
    exact hmem.imp_right fun hnew => Or.inl ⟨plan, hnew, planned⟩
  | accept id r outcome was ended story =>
    rw [story, List.mem_append, List.mem_singleton] at hmem
    exact hmem.imp_right fun hnew => Or.inr ⟨id, r, outcome, hnew, was, ended⟩

theorem Past.deal (past : s.Past) (h : s.Orderly) (deal : Deal m s s') : s'.Past where
  planned height plan hmem := by
    have hle := h.nextKey_le deal
    rcases deal.mem_story hmem with hold | ⟨plan', hnew, hplan⟩ | ⟨_, _, _, hnew, _⟩
    · exact RoundKey.not_lt_trans (past.planned height plan hold) hle
    · cases hnew
      have hnext : s.position.nextKey = ⟨s.position.height + 1, plan.phase⟩ := by
        rw [Position.nextKey, ← Devnet.plan_phase hplan]
      rwa [hnext] at hle
    · cases hnew
  finalized key entries digest hmem := by
    have hle := h.nextKey_le deal
    have hbefore : key < s.position.nextKey := by
      rcases deal.mem_story hmem with hold | ⟨_, hnew, _⟩ | ⟨_, _, _, hnew, was, ended⟩
      · exact past.finalized key entries digest hold
      · cases hnew
      · cases hnew
        exact (h.outcome_key was ended).2 rfl
    simp only [RoundKey.lt_def] at hbefore hle ⊢
    omega

/-- How far the node has come with the first phase of the height in work. -/
inductive Opening (s : Station) : Prop
  /-- Nothing has been planned for it yet. -/
  | untried (none_tried : attempts (s.position.height + 1) s.story = [])
      (stands : s.position.nextPhase = 0) (idle : ∀ id, s.agent.round? id = none)
      (untouched : s.agent.Untouched ⟨s.position.height + 1, 0⟩)
  /-- Its first round has been planned but has not entered it. -/
  | tried (draw : Nat)
      (first : (attempts (s.position.height + 1) s.story).head? =
        some (Devnet.payload (s.position.height + 1) 0 draw))
      (stands : s.position.nextPhase = 0) (busy : ¬ s.driver.stage.IsPause)
      (rounds : ∀ id r, s.agent.round? id = some r → r.stage = .scheduled ∧
        r.contribution.value = Devnet.payload (s.position.height + 1) 0 draw)
      (untouched : s.agent.Untouched ⟨s.position.height + 1, 0⟩)
  /-- The node has contributed to it, and all that its rounds commit to has that contribution. -/
  | contributed (draw : Nat) (e : SignedEntry)
      (first : (attempts (s.position.height + 1) s.story).head? =
        some (Devnet.payload (s.position.height + 1) 0 draw))
      (phase : s.position.phase = 0)
      (held : s.agent.node.caches.contributions.get? ⟨s.position.height + 1, 0⟩ s.agent.address =
        some e)
      (value : e.value = Devnet.payload (s.position.height + 1) 0 draw)
      (rounds : ∀ id r entries own, s.agent.round? id = some r → r.Stands entries →
        (s.agent.address, own) ∈ entries → own = e.value)
  | passed (phase : 0 < s.position.phase)

theorem get?_contribution_act {k : RoundKey} {x : Address} {e : SignedEntry} (s : Station) (m : Moment)
    (deed : Deed) (hk : s.position.activeKey = k) (hk' : (s.act m deed).position.activeKey = k)
    (h : s.agent.node.caches.contributions.get? k x = some e) :
    (s.act m deed).agent.node.caches.contributions.get? k x = some e := by
  cases deed with
  | drive => exact Agent.get?_contribution_act (v := .drive s.driver) hk hk' h
  | signal => exact h
  | apart v _ => exact Agent.get?_contribution_act hk hk' h

/-- The node keeps its address, and its contributions under a key that it goes on to work on. -/
def Keeps (s s' : Station) : Prop :=
  s'.agent.address = s.agent.address ∧ ∀ k x e, s.position.activeKey = k → s'.position.activeKey = k →
    s.agent.node.caches.contributions.get? k x = some e →
    s'.agent.node.caches.contributions.get? k x = some e

theorem keeps_act (s : Station) (m : Moment) (deed : Deed) : s.Keeps (s.act m deed) :=
  ⟨address_act s m deed, fun _ _ _ => get?_contribution_act s m deed⟩

theorem Keeps.held {e : SignedEntry} (keeps : s.Keeps s') (height : s'.position.height = s.position.height)
    (phase : s.position.phase = 0) (phase' : s'.position.phase = 0)
    (held : s.agent.node.caches.contributions.get? ⟨s.position.height + 1, 0⟩ s.agent.address =
      some e) :
    s'.agent.node.caches.contributions.get? ⟨s'.position.height + 1, 0⟩ s'.agent.address = some e := by
  rw [keeps.1, height]
  refine keeps.2 _ _ _ ?_ ?_ held
  · rw [Position.activeKey, phase]
  · rw [Position.activeKey, phase', height]

theorem Opening.quiet (opening : s.Opening) (keeps : s.Keeps s') (story : s'.story = s.story)
    (position : s'.position = s.position)
    (rounds : ∀ id r, s'.agent.round? id = some r → s.agent.round? id = some r)
    (pauses : s'.driver.stage.IsPause → s.driver.stage.IsPause)
    (untouched : ∀ k, s.agent.Untouched k → s'.agent.Untouched k) : s'.Opening := by
  cases opening with
  | untried none_tried stands idle hkey =>
    refine .untried (by rwa [story, position]) (by rwa [position]) (fun id => ?_)
      (position ▸ untouched _ hkey)
    refine Option.eq_none_iff_forall_ne_some.mpr fun r hr => ?_
    cases (idle id).symm.trans (rounds id r hr)
  | tried draw first stands busy scheduled hkey =>
    refine .tried draw (by rwa [story, position]) (by rwa [position]) (busy ∘ pauses)
      (fun id r hr => ?_) (position ▸ untouched _ hkey)
    rw [position]
    exact scheduled id r (rounds id r hr)
  | contributed draw e first phase held value stand =>
    have hphase : s'.position.phase = 0 := by rwa [position]
    refine .contributed draw e (by rwa [story, position]) hphase
      (keeps.held (by rw [position]) phase hphase held) (by rwa [position]) ?_
    rw [keeps.1]
    exact fun id r entries own hr => stand id r entries own (rounds id r hr)
  | passed phase => exact .passed (by rwa [position])

/-- A plan for the first phase comes first of all, or after a contribution has been made. -/
theorem Opening.plan (opening : s.Opening) (keeps : s.Keeps s') {plan : PhasePlan}
    (was : s.driver.stage.IsPause)
    (planned : (Devnet.plan s.position s.agent.appState).1 = some plan)
    (story : s'.story = s.story ++ [.planned (s.position.height + 1) plan])
    (position : s'.position = (Devnet.plan s.position s.agent.appState).2.1)
    (rounds : ∀ id r, s'.agent.round? id = some r → r.stage = .scheduled ∧
      r.contribution.value = plan.payload)
    (busy : ¬ s'.driver.stage.IsPause)
    (untouched : ∀ k, s.agent.Untouched k → s'.agent.Untouched k) : s'.Opening := by
  obtain ⟨hheight, hphase, hstands⟩ := Devnet.plan_keeps s.position s.agent.appState
  have hplan := Devnet.plan_phase planned
  have hpayload := (Devnet.plan_payload planned).1
  rw [← position] at hheight hphase hstands hpayload
  cases opening with
  | untried none_tried stands idle hkey =>
    have hfirst : plan.phase = 0 := hplan.trans stands
    rw [hfirst] at hpayload
    refine .tried s'.position.draw ?_ (hstands.trans stands) busy (fun id r hr => ?_)
      (hheight ▸ untouched _ hkey)
    · rw [story, hheight, attempts_append, none_tried, attempts_planned_first hfirst, hpayload]
      rfl
    · rw [hheight, ← hpayload]
      exact rounds id r hr
  | tried draw first stands busy' => exact absurd was busy'
  | contributed draw e first phase held value stand =>
    have hphase' := hphase.trans phase
    refine .contributed draw e ?_ hphase' (keeps.held hheight phase hphase' held) (by rwa [hheight])
      fun id r entries own hr hstands => ?_
    · rw [story, hheight, attempts_append, List.head?_append, first]
      rfl
    · exact absurd (rounds id r hr).1 hstands.ne_scheduled
  | passed phase => exact .passed (by rwa [hphase])

variable {id : Nat} {r : RoundRun} {outcome : RoundOutcome}

theorem Past.no_attempts (past : s.Past) {height : Nat} (ahead : s.position.height + 1 < height) :
    attempts height s.story = [] := by
  refine attempts_eq_nil fun plan hmem => absurd ?_ (past.planned height plan hmem)
  exact Or.inl ahead

/-- The outcome of a round leaves the first phase as it is, or raises the height. -/
theorem Opening.accept (opening : s.Opening) (h : s.Orderly) (past : s.Past) (keeps : s.Keeps s')
    (ahead : ∀ height, s.position.height + 1 < height → s.agent.Untouched ⟨height, 0⟩)
    (was : s.agent.round? id = some r) (ended : r.outcome? = some outcome)
    (story : s'.story = s.story ++ [.accepted outcome])
    (position : s'.position = s.position ∨ (Devnet.phases ≤ outcome.key.phase + 1 ∧
      s.position.height < outcome.key.height ∧ s'.position = { height := outcome.key.height }))
    (rounds : ∀ id, s'.agent.round? id = none)
    (untouched : ∀ k, s.agent.Untouched k → s'.agent.Untouched k) : s'.Opening := by
  have hattempts : ∀ height, attempts height s'.story = attempts height s.story := by
    intro height
    rw [story, attempts_append, attempts_accepted, List.append_nil]
  rcases position with hsame | ⟨_, _, hraised⟩
  · cases opening with
    | untried none_tried stands idle => cases (idle id).symm.trans was
    | tried draw first stands busy scheduled =>
      simp [RoundRun.outcome?, (scheduled id r was).1] at ended
    | contributed draw e first phase held value stand =>
      have hphase : s'.position.phase = 0 := by rwa [hsame]
      refine .contributed draw e (by rwa [hattempts, hsame]) hphase
        (keeps.held (by rw [hsame]) phase hphase held) (by rwa [hsame]) fun id r _ _ hr => ?_
      cases (rounds id).symm.trans hr
    | passed phase => exact .passed (by rwa [hsame])
  · have hkey : outcome.key.height = s.position.height + 1 :=
      congrArg RoundKey.height (h.outcome_key was ended).1
    have hbeyond : s.position.height + 1 < s'.position.height + 1 := by
      rw [hraised, hkey]
      exact Nat.lt_succ_self _
    refine .untried ?_ (by rw [hraised]; rfl) rounds (untouched _ (ahead _ hbeyond))
    rw [hattempts]
    exact past.no_attempts hbeyond

/-- The first round to enter the first phase contributes what it was given, and any round that then
commits in it commits to that. -/
theorem Opening.turn (opening : s.Opening) (h : s.Orderly) (keeps : s.Keeps s')
    (turned : s.agent.Turned m s'.agent id r) (story : s'.story = s.story) :
    s'.Opening := by
  have hturn := turned.turn
  have fits := h.fits id r turned.before
  obtain ⟨hheight, _, hphase, _⟩ := hturn.position_keeps fits
  have hsame : s'.position.height = s.position.height := hheight
  cases opening with
  | untried none_tried stands idle => cases (idle id).symm.trans turned.before
  | tried draw first stands busy scheduled hkey =>
    obtain ⟨hscheduled, hvalue⟩ := scheduled id r turned.before
    have hfirst : r.phase = 0 := (fits.scheduled hscheduled).trans stands
    rw [← hfirst] at hkey
    obtain ⟨ready, hnode⟩ := hturn.entered_of_scheduled hscheduled
    have hposition : s'.position = (r.entered { s.agent.node with ready }).position :=
      congrArg Node.position hnode
    refine .contributed draw r.contribution (by rwa [story, hsame]) ?_ ?_ (by rwa [hsame])
      fun other r'' entries own hr'' hstands _ => ?_
    · rw [hposition]
      exact hfirst
    · rw [keeps.1, hsame, hnode, ← hfirst]
      exact hkey.contributes ready rfl
    · obtain ⟨_, hturn'⟩ := h.turned_round turned hr''
      rcases hturn'.of_stands hstands with hbefore | ⟨hbegun, _⟩
      · exact absurd hscheduled hbefore.ne_scheduled
      · exact absurd hscheduled hbegun
  | contributed draw e first phase held value stand =>
    rcases Nat.eq_zero_or_pos s'.position.phase with hphase' | hphase'
    · refine .contributed draw e (by rwa [story, hsame]) hphase' (keeps.held hsame phase hphase' held)
        (by rwa [hsame]) fun other r'' entries own hr'' hstands hmem => ?_
      obtain ⟨rfl, hturn'⟩ := h.turned_round turned hr''
      -- a round that enters here a second time finds the contribution made and leaves it
      rw [keeps.1] at hmem
      rcases hturn'.of_stands hstands with hbefore | ⟨hbegun, rfl⟩
      · exact stand _ r entries own turned.before hbefore hmem
      · obtain ⟨e', hget, hvalue⟩ := RoundRun.get?_of_mem_collected hmem
        obtain ⟨hrphase, hrkey⟩ := fits.entered hbegun
        rw [hrkey, hrphase.trans phase] at hget
        cases hget.symm.trans held
        exact hvalue.symm
    · exact .passed hphase'
  | passed phase => exact .passed (Nat.lt_of_lt_of_le phase hphase)

theorem Opening.deal (opening : s.Opening) (h : s.Orderly) (past : s.Past)
    (keeps : s.Keeps s')
    (ahead : ∀ height, s.position.height + 1 < height → s.agent.Untouched ⟨height, 0⟩)
    (deal : Deal m s s') : s'.Opening := by
  cases deal with
  | quiet story position rounds pauses untouched =>
    exact opening.quiet keeps story position (fun id r hr => (rounds id r hr).1) pauses untouched
  | plan plan was planned story position rounds busy untouched =>
    refine opening.plan keeps was planned story position (fun id r hr => ?_) busy untouched
    obtain ⟨_, hscheduled, _, hvalue⟩ := rounds id r hr
    exact ⟨hscheduled, hvalue⟩
  | accept id r outcome was ended story position rounds untouched =>
    exact opening.accept h past keeps ahead was ended story position rounds untouched
  | turn id r turned driver story => exact opening.turn h keeps turned story

end Station

end Adjudication
