import Adjudication.Proofs.Finalization
import Adjudication.Proofs.RoundAttempts

namespace Adjudication

namespace Agent

/-- A move for which rounds are ready, and by which the height does not fall. -/
def Advances (a : Agent) (m : Moment) (v : Move) : Prop :=
  v.isDue a m.now = true ∧ a.node.position.height ≤ (a.act m v).node.position.height

instance (a : Agent) (m : Moment) (v : Move) : Decidable (a.Advances m v) :=
  inferInstanceAs (Decidable (_ ∧ _))

/-- Rounds take steps only when they are ready for one, and the height never falls. -/
def Climbing : Agent → Script → Prop
  | _, [] => True
  | a, v :: script => a.Advances v.1 v.2 ∧ Climbing (a.act v.1 v.2) script

instance decidableClimbing : ∀ (a : Agent) (script : Script), Decidable (Climbing a script)
  | _, [] => .isTrue trivial
  | a, v :: script =>
    have := decidableClimbing (a.act v.1 v.2) script
    inferInstanceAs (Decidable (_ ∧ _))

theorem climbing_append {a : Agent} {script rest : Script} (h : Climbing a (script ++ rest)) :
    Climbing a script ∧ Climbing (a.run script) rest := by
  induction script generalizing a with
  | nil => exact ⟨trivial, h⟩
  | cons v script ih =>
    obtain ⟨hscript, hrest⟩ := ih h.2
    exact ⟨⟨h.1, hscript⟩, hrest⟩

end Agent

/-- What is known of a round on its course, when `tried` are the keys it has attempted. -/
structure Churning (s : Course) (tried : List RoundKey) (id : Nat) (r₀ : RoundRun) : Prop where
  phased : Agent.Phased id r₀.phase s.agent
  contributed : ∀ r, s.agent.round? id = some r → r.contribution = r₀.contribution
  numbered : ∀ fill ∈ s.fills, fill < s.agent.nextFill
  looked : ∀ fill ∈ s.fills, s.agent.Dismissed fill ∨ s.agent.InRound id (RoundRun.LooksFor · fill)
  exited : ∀ r, s.agent.round? id = some r → r.outcome? = none → ∀ fill ∈ s.fills,
    s.agent.isFillEnded fill = true ∨ r.fill? = some fill
  phases : ∀ key ∈ tried, key.phase = r₀.phase
  rising : tried.Pairwise fun k k' => k.height < k'.height
  reached : ∀ key ∈ tried, key.height ≤ s.agent.node.position.height + 1
  unbegun : ∀ r, s.agent.round? id = some r → r.stage = .scheduled → tried = []
  last : ∀ r, s.agent.round? id = some r → r.stage ≠ .scheduled → tried.getLast? = some r.key
  moved : ∀ r goal fill, s.agent.round? id = some r → r.stage = .leaving goal fill .heightMoved →
    ∀ key ∈ tried, key.height < s.agent.node.position.height + 1
  closed : ∀ r key entries digest, s.agent.round? id = some r →
    r.outcome? = some (.finalized key entries digest) → key = r.key

namespace Churning

variable {s : Course} {tried : List RoundKey} {id : Nat} {r₀ r r' : RoundRun} {m : Moment} {v : Move}

/-- Moves that are no step of the round leave it as it is, or drop it. -/
theorem other (h : Churning s tried id r₀)
    (hround : (s.agent.act m v).round? id = s.agent.round? id ∨ (s.agent.act m v).round? id = none)
    (hfills : (s.next id (m, v)).fills = s.fills)
    (hheight : s.agent.node.position.height ≤ (s.agent.act m v).node.position.height) :
    Churning (s.next id (m, v)) tried id r₀ := by
  have before : ∀ r, (s.agent.act m v).round? id = some r → s.agent.round? id = some r := by
    intro r hr
    rcases hround with hsame | hnone
    · exact hsame.symm.trans hr
    · cases hnone.symm.trans hr
  refine ⟨h.phased.act m v, fun r hr => h.contributed r (before r hr), ?_, ?_, ?_, h.phases, h.rising,
    ?_, fun r hr => h.unbegun r (before r hr), fun r hr => h.last r (before r hr), ?_,
    fun r key entries digest hr => h.closed r key entries digest (before r hr)⟩
  · rw [hfills]
    exact fun fill hfill => Nat.lt_of_lt_of_le (h.numbered fill hfill) (s.agent.nextFill_le_act m v)
  · rw [hfills]
    intro fill hfill
    rcases h.looked fill hfill with hd | ⟨r, hr, hlooks⟩
    · exact Or.inl (Agent.dismissed_act (h.numbered fill hfill) hd m v)
    · rcases hround with hsame | hnone
      · exact Or.inr ⟨r, hsame.trans hr, hlooks⟩
      · exact Or.inl (Agent.dismissed_of_gone hr hlooks.fill?_eq hnone)
  · rw [hfills]
    intro r hr hopen fill hfill
    rcases h.exited r (before r hr) hopen fill hfill with hended | hheld
    · exact Or.inl (Agent.isFillEnded_act (h.numbered fill hfill) hended m v)
    · exact Or.inr hheld
  · intro key hkey
    have hold := h.reached key hkey
    show key.height ≤ (s.agent.act m v).node.position.height + 1
    omega
  · intro r goal fill hr hs key hkey
    have hold := h.moved r goal fill (before r hr) hs key hkey
    show key.height < (s.agent.act m v).node.position.height + 1
    omega

/-- What a round that is ready has left its fill for has exited. -/
theorem ended_of_due {a : Agent} (hdue : (Move.task (.round id)).isDue a m.now = true)
    (hr : a.round? id = some r) {goal : Goal} {fill : Nat} {verdict : Verdict}
    (hs : r.stage = .leaving goal fill verdict) : a.isFillEnded fill = true := by
  by_contra hrunning
  simp [Move.isDue, hr, RoundRun.readyAt, hs, hrunning] at hdue

theorem open_of_due {a : Agent} (hdue : (Move.task (.round id)).isDue a m.now = true)
    (hr : a.round? id = some r) : r.outcome? = none := by
  unfold RoundRun.outcome?
  split
  next hs => simp [Move.isDue, hr, RoundRun.readyAt, hs] at hdue
  next => rfl

/-- At a step of the round, each fill but the one that it may still hold has exited. -/
theorem fills_step (h : Churning s tried id r₀)
    (hdue : (Move.task (.round id)).isDue s.agent m.now = true) (hr : s.agent.round? id = some r)
    (hands : RoundRun.Hands r s.agent.toExchanger r' (s.agent.act m (.task (.round id))).toExchanger)
    (hopen : r'.outcome? = none) :
    ∀ fill ∈ (s.next id (m, .task (.round id))).fills,
      (s.agent.act m (.task (.round id))).isFillEnded fill = true ∨ r'.fill? = some fill := by
  intro fill hfill
  rcases Course.mem_next_step_fills.mp hfill with ⟨hle, hlt⟩ | hold
  · exact Or.inr ((hands.started fill hle hlt).2.2 hopen)
  · have hkept : s.agent.isFillEnded fill = true →
        (s.agent.act m (.task (.round id))).isFillEnded fill = true :=
      fun hended => Agent.isFillEnded_act (h.numbered fill hold) hended m _
    rcases h.exited r hr (open_of_due hdue hr) fill hold with hended | hheld
    · exact Or.inl (hkept hended)
    · rcases hands.held fill hheld hopen with hstill | ⟨goal, verdict, hs⟩
      · exact Or.inr hstill
      · exact Or.inl (hkept (ended_of_due hdue hr hs))

theorem looked_step (h : Churning s tried id r₀) (hr : s.agent.round? id = some r)
    (hr' : (s.agent.act m (.task (.round id))).round? id = some r')
    (hands : RoundRun.Hands r s.agent.toExchanger r' (s.agent.act m (.task (.round id))).toExchanger) :
    ∀ fill ∈ (s.next id (m, .task (.round id))).fills,
      (s.agent.act m (.task (.round id))).Dismissed fill ∨
        (s.agent.act m (.task (.round id))).InRound id (RoundRun.LooksFor · fill) := by
  intro fill hfill
  rcases Course.mem_next_step_fills.mp hfill with ⟨hle, hlt⟩ | hold
  · exact (hands.started fill hle hlt).2.1.imp_right fun hlooks => ⟨r', hr', hlooks⟩
  · rcases h.looked fill hold with hd | ⟨r₁, hr₁, hlooks⟩
    · exact Or.inl (Agent.dismissed_act (h.numbered fill hold) hd m _)
    · cases hr.symm.trans hr₁
      exact (hands.looked fill hlooks).imp_right fun hstill => ⟨r', hr', hstill⟩

/-- A round that starts over has not attempted so high a key yet. -/
theorem lower_of_startsOver (h : Churning s tried id r₀) (hr : s.agent.round? id = some r)
    (hs : RoundRun.StartsOver r.stage) :
    ∀ k ∈ tried, k.height < s.agent.node.position.height + 1 := by
  cases hstage : r.stage with
  | scheduled => simp [h.unbegun r hr hstage]
  | leaving goal fill verdict =>
    cases verdict with
    | heightMoved => exact h.moved r goal fill hr hstage
    | _ => exact absurd hs (by simp [hstage, RoundRun.StartsOver])
  | _ => exact absurd hs (by simp [hstage, RoundRun.StartsOver])

/-- After a look that sees the height moved, the keys attempted so far are all below the new height. -/
theorem lower_of_moved {a : Agent} {key : RoundKey}
    (hrising : tried.Pairwise fun k k' => k.height < k'.height) (hlast : tried.getLast? = some key)
    (hreached : ∀ k ∈ tried, k.height ≤ a.node.position.height + 1)
    (hmoved : a.node.heightMoved key = true) :
    ∀ k ∈ tried, k.height < a.node.position.height + 1 := by
  obtain ⟨before, rfl⟩ := List.getLast?_eq_some_iff.mp hlast
  have hkey : key.height ≤ a.node.position.height + 1 :=
    hreached key (List.mem_append_right _ List.mem_cons_self)
  have hne : a.node.position.height + 1 ≠ key.height := by simpa [Node.heightMoved] using hmoved
  intro k hk
  rcases List.mem_append.mp hk with hk | hk
  · have hlt := (List.pairwise_append.mp hrising).2.2 k hk key List.mem_cons_self
    omega
  · cases List.mem_singleton.mp hk
    omega

/-- A round that attempts a key has not attempted one as high yet. -/
theorem rising_step (h : Churning s tried id r₀) (hr : s.agent.round? id = some r) :
    (tried ++ (r.attempt? s.agent.toExchanger).toList).Pairwise fun k k' => k.height < k'.height := by
  cases hattempt : r.attempt? s.agent.toExchanger with
  | none => simpa using h.rising
  | some key =>
    obtain ⟨rfl, hs⟩ := RoundRun.attempt?_eq_some hattempt
    refine List.pairwise_append.mpr ⟨h.rising, List.pairwise_singleton _ _, fun k hk k' hk' => ?_⟩
    cases List.mem_singleton.mp hk'
    exact h.lower_of_startsOver hr hs k hk

theorem reached_step (h : Churning s tried id r₀) (r : RoundRun) :
    ∀ key ∈ tried ++ (r.attempt? s.agent.toExchanger).toList,
      key.height ≤ s.agent.node.position.height + 1 := by
  intro key hkey
  rcases List.mem_append.mp hkey with hold | hnew
  · exact h.reached key hold
  · obtain ⟨rfl, _⟩ := RoundRun.attempt?_eq_some (Option.mem_toList.mp hnew)
    exact Nat.le_refl _

/-- The last key attempted is the one that the round has after its step. -/
theorem last_step (h : Churning s tried id r₀) (hr : s.agent.round? id = some r) (m : Moment) :
    (tried ++ (r.attempt? s.agent.toExchanger).toList).getLast? =
      some (r.step s.agent.toExchanger m).value.1.key := by
  cases hattempt : r.attempt? s.agent.toExchanger with
  | none =>
    rw [RoundRun.step_key_of_no_attempt hattempt]
    simpa using h.last r hr (RoundRun.ne_scheduled_of_no_attempt hattempt)
  | some key =>
    obtain ⟨stage, hround, _⟩ := (RoundRun.step_attempted (m := m) hattempt).round
    rw [hround]
    simp

theorem step (h : Churning s tried id r₀)
    (hdue : (Move.task (.round id)).isDue s.agent m.now = true) (hr : s.agent.round? id = some r) :
    Churning (s.next id (m, .task (.round id)))
      (tried ++ (r.attempt? s.agent.toExchanger).toList) id r₀ := by
  have turned := Agent.turned_act (m := m) hr
  have stride := r.step_stride s.agent.toExchanger m
  rw [← Agent.exchanger_act_round (m := m) hr] at stride
  have hreached : ∀ key ∈ tried ++ (r.attempt? s.agent.toExchanger).toList,
      key.height ≤ (s.agent.act m (.task (.round id))).node.position.height + 1 :=
    stride.height_eq ▸ h.reached_step r
  have after : ∀ r', (s.agent.act m (.task (.round id))).round? id = some r' →
      r' = (r.step s.agent.toExchanger m).value.1 :=
    fun r' hr' => Option.some.inj (hr'.symm.trans turned.after)
  refine ⟨h.phased.act m _, ?_, ?_, h.looked_step hr turned.after stride.hands, ?_, ?_,
    h.rising_step hr, hreached, ?_, ?_, ?_, ?_⟩
  · intro r' hr'
    rw [after r' hr', stride.constant_eq.2]
    exact h.contributed r hr
  · intro fill hfill
    rcases Course.mem_next_step_fills.mp hfill with ⟨_, hlt⟩ | hold
    · exact hlt
    · exact Nat.lt_of_lt_of_le (h.numbered fill hold) (s.agent.nextFill_le_act m _)
  · intro r' hr' hopen
    rw [after r' hr'] at hopen ⊢
    exact h.fills_step hdue hr stride.hands hopen
  · intro key hkey
    rcases List.mem_append.mp hkey with hold | hnew
    · exact h.phases key hold
    · obtain ⟨rfl, _⟩ := RoundRun.attempt?_eq_some (Option.mem_toList.mp hnew)
      exact h.phased.2 r hr
  · intro r' hr' hs
    rw [after r' hr'] at hs
    exact absurd hs stride.ne_scheduled
  · intro r' hr' _
    rw [after r' hr']
    exact h.last_step hr m
  · intro r' goal fill hr' hs
    rw [after r' hr'] at hs
    exact lower_of_moved (h.rising_step hr) (h.last_step hr m) hreached (stride.moved hs)
  · intro r' key entries digest hr' hout
    rw [after r' hr'] at hout ⊢
    rcases stride.finalized_key hout with hkey | hsame
    · exact hkey
    · rw [hsame] at hout ⊢
      exact h.closed r key entries digest hr hout

/-- The round's contribution is there after an attempt, unless one of the node's was there before. -/
theorem published (h : Churning s tried id r₀) (m : Moment) {key : RoundKey}
    (hattempt : s.agent.attempt? id (.task (.round id)) = some key) :
    (s.agent.act m (.task (.round id))).node.caches.contributions.get? key s.agent.address =
      some ((s.agent.node.caches.contributions.get? key s.agent.address).getD r₀.contribution) := by
  obtain ⟨r, hr, hattempt⟩ := Agent.exists_attempting hattempt
  obtain ⟨ready, hentered⟩ := (RoundRun.step_attempted (m := m) hattempt).node
  obtain ⟨rfl, _⟩ := RoundRun.attempt?_eq_some hattempt
  have hnode := (Agent.turned_act (m := m) hr).node
  have hown := r.entered_get?_own { s.agent.node with ready }
  rw [hnode, hentered, ← h.contributed r hr]
  exact hown

/-- Before an attempt all fills so far are cancelled and have exited. -/
theorem stopped (h : Churning s tried id r₀)
    (hdue : (Move.task (.round id)).isDue s.agent m.now = true) {key : RoundKey}
    (hattempt : s.agent.attempt? id (.task (.round id)) = some key) :
    ∀ fill ∈ s.fills, s.agent.Dismissed fill ∧ s.agent.isFillEnded fill = true := by
  obtain ⟨r, hr, hattempt⟩ := Agent.exists_attempting hattempt
  obtain ⟨_, hs⟩ := RoundRun.attempt?_eq_some hattempt
  have hlooks : ∀ fill, ¬ r.LooksFor fill := by
    rintro fill ⟨goal, since, wake, watching, hpolling⟩
    rw [hpolling] at hs
    exact hs
  intro fill hfill
  constructor
  · refine (h.looked fill hfill).resolve_right ?_
    rintro ⟨r', hr', hlooking⟩
    cases hr.symm.trans hr'
    exact hlooks fill hlooking
  · rcases h.exited r hr (open_of_due hdue hr) fill hfill with hended | hheld
    · exact hended
    · obtain ⟨goal, verdict, hleaving⟩ := RoundRun.leaving_of_fill? hheld hlooks
      exact ended_of_due hdue hr hleaving

/-- Of the fills of a round only the one that it looks for may not be cancelled. -/
theorem single (h : Churning s tried id r₀) : ∀ fill ∈ s.fills, ∀ other ∈ s.fills,
    ¬ s.agent.Dismissed fill → ¬ s.agent.Dismissed other → fill = other := by
  intro fill hfill other hother hrunning hrunning'
  obtain ⟨r, hr, hlooks⟩ := (h.looked fill hfill).resolve_left hrunning
  obtain ⟨r', hr', hlooks'⟩ := (h.looked other hother).resolve_left hrunning'
  cases hr.symm.trans hr'
  exact Option.some.inj (hlooks.fill?_eq.symm.trans hlooks'.fill?_eq)

theorem act (h : Churning s tried id r₀) (hadvances : s.agent.Advances m v) :
    Churning (s.next id (m, v)) (tried ++ (s.agent.attempt? id v).toList) id r₀ := by
  cases hv : v.isStep id with
  | true =>
    cases Move.eq_of_isStep hv
    cases hr : s.agent.round? id with
    | some r =>
      rw [Agent.attempt?_step hr]
      exact h.step hadvances.1 hr
    | none =>
      -- the round is gone, and nothing happens
      have hidle : ∀ other, Move.task (.round id) = .task (.round other) → s.agent.round? other = none := by
        intro other hsame
        cases hsame
        exact hr
      have aside : Agent.Aside m s.agent (s.agent.act m (.task (.round id))) :=
        Agent.aside_act trivial hidle
      have hattempt : s.agent.attempt? id (.task (.round id)) = none := by
        rw [Agent.attempt?, if_pos hv, hr]
        rfl
      have hround : (s.agent.act m (.task (.round id))).round? id = s.agent.round? id := by
        rw [Agent.round?, aside.rounds]
        rfl
      have hfills : (s.next id (m, .task (.round id))).fills = s.fills := by
        simp [Course.next, hv, aside.nextFill]
      rw [hattempt, Option.toList_none, List.append_nil]
      exact h.other (Or.inl hround) hfills hadvances.2
  | false =>
    rw [Agent.attempt?_of_not_step hv, Option.toList_none, List.append_nil]
    refine h.other ?_ (Course.next_fills hv) hadvances.2
    cases hgone : (s.agent.act m v).round? id with
    | none => exact Or.inr rfl
    | some r =>
      rw [← hgone]
      exact Or.inl (Agent.round?_act hv h.phased.1 (by simp [hgone]))

end Churning

namespace Agent

variable {a : Agent} {id : Nat} {r : RoundRun} {script past : Script} {key : RoundKey}
  {entries : List (Address × String)} {digest : String}

theorem churning_run (hnumbered : a.Numbered) (hround : a.round? id = some r)
    (hscheduled : r.stage = .scheduled) (hclimbing : Climbing a script) :
    Churning (a.course id 0 script) (attempts id a script) id r := by
  have hsame : ∀ r', a.round? id = some r' → r' = r :=
    fun r' hr' => Option.some.inj (hr'.symm.trans hround)
  induction script using List.reverseRecOn with
  | nil =>
    constructor
    case phased =>
      refine ⟨hnumbered id r hround, fun r' hr' => ?_⟩
      rw [hsame r' hr']
    case contributed =>
      intro r' hr'
      rw [hsame r' hr']
    case last =>
      intro r' hr' hne
      rw [hsame r' hr'] at hne
      exact absurd hscheduled hne
    case closed =>
      intro r' key entries digest hr' hout
      rw [hsame r' hr'] at hout
      simp [RoundRun.outcome?, hscheduled] at hout
    all_goals simp [attempts]
  | append_singleton script v ih =>
    obtain ⟨hbefore, hadvances, _⟩ := climbing_append hclimbing
    have hcourse := ih hbefore
    rw [← course_agent a id 0 script] at hadvances
    rw [course_snoc, attempts_snoc, ← course_agent a id 0 script]
    exact hcourse.act hadvances

/-- What is finalized, and what was counted for it, is from one key: that of the last attempt and of the
height at the last look at the tally. -/
structure FromKey (a : Agent) (id : Nat) (script : Script) (key : RoundKey)
    (entries : List (Address × String)) (digest : String) : Prop where
  attempted : (attempts id a script).getLast? = some key
  tallied : ∃ m s, LastLook a script id .hash m s ∧ key.height = s.node.position.height + 1 ∧
    majority m.members.size ≤ m.members.addresses.countP fun x =>
      (s.node.caches.hashes.get? key x).any (·.value = digest)
  collected : ∃ before m after, script = before ++ (m, .task (.round id)) :: after ∧
    (a.run before).InRound id (RoundRun.Gathered key .collection) ∧
    entries = ((a.run before).node.caches.contributions.entries key).map (fun e => (e.1, e.2.value)) ∧
    digest = canonicalDigest entries

/-- How a round starts over in a script, whatever becomes of it. -/
structure Restarts (a : Agent) (id : Nat) (r : RoundRun) (script : Script) : Prop where
  phases : ∀ key ∈ attempts id a script, key.phase = r.phase
  rising : (attempts id a script).Pairwise fun k k' => k.height < k'.height
  /-- With each attempt there is a contribution of the node's own under the key, the round's if there was
  none. -/
  published : ∀ before m after key, script = before ++ (m, .task (.round id)) :: after →
    (a.run before).attempt? id (.task (.round id)) = some key →
    ((a.run before).act m (.task (.round id))).node.caches.contributions.get? key
      (a.run before).address =
        some (((a.run before).node.caches.contributions.get? key (a.run before).address).getD
          r.contribution)
  /-- The fills so far are cancelled and have exited before an attempt begins. -/
  stopped : ∀ before m after key, script = before ++ (m, .task (.round id)) :: after →
    (a.run before).attempt? id (.task (.round id)) = some key →
    ∀ fill ∈ (a.course id 0 before).fills,
      (a.run before).Dismissed fill ∧ (a.run before).isFillEnded fill = true
  /-- The round never has two fills that are not cancelled. -/
  single : ∀ before after, script = before ++ after →
    ∀ fill ∈ (a.course id 0 before).fills, ∀ other ∈ (a.course id 0 before).fills,
      ¬ (a.run before).Dismissed fill → ¬ (a.run before).Dismissed other → fill = other
  finalized : ∀ key entries digest, (a.run script).outcome? id = some (.finalized key entries digest) →
    key.phase = r.phase ∧ FromKey a id script key entries digest

theorem fromKey_of_finalized (hround : a.round? id = some r) (hscheduled : r.stage = .scheduled)
    (hchurning : Churning (a.course id 0 script) (attempts id a script) id r)
    (hout : (a.run script).outcome? id = some (.finalized key entries digest)) :
    FromKey a id script key entries digest := by
  have hstart : a.Unbegun id := by
    intro r' hr'
    cases hround.symm.trans hr'
    exact hscheduled
  obtain ⟨before, m, after, c, hscript, hvalues, hdigest, agreed, quiet⟩ :=
    exists_last_tally hstart (inRound_closed_of_outcome? hout)
  have hseen := agreement_seen agreed
  have htallying : (a.run (before ++ [(m, .task (.round id))])).InRound id
      (RoundRun.Tallying key c) := by
    obtain ⟨r', hr', htallying⟩ := agreed
    exact ⟨r', by rw [run_snoc]; exact hr', htallying.tallying⟩
  obtain ⟨toCommit, m', tallying, r', goal, hbefore, hr', gathered, hc, _⟩ :=
    exists_commitment hstart htallying
  obtain ⟨rfl, _⟩ := exists_gathering hstart ⟨r', hr', gathered⟩
  refine ⟨?_, ⟨m, _, ⟨?_, before, after, hscript, rfl, quiet .hash⟩, ?_, ?_⟩, toCommit, m',
    tallying ++ after, ?_, ⟨r', hr', gathered⟩, ?_, ?_⟩
  · obtain ⟨r', hr', hout⟩ := Option.bind_eq_some_iff.mp hout
    rw [← course_agent a id 0 script] at hr'
    have hne : r'.stage ≠ .scheduled := by
      intro hs
      simp [RoundRun.outcome?, hs] at hout
    rw [hchurning.last r' hr' hne, hchurning.closed r' key entries digest hr' hout]
  · obtain ⟨r', hr', _, hgoal, _⟩ := agreed
    exact ⟨r', hr', _, hgoal, rfl⟩
  · have hunmoved := hseen.1
    simp only [Node.heightMoved, ne_eq, decide_not, Bool.not_eq_false', decide_eq_true_eq] at hunmoved
    exact hunmoved.symm
  · have hmajority := hseen.2
    rw [Node.tally_agreeing, hdigest] at hmajority
    exact hmajority
  · rw [hscript, List.append_cons before, hbefore]
    simp
  · rw [← hvalues, hc, RoundRun.collected, gathered.1]
    rfl
  · rw [← hvalues, ← hdigest]
    exact digest_of_tallying hstart htallying

/-- While the height only rises, whenever it does, a round starts over cleanly: one fill after the other, one
attempt above the other, and nothing of an earlier one in what it finalizes. -/
theorem restarts_of_climbing (ha : a.Blank) (hround : (a.run past).round? id = some r)
    (hscheduled : r.stage = .scheduled) (hclimbing : Climbing (a.run past) script) :
    Restarts (a.run past) id r script := by
  have hnumbered := ha.numbered.run past
  have hchurning : ∀ before after, script = before ++ after →
      Churning ((a.run past).course id 0 before) (attempts id (a.run past) before) id r := by
    intro before after hscript
    rw [hscript] at hclimbing
    exact churning_run hnumbered hround hscheduled (climbing_append hclimbing).1
  have hwhole := hchurning script [] (List.append_nil _).symm
  refine ⟨hwhole.phases, hwhole.rising, ?_, ?_, ?_, ?_⟩
  · intro before m after key hscript hattempt
    have hbefore := hchurning before _ hscript
    rw [← course_agent (a.run past) id 0 before] at hattempt ⊢
    exact hbefore.published m hattempt
  · intro before m after key hscript hattempt
    have hbefore := hchurning before _ hscript
    rw [hscript] at hclimbing
    have hdue := (climbing_append hclimbing).2.1.1
    rw [← course_agent (a.run past) id 0 before] at hdue hattempt ⊢
    exact hbefore.stopped hdue hattempt
  · intro before after hscript
    rw [← course_agent (a.run past) id 0 before]
    exact (hchurning before after hscript).single
  · intro key entries digest hout
    have hfrom := fromKey_of_finalized hround hscheduled hwhole hout
    exact ⟨hwhole.phases key (List.mem_of_getLast? hfrom.attempted), hfrom⟩

end Agent

namespace Overtaken

open TwoFaced

/-- The height is raised after the first look, and the peer follows. -/
def script : Script := [
  (moment 0, .task (.round 0)),
  (moment 0, .stand { height := 5 }),
  (moment 20, .task (.round 0)),
  (moment 20, .task (.fill 0)),
  (moment 20, .task (.round 0)),
  (moment 20, .call "p" (.roundState (.sign (.plain "p") { height := 5 } 20 8))),
  (moment 20, .call "p" (.gossip .contribution ⟨⟨6, 0⟩, [], some (.plain .contribution ⟨6, 0⟩ "p" "p")⟩)),
  (moment 40, .task (.round 0)),
  (moment 40, .task (.fill 1)),
  (moment 40, .task (.round 0)),
  (moment 40, .call "p" (.gossip .hash ⟨⟨6, 0⟩, [], some (.plain .hash ⟨6, 0⟩ "p" digestA)⟩)),
  (moment 60, .task (.round 0)),
  (moment 60, .task (.fill 2)),
  (moment 60, .task (.round 0)),
  (moment 5060, .task (.round 0))]

theorem second_attempt_finalizes :
    (((Agent.plain "a").run (opening "a")).run script).outcome? 0 =
      some (.finalized ⟨6, 0⟩ [("a", "a"), ("p", "p")] digestA) ∧
    Agent.attempts 0 ((Agent.plain "a").run (opening "a")) script = [⟨1, 0⟩, ⟨6, 0⟩] ∧
    Agent.FromKey ((Agent.plain "a").run (opening "a")) 0 script ⟨6, 0⟩ [("a", "a"), ("p", "p")]
      digestA := by
  have hround : ∃ r, ((Agent.plain "a").run (opening "a")).round? 0 = some r ∧
      r.stage = .scheduled := ⟨_, rfl, rfl⟩
  obtain ⟨r, hr, hstage⟩ := hround
  have hclimbing : Agent.Climbing ((Agent.plain "a").run (opening "a")) script := by decide +kernel
  have hout : (((Agent.plain "a").run (opening "a")).run script).outcome? 0 =
      some (.finalized ⟨6, 0⟩ [("a", "a"), ("p", "p")] digestA) := by decide +kernel
  have hrestarts := Agent.restarts_of_climbing (Agent.plain_blank "a") hr hstage hclimbing
  exact ⟨hout, by decide +kernel, (hrestarts.finalized _ _ _ hout).2⟩

end Overtaken

end Adjudication
