import Adjudication.Proofs.DevnetDraws
import Adjudication.Proofs.Elections
import Adjudication.Proofs.WalkStories

namespace Adjudication

namespace RoundRun

/-- How a round stands to the key it is to settle: it enters it, contributes there, and finalizes the
phase only as it closes; and what it stands by is not empty. -/
structure Serves (key : RoundKey) (n : Node) (r : RoundRun) : Prop where
  awaits : r.stage = .scheduled → n.position.nextKey = key
  works : r.stage ≠ .scheduled → n.position.activeKey = key
  closes : r.stage ≠ .scheduled → n.position.isFinalized = true → r.result? ≠ none
  contributes : r.stage ≠ .scheduled → ∃ e, n.caches.contributions.get? key n.address = some e
  stands : ∀ entries, r.Stands entries → entries ≠ []

variable {m : Moment} {r r' : RoundRun} {n n' : Node} {key : RoundKey} {outcome : RoundOutcome}

theorem Stands.of_scheduled {entries : List (Address × String)} (hs : r.stage = .scheduled) :
    ¬ r.Stands entries :=
  fun hstands => hstands.ne_scheduled hs

theorem Serves.of_scheduled (hs : r.stage = .scheduled) (hkey : n.position.nextKey = key) :
    r.Serves key n where
  awaits _ := hkey
  works hbegun := absurd hs hbegun
  closes hbegun := absurd hs hbegun
  contributes hbegun := absurd hs hbegun
  stands _ hstands := absurd hstands (Stands.of_scheduled hs)

/-- The position is finalized only as the round closes. -/
theorem Turn.closes (t : Turn m r n r' n')
    (h : r.stage ≠ .scheduled → n.position.isFinalized = true → r.result? ≠ none) :
    n'.position.isFinalized = true → r'.result? ≠ none := by
  intro hfinalized
  cases t with
  | enter ready stage starts looked => cases hfinalized
  | look goal since fill wake watching stage was looked =>
    exact absurd (by simp [result?, was]) (h (by simp [was]) hfinalized)
  | commit goal fill count need waited stage was looked =>
    exact absurd (by simp [result?, was]) (h (by simp [was]) hfinalized)
  | conclude c fill agreeing need stage was closing =>
    rw [closing.result?_eq]
    exact Option.some_ne_none _
  | catchUp c deadline wake stage was closing =>
    rw [closing.result?_eq]
    exact Option.some_ne_none _
  | giveUp goal fill verdict reason time ready was =>
    exact absurd (by simp [result?, was]) (h (by simp [was]) hfinalized)
  | idle was =>
    refine h ?_ hfinalized
    rcases was with ⟨_, _, _, was⟩ | ⟨_, _, _, was⟩
    · simp [was]
    · simp [was]

/-- A round that takes a turn has begun by the end of it. -/
theorem Turn.ne_scheduled (t : Turn m r n r' n') : r'.stage ≠ .scheduled := by
  cases t with
  | enter ready stage starts looked => exact looked.ne_scheduled
  | look goal since fill wake watching stage was looked => exact looked.ne_scheduled
  | commit goal fill count need waited stage was looked => exact looked.ne_scheduled
  | conclude c fill agreeing need stage was closing => exact closing.ne_scheduled
  | catchUp c deadline wake stage was closing => exact closing.ne_scheduled
  | giveUp goal fill verdict reason time ready was => simp
  | idle was =>
    rcases was with ⟨_, _, _, was⟩ | ⟨_, _, _, was⟩
    · simp [was]
    · simp [was]

theorem Turn.works (t : Turn m r n r' n') (fits : r.Fits n.position) (h : r.Serves key n) :
    n'.position.activeKey = key := by
  by_cases hs : r.stage = .scheduled
  · obtain ⟨ready, rfl⟩ := t.entered_of_scheduled hs
    have hphase := fits.scheduled hs
    rw [← h.awaits hs, Position.nextKey, ← hphase]
    rfl
  · have hkey := h.works hs
    rcases t.position_cases fits with hsame | hfinalized | ⟨hscheduled, _⟩
    · rwa [hsame]
    · rw [hfinalized]
      exact hkey
    · exact absurd hscheduled hs

theorem Turn.contributes (t : Turn m r n r' n') (fits : r.Fits n.position) (h : r.Serves key n) :
    ∃ e, n'.caches.contributions.get? key n'.address = some e := by
  have hworks := t.works fits h
  by_cases hs : r.stage = .scheduled
  · obtain ⟨ready, rfl⟩ := t.entered_of_scheduled hs
    obtain ⟨e, he⟩ := exists_own_entered r { n with ready }
    rw [← hworks]
    exact ⟨e, he⟩
  · obtain ⟨e, he⟩ := h.contributes hs
    have haddress : n'.address = n.address := congrArg Signer.address t.signer_eq
    rw [haddress]
    exact ⟨e, t.get?_contribution hworks he⟩

/-- What a round comes to stand by holds the contribution of its node. -/
theorem Turn.stands_ne_nil (t : Turn m r n r' n') (fits : r.Fits n.position) (h : r.Serves key n)
    {entries : List (Address × String)} (hstands : r'.Stands entries) : entries ≠ [] := by
  rcases t.of_stands hstands with hbefore | ⟨hbegun, rfl⟩
  · exact h.stands entries hbefore
  · obtain ⟨e, he⟩ := h.contributes hbegun
    obtain ⟨hphase, hkey⟩ := fits.entered hbegun
    have hrkey : r.key = key := by
      rw [hkey, hphase]
      exact h.works hbegun
    rw [← hrkey] at he
    have hmem : (n.address, e.value) ∈ (r.collected n).values :=
      List.mem_map_of_mem (Cache.mem_entries_of_get? he)
    exact List.ne_nil_of_mem hmem

theorem Turn.serves (t : Turn m r n r' n') (fits : r.Fits n.position) (h : r.Serves key n) :
    r'.Serves key n' where
  awaits hs := absurd hs t.ne_scheduled
  works _ := t.works fits h
  closes _ := t.closes h.closes
  contributes _ := t.contributes fits h
  stands _ hstands := t.stands_ne_nil fits h hstands

theorem ne_scheduled_of_outcome? (ended : r.outcome? = some outcome) : r.stage ≠ .scheduled := by
  intro hs
  simp [outcome?, hs] at ended

theorem Serves.outcome_key (h : r.Serves key n) (fits : r.Fits n.position)
    (ended : r.outcome? = some outcome) : outcome.key = key := by
  have hbegun := ne_scheduled_of_outcome? ended
  obtain ⟨hphase, hkey⟩ := fits.entered hbegun
  rw [fits.outcome outcome ended, hkey, hphase]
  exact h.works hbegun

/-- A failed round leaves its key for the next one. -/
theorem Serves.nextKey_of_failed {reason : RoundFailure} (h : r.Serves key n)
    (ended : r.outcome? = some (.failed key reason)) : n.position.nextKey = key := by
  have hbegun := ne_scheduled_of_outcome? ended
  have hopen : r.result? = none := by
    unfold outcome? at ended
    split at ended
    next hs =>
      cases ended
      simp [result?, hs]
    next => cases ended
  have hprocessing : ¬ n.position.isFinalized = true := fun hf => h.closes hbegun hf hopen
  have hphase : n.position.nextPhase = n.position.phase := if_neg hprocessing
  rw [← h.works hbegun, Position.nextKey, hphase]
  rfl

theorem Serves.of_finalized {entries : List (Address × String)} {digest : String} (h : r.Serves key n)
    (fits : r.Fits n.position) (ended : r.outcome? = some (.finalized key entries digest)) :
    entries ≠ [] ∧ n.position.nextKey = ⟨key.height, key.phase + 1⟩ := by
  have hbegun := ne_scheduled_of_outcome? ended
  have hclosed := closed_of_outcome? ended
  have hresult : r.result? ≠ none := by
    rw [hclosed]
    exact Option.some_ne_none _
  have hnext : n.position.nextPhase = n.position.phase + 1 := if_pos (fits.finalized hresult)
  refine ⟨h.stands entries (Or.inr ⟨key, digest, hclosed⟩), ?_⟩
  rw [← h.works hbegun, Position.nextKey, hnext]
  rfl

end RoundRun

/-- The heights that are committed among the notices. -/
def heightCommits (ns : List Notice) : List Nat :=
  ns.filterMap fun
    | .event (.heightCommitted height _ _) => some height
    | .event _ | .accusation _ _ => none

theorem heightCommits_append (ns ns' : List Notice) :
    heightCommits (ns ++ ns') = heightCommits ns ++ heightCommits ns' := List.filterMap_append

namespace Devnet

variable {key : RoundKey} {entries : List (Address × String)} {p : Position}

theorem accept_failed (address : Address) (key : RoundKey) (reason : RoundFailure) (elapsed : Nat)
    (p : Position) (s : AppState) :
    (accept address (.failed key reason) elapsed p s).value.2.1 = p ∧
      heightCommits (accept address (.failed key reason) elapsed p s).notices = [] :=
  ⟨rfl, rfl⟩

theorem accept_early (h : key.phase + 1 < phases) (address : Address)
    (entries : List (Address × String)) (digest : String) (elapsed : Nat) (p : Position) (s : AppState) :
    (accept address (.finalized key entries digest) elapsed p s).value.2.1 = p ∧
      heightCommits (accept address (.finalized key entries digest) elapsed p s).notices = [] := by
  unfold accept
  dsimp only
  rw [if_pos h]
  exact ⟨rfl, rfl⟩

/-- The set of a height's last phase commits the height. -/
theorem accept_last (hlast : phases ≤ key.phase + 1) (hentries : entries ≠ []) (hnew : p.height < key.height)
    (address : Address) (digest : String) (elapsed : Nat) (s : AppState) :
    (accept address (.finalized key entries digest) elapsed p s).value.2.1 = { height := key.height } ∧
      heightCommits (accept address (.finalized key entries digest) elapsed p s).notices =
        [key.height] := by
  obtain ⟨producer, hproducer⟩ := exists_electProducer hentries
  have hadvance : p.advanceHeight key.height = (true, { height := key.height }) :=
    if_neg (Nat.not_le_of_lt hnew)
  unfold accept commit
  dsimp only
  rw [if_neg (Nat.not_lt_of_le hlast), hproducer]
  dsimp only
  rw [hadvance]
  exact ⟨rfl, rfl⟩

/-- There is a plan for every phase of a height. -/
theorem exists_plan (h : p.nextPhase < phases) (s : AppState) : ∃ planned, (plan p s).1 = some planned := by
  unfold plan
  rw [if_neg (Nat.not_le_of_lt h)]
  by_cases hfirst : p.nextPhase = 0
  · rw [if_pos hfirst]
    exact ⟨_, rfl⟩
  · rw [if_neg hfirst]
    exact ⟨_, rfl⟩

theorem plan_kind {s : AppState} {planned : PhasePlan} (h : (plan p s).1 = some planned) :
    planned.kind = kindOf planned.phase := by
  unfold plan at h
  by_cases hlast : phases ≤ p.nextPhase
  · rw [if_pos hlast] at h
    cases h
  · rw [if_neg hlast] at h
    by_cases hfirst : p.nextPhase = 0
    · rw [if_pos hfirst] at h
      cases h
      rfl
    · rw [if_neg hfirst] at h
      cases h
      rfl

end Devnet

theorem DriverStage.pause_or_stopped {stage : DriverStage} (h : ∀ id since, stage ≠ .inRound id since) :
    stage.IsPause ∨ stage = .stopped := by
  cases stage with
  | inRound id since => exact absurd rfl (h id since)
  | stopped => exact Or.inr rfl
  | _ => exact Or.inl trivial

namespace Driver

variable {σ : Type}

theorem heightCommits_plan (d : Driver σ) (a : Agent) (s : σ) (now : Nat) :
    heightCommits (d.plan a s now).notices = [] := by
  unfold Driver.plan
  split
  next => rfl
  next =>
    dsimp only
    split
    next => rfl
    next => rfl

/-- A driver commits what its application commits as it accepts an outcome. -/
theorem heightCommits_conclude (d : Driver σ) (a : Agent) (s : σ) (now : Nat) (outcome : RoundOutcome)
    (elapsed : Nat) : heightCommits (d.conclude a s now outcome elapsed).notices =
      heightCommits (d.app.accept outcome elapsed a.node.position s).notices := by
  unfold Driver.conclude
  cases outcome with
  | finalized key entries digest =>
    simp only [Noted.notices_bind, Noted.notices_pure, Noted.value_pure, heightCommits_append]
    split
    next => simp [heightCommits, log, note]
    next => simp [heightCommits, log, note]
  | failed key reason =>
    simp only [Noted.notices_bind, Noted.notices_pure, Noted.value_pure, heightCommits_append]
    split
    next => simp [heightCommits, log, note]
    next => simp [heightCommits, log, note]

theorem heightCommits_step (d : Driver σ) (a : Agent) (s : σ) (now : Nat) :
    ((∀ outcome, d.remark? a s ≠ some (.accepted outcome)) ∧
      heightCommits (d.step a s now).notices = []) ∨
    ∃ outcome elapsed, d.remark? a s = some (.accepted outcome) ∧
      heightCommits (d.step a s now).notices =
        heightCommits (d.app.accept outcome elapsed a.node.position s).notices := by
  have plans : ∀ outcome, (if d.signalled then none
      else (d.app.plan a.node.position s).1.map (.planned (a.node.position.height + 1))) ≠
        some (Remark.accepted outcome) := by
    intro outcome
    split
    next => exact nofun
    next => simp
  unfold Driver.step remark?
  cases was : d.stage with
  | starting =>
    refine Or.inl ⟨plans, ?_⟩
    rw [Noted.notices_bind, heightCommits_append, heightCommits_plan]
    rfl
  | planning => exact Or.inl ⟨plans, d.heightCommits_plan a s now⟩
  | inRound round since =>
    dsimp only
    cases hended : a.outcome? round with
    | some outcome =>
      refine Or.inr ⟨outcome, now - since, rfl, ?_⟩
      dsimp only
      rw [heightCommits_conclude, a.dropRound_node round]
    | none =>
      refine Or.inl ⟨nofun, ?_⟩
      dsimp only
      split
      next => rfl
      next => rfl
  | sleeping wake =>
    refine Or.inl ⟨plans, ?_⟩
    dsimp only
    split
    next => rfl
    next => exact d.heightCommits_plan a s now
  | stopped => exact Or.inl ⟨nofun, rfl⟩

end Driver

namespace Station

variable {m : Moment} {s s' : Station} {start count : Nat} {underway : Bool}

/-- The heights that a deed commits. -/
def commits (s : Station) (m : Moment) : Deed → List Nat
  | .drive => heightCommits (s.driver.step s.agent s.agent.appState m.now).notices
  | .signal | .apart .. => []

/-- The heights that a run commits, in order. -/
def committed (s : Station) : List (Moment × Deed) → List Nat
  | [] => []
  | d :: deeds => s.commits d.1 d.2 ++ (s.act d.1 d.2).committed deeds

theorem committed_snoc (s : Station) (deeds : List (Moment × Deed)) (m : Moment) (deed : Deed) :
    s.committed (deeds ++ [(m, deed)]) = s.committed deeds ++ (s.run deeds).commits m deed := by
  induction deeds generalizing s with
  | nil => exact List.append_nil _
  | cons d deeds ih =>
    rw [List.cons_append, committed, committed, ih, List.append_assoc]
    rfl

/-- A deed that tells of no outcome commits nothing. -/
theorem commits_of_story (m : Moment) (deed : Deed)
    (hother : ∀ outcome, (s.act m deed).story ≠ s.story ++ [.accepted outcome]) :
    s.commits m deed = [] := by
  cases deed with
  | drive =>
    rcases s.driver.heightCommits_step s.agent s.agent.appState m.now with
      ⟨_, hnone⟩ | ⟨outcome, _, hremark, _⟩
    · exact hnone
    · refine absurd ?_ (hother outcome)
      show s.story ++ (s.driver.remark? s.agent s.agent.appState).toList = _
      rw [hremark]
      rfl
  | signal => rfl
  | apart v hv => rfl

theorem Orderly.commits_of_accepted (h : s.Orderly) (m : Moment) (deed : Deed) {outcome : RoundOutcome}
    (hstory : (s.act m deed).story = s.story ++ [.accepted outcome]) :
    ∃ elapsed, s.commits m deed = heightCommits
      (Devnet.accept s.agent.address outcome elapsed s.position s.agent.appState).notices := by
  have still : s.story ≠ s.story ++ [.accepted outcome] := by
    intro heq
    simpa using congrArg List.length heq
  cases deed with
  | drive =>
    have hremark : s.driver.remark? s.agent s.agent.appState = some (.accepted outcome) := by
      have htold := List.append_cancel_left hstory
      cases hremark : s.driver.remark? s.agent s.agent.appState with
      | none =>
        rw [hremark] at htold
        cases htold
      | some remark =>
        rw [hremark] at htold
        cases htold
        rfl
    rcases s.driver.heightCommits_step s.agent s.agent.appState m.now with
      ⟨hother, _⟩ | ⟨outcome', elapsed, hremark', hcommits⟩
    · exact absurd hremark (hother outcome)
    · cases hremark.symm.trans hremark'
      rw [h.app] at hcommits
      exact ⟨elapsed, hcommits⟩
  | signal => exact absurd hstory still
  | apart v hv => exact absurd hstory still

/-- A driven node in the midst of its walk. -/
structure Walking (start : Nat) (s : Station) (count : Nat) (underway : Bool) : Prop where
  orderly : s.Orderly
  walk : Walk start s.story count underway
  height : s.position.height = start + count / Devnet.phases
  rests : s.driver.stage.IsPause → underway = false ∧ s.position.nextKey = keyAt start count
  serves : ∀ id r, s.agent.round? id = some r →
    underway = true ∧ r.Serves (keyAt start count) s.agent.node
  ends : underway = false → ∀ id since, s.driver.stage ≠ .inRound id since

theorem Keeps.serves {key : RoundKey} {r : RoundRun} (keeps : s.Keeps s')
    (position : s'.position = s.position) (h : r.Serves key s.agent.node) :
    r.Serves key s'.agent.node := by
  have hposition : s'.agent.node.position = s.agent.node.position := position
  refine ⟨?_, ?_, ?_, fun hbegun => ?_, h.stands⟩
  · rw [hposition]
    exact h.awaits
  · rw [hposition]
    exact h.works
  · rw [hposition]
    exact h.closes
  · obtain ⟨e, he⟩ := h.contributes hbegun
    have hkey : s.position.activeKey = key := h.works hbegun
    have haddress : s'.agent.node.address = s.agent.node.address := keeps.1
    refine ⟨e, ?_⟩
    rw [haddress]
    exact keeps.2 _ _ _ hkey (by rw [position]; exact hkey) he

theorem Walking.quiet (w : s.Walking start count underway) (orderly : s'.Orderly) (keeps : s.Keeps s')
    (story : s'.story = s.story) (position : s'.position = s.position)
    (rounds : ∀ id r, s'.agent.round? id = some r → s.agent.round? id = some r)
    (pauses : s'.driver.stage.IsPause → s.driver.stage.IsPause)
    (rests : ∀ id since, s'.driver.stage = .inRound id since → s.driver.stage = .inRound id since) :
    s'.Walking start count underway where
  orderly := orderly
  walk := by
    rw [story]
    exact w.walk
  height := by
    rw [position]
    exact w.height
  rests hpause := by
    rw [position]
    exact w.rests (pauses hpause)
  serves id r hr := by
    obtain ⟨hunderway, hserves⟩ := w.serves id r (rounds id r hr)
    exact ⟨hunderway, keeps.serves position hserves⟩
  ends hidle id since hs := w.ends hidle id since (rests id since hs)

/-- A node that pauses plans for the walk's next key. -/
theorem Walking.plan (w : s.Walking start count underway) (orderly : s'.Orderly) {plan : PhasePlan}
    (was : s.driver.stage.IsPause)
    (planned : (Devnet.plan s.position s.agent.appState).1 = some plan)
    (story : s'.story = s.story ++ [.planned (s.position.height + 1) plan])
    (position : s'.position = (Devnet.plan s.position s.agent.appState).2.1)
    (rounds : ∀ id r, s'.agent.round? id = some r → r.stage = .scheduled)
    (busy : ¬ s'.driver.stage.IsPause) : s'.Walking start count true := by
  obtain ⟨rfl, hnext⟩ := w.rests was
  have hphase : plan.phase = (keyAt start count).phase := by
    rw [Devnet.plan_phase planned, ← hnext]
    rfl
  have hheight : s.position.height + 1 = (keyAt start count).height := congrArg RoundKey.height hnext
  have hkind : phaseKinds[plan.phase]? = some plan.kind := by
    have hlt : plan.phase < Devnet.phases := by
      rw [hphase]
      exact keyAt_phase_lt start count
    rw [phaseKinds_eq hlt, Devnet.plan_kind planned]
  have hkeeps : s'.position.height = s.position.height := by
    rw [position]
    exact (Devnet.plan_keeps _ _).1
  have hnext' : s'.position.nextKey = keyAt start count := by
    rw [position, Devnet.nextKey_plan]
    exact hnext
  refine ⟨orderly, ?_, hkeeps.trans w.height, fun hpause => absurd hpause busy, fun id r hr => ?_, nofun⟩
  · rw [story, hheight]
    exact .snoc w.walk (.plan count plan hphase hkind)
  · exact ⟨rfl, .of_scheduled (rounds id r hr) hnext'⟩

theorem Walking.turn (w : s.Walking start count underway) (orderly : s'.Orderly) {id : Nat} {r : RoundRun}
    (turned : s.agent.Turned m s'.agent id r) (driver : s'.driver = s.driver)
    (story : s'.story = s.story) : s'.Walking start count underway := by
  have fits := w.orderly.fits id r turned.before
  obtain ⟨hunderway, hserves⟩ := w.serves id r turned.before
  obtain ⟨since, hstage⟩ := w.orderly.waited id r turned.before
  have hheight : s'.position.height = s.position.height := (turned.turn.position_keeps fits).1
  refine ⟨orderly, by rw [story]; exact w.walk, hheight.trans w.height, fun hpause => ?_,
    fun other r' hr' => ?_, by rw [driver]; exact w.ends⟩
  · rw [driver, hstage] at hpause
    exact hpause.elim
  · obtain ⟨rfl, hturn⟩ := w.orderly.turned_round turned hr'
    exact ⟨hunderway, hturn.serves fits hserves⟩

/-- An outcome moves the node to the next key of the walk, or leaves it at the key that failed; as it
completes a height, the height is committed. -/
theorem Walking.accept_effect (w : s.Walking start count underway) {id : Nat} {r : RoundRun}
    {outcome : RoundOutcome} (was : s.agent.round? id = some r) (ended : r.outcome? = some outcome)
    (elapsed : Nat) : ∃ count' p,
      (Devnet.accept s.agent.address outcome elapsed s.position s.agent.appState).value.2.1 = p ∧
      WalkStep start count true (.accepted outcome) count' false ∧
      p.nextKey = keyAt start count' ∧ p.height = start + count' / Devnet.phases ∧
      heightCommits (Devnet.accept s.agent.address outcome elapsed s.position s.agent.appState).notices =
        completed (finalizedKeys [.accepted outcome]) := by
  have fits := w.orderly.fits id r was
  have hserves := (w.serves id r was).2
  have hkey := hserves.outcome_key fits ended
  cases outcome with
  | failed key reason =>
    obtain rfl : key = keyAt start count := hkey
    obtain ⟨hposition, hcommits⟩ :=
      Devnet.accept_failed s.agent.address (keyAt start count) reason elapsed s.position s.agent.appState
    exact ⟨count, _, hposition, .fail count reason, hserves.nextKey_of_failed ended, w.height, hcommits⟩
  | finalized key entries digest =>
    obtain rfl : key = keyAt start count := hkey
    obtain ⟨hentries, hnext⟩ := hserves.of_finalized fits ended
    have hstep : WalkStep start count true _ _ _ := .finalize count entries digest
    by_cases hlast : (keyAt start count).phase + 1 = Devnet.phases
    · have hnew : s.position.height < (keyAt start count).height := by
        rw [w.height]
        simp only [keyAt]
        omega
      obtain ⟨hposition, hcommits⟩ := Devnet.accept_last (Nat.le_of_eq hlast.symm) hentries hnew
        s.agent.address digest elapsed s.agent.appState
      refine ⟨count + 1, _, hposition, hstep, ?_, ?_, ?_⟩
      · rw [keyAt_succ_of_last hlast]
        rfl
      · simp only [keyAt, Devnet.phases] at hlast ⊢
        omega
      · rw [hcommits]
        exact (completed_of_last hlast).symm
    · have hearly : (keyAt start count).phase + 1 < Devnet.phases :=
        Nat.lt_of_le_of_ne (keyAt_phase_lt start count) hlast
      obtain ⟨hposition, hcommits⟩ := Devnet.accept_early hearly s.agent.address entries digest elapsed
        s.position s.agent.appState
      refine ⟨count + 1, _, hposition, hstep, ?_, ?_, ?_⟩
      · rw [keyAt_succ_of_lt hearly]
        exact hnext
      · have hheight := w.height
        simp only [keyAt, Devnet.phases] at hearly hheight ⊢
        omega
      · rw [hcommits]
        exact (completed_of_ne hlast).symm

theorem Walking.accept (w : s.Walking start count underway) (orderly : s'.Orderly) {id : Nat}
    {r : RoundRun} {outcome : RoundOutcome} (was : s.agent.round? id = some r)
    (ended : r.outcome? = some outcome) (story : s'.story = s.story ++ [.accepted outcome])
    (rounds : ∀ id, s'.agent.round? id = none) (pauses : s'.driver.stage.IsPause)
    (effect : ∃ elapsed, s'.position =
      (Devnet.accept s.agent.address outcome elapsed s.position s.agent.appState).value.2.1) :
    ∃ count', s'.Walking start count' false := by
  obtain ⟨elapsed, heffect⟩ := effect
  obtain ⟨count', p, hposition, hstep, hnext, hheight, _⟩ := w.accept_effect was ended elapsed
  rw [hposition] at heffect
  obtain ⟨rfl, _⟩ := w.serves id r was
  refine ⟨count', orderly, ?_, ?_, fun _ => ?_, fun id r hr => ?_, fun _ id since hs => ?_⟩
  · rw [story]
    exact .snoc w.walk hstep
  · rw [heffect]
    exact hheight
  · rw [heffect]
    exact ⟨rfl, hnext⟩
  · cases (rounds id).symm.trans hr
  · rw [hs] at pauses
    exact pauses

theorem Walking.act (w : s.Walking start count underway) (m : Moment) (deed : Deed) :
    ∃ count' underway', (s.act m deed).Walking start count' underway' := by
  have orderly := w.orderly.act m deed
  cases w.orderly.deal m deed with
  | quiet story position rounds pauses _ rests =>
    exact ⟨count, underway, w.quiet orderly (keeps_act s m deed) story position
      (fun id r hr => (rounds id r hr).1) pauses rests⟩
  | plan plan was planned story position rounds busy =>
    exact ⟨count, true, w.plan orderly was planned story position
      (fun id r hr => (rounds id r hr).2.1) busy⟩
  | accept id r outcome was ended story _ rounds _ pauses effect =>
    obtain ⟨count', hwalking⟩ := w.accept orderly was ended story rounds pauses effect
    exact ⟨count', false, hwalking⟩
  | turn id r turned driver story => exact ⟨count, underway, w.turn orderly turned driver story⟩

/-- A deed commits the height that it completes. -/
theorem Walking.commits_act (w : s.Walking start count underway) (m : Moment) (deed : Deed) :
    completed (finalizedKeys (s.act m deed).story) =
      completed (finalizedKeys s.story) ++ s.commits m deed := by
  have silent : ∀ told, (s.act m deed).story = s.story ++ told → finalizedKeys told = [] →
      (∀ outcome, told ≠ [.accepted outcome]) → completed (finalizedKeys (s.act m deed).story) =
        completed (finalizedKeys s.story) ++ s.commits m deed := by
    intro told hstory hkeys hother
    have hnone : s.commits m deed = [] := by
      refine commits_of_story m deed fun outcome haccepted => ?_
      exact hother outcome (List.append_cancel_left (hstory.symm.trans haccepted))
    rw [hstory, finalizedKeys_append, hkeys, hnone, List.append_nil, List.append_nil]
  cases w.orderly.deal m deed with
  | quiet story => exact silent [] (story.trans (List.append_nil _).symm) rfl (fun _ => nofun)
  | turn id r turned driver story =>
    exact silent [] (story.trans (List.append_nil _).symm) rfl (fun _ => nofun)
  | plan plan was planned story => exact silent _ story rfl (fun _ => by simp)
  | accept id r outcome was ended story =>
    obtain ⟨elapsed, hcommits⟩ := w.orderly.commits_of_accepted m deed story
    obtain ⟨_, _, _, _, _, _, hcompleted⟩ := w.accept_effect was ended elapsed
    rw [story, finalizedKeys_append, completed_append, hcommits, hcompleted]

theorem Fresh.walking (h : s.Fresh) : s.Walking s.position.height 0 false where
  orderly := h.orderly
  walk := by
    rw [h.story]
    exact .nil
  height := rfl
  rests _ := by
    obtain ⟨height, hposition⟩ := h.position
    rw [hposition]
    exact ⟨rfl, rfl⟩
  serves id r hr := by
    rw [Agent.round?, h.blank.rounds] at hr
    cases hr
  ends _ id since hs := by cases h.stage.symm.trans hs

theorem Fresh.walking_run (h : s.Fresh) (deeds : List (Moment × Deed)) :
    (∃ count underway, (s.run deeds).Walking s.position.height count underway) ∧
      s.committed deeds = completed (finalizedKeys (s.run deeds).story) := by
  induction deeds using List.reverseRecOn with
  | nil =>
    refine ⟨⟨0, false, h.walking⟩, ?_⟩
    show [] = completed (finalizedKeys s.story)
    rw [h.story]
    rfl
  | append_singleton deeds deed ih =>
    obtain ⟨⟨count, underway, w⟩, hcommitted⟩ := ih
    rw [run_snoc, committed_snoc, hcommitted]
    exact ⟨w.act deed.1 deed.2, (w.commits_act deed.1 deed.2).symm⟩

/-- What a driven node has done over the heights above the start, and what it is about to do. -/
structure Walked (start : Nat) (s : Station) (committed : List Nat) : Prop where
  /-- The finalized keys are the first ones of the walk, in order: none is left out or comes twice. -/
  keys : finalizedKeys s.story = (List.range (finalizedKeys s.story).length).map (keyAt start)
  /-- Every plan was for the key after those finalized before it, and of the kind of its phase. -/
  plans : ∀ before height plan after, s.story = before ++ .planned height plan :: after →
    ⟨height, plan.phase⟩ = keyAt start (finalizedKeys before).length ∧
      phaseKinds[plan.phase]? = some plan.kind
  /-- Every outcome has the key of the plan right before it. -/
  outcomes : ∀ before outcome after, s.story = before ++ .accepted outcome :: after →
    ∃ earlier plan, before = earlier ++ [.planned outcome.key.height plan] ∧
      plan.phase = outcome.key.phase
  /-- A plan for the same key comes right after a failure, unless the node has not come to it yet or was
  stopped. -/
  retries : ∀ before key reason after, s.story = before ++ .accepted (.failed key reason) :: after →
    (∃ plan rest, after = .planned key.height plan :: rest ∧ plan.phase = key.phase) ∨
      after = [] ∧ (s.driver.stage.IsPause ∨ s.driver.stage = .stopped)
  /-- The heights committed so far are those whose last phase has been accepted so far. -/
  commits : committed = completed (finalizedKeys s.story)
  heights : committed = (List.range ((finalizedKeys s.story).length / Devnet.phases)).map (start + 1 + ·)
  position : s.position.height = start + committed.length
  /-- Whenever the planner may be asked, it has a plan, for the key after those finalized. -/
  asked : s.driver.stage.IsPause →
    ∃ plan, (s.driver.app.plan s.position s.agent.appState).1 = some plan ∧
      ⟨s.position.height + 1, plan.phase⟩ = keyAt start (finalizedKeys s.story).length

theorem Walking.answers (w : s.Walking start count underway) (was : s.driver.stage.IsPause) :
    ∃ plan, (s.driver.app.plan s.position s.agent.appState).1 = some plan ∧
      ⟨s.position.height + 1, plan.phase⟩ = keyAt start count := by
  have hnext := (w.rests was).2
  have hphase : s.position.nextPhase = (keyAt start count).phase := congrArg RoundKey.phase hnext
  have hlt : s.position.nextPhase < Devnet.phases := by
    rw [hphase]
    exact keyAt_phase_lt start count
  obtain ⟨plan, hplan⟩ := Devnet.exists_plan hlt s.agent.appState
  refine ⟨plan, ?_, ?_⟩
  · rw [w.orderly.app]
    exact hplan
  · rw [Devnet.plan_phase hplan]
    exact hnext

/-- A driven node of the development network walks over the heights phase by phase, plans again for what
has failed, and commits every height once, as its last phase finalizes. -/
theorem Fresh.walked (h : s.Fresh) (deeds : List (Moment × Deed)) :
    Walked s.position.height (s.run deeds) (s.committed deeds) := by
  obtain ⟨⟨count, underway, w⟩, hcommitted⟩ := h.walking_run deeds
  have hlength := w.walk.length_keys
  have hkeys := w.walk.keys_eq
  have hheights : s.committed deeds =
      (List.range (count / Devnet.phases)).map (s.position.height + 1 + ·) := by
    rw [hcommitted, hkeys, completed_keyAt]
  refine {
    keys := by rw [hlength]; exact hkeys
    plans := fun before height plan after hstory => ?_
    outcomes := fun before outcome after hstory => ?_
    retries := fun before key reason after hstory => ?_
    commits := hcommitted
    heights := by rw [hlength]; exact hheights
    position := by rw [hheights, List.length_map, List.length_range]; exact w.height
    asked := by rw [hlength]; exact w.answers }
  · have hwalk := w.walk
    rw [hstory] at hwalk
    exact hwalk.of_planned
  · have hwalk := w.walk
    rw [hstory] at hwalk
    exact hwalk.of_accepted
  · have hwalk := w.walk
    rw [hstory] at hwalk
    rcases hwalk.of_failed with ⟨hnil, hidle⟩ | hplanned
    · exact Or.inr ⟨hnil, DriverStage.pause_or_stopped (w.ends hidle)⟩
    · exact Or.inl hplanned

end Station

namespace Redraw

/-- The lone node of before, up to the end of the height that took it two attempts at the first phase. -/
def height : List (Moment × Deed) := deeds ++ [
  turn 30500 ["a"] (.round 2), turn 30500 ["a"] (.fill 3),
  turn 30500 ["a"] (.round 2), turn 30500 ["a"] (.fill 4), turn 30500 ["a"] (.round 2),
  (moment 30500 ["a"], .drive), (moment 30500 ["a"], .drive),
  turn 30500 ["a"] (.round 3), turn 30500 ["a"] (.fill 5),
  turn 30500 ["a"] (.round 3), turn 30500 ["a"] (.fill 6), turn 30500 ["a"] (.round 3),
  (moment 30500 ["a"], .drive)]

theorem redraw_walked : alone.Fresh ∧ Station.Walked 0 (alone.run height) (alone.committed height) ∧
    alone.committed height = [1] :=
  ⟨alone_fresh, Station.Fresh.walked alone_fresh height, by decide +kernel⟩

end Redraw

end Adjudication
