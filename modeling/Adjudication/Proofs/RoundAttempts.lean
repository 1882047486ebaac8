import Adjudication.Proofs.OwnContributions
import Adjudication.Proofs.RoundEnds

namespace Adjudication

def FillStage.isCrash : FillStage → Bool
  | crashed => true
  | _ => false

def Exchanger.isFillCrashed (x : Exchanger) (fill : Nat) : Bool :=
  (x.fill? fill).any fun f => f.stage.isCrash

namespace RoundRun

variable {m : Moment} {r r' : RoundRun} {x x' : Exchanger} {goal : Goal} {since fill : Nat}
  {stage : RoundStage} {key : RoundKey}

/-- The key that a round attempts with its next step: its first, or the one after the height has moved and
the fill has exited, unless that has crashed. -/
def attempt? (r : RoundRun) (x : Exchanger) : Option RoundKey :=
  match r.stage with
  | .scheduled => some ⟨x.node.position.height + 1, r.phase⟩
  | .leaving _ fill .heightMoved =>
    if x.isFillCrashed fill then none else some ⟨x.node.position.height + 1, r.phase⟩
  | _ => none

/-- What an attempt makes of the node: it enters the phase of the key with a contribution. -/
structure Attempted (m : Moment) (r : RoundRun) (x : Exchanger) (key : RoundKey) (r' : RoundRun)
    (x' : Exchanger) : Prop where
  node : ∃ ready, x'.node = r.entered { x.node with ready }
  round : ∃ stage, r' = { r with key, stage } ∧ stage ≠ .scheduled

theorem Seen.ne_scheduled (seen : Seen m r x goal since fill stage x') : stage ≠ .scheduled := by
  cases seen <;> simp

theorem Opens.ne_scheduled (opens : Opens m r x goal stage x') : stage ≠ .scheduled := by
  cases opens with
  | deserted => simp
  | looked stage x' members seen => exact seen.ne_scheduled

theorem attempt_attempted (r : RoundRun) {x₀ : Exchanger} (ready : Bool)
    (hnode : x₀.node = { x.node with ready }) : Attempted m r x ⟨x.node.position.height + 1, r.phase⟩
      (r.attempt x₀ m).value.1 (r.attempt x₀ m).value.2 := by
  obtain ⟨stage, hopens, hstage⟩ := pursue_opens
    { r with key := ⟨x₀.node.position.height + 1, r.phase⟩ }
    { x₀ with node := r.entered x₀.node } m .collection
  have hentered : (r.attempt x₀ m).value.2.node = r.entered x₀.node := hopens.node_eq
  have hround : (r.attempt x₀ m).value.1 =
      { r with key := ⟨x₀.node.position.height + 1, r.phase⟩, stage } := hstage
  rw [hnode] at hentered hround
  exact ⟨⟨ready, hentered⟩, stage, hround, hopens.ne_scheduled⟩

/-- A round that leaves a stage goes on from it, or fails where the fill has crashed. -/
theorem step_leaving {verdict : Verdict} (hs : r.stage = .leaving goal fill verdict) :
    r.step x m =
      if x.isFillCrashed fill then
        r.fail (x.forgetFill fill) m (.internal "gossip task failed: task panicked")
      else r.leave (x.forgetFill fill) m goal verdict := by
  rw [step, hs, Exchanger.isFillCrashed]
  dsimp only
  cases x.fill? fill with
  | none => rfl
  | some f =>
    obtain ⟨kind, key, targets, flights, single, offeredTo, merged, cancelled, held, stage⟩ := f
    cases stage <;> rfl

theorem attempt?_eq_some (h : r.attempt? x = some key) :
    key = ⟨x.node.position.height + 1, r.phase⟩ ∧ StartsOver r.stage := by
  unfold attempt? at h
  split at h
  next hs =>
    cases h
    exact ⟨rfl, by rw [hs]; trivial⟩
  next goal fill hs =>
    obtain ⟨_, hkey⟩ := Option.ite_none_left_eq_some.mp h
    cases hkey
    exact ⟨rfl, by rw [hs]; trivial⟩
  next => cases h

theorem step_attempted (h : r.attempt? x = some key) :
    Attempted m r x key (r.step x m).value.1 (r.step x m).value.2 := by
  unfold attempt? at h
  split at h
  next hs =>
    cases h
    rw [step, hs]
    exact r.attempt_attempted false rfl
  next goal fill hs =>
    obtain ⟨hrun, hkey⟩ := Option.ite_none_left_eq_some.mp h
    cases hkey
    rw [step_leaving hs, if_neg hrun]
    cases goal with
    | collection => exact r.attempt_attempted x.node.ready rfl
    | tally c => exact r.attempt_attempted false rfl
  next => cases h

theorem ne_scheduled_of_no_attempt (h : r.attempt? x = none) : r.stage ≠ .scheduled := by
  intro hs
  simp [attempt?, hs] at h

/-- No other step changes the key. -/
theorem step_key_of_no_attempt (h : r.attempt? x = none) : (r.step x m).value.1.key = r.key := by
  have hstays : ∀ r' x', Stride m r x r' x' → ¬ StartsOver r.stage → r'.key = r.key := by
    intro r' x' stride hgoes
    cases stride with
    | enter x₀ stage x' starts readied opens => exact absurd starts hgoes
    | _ => rfl
  cases hs : r.stage with
  | scheduled => exact absurd hs (ne_scheduled_of_no_attempt h)
  | leaving goal fill verdict =>
    cases verdict with
    | heightMoved =>
      have hcrashed : x.isFillCrashed fill = true := by simpa [attempt?, hs] using h
      rw [step_leaving hs, if_pos hcrashed]
      rfl
    | _ => exact hstays _ _ (r.step_stride x m) (by simp [hs, StartsOver])
  | _ => exact hstays _ _ (r.step_stride x m) (by simp [hs, StartsOver])

/-- The fills that a round looks for, holds and starts, before a step and after it. -/
structure Hands (r : RoundRun) (x : Exchanger) (r' : RoundRun) (x' : Exchanger) : Prop where
  /-- A fill that the round looked for is cancelled, or it looks for it still. -/
  looked : ∀ fill, r.LooksFor fill → x'.Dismissed fill ∨ r'.LooksFor fill
  /-- A fill that it held it holds still, unless it is at its end or the fill was to exit before. -/
  held : ∀ fill, r.fill? = some fill → r'.outcome? = none →
    r'.fill? = some fill ∨ ∃ goal verdict, r.stage = .leaving goal fill verdict
  /-- One fill at most is started, by a round that looked for none. -/
  started : ∀ fill, x.nextFill ≤ fill → fill < x'.nextFill → (∀ other, ¬ r.LooksFor other) ∧
    (x'.Dismissed fill ∨ r'.LooksFor fill) ∧ (r'.outcome? = none → r'.fill? = some fill)

theorem Seen.looked (seen : Seen m r x goal since fill stage x') :
    (x'.Dismissed fill ∨ { r with stage }.LooksFor fill) ∧
      ({ r with stage }.outcome? = none → { r with stage }.fill? = some fill) := by
  cases seen with
  | pending early => exact ⟨Or.inr ⟨_, _, _, _, rfl⟩, fun _ => rfl⟩
  | settled verdict moved apt => exact ⟨Or.inl (x.cancelFill_dismissed fill), fun _ => rfl⟩
  | deserted ready members =>
    refine ⟨Or.inl (x.releaseFill_dismissed fill), fun hopen => ?_⟩
    cases hopen

theorem LooksFor.fill?_eq (h : r.LooksFor fill) : r.fill? = some fill := by
  obtain ⟨goal, since, wake, watching, hs⟩ := h
  simp [fill?, hs]

theorem leaving_of_fill? (h : r.fill? = some fill) (hlooks : ∀ other, ¬ r.LooksFor other) :
    ∃ goal verdict, r.stage = .leaving goal fill verdict := by
  unfold fill? at h
  split at h
  next goal since other wake watching hs => exact absurd ⟨goal, since, wake, watching, hs⟩ (hlooks other)
  next goal other verdict hs =>
    cases h
    exact ⟨goal, verdict, hs⟩
  next => cases h

theorem Opens.hands {r₀ : RoundRun} {x₀ : Exchanger} (opens : Opens m r x₀ goal stage x')
    (readied : Readied x x₀) (hs : r₀.stage = .scheduled ∨
      ∃ goal fill verdict, r₀.stage = .leaving goal fill verdict) :
    Hands r₀ x { r with stage } x' := by
  have hlooks : ∀ fill, ¬ r₀.LooksFor fill := by
    rcases hs with hs | ⟨_, _, _, hs⟩
    · exact Course.not_looksFor (by simp [hs])
    · exact Course.not_looksFor (by simp [hs])
  refine ⟨fun fill h => absurd h (hlooks fill), fun fill hfill _ => ?_, fun fill hle hlt => ?_⟩
  · exact Or.inr (leaving_of_fill? hfill hlooks)
  · rw [← readied.nextFill] at hle
    cases opens with
    | deserted => omega
    | looked stage x' members seen =>
      have hnext : x'.nextFill = x₀.nextFill + 1 := seen.nextFill_eq
      have hfill : fill = x₀.nextFill := by omega
      exact ⟨hlooks, hfill ▸ seen.looked⟩

/-- A step that starts no fill, of a round that looks for none. -/
theorem Hands.of_idle (hlooks : ∀ fill, ¬ r.LooksFor fill) (hnext : x'.nextFill = x.nextFill)
    (hheld : ∀ fill, r.fill? = some fill → ∃ goal verdict, r.stage = .leaving goal fill verdict) :
    Hands r x r' x' where
  looked fill h := absurd h (hlooks fill)
  held fill h _ := Or.inr (hheld fill h)
  started fill hle hlt := by omega

theorem Stride.hands (stride : Stride m r x r' x') : Hands r x r' x' := by
  cases stride with
  | enter x₀ stage x' starts readied opens =>
    refine opens.hands readied ?_
    cases hs : r.stage with
    | scheduled => exact Or.inl rfl
    | leaving goal fill verdict => exact Or.inr ⟨goal, fill, verdict, rfl⟩
    | _ =>
      rw [hs] at starts
      exact starts.elim
  | look goal since fill wake watching stage x' was seen =>
    have hsame : ∀ other, r.LooksFor other → other = fill := by
      rintro other ⟨_, _, _, _, hs⟩
      cases was.symm.trans hs
      rfl
    refine ⟨fun other h => hsame other h ▸ seen.looked.1, fun other h hopen => ?_, fun other hle hlt => ?_⟩
    · have hother : fill = other := by simpa [fill?, was] using h
      exact Or.inl (hother ▸ seen.looked.2 hopen)
    · have hnext := seen.nextFill_eq
      omega
  | commit goal fill count need waited c x₀ stage x' was readied opens =>
    exact opens.hands readied (Or.inr ⟨goal, fill, _, was⟩)
  | conclude c fill agreeing need x₀ stage was readied awaits =>
    have hlooks := Course.not_looksFor (r := r) (by simp [was])
    exact .of_idle hlooks readied.nextFill fun other h => leaving_of_fill? h hlooks
  | catchUp c deadline wake stage was awaits =>
    have hlooks := Course.not_looksFor (r := r) (by simp [was])
    exact .of_idle hlooks rfl fun other h => leaving_of_fill? h hlooks
  | giveUp goal fill verdict reason ready x₀ was readied =>
    have hlooks := Course.not_looksFor (r := r) (by simp [was])
    exact .of_idle hlooks readied.nextFill fun other h => leaving_of_fill? h hlooks
  | idle x₀ was readied =>
    have hlooks : ∀ fill, ¬ r.LooksFor fill := by
      rcases was with ⟨_, _, _, was⟩ | ⟨_, _, _, was⟩
      · exact Course.not_looksFor (by simp [was])
      · exact Course.not_looksFor (by simp [was])
    exact .of_idle hlooks readied.nextFill fun other h => leaving_of_fill? h hlooks

theorem Seen.moved (seen : Seen m r x goal since fill stage x') {goal' : Goal} {fill' : Nat}
    (hs : stage = .leaving goal' fill' .heightMoved) : x'.node.heightMoved r.key = true := by
  have hnode := seen.node_eq
  cases seen with
  | pending => cases hs
  | settled verdict moved apt =>
    cases hs
    rw [hnode]
    exact moved rfl
  | deserted => cases hs

theorem Opens.moved (opens : Opens m r x goal stage x') {goal' : Goal} {fill' : Nat}
    (hs : stage = .leaving goal' fill' .heightMoved) : x'.node.heightMoved r.key = true := by
  cases opens with
  | deserted => cases hs
  | looked stage x' members seen => exact seen.moved hs

/-- A round that leaves a stage because the height has moved has seen that with its last step. -/
theorem Stride.moved (stride : Stride m r x r' x') (hs : r'.stage = .leaving goal fill .heightMoved) :
    x'.node.heightMoved r'.key = true := by
  cases stride with
  | enter x₀ stage x' starts readied opens => exact opens.moved hs
  | look goal since fill wake watching stage x' was seen => exact seen.moved hs
  | commit goal fill count need waited c x₀ stage x' was readied opens => exact opens.moved hs
  | conclude c fill agreeing need x₀ stage was readied awaits => cases awaits <;> cases hs
  | catchUp c deadline wake stage was awaits => cases awaits <;> cases hs
  | giveUp => cases hs
  | idle x₀ was readied =>
    rcases was with ⟨_, _, _, was⟩ | ⟨_, _, _, was⟩
    · cases was.symm.trans hs
    · cases was.symm.trans hs

/-- A round that ends finalized does so under its key. -/
theorem Stride.finalized_key {entries : List (Address × String)} {digest : String}
    (stride : Stride m r x r' x') (hout : r'.outcome? = some (.finalized key entries digest)) :
    key = r'.key ∨ r' = r := by
  have hopen : ∀ goal since fill stage x x', Seen m r x goal since fill stage x' →
      { r with stage }.outcome? ≠ some (.finalized key entries digest) := by
    intro goal since fill stage x x' seen
    cases seen <;> simp [outcome?]
  have hstarts : ∀ r₀ goal stage x x', Opens m r₀ x goal stage x' →
      { r₀ with stage }.outcome? ≠ some (.finalized key entries digest) := by
    intro r₀ goal stage x x' opens
    cases opens with
    | deserted => simp [outcome?]
    | looked stage x' members seen => cases seen <;> simp [outcome?]
  have hawaits : ∀ x c deadline stage, Awaits m r x c deadline stage →
      { r with stage }.outcome? = some (.finalized key entries digest) → key = r.key := by
    intro x c deadline stage awaits hout
    cases awaits with
    | waiting => cases hout
    | done =>
      cases hout
      rfl
  cases stride with
  | enter x₀ stage x' starts readied opens => exact absurd hout (hstarts _ _ _ _ _ opens)
  | look goal since fill wake watching stage x' was seen =>
    exact absurd hout (hopen _ _ _ _ _ _ seen)
  | commit goal fill count need waited c x₀ stage x' was readied opens =>
    exact absurd hout (hstarts _ _ _ _ _ opens)
  | conclude c fill agreeing need x₀ stage was readied awaits =>
    exact Or.inl (hawaits _ _ _ _ awaits hout)
  | catchUp c deadline wake stage was awaits => exact Or.inl (hawaits _ _ _ _ awaits hout)
  | giveUp => cases hout
  | idle => exact Or.inr rfl

theorem Stride.ne_scheduled (stride : Stride m r x r' x') : r'.stage ≠ .scheduled := by
  cases stride with
  | enter x₀ stage x' starts readied opens => exact opens.ne_scheduled
  | look goal since fill wake watching stage x' was seen => exact seen.ne_scheduled
  | commit goal fill count need waited c x₀ stage x' was readied opens => exact opens.ne_scheduled
  | conclude c fill agreeing need x₀ stage was readied awaits => cases awaits <;> simp
  | catchUp c deadline wake stage was awaits => cases awaits <;> simp
  | giveUp => simp
  | idle x₀ was readied =>
    rcases was with ⟨_, _, _, was⟩ | ⟨_, _, _, was⟩
    · simp [was]
    · simp [was]

theorem Stride.constant_eq (stride : Stride m r x r' x') :
    r'.phase = r.phase ∧ r'.contribution = r.contribution := by
  cases stride <;> exact ⟨rfl, rfl⟩

end RoundRun

namespace Cache

variable {c : Cache} {k active : RoundKey} {x : Address}

/-- A sweep changes nothing under a key that is not behind. -/
theorem get?_sweep (hb : ¬ k.Behind active) : (c.sweep active).value.2.get? k x = c.get? k x := by
  have hrounds : (c.sweep active).value.2.rounds = c.rounds.filter fun r => ¬ r.1.Behind active := rfl
  have hentries : (c.sweep active).value.2.entries k = c.entries k := by
    unfold entries
    rw [hrounds]
    cases hes : Assoc.get? k c.rounds with
    | none => rw [Assoc.get?_filter_eq_none hes]
    | some es => rw [Assoc.get?_filter_of_forall hes (by simpa using hb)]
  rw [get?, hentries]
  rfl

end Cache

/-- What an attempt publishes is there, unless there is something of the node's under the key. -/
theorem RoundRun.entered_get?_own (r : RoundRun) (n : Node) :
    (r.entered n).caches.contributions.get? ⟨n.position.height + 1, r.phase⟩ n.address =
      some ((n.caches.contributions.get? ⟨n.position.height + 1, r.phase⟩ n.address).getD
        r.contribution) := by
  have hb : ¬ (⟨n.position.height + 1, r.phase⟩ : RoundKey).Behind ⟨n.position.height + 1, r.phase⟩ :=
    RoundKey.InRetention.not_behind (Or.inl rfl)
  have hswept := Cache.get?_sweep (c := n.caches.contributions) (x := n.address) hb
  rw [entered_contributions]
  cases hold : n.caches.contributions.get? ⟨n.position.height + 1, r.phase⟩ n.address with
  | some e =>
    rw [hold] at hswept
    exact Cache.get?_insert_of_some (sweep_protected _ _) hswept
  | none =>
    rw [hold] at hswept
    have habsent : (n.caches.contributions.sweep ⟨n.position.height + 1, r.phase⟩).value.2.contains
        ⟨n.position.height + 1, r.phase⟩ n.address = false := by
      rw [Cache.contains, hswept]
      rfl
    exact Cache.get?_insert_self (sweep_protected _ _) habsent _

namespace Agent

variable {a : Agent} {m : Moment} {v : Move} {id fill : Nat} {r : RoundRun} {script : Script}
  {key : RoundKey}

/-- The key that a round attempts with a move. -/
def attempt? (a : Agent) (id : Nat) (v : Move) : Option RoundKey :=
  if v.isStep id then (a.round? id).bind fun r => r.attempt? a.toExchanger else none

/-- The keys that a round attempts in a script, in order. -/
def attempts (id : Nat) : Agent → Script → List RoundKey
  | _, [] => []
  | a, v :: script => (a.attempt? id v.2).toList ++ attempts id (a.act v.1 v.2) script

theorem attempts_snoc (a : Agent) (script : Script) (w : Moment × Move) :
    attempts id a (script ++ [w]) =
      attempts id a script ++ ((a.run script).attempt? id w.2).toList := by
  induction script generalizing a with
  | nil => exact List.append_nil _
  | cons v script ih =>
    rw [List.cons_append, attempts, attempts, ih, List.append_assoc]
    rfl

theorem attempt?_of_not_step (hv : v.isStep id = false) : a.attempt? id v = none := by
  rw [attempt?, hv]
  rfl

theorem attempt?_step (hr : a.round? id = some r) :
    a.attempt? id (.task (.round id)) = r.attempt? a.toExchanger := by
  have hstep : (Move.task (.round id)).isStep id = true := decide_eq_true rfl
  rw [attempt?, hstep, if_pos rfl, hr]
  rfl

theorem exists_attempting (h : a.attempt? id (.task (.round id)) = some key) :
    ∃ r, a.round? id = some r ∧ r.attempt? a.toExchanger = some key := by
  have hstep : (Move.task (.round id)).isStep id = true := decide_eq_true rfl
  rw [attempt?, if_pos hstep] at h
  exact Option.bind_eq_some_iff.mp h

theorem dismissed_of_dropRound (hr : a.round? id = some r) (hfill : r.fill? = some fill) :
    (a.dropRound id).toExchanger.Dismissed fill := by
  have hreleased : (a.dropRound id).toExchanger = a.toExchanger.releaseFill fill := by
    unfold dropRound
    rw [hr]
    simp only [Option.bind_some, hfill]
  rw [hreleased]
  exact a.toExchanger.releaseFill_dismissed fill

theorem round?_dropRound_of_ne {other : Nat} (hne : id ≠ other) :
    (a.dropRound other).round? id = a.round? id :=
  Assoc.get?_erase_of_ne hne _

/-- The fill of a round that is gone after a move is cancelled by that move. -/
theorem dismissed_of_gone (hr : a.round? id = some r) (hfill : r.fill? = some fill)
    (hgone : (a.act m v).round? id = none) : (a.act m v).Dismissed fill := by
  have dropped : ∀ other, (a.dropRound other).round? id = none →
      (a.dropRound other).toExchanger.Dismissed fill := by
    intro other hnone
    by_cases hid : id = other
    · subst other
      exact dismissed_of_dropRound hr hfill
    · rw [round?_dropRound_of_ne hid, hr] at hnone
      cases hnone
  have kept : a.round? id ≠ none := by simp [hr]
  have started : ∀ (b : Agent) (plan : PhasePlan) (signature : Signature) (startsAt : Nat),
      b.round? id = a.round? id → (b.startRound plan signature startsAt).2.round? id ≠ none := by
    intro b plan signature startsAt hsame hnone
    rw [round?, Assoc.get?_eq_none_iff] at hnone
    have hmem : id ∈ Assoc.keys b.rounds :=
      Assoc.get?_isSome_iff.mp (Option.isSome_iff_exists.mpr ⟨r, hsame.trans hr⟩)
    exact hnone (Assoc.mem_keys_insert.mpr (Or.inr hmem))
  have aside : v.Apart → (a.act m v).round? id ≠ none := by
    intro hv hnone
    rcases a.apart_cases m hv with ⟨other, r', rfl, turned⟩ | ⟨_, aside⟩
    · by_cases hid : id = other
      · subst other
        cases turned.after.symm.trans hnone
      · exact kept ((turned.others id hid).symm.trans hnone)
    · rw [round?, aside.rounds] at hnone
      exact kept hnone
  cases v with
  | drive d =>
    obtain ⟨b, appState, hdrives, hdriven⟩ := a.driven_drives m.now d
    have hact : a.act m (.drive d) = { b with appState } := hdriven
    rw [hact] at hgone ⊢
    cases hdrives with
    | stand position => exact absurd hgone kept
    | drop other position => exact dropped other hgone
    | start position plan => exact absurd hgone (started _ plan _ m.now rfl)
  | start plan signature startsAt => exact absurd hgone (started a plan signature startsAt rfl)
  | drop other => exact dropped other hgone
  | startFill kind key targets => exact absurd hgone kept
  | stand position => exact absurd hgone kept
  | _ => exact absurd hgone (aside trivial)

end Agent

end Adjudication
