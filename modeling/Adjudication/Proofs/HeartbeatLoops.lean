import Adjudication.Proofs.PeerRows

namespace Adjudication

namespace Assoc

theorem keys_map {κ ν : Type} {f : κ × ν → κ × ν} (hf : ∀ x, (f x).1 = x.1) (xs : List (κ × ν)) :
    keys (xs.map f) = keys xs := by
  unfold keys
  rw [List.map_map]
  exact List.map_congr_left fun x _ => hf x

variable {κ ν : Type} [DecidableEq κ]

/-- A change of values is seen by looking up. -/
theorem get?_map {f : κ × ν → κ × ν} (hf : ∀ x, (f x).1 = x.1) (k : κ) (xs : List (κ × ν)) :
    get? k (xs.map f) = (get? k xs).map fun v => (f (k, v)).2 := by
  induction xs with
  | nil => rfl
  | cons x xs ih =>
    have hx : f x = (x.1, (f x).2) := Prod.ext (hf x) rfl
    rw [List.map_cons, hx]
    simp only [get?]
    split
    next hk =>
      subst hk
      rfl
    next => exact ih

theorem get?_append (k : κ) (xs ys : List (κ × ν)) :
    get? k (xs ++ ys) = (get? k xs).or (get? k ys) := by
  induction xs with
  | nil => rfl
  | cons x xs ih =>
    rw [List.cons_append]
    simp only [get?]
    split
    next => rfl
    next => exact ih

end Assoc

namespace Exchanger

@[simp] theorem keepFill_stopped (x : Exchanger) (id : Nat) (f : Fill) :
    (x.keepFill id f).stopped = x.stopped := by
  unfold keepFill
  split <;> rfl

@[simp] theorem cancelFill_stopped (x : Exchanger) (id : Nat) :
    (x.cancelFill id).stopped = x.stopped := by
  unfold cancelFill
  split <;> rfl

@[simp] theorem releaseFill_stopped (x : Exchanger) (id : Nat) :
    (x.releaseFill id).stopped = x.stopped := by
  unfold releaseFill
  split
  · rfl
  · exact keepFill_stopped _ _ _

@[simp] theorem crashFill_stopped (x : Exchanger) (id : Nat) :
    (x.crashFill id).stopped = x.stopped := by
  unfold crashFill
  split
  · rfl
  · exact keepFill_stopped _ _ _

@[simp] theorem setTransit_stopped (x : Exchanger) (id : Nat) (peer : Address) (transit : Transit) :
    (x.setTransit id peer transit).stopped = x.stopped := by
  unfold setTransit
  split <;> rfl

@[simp] theorem stepFill_stopped (x : Exchanger) (id : Nat) (m : Moment) :
    (x.stepFill id m).value.stopped = x.stopped := by
  unfold stepFill
  split
  · rfl
  · exact keepFill_stopped _ _ _

end Exchanger

namespace RoundRun

theorem poll_stopped (r : RoundRun) (x : Exchanger) (m : Moment) (goal : Goal) (since fill : Nat) :
    (r.poll x m goal since fill).value.2.stopped = x.stopped := by
  unfold poll
  dsimp only
  split
  next => rfl
  next => exact x.releaseFill_stopped fill
  next => exact x.cancelFill_stopped fill

theorem pursue_stopped (r : RoundRun) (x : Exchanger) (m : Moment) (goal : Goal) :
    (r.pursue x m goal).value.2.stopped = x.stopped := by
  unfold pursue
  split
  next => rfl
  next => exact r.poll_stopped _ m goal m.now x.nextFill

theorem catchUp_stopped (r : RoundRun) (x : Exchanger) (m : Moment) (c : Commitment) (deadline : Nat) :
    (r.catchUp x m c deadline).value.2.stopped = x.stopped := by
  unfold catchUp
  dsimp only
  split
  next => rfl
  next => rfl

theorem attempt_stopped (r : RoundRun) (x : Exchanger) (m : Moment) :
    (r.attempt x m).value.2.stopped = x.stopped :=
  pursue_stopped _ _ m .collection

theorem leave_stopped (r : RoundRun) (x : Exchanger) (m : Moment) (goal : Goal) (verdict : Verdict) :
    (r.leave x m goal verdict).value.2.stopped = x.stopped := by
  cases verdict with
  | heightMoved =>
    cases goal with
    | collection => exact r.attempt_stopped x m
    | tally c => exact r.attempt_stopped _ m
  | collected count need waited => exact r.pursue_stopped _ m (.tally (r.collected x.node))
  | agreed agreeing need =>
    cases goal with
    | collection => rfl
    | tally c => exact r.catchUp_stopped _ m c _
  | failed reason => rfl

theorem step_stopped (r : RoundRun) (x : Exchanger) (m : Moment) :
    (r.step x m).value.2.stopped = x.stopped := by
  unfold step
  split
  next => exact r.attempt_stopped _ m
  next goal since fill _ _ _ => exact r.poll_stopped x m goal since fill
  next goal fill verdict _ =>
    split
    next => rfl
    next => exact r.leave_stopped _ m goal verdict
  next c deadline _ _ => exact r.catchUp_stopped x m c deadline
  next => rfl

end RoundRun

namespace Heartbeat

variable {b b' : Heartbeat} {n : Node} {m : Moment}

/-- The same loop, wherever it is on its way. -/
def SameLoop (b b' : Heartbeat) : Prop := b'.peer = b.peer ∧ b'.cancelled = b.cancelled

theorem sameLoop_wake (b : Heartbeat) (n : Node) (m : Moment) : b.SameLoop (b.wake n m).1 := by
  unfold wake
  split
  next => exact ⟨rfl, rfl⟩
  next => exact ⟨rfl, rfl⟩

theorem sameLoop_of_step (h : (b.step n m).value.1 = some b') : b.SameLoop b' := by
  unfold step at h
  split at h
  next => cases h
  next =>
    split at h
    next => cases h
    next =>
      rw [Noted.value_bind] at h
      split at h
      next => cases h
      next =>
        cases h
        exact ⟨rfl, rfl⟩
    next =>
      cases h
      exact ⟨rfl, rfl⟩
    next =>
      cases h
      exact b.sameLoop_wake n m
    next =>
      cases h
      exact b.sameLoop_wake n m

/-- A loop that is not cancelled goes on, unless its peer has crashed. -/
theorem isSome_step (hlive : b.cancelled = false) (hpeer : b.stage ≠ .probing (.landed .crashed)) :
    (b.step n m).value.1.isSome := by
  have hgoes : ¬ b.Ends m := fun hends => Bool.false_ne_true (hlive.symm.trans hends.1)
  unfold step
  rw [if_neg hgoes]
  split
  next hcrashed => exact absurd hcrashed hpeer
  next =>
    rw [hlive]
    rfl
  next => rfl
  next => rfl
  next => rfl

end Heartbeat

/-- Moves that connect or disconnect peers, or shut down. -/
def Move.IsPeering : Move → Prop
  | .connect _ | .disconnect _ | .shutDown | .cancelAll => True
  | _ => False

namespace Agent

variable {a b c : Agent} {m : Moment} {v : Move} {falls : Nat → Prop} {loop : Nat}

/-- The same loops are kept for the same peers. Of those there were any may have gone on, and any ended
that was cancelled or falls. -/
structure Keeps (a : Agent) (falls : Nat → Prop) (b : Agent) : Prop where
  loops : b.loops = a.loops
  nextLoop : b.nextLoop = a.nextLoop
  stopped : b.stopped = a.stopped
  ascending : (Assoc.keys a.heartbeats).Pairwise (· < ·) → (Assoc.keys b.heartbeats).Pairwise (· < ·)
  sources : ∀ id beat', Assoc.get? id b.heartbeats = some beat' →
    ∃ beat, Assoc.get? id a.heartbeats = some beat ∧ beat.SameLoop beat'
  lives : ∀ id beat, Assoc.get? id a.heartbeats = some beat → beat.cancelled = false → ¬ falls id →
    ∃ beat', Assoc.get? id b.heartbeats = some beat'

theorem Keeps.of_heartbeats (hheartbeats : b.heartbeats = a.heartbeats) (hloops : b.loops = a.loops)
    (hnext : b.nextLoop = a.nextLoop) (hstopped : b.stopped = a.stopped) : a.Keeps falls b where
  loops := hloops
  nextLoop := hnext
  stopped := hstopped
  ascending h := by rwa [hheartbeats]
  sources id beat' h := ⟨beat', by rwa [← hheartbeats], rfl, rfl⟩
  lives id beat h _ _ := ⟨beat, by rwa [hheartbeats]⟩

theorem Keeps.refl (a : Agent) : a.Keeps falls a := .of_heartbeats rfl rfl rfl rfl

theorem Keeps.trans (h : a.Keeps falls b) (h' : b.Keeps falls c) : a.Keeps falls c where
  loops := h'.loops.trans h.loops
  nextLoop := h'.nextLoop.trans h.nextLoop
  stopped := h'.stopped.trans h.stopped
  ascending hascending := h'.ascending (h.ascending hascending)
  sources id beat'' hbeat'' := by
    obtain ⟨beat', hbeat', hpeer', hcancelled'⟩ := h'.sources id beat'' hbeat''
    obtain ⟨beat, hbeat, hpeer, hcancelled⟩ := h.sources id beat' hbeat'
    exact ⟨beat, hbeat, hpeer'.trans hpeer, hcancelled'.trans hcancelled⟩
  lives id beat hbeat hlive hstands := by
    obtain ⟨beat', hbeat'⟩ := h.lives id beat hbeat hlive hstands
    obtain ⟨source, hsource, _, hcancelled⟩ := h.sources id beat' hbeat'
    cases hbeat.symm.trans hsource
    exact h'.lives id beat' hbeat' (hcancelled.trans hlive) hstands

theorem keeps_erase (hfalls : ∀ beat, Assoc.get? loop a.heartbeats = some beat →
      beat.cancelled = false → falls loop) :
    a.Keeps falls { a with heartbeats := Assoc.erase loop a.heartbeats } where
  loops := rfl
  nextLoop := rfl
  stopped := rfl
  ascending h := h.sublist (List.filter_sublist.map _)
  sources id beat' h := by
    by_cases hid : id = loop
    · subst hid
      cases (Assoc.get?_erase_self id a.heartbeats).symm.trans h
    · rw [Assoc.get?_erase_of_ne hid] at h
      exact ⟨beat', h, rfl, rfl⟩
  lives id beat h hlive hstands := by
    have hid : id ≠ loop := by
      rintro rfl
      exact hstands (hfalls beat h hlive)
    exact ⟨beat, (Assoc.get?_erase_of_ne hid a.heartbeats).trans h⟩

theorem keeps_insert {beat beat' : Heartbeat} (hbeat : Assoc.get? loop a.heartbeats = some beat)
    (hsame : beat.SameLoop beat') :
    a.Keeps falls { a with heartbeats := Assoc.insert loop beat' a.heartbeats } where
  loops := rfl
  nextLoop := rfl
  stopped := rfl
  ascending h := ((Assoc.ascending_of_keys h).insert _ _).keys_pairwise
  sources id beat'' h := by
    by_cases hid : id = loop
    · subst hid
      cases (Assoc.get?_insert_self id beat' a.heartbeats).symm.trans h
      exact ⟨beat, hbeat, hsame⟩
    · have hold : Assoc.get? id a.heartbeats = some beat'' :=
        (Assoc.get?_insert_of_ne hid beat' a.heartbeats).symm.trans h
      exact ⟨beat'', hold, rfl, rfl⟩
  lives id beat'' h _ _ := by
    by_cases hid : id = loop
    · subst hid
      exact ⟨beat', Assoc.get?_insert_self id beat' a.heartbeats⟩
    · exact ⟨beat'', (Assoc.get?_insert_of_ne hid beat' a.heartbeats).trans h⟩

theorem keeps_setProbe (a : Agent) (loop : Nat) (transit : Transit) :
    a.Keeps falls (a.setProbe loop transit) := by
  have hkeys : ∀ b : Nat × Heartbeat,
      (if b.1 = loop then (loop, { b.2 with stage := .probing transit }) else b).1 = b.1 := by
    intro b
    split
    next h => exact h.symm
    next => rfl
  have hlookup := fun id => Assoc.get?_map hkeys id a.heartbeats
  refine ⟨rfl, rfl, rfl, ?_, ?_, ?_⟩
  · intro h
    exact (Assoc.keys_map hkeys a.heartbeats).symm ▸ h
  · intro id beat' h
    obtain ⟨beat, hbeat, rfl⟩ := Option.map_eq_some_iff.mp ((hlookup id).symm.trans h)
    refine ⟨beat, hbeat, ?_⟩
    split
    next => exact ⟨rfl, rfl⟩
    next => exact ⟨rfl, rfl⟩
  · intro id beat hbeat _ _
    exact ⟨_, (hlookup id).trans (congrArg _ hbeat)⟩

theorem keeps_dropRound (a : Agent) (round : Nat) : a.Keeps falls (a.dropRound round) := by
  refine .of_heartbeats rfl rfl rfl ?_
  unfold dropRound
  dsimp only
  split
  next f _ => exact a.toExchanger.releaseFill_stopped f
  next => rfl

theorem keeps_driven (a : Agent) (now : Nat) (d : Driver AppState) :
    a.Keeps falls (a.driven now d) := by
  obtain ⟨b, appState, hdrives, hdriven⟩ := a.driven_drives now d
  rw [hdriven]
  cases hdrives with
  | stand position => exact .of_heartbeats rfl rfl rfl rfl
  | drop round position => exact (a.keeps_dropRound round).trans (.of_heartbeats rfl rfl rfl rfl)
  | start position plan => exact .of_heartbeats rfl rfl rfl rfl

/-- At this move the loop ends by a crash: of its peer when it was probed, or of the reporter. -/
def Falls (a : Agent) (m : Moment) (v : Move) (id : Nat) : Prop :=
  v = .task (.heartbeat id) ∧
    ((∃ beat, Assoc.get? id a.heartbeats = some beat ∧ beat.stage = .probing (.landed .crashed)) ∨
      (a.reporter.hear (a.notices m v)).crashed = true)

theorem keeps_stepOwn (a : Agent) (m : Moment) (task : Task) :
    a.Keeps (a.Falls m (.task task)) (a.stepOwn m task).value := by
  unfold stepOwn
  cases task with
  | fill id => exact .of_heartbeats rfl rfl rfl (a.toExchanger.stepFill_stopped id m)
  | heartbeat loop =>
    dsimp only
    split
    next => exact .refl a
    next beat hbeat =>
      simp only [Noted.value_bind]
      split
      next beat' hbeat' =>
        exact (keeps_insert hbeat (Heartbeat.sameLoop_of_step hbeat')).trans
          (.of_heartbeats rfl rfl rfl rfl)
      next hended =>
        refine (keeps_erase ?_).trans (.of_heartbeats rfl rfl rfl rfl)
        intro beat₀ hbeat₀ hlive
        cases hbeat.symm.trans hbeat₀
        refine ⟨rfl, Or.inl ⟨beat, hbeat, ?_⟩⟩
        by_contra hpeer
        have hgoes := Heartbeat.isSome_step (n := a.node) (m := m) hlive hpeer
        rw [hended] at hgoes
        cases hgoes
  | round id =>
    dsimp only
    split
    next => exact .refl a
    next r _ => exact .of_heartbeats rfl rfl rfl (r.step_stopped a.toExchanger m)
  | request fill peer => exact .refl a
  | probe loop => exact .refl a

theorem keeps_crash (a : Agent) {task : Task} (hfalls : ∀ loop, task = .heartbeat loop → falls loop) :
    a.Keeps falls (a.crash task) := by
  cases task with
  | fill id => exact .of_heartbeats rfl rfl rfl (a.toExchanger.crashFill_stopped id)
  | heartbeat loop => exact keeps_erase fun _ _ _ => hfalls loop rfl
  | request fill peer => exact .refl a
  | probe loop => exact .refl a
  | round id => exact .refl a

theorem keeps_step (a : Agent) (m : Moment) (task : Task) :
    a.Keeps (a.Falls m (.task task)) (a.step m task).2 := by
  have hheeded : a.Keeps (a.Falls m (.task task)) ((a.stepOwn m task).value.heed
      (a.reporter.hear (a.stepOwn m task).notices)) :=
    (a.keeps_stepOwn m task).trans (.of_heartbeats rfl rfl rfl rfl)
  unfold step
  dsimp only
  split
  next hcrashed =>
    refine hheeded.trans (keeps_crash _ ?_)
    rintro loop rfl
    exact ⟨rfl, Or.inr hcrashed⟩
  next => exact hheeded

theorem keeps_act (h : ¬ v.IsPeering) (a : Agent) (m : Moment) :
    a.Keeps (a.Falls m v) (a.act m v) := by
  cases v with
  | task task => exact a.keeps_step m task
  | drive d => exact a.keeps_driven m.now d
  | call caller request => exact .of_heartbeats rfl rfl rfl rfl
  | carried fill peer transit =>
    exact .of_heartbeats rfl rfl rfl (a.toExchanger.setTransit_stopped fill peer transit)
  | probed loop transit => exact a.keeps_setProbe loop transit
  | start plan signature startsAt => exact .of_heartbeats rfl rfl rfl rfl
  | drop round => exact a.keeps_dropRound round
  | startFill kind key targets => exact .of_heartbeats rfl rfl rfl rfl
  | cancelFill fill keep =>
    refine .of_heartbeats rfl rfl rfl ?_
    cases keep with
    | true => exact a.toExchanger.cancelFill_stopped fill
    | false => exact a.toExchanger.releaseFill_stopped fill
  | stand position => exact .of_heartbeats rfl rfl rfl rfl
  | connect peer => exact absurd trivial h
  | disconnect peer => exact absurd trivial h
  | shutDown => exact absurd trivial h
  | cancelAll => exact absurd trivial h

end Agent

end Adjudication
