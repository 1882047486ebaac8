import Adjudication.Proofs.Eviction
import Adjudication.Proofs.OwnContributions
import Adjudication.Proofs.RoundEnds
import Adjudication.Proofs.WorldStrokes

namespace Adjudication

namespace Agent

variable {a : Agent} {id now t : Nat} {r : RoundRun} {m : Moment} {v : Move} {script rest : Script}

/-- The rounds are listed in the order of their numbers. -/
def Listed (a : Agent) : Prop := Assoc.Ascending a.rounds

theorem Blank.listed (h : a.Blank) : a.Listed := by
  rw [Listed, h.rounds]
  exact List.Pairwise.nil

theorem Listed.dropRound (h : a.Listed) (id : Nat) : (a.dropRound id).Listed :=
  h.sublist List.filter_sublist

theorem Listed.startRound (h : a.Listed) (plan : PhasePlan) (signature : Signature) (startsAt : Nat) :
    (a.startRound plan signature startsAt).2.Listed :=
  h.insert _ _

theorem Listed.driven (h : a.Listed) (now : Nat) (d : Driver AppState) : (a.driven now d).Listed := by
  obtain ⟨b, appState, hdrives, hdriven⟩ := a.driven_drives now d
  rw [hdriven]
  cases hdrives with
  | stand position => exact h
  | drop round position => exact h.dropRound round
  | start position plan =>
    have hstood : (a.setNode { a.node with position }).Listed := h
    exact hstood.startRound plan _ now

theorem rounds_act_round (h : a.round? id = some r) : (a.act m (.task (.round id))).rounds =
    Assoc.insert id (r.step a.toExchanger m).value.1 a.rounds := by
  have hstep : (a.act m (.task (.round id))).rounds = (a.stepOwn m (.round id)).value.rounds := by
    unfold act step
    dsimp only
    split
    · rfl
    · rfl
  rw [hstep, stepOwn_round h]

theorem Listed.act (h : a.Listed) (m : Moment) (v : Move) : (a.act m v).Listed := by
  have aside : v.Apart → (a.act m v).Listed := by
    intro hv
    rcases a.apart_cases m hv with ⟨id, r, rfl, turned⟩ | ⟨_, aside⟩
    · rw [Listed, rounds_act_round turned.before]
      exact h.insert _ _
    · rw [Listed, aside.rounds]
      exact h
  cases v with
  | drive d => exact h.driven m.now d
  | start plan signature startsAt => exact h.startRound plan signature startsAt
  | drop round => exact h.dropRound round
  | startFill kind key targets => exact h
  | stand position => exact h
  | _ => exact aside trivial

theorem Listed.run (h : a.Listed) (script : Script) : (a.run script).Listed := by
  induction script generalizing a with
  | nil => exact h
  | cons v script ih => exact ih (h.act v.1 v.2)

/-- A round that is on the agenda is ready at the time that is noted there. -/
theorem Listed.readyAt_of_mem_agenda (h : a.Listed) (hmem : (t, Task.round id) ∈ a.agenda) :
    ∃ r, a.round? id = some r ∧ r.readyAt a.toExchanger = some t := by
  have hrounds : (t, Task.round id) ∈ a.rounds.filterMap fun r =>
      (r.2.readyAt a.toExchanger).map fun t => (t, .round r.1) := by
    unfold agenda at hmem
    simp only [List.mem_append, List.mem_flatMap, List.mem_filterMap] at hmem
    rcases hmem with (((⟨f, _, flight, _, heq⟩ | ⟨b, _, heq⟩) | ⟨f, _, heq⟩) | ⟨b, _, heq⟩) | hround
    · split at heq <;> simp at heq
    · split at heq <;> simp at heq
    · simp at heq
    · simp at heq
    · exact List.mem_filterMap.mpr hround
  obtain ⟨⟨other, r⟩, hr, heq⟩ := List.mem_filterMap.mp hrounds
  obtain ⟨time, hready, heq⟩ := Option.map_eq_some_iff.mp heq
  cases heq
  exact ⟨r, h.get?_of_mem hr, hready⟩

/-- The time at the end of a script that begins at a time. -/
def clockAfter (now : Nat) : Script → Nat
  | [] => now
  | v :: script => clockAfter v.1.now script

theorem clockAfter_append (now : Nat) (script rest : Script) :
    clockAfter now (script ++ rest) = clockAfter (clockAfter now script) rest := by
  induction script generalizing now with
  | nil => rfl
  | cons v script ih => exact ih v.1.now

theorem course_now (a : Agent) (id now : Nat) (script : Script) :
    (a.course id now script).now = clockAfter now script := by
  cases script using List.reverseRecOn with
  | nil => rfl
  | append_singleton script v =>
    rw [course_snoc, clockAfter_append]
    rfl

/-- Nothing is left undone that was due before a time. -/
def Idle (now : Nat) (a : Agent) (t : Nat) : Prop := now ≤ t ∧ ∀ e ∈ a.agenda, t ≤ max now e.1

theorem Punctual.of_idle (h : Punctual t a script) (hidle : Idle now a t) : Punctual now a script := by
  cases script with
  | nil => trivial
  | cons v script =>
    obtain ⟨⟨hlater, hagenda, hdue⟩, hrest⟩ := h
    refine ⟨⟨Nat.le_trans hidle.1 hlater, fun e he => ?_, hdue⟩, hrest⟩
    have hbefore := hidle.2 e he
    have hafter := hagenda e he
    omega

theorem Idle.refl (a : Agent) (now : Nat) : Idle now a now :=
  ⟨Nat.le_refl now, fun _ _ => Nat.le_max_left _ _⟩

theorem Idle.trans {t' : Nat} (h : Idle now a t) (h' : Idle t a t') : Idle now a t' := by
  refine ⟨Nat.le_trans h.1 h'.1, fun e he => ?_⟩
  have hbefore := h.2 e he
  have hafter := h'.2 e he
  omega

/-- The time before a script matters only if nothing is done. -/
theorem Idle.after (h : Idle now a t) {t' : Nat}
    (hafter : Idle (clockAfter t script) (a.run script) t') :
    Idle (clockAfter now script) (a.run script) t' := by
  cases script with
  | nil => exact h.trans hafter
  | cons v script => exact hafter

theorem punctual_append : Punctual now a (script ++ rest) ↔
    Punctual now a script ∧ Punctual (clockAfter now script) (a.run script) rest := by
  induction script generalizing now a with
  | nil => exact ⟨fun h => ⟨trivial, h⟩, fun h => h.2⟩
  | cons v script ih =>
    constructor
    · rintro ⟨hv, h⟩
      exact ⟨⟨hv, (ih.mp h).1⟩, (ih.mp h).2⟩
    · rintro ⟨⟨hv, h⟩, hrest⟩
      exact ⟨hv, ih.mpr ⟨h, hrest⟩⟩

/-- At one moment everything but a step of a round is on time. -/
theorem punctual_of_still (h : ∀ v ∈ script, v.1.now = now ∧ ∀ id, v.2 ≠ .task (.round id)) :
    Punctual now a script ∧ clockAfter now script = now := by
  induction script generalizing a with
  | nil => exact ⟨trivial, rfl⟩
  | cons v script ih =>
    obtain ⟨hnow, hmove⟩ := h v List.mem_cons_self
    obtain ⟨hpunctual, hclock⟩ := ih (a := a.act v.1 v.2) fun u hu => h u (List.mem_cons_of_mem v hu)
    have hdue : v.2.isDue a v.1.now = true := by
      unfold Move.isDue
      split
      next id heq => exact absurd heq (hmove id)
      next => rfl
    refine ⟨⟨⟨Nat.le_of_eq hnow.symm, fun e _ => ?_, hdue⟩, ?_⟩, ?_⟩
    · rw [hnow]
      exact Nat.le_max_left _ _
    · rw [hnow]
      exact hpunctual
    · rw [clockAfter, hnow]
      exact hclock

end Agent

/-- A round is at its end when more time has passed than it has. -/
theorem Course.Keeps.outcome_of_late {p : Pace} {base id t : Nat} {s : Course} {r : RoundRun}
    (h : Keeps p base s id r) (hidle : Agent.Idle s.now s.agent t)
    (hlate : base + (s.changes + 1) * p.span + p.catchUp + p.poll < t) :
    (s.agent.outcome? id).isSome := by
  rw [h.outcome?_eq]
  cases hopen : r.outcome? with
  | some outcome => rfl
  | none =>
    have hnow := h.standing.now_le fun outcome time ready hs => by
      simp [RoundRun.outcome?, hs] at hopen
    rcases h.ready_or_due hopen with ⟨t', hready⟩ | ⟨fill, _, hfill⟩
    · have hnext := hidle.2 _ (Agent.round_mem_agenda h.round hready)
      have hwithin := h.readyAt_le hready
      dsimp only at hnext
      omega
    · have hnext := hidle.2 _ hfill
      dsimp only at hnext
      omega

namespace World

variable {w : World} {i id t : Nat} {task : WorldTask} {a : Agent}

theorem earliest_spec {xs : List (Nat × WorldTask)} {x : Nat × WorldTask} (h : earliest xs = some x) :
    x ∈ xs ∧ ∀ y ∈ xs, x.1 ≤ y.1 := by
  have hfold : ∀ (xs : List (Nat × WorldTask)) (best : Nat × WorldTask),
      xs.foldl (fun best y => if y.1 < best.1 then y else best) best ∈ best :: xs ∧
        ∀ y ∈ best :: xs, (xs.foldl (fun best y => if y.1 < best.1 then y else best) best).1 ≤ y.1 := by
    intro xs
    induction xs with
    | nil => simp
    | cons x xs ih =>
      intro best
      obtain ⟨hmem, hle⟩ := ih (if x.1 < best.1 then x else best)
      rw [List.foldl_cons]
      refine ⟨?_, fun y hy => ?_⟩
      · rcases List.mem_cons.mp hmem with hbest | hlater
        · rw [hbest]
          split
          · exact List.mem_cons_of_mem _ List.mem_cons_self
          · exact List.mem_cons_self
        · exact List.mem_cons_of_mem _ (List.mem_cons_of_mem _ hlater)
      · have hbetter : (if x.1 < best.1 then x else best).1 ≤ min best.1 x.1 := by
          split
          · omega
          · omega
        have hfirst := Nat.le_trans (hle _ List.mem_cons_self) hbetter
        rcases List.mem_cons.mp hy with rfl | hy
        · exact Nat.le_trans hfirst (Nat.min_le_left _ _)
        · rcases List.mem_cons.mp hy with rfl | hy
          · exact Nat.le_trans hfirst (Nat.min_le_right _ _)
          · exact hle y (List.mem_cons_of_mem _ hy)
  cases xs with
  | nil => cases h
  | cons y xs =>
    cases h
    exact hfold xs y

theorem nextTask_spec (h : w.nextTask = some (t, task)) : w.now ≤ t ∧
    (∃ t₀ ≤ t, (t₀, task) ∈ w.agenda) ∧ ∀ e ∈ w.agenda, t ≤ max w.now e.1 := by
  obtain ⟨hmem, hle⟩ := earliest_spec h
  obtain ⟨⟨t₀, task₀⟩, hnoted, heq⟩ := List.mem_map.mp hmem
  cases heq
  refine ⟨Nat.le_max_right _ _, ⟨t₀, Nat.le_max_left _ _, hnoted⟩, fun e he => ?_⟩
  have hfirst := hle _ (List.mem_map_of_mem he)
  dsimp only at hfirst ⊢
  omega

theorem mem_agenda_own {task : Task} :
    (t, .own i task) ∈ w.agenda ↔ ∃ a, w.agents[i]? = some a ∧ (t, task) ∈ a.agenda := by
  unfold agenda
  rw [List.mem_append, List.mem_flatMap]
  constructor
  · rintro (⟨⟨a, j⟩, hagent, hmem⟩ | hdriver)
    · obtain ⟨⟨t', task'⟩, htask, heq⟩ := List.mem_map.mp hmem
      cases heq
      exact ⟨a, List.mk_mem_zipIdx_iff_getElem?.mp hagent, htask⟩
    · obtain ⟨⟨⟨j, d⟩, index⟩, _, heq⟩ := List.mem_filterMap.mp hdriver
      obtain ⟨_, _, heq⟩ := Option.map_eq_some_iff.mp heq
      cases heq
  · rintro ⟨a, hagent, htask⟩
    refine Or.inl ⟨(a, i), List.mk_mem_zipIdx_iff_getElem?.mpr hagent, ?_⟩
    exact List.mem_map.mpr ⟨(t, task), htask, rfl⟩

/-- Time does not pass what an agent has to do. -/
theorem idle_of_nextTask (h : w.nextTask = some (t, task)) (ha : w.agents[i]? = some a) :
    Agent.Idle w.now a t := by
  obtain ⟨hle, _, hagenda⟩ := nextTask_spec h
  exact ⟨hle, fun e he => hagenda (e.1, .own i e.2) (mem_agenda_own.mpr ⟨a, ha, he⟩)⟩

/-- What an agent does while its world goes on until a time. -/
structure Spent (w : World) (i : Nat) (a : Agent) (w' : World) (script : Script) : Prop where
  agent : w'.agents[i]? = some (a.run script)
  punctual : a.Punctual w.now script
  idle : Agent.Idle (Agent.clockAfter w.now script) (a.run script) w'.now

theorem Spent.trans {w' w'' : World} {script script' : Script} (h : Spent w i a w' script)
    (h' : Spent w' i (a.run script) w'' script') : Spent w i a w'' (script ++ script') where
  agent := by
    rw [Agent.run_append]
    exact h'.agent
  punctual := Agent.punctual_append.mpr ⟨h.punctual, h'.punctual.of_idle h.idle⟩
  idle := by
    rw [Agent.clockAfter_append, Agent.run_append]
    exact h.idle.after h'.idle

/-- A step of a world, at the time of its next task. -/
theorem step_spent (hnext : w.nextTask = some (t, task)) (ha : w.agents[i]? = some a)
    (hlisted : a.Listed) : ∃ script, Spent w i a ({ w with now := t }.step task) script := by
  have hidle := idle_of_nextTask hnext ha
  have hspent : ∀ strokes : List Stroke,
      (({ w with now := t } : World).step task).moment = ({ w with now := t } : World).moment →
      (({ w with now := t } : World).step task).agents = Cluster.run w.agents strokes →
      Agent.Punctual t a (Cluster.script i strokes) ∧
        Agent.clockAfter t (Cluster.script i strokes) = t →
      Spent w i a ({ w with now := t }.step task) (Cluster.script i strokes) := by
    intro strokes hmoment hagents ⟨hpunctual, hclock⟩
    have htime : (({ w with now := t } : World).step task).now = t := congrArg Moment.now hmoment
    refine ⟨?_, hpunctual.of_idle hidle, hidle.after ?_⟩
    · rw [hagents, Cluster.getElem?_run, ha]
      rfl
    · rw [hclock, htime]
      exact .refl _ t
  rcases ({ w with now := t } : World).step_cases task with ⟨hmoment, strokes, hstrokes, hagents⟩ |
      ⟨j, id, _, rfl, _, hmoment, hagents⟩
  · refine ⟨_, hspent strokes hmoment hagents (Agent.punctual_of_still fun v hv => ?_)⟩
    obtain ⟨s, hs, heq⟩ := List.mem_filterMap.mp hv
    split at heq
    next =>
      cases heq
      obtain ⟨hnow, hmove⟩ := hstrokes s hs
      exact ⟨congrArg Moment.now hnow, hmove⟩
    next => cases heq
  · refine ⟨_, hspent _ hmoment hagents ?_⟩
    by_cases hj : j = i
    · subst hj
      obtain ⟨_, ⟨t₀, hle, hmem⟩, _⟩ := nextTask_spec hnext
      obtain ⟨b, hb, hround⟩ := mem_agenda_own.mp hmem
      cases ha.symm.trans hb
      obtain ⟨r, hr, hready⟩ := hlisted.readyAt_of_mem_agenda hround
      have hdue : Move.isDue a t (.task (.round id)) = true := by
        simp [Move.isDue, hr, hready, hle]
      have hscript : Cluster.script j [⟨j, ({ w with now := t } : World).moment, .task (.round id)⟩] =
          [(({ w with now := t } : World).moment, .task (.round id))] := by
        simp [Cluster.script]
      rw [hscript]
      exact ⟨⟨⟨Nat.le_refl t, fun _ _ => Nat.le_max_left _ _, hdue⟩, trivial⟩, rfl⟩
    · have hscript : Cluster.script i
          [⟨j, ({ w with now := t } : World).moment, .task (.round id)⟩] = [] := by
        simp [Cluster.script, hj]
      rw [hscript]
      exact ⟨trivial, rfl⟩

/-- Whatever a world does, each of its agents goes through a script that is on time. -/
theorem run_spent (done : World → Bool) (limit : Option Nat) (fuel : Nat)
    (ha : w.agents[i]? = some a) (hlisted : a.Listed) :
    ∃ script, Spent w i a (run done limit fuel w) script := by
  have idle : Spent w i a w [] := ⟨ha, trivial, .refl a w.now⟩
  induction fuel generalizing w a with
  | zero => exact ⟨[], idle⟩
  | succ fuel ih =>
    unfold run
    split
    next => exact ⟨[], idle⟩
    next =>
      split
      next => exact ⟨[], idle⟩
      next t task hnext =>
        split
        next => exact ⟨[], idle⟩
        next =>
          obtain ⟨script, hstep⟩ := step_spent hnext ha hlisted
          have hbetween : Spent ({ w with now := t }.step task) i (a.run script)
              ({ w with now := t }.step task) [] := ⟨hstep.agent, trivial, .refl _ _⟩
          obtain ⟨script', hrest⟩ := ih hstep.agent (hlisted.run script) hbetween
          exact ⟨script ++ script', hstep.trans hrest⟩

/-- A round of a running world ends: when the world's time is past what the round has, given how often
the height has changed, the round is at its end or was dropped. -/
theorem isRoundEnded_run {b : Agent} {before : Script} {r : RoundRun} (done : World → Bool)
    (limit : Option Nat) (fuel : Nat) (hblank : b.Blank) (ha : w.agents[i]? = some (b.run before))
    (hround : (b.run before).round? id = some r) (hscheduled : r.stage = .scheduled) :
    ∃ script, Spent w i (b.run before) (run done limit fuel w) script ∧
      (max r.startsAt w.now +
          (((b.run before).course id w.now script).changes + 1) *
            (r.pace (b.run before).node.config.round).span +
          (r.pace (b.run before).node.config.round).catchUp +
          (r.pace (b.run before).node.config.round).poll < (run done limit fuel w).now →
        (run done limit fuel w).isRoundEnded i id = true) := by
  obtain ⟨script, hspent⟩ := run_spent done limit fuel ha (hblank.listed.run before)
  refine ⟨script, hspent, fun hlate => ?_⟩
  have hagent : (run done limit fuel w).agent? i = some ((b.run before).run script) := hspent.agent
  rw [isRoundEnded, World.round?, hagent]
  show (((b.run before).run script).round? id).all (fun r => r.outcome?.isSome) = true
  cases hkept : ((b.run before).run script).round? id with
  | none => rfl
  | some r' =>
    have hsome : (((b.run before).run script).round? id).isSome := by rw [hkept]; rfl
    obtain ⟨_, hkeeps⟩ := Agent.keeps_course (hblank.numbered.run before) hround hscheduled
      hspent.punctual hsome
    have hidle := hspent.idle
    rw [← Agent.course_now (b.run before) id, ← Agent.course_agent (b.run before) id w.now] at hidle
    have hended := hkeeps.outcome_of_late hidle hlate
    rw [Agent.course_agent, Agent.outcome?, hkept] at hended
    exact hended

end World

end Adjudication
