import Adjudication.Schedule
import Adjudication.Proofs.Agreement

namespace Adjudication.World

/-- The agents of one world come from those of another by strokes, and the members are the same. -/
def Played (w w' : World) : Prop :=
  w'.members = w.members ∧ ∃ strokes : List Stroke,
    (∀ s ∈ strokes, s.moment.members = w.members) ∧ w'.agents = Cluster.run w.agents strokes

variable {w w' w'' : World}

theorem Played.of_eq (hmembers : w'.members = w.members) (hagents : w'.agents = w.agents) :
    Played w w' :=
  ⟨hmembers, [], by simp, hagents⟩

theorem Played.refl (w : World) : Played w w := .of_eq rfl rfl

theorem Played.trans (h : Played w w') (h' : Played w' w'') : Played w w'' := by
  obtain ⟨hmembers, strokes, hstrokes, hagents⟩ := h
  obtain ⟨hmembers', strokes', hstrokes', hagents'⟩ := h'
  refine ⟨hmembers'.trans hmembers, strokes ++ strokes', ?_, ?_⟩
  · intro s hs
    rcases List.mem_append.mp hs with hs | hs
    · exact hstrokes s hs
    · exact (hstrokes' s hs).trans hmembers
  · rw [hagents', hagents]
    exact (List.foldl_append).symm

/-- Replacing an agent by what it is after a move is a stroke. -/
theorem setAgent_agents {i : Nat} {a : Agent} (h : w.agent? i = some a) (v : Move) :
    (w.setAgent i (a.act w.moment v)).agents = Cluster.run w.agents [⟨i, w.moment, v⟩] := by
  have hi : w.agents[i]? = some a := h
  have hset : w.agents.set i (a.act w.moment v) =
      w.agents.modify i fun a => a.act w.moment v := by
    rw [List.modify_eq_set_getElem?, hi]
    rfl
  exact hset

theorem played_setAgent {i : Nat} {a : Agent} (h : w.agent? i = some a) (v : Move) :
    Played w (w.setAgent i (a.act w.moment v)) :=
  ⟨rfl, [⟨i, w.moment, v⟩], by simp [moment], setAgent_agents h v⟩

theorem Played.record (h : Played w w') (events : List Event) : Played w (w'.record events) := h

/-- The agents of one world come from those of another at the same moment, by strokes that are no steps of
rounds. -/
def Stirred (w w' : World) : Prop :=
  w'.moment = w.moment ∧ ∃ strokes : List Stroke,
    (∀ s ∈ strokes, s.moment = w.moment ∧ ∀ id, s.move ≠ .task (.round id)) ∧
      w'.agents = Cluster.run w.agents strokes

theorem Stirred.of_eq (hmoment : w'.moment = w.moment) (hagents : w'.agents = w.agents) :
    Stirred w w' :=
  ⟨hmoment, [], by simp, hagents⟩

theorem Stirred.refl (w : World) : Stirred w w := .of_eq rfl rfl

theorem Stirred.trans (h : Stirred w w') (h' : Stirred w' w'') : Stirred w w'' := by
  obtain ⟨hmoment, strokes, hstrokes, hagents⟩ := h
  obtain ⟨hmoment', strokes', hstrokes', hagents'⟩ := h'
  refine ⟨hmoment'.trans hmoment, strokes ++ strokes', ?_, ?_⟩
  · intro s hs
    rcases List.mem_append.mp hs with hs | hs
    · exact hstrokes s hs
    · rw [← hmoment]
      exact hstrokes' s hs
  · rw [hagents', hagents]
    exact (List.foldl_append).symm

theorem Stirred.record (h : Stirred w w') (events : List Event) : Stirred w (w'.record events) := h

theorem Stirred.played (h : Stirred w w') : Played w w' := by
  obtain ⟨hmoment, strokes, hstrokes, hagents⟩ := h
  refine ⟨congrArg Moment.members hmoment, strokes, fun s hs => ?_, hagents⟩
  rw [(hstrokes s hs).1]
  rfl

theorem stirred_setAgent {i : Nat} {a : Agent} (h : w.agent? i = some a) {v : Move}
    (hv : ∀ id, v ≠ .task (.round id)) : Stirred w (w.setAgent i (a.act w.moment v)) :=
  ⟨rfl, [⟨i, w.moment, v⟩], by simpa using hv, setAgent_agents h v⟩

theorem handle_stirred (w : World) (service : Endpoint) (caller : Address) (request : Request) :
    Stirred w (w.handle service caller request).2 := by
  unfold handle
  split
  · split
    · exact .refl w
    · next a ha =>
      have called := stirred_setAgent ha (v := .call caller request) (fun _ => nofun)
      exact called.record _
  · split
    · exact .refl w
    · exact .of_eq rfl rfl

theorem handleFrame_stirred (w : World) (size : Nat) (receiver : Address) (service : Endpoint)
    (caller : Address) (request : Request) :
    Stirred w (w.handleFrame size receiver service caller request).2 := by
  have handled := w.handle_stirred service caller request
  unfold handleFrame
  split
  · next hh => rw [hh] at handled; exact handled
  · next hh => rw [hh] at handled; exact handled.record _

theorem deliver_stirred (w : World) (sender receiver : Address) (frame : Bytes) :
    Stirred w (w.deliver sender receiver frame).2 := by
  unfold deliver Network.deliver
  split
  · exact .refl w
  · exact .refl w
  · next service request _ _ =>
    have handled := w.handleFrame_stirred frame.length receiver service sender request
    split
    · next hh => exact congrArg Prod.snd hh ▸ handled
    · next hh => exact congrArg Prod.snd hh ▸ handled

theorem carry_stirred (w : World) (sender receiver : Address) (timeout : Nat) (transit : Transit) :
    Stirred w (w.carry sender receiver timeout transit).2 := by
  unfold carry
  split
  · split
    · exact .refl w
    · next frame _ =>
      split
      · exact w.deliver_stirred sender receiver frame
      · exact .refl w
  · next frame arrives expires =>
    split
    · exact w.deliver_stirred sender receiver frame
    · split
      · exact .refl w
      · exact .refl w
  · exact .refl w

theorem carryRequest_stirred (w : World) (i fill : Nat) (peer : Address) :
    Stirred w (w.carryRequest i fill peer) := by
  unfold carryRequest
  split
  · exact .refl w
  · next a _ =>
    split
    · exact .refl w
    · next flight _ =>
      have carried := w.carry_stirred a.address peer a.node.config.gossip.requestTimeout flight.transit
      dsimp only
      split
      · exact carried
      · next a' ha' =>
        refine carried.trans (stirred_setAgent ha' (v := .carried fill peer _) ?_)
        exact fun _ => nofun

theorem carryProbe_stirred (w : World) (i loop : Nat) : Stirred w (w.carryProbe i loop) := by
  unfold carryProbe
  split
  · exact .refl w
  · next a _ =>
    split
    · next peer _ _ transit _ =>
      have carried := w.carry_stirred a.address peer a.node.config.heartbeat.timeout transit
      dsimp only
      split
      · exact carried
      · next a' ha' =>
        refine carried.trans (stirred_setAgent ha' (v := .probed loop _) ?_)
        exact fun _ => nofun
    · exact .refl w

theorem stepDriver_stirred (w : World) (index : Nat) : Stirred w (w.stepDriver index) := by
  unfold stepDriver
  split
  · exact .refl w
  · next i d _ =>
    split
    · exact .refl w
    · next a ha =>
      have driven := stirred_setAgent ha (v := .drive d) (fun _ => nofun)
      exact driven

/-- A step of a world is the step of a round, or it leaves the rounds to themselves. -/
theorem step_cases (w : World) (task : WorldTask) : Stirred w (w.step task) ∨
    ∃ i id a, task = .own i (.round id) ∧ w.agent? i = some a ∧ (w.step task).moment = w.moment ∧
      (w.step task).agents = Cluster.run w.agents [⟨i, w.moment, .task (.round id)⟩] := by
  unfold step
  split
  · exact Or.inl (w.carryRequest_stirred _ _ _)
  · exact Or.inl (w.carryProbe_stirred _ _)
  · next i task _ _ =>
    split
    · exact Or.inl (.refl w)
    · next a ha =>
      by_cases hround : ∃ id, task = .round id
      · obtain ⟨id, rfl⟩ := hround
        exact Or.inr ⟨i, id, a, rfl, ha, rfl, setAgent_agents ha (.task (.round id))⟩
      · refine Or.inl ((stirred_setAgent ha (v := .task task) ?_).record _)
        rintro id ⟨⟩
        exact hround ⟨id, rfl⟩
  · exact Or.inl (w.stepDriver_stirred _)

/-- A step of a world is strokes of its agents. -/
theorem step_played (w : World) (task : WorldTask) : Played w (w.step task) := by
  rcases w.step_cases task with stirred | ⟨i, id, a, _, _, hmoment, hagents⟩
  · exact stirred.played
  · exact ⟨congrArg Moment.members hmoment, _, by simp [moment], hagents⟩

/-- So is all that a world does until something has come about. -/
theorem run_played (done : World → Bool) (limit : Option Nat) (fuel : Nat) (w : World) :
    Played w (run done limit fuel w) := by
  induction fuel generalizing w with
  | zero => exact .refl w
  | succ fuel ih =>
    unfold run
    split
    · exact .refl w
    · split
      · exact .refl w
      · next t task _ =>
        split
        · exact .refl w
        · have stepped := step_played { w with now := t } task
          exact stepped.trans (ih _)

theorem startRound_played (w : World) (i : Nat) (plan : PhasePlan) (signature : Option Signature)
    (startsAt : Nat) : Played w (w.startRound i plan signature startsAt).2 := by
  unfold startRound
  split
  · exact .refl w
  · next a ha => exact played_setAgent ha (.start plan _ startsAt)

theorem dropRound_played (w : World) (i round : Nat) : Played w (w.dropRound i round) := by
  unfold dropRound
  split
  · exact .refl w
  · next a ha => exact played_setAgent ha (.drop round)

theorem connect_played (w : World) (i : Nat) (address : Address) :
    Played w (w.connect i address).2 := by
  have asked : Played w (w.onAgent i fun a =>
      if address = a.address then pure (.ok (), a) else a.connect address).2 := by
    unfold onAgent
    split
    · exact .refl w
    · next a ha =>
      have connected := played_setAgent ha (.connect address)
      by_cases hself : address = a.address
      · have hidle : a.act w.moment (.connect address) = a := by
          simp [Agent.act, Agent.connect, Agent.after, Agent.heed, hself, Reporter.hear]
        rw [hidle] at connected
        simpa [hself, Reporter.hear, Agent.heed] using connected.record []
      · simp only [hself, if_false]
        exact connected.record _
  unfold connect
  split
  · next hc => rw [hc] at asked; exact asked
  · next hc => rw [hc] at asked; exact asked

end Adjudication.World
