import Adjudication.Proofs.DrivenNodes
import Mathlib.Data.List.Induction

namespace Adjudication

/-- The key of a walk that comes after `count` finalized ones, from the height above `start`. -/
def keyAt (start count : Nat) : RoundKey := ⟨start + 1 + count / Devnet.phases, count % Devnet.phases⟩

/-- The kinds of the rounds of a height, phase by phase. -/
def phaseKinds : List RoundKind := [.initial, .middle, .last]

/-- The keys that were finalized, in order. -/
def finalizedKeys (story : List Remark) : List RoundKey :=
  story.filterMap fun
    | .accepted (.finalized key _ _) => some key
    | .accepted (.failed _ _) | .planned _ _ => none

/-- The heights whose last phase is among the keys, in their order. -/
def completed (keys : List RoundKey) : List Nat :=
  (keys.filter fun key => key.phase + 1 = Devnet.phases).map (·.height)

/-- A remark in a walk with `count` finalized keys, with a round underway or not, and what it leaves. -/
inductive WalkStep (start : Nat) : Nat → Bool → Remark → Nat → Bool → Prop
  | plan (count : Nat) (plan : PhasePlan) (phase : plan.phase = (keyAt start count).phase)
      (kind : phaseKinds[plan.phase]? = some plan.kind) :
      WalkStep start count false (.planned (keyAt start count).height plan) count true
  | fail (count : Nat) (reason : RoundFailure) :
      WalkStep start count true (.accepted (.failed (keyAt start count) reason)) count false
  | finalize (count : Nat) (entries : List (Address × String)) (digest : String) :
      WalkStep start count true (.accepted (.finalized (keyAt start count) entries digest))
        (count + 1) false

/-- A story that is a walk so far. -/
inductive Walk (start : Nat) : List Remark → Nat → Bool → Prop
  | nil : Walk start [] 0 false
  | snoc {story : List Remark} {count count' : Nat} {underway underway' : Bool} {remark : Remark}
      (init : Walk start story count underway) (last : WalkStep start count underway remark count' underway') :
      Walk start (story ++ [remark]) count' underway'

variable {start count count' : Nat} {underway underway' : Bool} {story before after : List Remark}
  {remark : Remark}

section Keys

/-- Below the last phase the walk goes on at its height. -/
theorem keyAt_succ_of_lt (h : (keyAt start count).phase + 1 < Devnet.phases) :
    keyAt start (count + 1) = ⟨(keyAt start count).height, (keyAt start count).phase + 1⟩ := by
  simp only [keyAt, Devnet.phases, RoundKey.mk.injEq] at h ⊢
  omega

theorem keyAt_succ_of_last (h : (keyAt start count).phase + 1 = Devnet.phases) :
    keyAt start (count + 1) = ⟨(keyAt start count).height + 1, 0⟩ := by
  simp only [keyAt, Devnet.phases, RoundKey.mk.injEq] at h ⊢
  omega

theorem keyAt_phase_lt (start count : Nat) : (keyAt start count).phase < Devnet.phases :=
  Nat.mod_lt _ (by decide)

theorem phaseKinds_eq {phase : Nat} (h : phase < Devnet.phases) :
    phaseKinds[phase]? = some (Devnet.kindOf phase) := by
  have hkinds : ∀ phase < Devnet.phases, phaseKinds[phase]? = some (Devnet.kindOf phase) := by decide
  exact hkinds phase h

theorem completed_append (keys keys' : List RoundKey) :
    completed (keys ++ keys') = completed keys ++ completed keys' := by
  simp [completed]

theorem completed_of_last {key : RoundKey} (h : key.phase + 1 = Devnet.phases) :
    completed [key] = [key.height] := by
  simp [completed, h]

theorem completed_of_ne {key : RoundKey} (h : key.phase + 1 ≠ Devnet.phases) : completed [key] = [] := by
  simp [completed, h]

/-- The walk completes the heights above the start one after the other. -/
theorem completed_keyAt (start count : Nat) :
    completed ((List.range count).map (keyAt start)) =
      (List.range (count / Devnet.phases)).map (start + 1 + ·) := by
  induction count with
  | zero => rfl
  | succ count ih =>
    rw [List.range_succ, List.map_append, completed_append, ih, List.map_singleton]
    by_cases hlast : (keyAt start count).phase + 1 = Devnet.phases
    · have hnext : (count + 1) / Devnet.phases = count / Devnet.phases + 1 := by
        simp only [keyAt, Devnet.phases] at hlast ⊢
        omega
      rw [completed_of_last hlast, hnext, List.range_succ, List.map_append]
      rfl
    · have hsame : (count + 1) / Devnet.phases = count / Devnet.phases := by
        simp only [keyAt, Devnet.phases] at hlast ⊢
        omega
      rw [completed_of_ne hlast, hsame, List.append_nil]

end Keys

@[simp] theorem finalizedKeys_append :
    finalizedKeys (story ++ after) = finalizedKeys story ++ finalizedKeys after := List.filterMap_append

namespace Walk

theorem snoc_inv (w : Walk start (story ++ [remark]) count' underway') :
    ∃ count underway, Walk start story count underway ∧
      WalkStep start count underway remark count' underway' := by
  generalize hwhole : story ++ [remark] = whole at w
  cases w with
  | nil => simp at hwhole
  | snoc init last =>
    obtain ⟨rfl, hlast⟩ := List.append_inj' hwhole rfl
    cases hlast
    exact ⟨_, _, init, last⟩

/-- What is told of a walk so far was a walk before. -/
theorem of_append (w : Walk start (before ++ after) count underway) :
    ∃ count' underway', Walk start before count' underway' := by
  induction after using List.reverseRecOn generalizing count underway with
  | nil =>
    rw [List.append_nil] at w
    exact ⟨count, underway, w⟩
  | append_singleton after remark ih =>
    rw [← List.append_assoc] at w
    obtain ⟨_, _, hinit, _⟩ := w.snoc_inv
    exact ih hinit

theorem at_split (w : Walk start (before ++ remark :: after) count underway) :
    ∃ count' underway' count'' underway'', Walk start before count' underway' ∧
      WalkStep start count' underway' remark count'' underway'' ∧
      Walk start (before ++ [remark]) count'' underway'' := by
  rw [List.append_cons] at w
  obtain ⟨count'', underway'', hupto⟩ := w.of_append
  obtain ⟨count', underway', hbefore, hstep⟩ := hupto.snoc_inv
  exact ⟨count', underway', count'', underway'', hbefore, hstep, hupto⟩

/-- The finalized keys are the first ones of the walk, each once. -/
theorem keys_eq (w : Walk start story count underway) :
    finalizedKeys story = (List.range count).map (keyAt start) := by
  induction w with
  | nil => rfl
  | snoc init last ih =>
    rw [finalizedKeys_append, ih]
    cases last with
    | plan => exact List.append_nil _
    | fail => exact List.append_nil _
    | finalize => rw [List.range_succ, List.map_append]; rfl

theorem length_keys (w : Walk start story count underway) : (finalizedKeys story).length = count := by
  rw [w.keys_eq, List.length_map, List.length_range]

/-- A plan is for the key after the finalized ones, and its kind is that of its phase. -/
theorem of_planned {height : Nat} {plan : PhasePlan}
    (w : Walk start (before ++ .planned height plan :: after) count underway) :
    ⟨height, plan.phase⟩ = keyAt start (finalizedKeys before).length ∧
      phaseKinds[plan.phase]? = some plan.kind := by
  obtain ⟨_, _, _, _, hbefore, hstep, _⟩ := w.at_split
  rw [hbefore.length_keys]
  cases hstep with
  | plan plan phase kind =>
    rw [phase] at kind ⊢
    exact ⟨rfl, kind⟩

theorem outcome_step {outcome : RoundOutcome}
    (h : WalkStep start count underway (.accepted outcome) count' underway') :
    underway = true ∧ underway' = false ∧ outcome.key = keyAt start count ∧
      count' = if outcome.isFinalized then count + 1 else count := by
  cases h with
  | fail => exact ⟨rfl, rfl, rfl, rfl⟩
  | finalize => exact ⟨rfl, rfl, rfl, rfl⟩

/-- A round is underway from its plan on. -/
theorem planned_of_underway (w : Walk start story count true) :
    ∃ earlier plan, story = earlier ++ [.planned (keyAt start count).height plan] ∧
      plan.phase = (keyAt start count).phase := by
  cases w with
  | snoc init last =>
    cases last with
    | plan plan phase => exact ⟨_, plan, rfl, phase⟩

/-- Every outcome answers the plan right before it. -/
theorem of_accepted {outcome : RoundOutcome}
    (w : Walk start (before ++ .accepted outcome :: after) count underway) :
    ∃ earlier plan, before = earlier ++ [.planned outcome.key.height plan] ∧
      plan.phase = outcome.key.phase := by
  obtain ⟨_, _, _, _, hbefore, hstep, _⟩ := w.at_split
  obtain ⟨rfl, _, hkey, _⟩ := outcome_step hstep
  rw [hkey]
  exact hbefore.planned_of_underway

/-- A key that has failed is planned for again. -/
theorem of_failed {key : RoundKey} {reason : RoundFailure}
    (w : Walk start (before ++ .accepted (.failed key reason) :: after) count underway) :
    after = [] ∧ underway = false ∨
      ∃ plan rest, after = .planned key.height plan :: rest ∧ plan.phase = key.phase := by
  cases after with
  | nil =>
    obtain ⟨_, _, _, hstep⟩ := w.snoc_inv
    exact Or.inl ⟨rfl, (outcome_step hstep).2.1⟩
  | cons remark rest =>
    refine Or.inr ?_
    rw [List.append_cons] at w
    obtain ⟨_, _, _, _, hupto, hnext, _⟩ := w.at_split
    obtain ⟨_, _, hbefore, hfail⟩ := hupto.snoc_inv
    cases hfail with
    | fail =>
      cases hnext with
      | plan plan phase => exact ⟨plan, rest, rfl, phase⟩

end Walk

end Adjudication
