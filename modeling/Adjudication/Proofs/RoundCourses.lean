import Adjudication.Proofs.KeyInWork
import Adjudication.Proofs.RoundStrides

namespace Adjudication

/-- A round takes a step only when it is ready for one. -/
def Move.isDue (a : Agent) (now : Nat) : Move → Bool
  | .task (.round id) => (a.round? id).all fun r => (r.readyAt a.toExchanger).any (· ≤ now)
  | _ => true

namespace Agent

/-- A move at a moment before which nothing of the agent's own was left undone. -/
def OnTime (now : Nat) (a : Agent) (m : Moment) (v : Move) : Prop :=
  now ≤ m.now ∧ (∀ e ∈ a.agenda, m.now ≤ max now e.1) ∧ v.isDue a m.now = true

instance (now : Nat) (a : Agent) (m : Moment) (v : Move) : Decidable (OnTime now a m v) :=
  inferInstanceAs (Decidable (_ ∧ _))

/-- All moves of a script are on time, from a time on. -/
def Punctual : Nat → Agent → Script → Prop
  | _, _, [] => True
  | now, a, v :: script => OnTime now a v.1 v.2 ∧ Punctual v.1.now (a.act v.1 v.2) script

instance decidablePunctual : ∀ (now : Nat) (a : Agent) (script : Script),
    Decidable (Punctual now a script)
  | _, _, [] => .isTrue trivial
  | _, a, v :: script =>
    have := decidablePunctual v.1.now (a.act v.1 v.2) script
    inferInstanceAs (Decidable (_ ∧ _))

end Agent

/-- A loop of a round: it looks for what a fill brings, or for peers that are behind. -/
inductive Loop
  | filling (kind : EntryKind) (fill : Nat)
  | catchingUp
deriving DecidableEq

def Goal.loop (goal : Goal) (fill : Nat) : Loop := .filling goal.kind fill

/-- How long a round stays in a loop. -/
def Pace.limit (p : Pace) : Loop → Nat
  | .filling .contribution _ => p.collection
  | .filling .hash _ => p.tally
  | .catchingUp => p.catchUp

def RoundStage.loop? : RoundStage → Option Loop
  | .polling goal _ fill .. | .leaving goal fill _ => some (goal.loop fill)
  | .catchingUp .. => some .catchingUp
  | _ => none

/-- The loop in which a step from one stage to another takes a look. -/
def RoundStage.lookIn? : RoundStage → RoundStage → Option Loop
  | .polling goal _ fill .., .ended .. => some (goal.loop fill)
  | .catchingUp .., .ended .. | .leaving .., .ended (.finalized ..) .. => some .catchingUp
  | .ended .., _ => none
  | _, stage => stage.loop?

structure Look where
  loop : Loop
  time : Nat
deriving DecidableEq

/-- What is seen of a round while an agent goes through a script. -/
structure Course where
  agent : Agent
  now : Nat
  /-- The looks of the round, latest first. -/
  looks : List Look := []
  /-- The fills that the round has started. -/
  fills : List Nat := []
  /-- How often the height has changed. -/
  changes : Nat := 0

/-- The look of a round between two states of its agent. -/
def Agent.lookIn? (a b : Agent) (id : Nat) : Option Loop :=
  (a.round? id).bind fun r => (b.round? id).bind fun r' => r.stage.lookIn? r'.stage

namespace Course

def next (id : Nat) (s : Course) (v : Moment × Move) : Course :=
  let b := s.agent.act v.1 v.2
  let steps := v.2.isStep id
  { agent := b
    now := v.1.now
    looks := if steps then ((s.agent.lookIn? b id).map fun loop => ⟨loop, v.1.now⟩).toList ++ s.looks
      else s.looks
    fills := if steps then
        List.range' s.agent.nextFill (b.nextFill - s.agent.nextFill) ++ s.fills
      else s.fills
    changes := if b.node.position.height = s.agent.node.position.height then s.changes
      else s.changes + 1 }

end Course

/-- The course of a round through a script that begins at a time. -/
def Agent.course (a : Agent) (id now : Nat) (script : Script) : Course :=
  script.foldl (Course.next id) { agent := a, now }

/-- How many looks of a loop came sooner after the one before than after a pause; latest look first. -/
def earlyLooks (pause : Nat) (loop : Loop) : List Look → Nat
  | later :: earlier :: rest =>
    (if later.loop = loop ∧ earlier.loop = loop ∧ later.time < earlier.time + pause then 1 else 0) +
      earlyLooks pause loop (earlier :: rest)
  | _ => 0

/-- Every look after which its loop goes on comes before the loop's time is up, counted from any look of
the loop so far; latest look first. -/
def InTime (limit : Loop → Nat) (looks : List Look) : Prop :=
  ∀ later l earlier, looks = later ++ l :: earlier → (∃ l' ∈ later, l'.loop = l.loop) →
    ∀ l₀ ∈ l :: earlier, l₀.loop = l.loop → l.time < l₀.time + limit l.loop

/-- The longest time from the start of one attempt to that of the next. -/
def Pace.span (p : Pace) : Nat := p.collection + p.tally + 2 * p.poll

/-- The most looks of one attempt. -/
def Pace.quota (p : Pace) : Nat := p.collection + p.tally + 4

namespace Agent

variable {a : Agent} {id now : Nat} {script : Script}

@[simp] theorem course_nil : a.course id now [] = { agent := a, now } := rfl

theorem course_snoc (a : Agent) (id now : Nat) (script : Script) (v : Moment × Move) :
    a.course id now (script ++ [v]) = (a.course id now script).next id v := by
  simp only [course, List.foldl_append, List.foldl_cons, List.foldl_nil]

@[simp] theorem course_agent (a : Agent) (id now : Nat) (script : Script) :
    (a.course id now script).agent = a.run script := by
  induction script using List.reverseRecOn with
  | nil => rfl
  | append_singleton script v ih =>
    rw [course_snoc, run_append]
    exact congrArg (fun b => b.act v.1 v.2) ih

theorem punctual_snoc (id : Nat) {v : Moment × Move} (h : Punctual now a (script ++ [v])) :
    Punctual now a script ∧ OnTime (a.course id now script).now (a.run script) v.1 v.2 := by
  have hstart : ∀ (s : Course) (script : Script), Punctual s.now s.agent (script ++ [v]) →
      Punctual s.now s.agent script ∧
        OnTime (script.foldl (Course.next id) s).now (s.agent.run script) v.1 v.2 := by
    intro s script
    induction script generalizing s with
    | nil => exact fun h => ⟨trivial, h.1⟩
    | cons u script ih =>
      rintro ⟨hu, hrest⟩
      obtain ⟨hscript, hv⟩ := ih (s.next id u) hrest
      exact ⟨⟨hu, hscript⟩, hv⟩
  exact hstart { agent := a, now } script h

end Agent

theorem earlyLooks_cons_of_ne {pause : Nat} {loop : Loop} {l : Look} (looks : List Look)
    (h : l.loop ≠ loop) : earlyLooks pause loop (l :: looks) = earlyLooks pause loop looks := by
  cases looks with
  | nil => rfl
  | cons l' looks => simp [earlyLooks, h]

theorem earlyLooks_cons_of_late {pause : Nat} {loop : Loop} {l : Look} {looks : List Look}
    (h : ∀ l' ∈ looks.head?, l'.loop = loop → l'.time + pause ≤ l.time) :
    earlyLooks pause loop (l :: looks) = earlyLooks pause loop looks := by
  cases looks with
  | nil => rfl
  | cons l' looks =>
    have hlate := h l' rfl
    rw [earlyLooks, if_neg, Nat.zero_add]
    rintro ⟨_, hloop, hearly⟩
    have hl := hlate hloop
    omega

theorem earlyLooks_cons_le (pause : Nat) (loop : Loop) (l : Look) (looks : List Look) :
    earlyLooks pause loop (l :: looks) ≤ earlyLooks pause loop looks + 1 := by
  cases looks with
  | nil => exact Nat.zero_le _
  | cons l' looks =>
    rw [earlyLooks]
    split <;> omega

theorem earlyLooks_eq_zero {pause : Nat} {loop : Loop} {looks : List Look}
    (h : ∀ l ∈ looks, l.loop ≠ loop) : earlyLooks pause loop looks = 0 := by
  induction looks with
  | nil => rfl
  | cons l looks ih =>
    rw [earlyLooks_cons_of_ne looks (h l List.mem_cons_self)]
    exact ih fun l' hl' => h l' (List.mem_cons_of_mem l hl')

theorem InTime.cons {limit : Loop → Nat} {l : Look} {looks : List Look} (h : InTime limit looks)
    (hl : ∀ l₁ ∈ looks, l₁.loop = l.loop → ∀ l₀ ∈ looks, l₀.loop = l.loop →
      l₁.time < l₀.time + limit l.loop) : InTime limit (l :: looks) := by
  intro later l₁ earlier hsplit hlater l₀ hl₀ hloop
  cases later with
  | nil =>
    obtain ⟨l', hl', _⟩ := hlater
    cases hl'
  | cons l₂ later =>
    obtain ⟨rfl, rfl⟩ := List.cons.inj hsplit
    obtain ⟨l', hl', hsame⟩ := hlater
    rcases List.mem_cons.mp hl' with rfl | hl'
    · rw [← hsame] at hloop ⊢
      refine hl l₁ (List.mem_append_right _ List.mem_cons_self) hsame.symm l₀ ?_ hloop
      exact List.mem_append_right _ hl₀
    · exact h later l₁ earlier rfl ⟨l', hl', hsame⟩ l₀ hl₀ hloop

end Adjudication
