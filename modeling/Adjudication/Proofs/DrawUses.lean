import Adjudication.Position

namespace Adjudication

namespace Position

/-- What those who share a position can do with it. -/
inductive Op
  | beginPhase (phase : Nat)
  | finalizePhase (height phase : Nat)
  | advanceHeight (height : Nat)
  | setDraw (draw : Nat) (answer : Option String)
  | markUsed

def apply (p : Position) : Op → Position
  | .beginPhase phase => p.beginPhase phase
  | .finalizePhase height phase => (p.finalizePhase height phase).value.2
  | .advanceHeight height => (p.advanceHeight height).2
  | .setDraw draw answer => p.setDraw draw answer
  | .markUsed => p.markUsed.2

/-- What the marks of a sequence of operations answer, in order. -/
def answers : Position → List Op → List Bool
  | _, [] => []
  | p, .markUsed :: ops => p.markUsed.1 :: (p.apply .markUsed).answers ops
  | p, op :: ops => (p.apply op).answers ops

/-- The operation replaces the draw; a height that is not a later one does not. -/
def Redraws (p : Position) : Op → Prop
  | .setDraw .. => True
  | .advanceHeight height => (p.advanceHeight height).1 = true
  | .beginPhase _ | .finalizePhase .. | .markUsed => False

/-- The operation enters a phase that the position is not in. -/
def Shifts (p : Position) : Op → Prop
  | .beginPhase phase => p.phase ≠ phase
  | .setDraw .. | .advanceHeight _ | .finalizePhase .. | .markUsed => False

def Renews (p : Position) (op : Op) : Prop := p.Redraws op ∨ p.Shifts op

/-- No operation of the sequence is of the kind, at the position that it meets. -/
def Without (kind : Position → Op → Prop) : Position → List Op → Prop
  | _, [] => True
  | p, op :: ops => ¬ kind p op ∧ Without kind (p.apply op) ops

variable {p : Position} {op : Op} {ops : List Op}

/-- A draw that can be used stays so unless it is marked, and one that is used stays so unless it is
renewed. -/
theorem used_apply_iff (p : Position) (op : Op) :
    (p.apply op).used = true ↔ ¬ p.Renews op ∧ (p.used = true ∨ op = .markUsed) := by
  cases op with
  | beginPhase phase =>
    by_cases hphase : p.phase = phase
    · simp [apply, beginPhase, Renews, Redraws, Shifts, hphase]
    · simp [apply, beginPhase, Renews, Redraws, Shifts, hphase]
  | finalizePhase height phase =>
    have hkept : (p.finalizePhase height phase).value.2.used = p.used := by
      unfold finalizePhase
      split <;> rfl
    simp [apply, hkept, Renews, Redraws, Shifts]
  | advanceHeight height =>
    by_cases hold : height ≤ p.height
    · simp [apply, advanceHeight, Renews, Redraws, Shifts, hold]
    · simp [apply, advanceHeight, Renews, Redraws, Shifts, hold]
  | setDraw draw answer => simp [apply, setDraw, Renews, Redraws]
  | markUsed => simp [apply, markUsed, Renews, Redraws, Shifts]

/-- While a used draw is not renewed, no mark succeeds. -/
theorem answers_of_used (hused : p.used = true) (h : Without Renews p ops) :
    ∀ answer ∈ p.answers ops, answer = false := by
  induction ops generalizing p with
  | nil => exact fun _ hmem => absurd hmem List.not_mem_nil
  | cons op ops ih =>
    obtain ⟨hstays, hrest⟩ := h
    have hlater := ih ((used_apply_iff p op).mpr ⟨hstays, Or.inl hused⟩) hrest
    cases op with
    | markUsed =>
      have hfirst : p.markUsed.1 = false := by simp [markUsed, hused]
      exact List.forall_mem_cons.mpr ⟨hfirst, hlater⟩
    | _ => exact hlater

theorem count_answers_of_used (hused : p.used = true) (h : Without Renews p ops) :
    (p.answers ops).count true = 0 := by
  rw [List.count_eq_zero]
  intro hmem
  cases answers_of_used hused h true hmem

theorem count_answers_of_unused (hused : p.used = false) (h : Without Renews p ops) :
    ((p.answers ops).count true = 0 ∧ .markUsed ∉ ops) ∨
      ((p.answers ops).count true = 1 ∧ .markUsed ∈ ops) := by
  induction ops generalizing p with
  | nil => exact Or.inl ⟨rfl, List.not_mem_nil⟩
  | cons op ops ih =>
    obtain ⟨hstays, hrest⟩ := h
    have hother : op ≠ .markUsed → (p.apply op).used = false := by
      intro hne
      rw [Bool.eq_false_iff, ne_eq, used_apply_iff, hused]
      rintro ⟨-, hmarked | hmarked⟩
      · cases hmarked
      · exact hne hmarked
    cases op with
    | markUsed =>
      have hspent : (p.apply .markUsed).used = true :=
        (used_apply_iff p _).mpr ⟨hstays, Or.inr rfl⟩
      have hfirst : p.markUsed.1 = true := by simp [markUsed, hused]
      refine Or.inr ⟨?_, List.mem_cons_self⟩
      rw [answers, hfirst, List.count_cons_self, count_answers_of_used hspent hrest]
    | _ =>
      have hlater := ih (hother (by simp)) hrest
      simpa [answers] using hlater

/-- Between two renewals a draw is used at most once, and it is used if it could be and was marked. -/
theorem count_answers_of_without (h : Without Renews p ops) :
    (p.answers ops).count true ≤ 1 ∧
      ((p.answers ops).count true = 1 ↔ p.used = false ∧ .markUsed ∈ ops) := by
  cases hused : p.used with
  | true =>
    have hnone := count_answers_of_used hused h
    simp [hnone]
  | false =>
    rcases count_answers_of_unused hused h with ⟨hcount, hmarked⟩ | ⟨hcount, hmarked⟩
    · simp [hcount, hmarked]
    · simp [hcount, hmarked]

end Position

namespace TwoUses

open Position

def drawn : Position := ({} : Position).apply (.setDraw 17 none)

def onePhase : List Op := [.markUsed, .beginPhase 0, .advanceHeight 0, .markUsed]

def twoPhases : List Op := [.markUsed, .finalizePhase 0 0, .beginPhase 1, .markUsed]

theorem onePhase_without : Without Renews drawn onePhase := by
  simp [onePhase, Without, Renews, Redraws, Shifts, drawn, apply, setDraw, markUsed, beginPhase,
    advanceHeight]

theorem used_once_in_phase : Without Renews drawn onePhase ∧
    (drawn.answers onePhase).count true ≤ 1 ∧
    ((drawn.answers onePhase).count true = 1 ↔ drawn.used = false ∧ .markUsed ∈ onePhase) :=
  ⟨onePhase_without, count_answers_of_without onePhase_without⟩

/-- The second phase uses the draw of the first once more. -/
theorem used_in_both_phases :
    ¬ ∀ (p : Position) (ops : List Op), Without Redraws p ops → (p.answers ops).count true ≤ 1 := by
  intro h
  have hwithout : Without Redraws drawn twoPhases := by simp [twoPhases, Without, Redraws]
  exact absurd (h drawn twoPhases hwithout) (by decide)

end TwoUses

end Adjudication
