import Adjudication.Noted

namespace Adjudication

inductive RoundStatus
  | processing
  | finalized
deriving DecidableEq, Inhabited

def RoundStatus.label : RoundStatus → String
  | processing => "Processing"
  | finalized => "Finalized"

/-- Where a node stands: the last finalized height, the phase in work at the next one, and the draw that
the phases of a height share. -/
structure Position where
  height : Nat := 0
  phase : Nat := 0
  status : RoundStatus := .processing
  draw : Nat := 0
  answer : Option String := none
  used : Bool := false
deriving DecidableEq, Inhabited

namespace Position

def activeKey (p : Position) : RoundKey := ⟨p.height + 1, p.phase⟩

def isFinalized (p : Position) : Bool := p.status == .finalized

/-- Entering another phase makes the draw usable again; entering the same one does not. -/
def beginPhase (p : Position) (phase : Nat) : Position :=
  { p with phase, status := .processing, used := if p.phase = phase then p.used else false }

/-- Finalizes the phase in work, if it still is the one named. -/
def finalizePhase (p : Position) (height phase : Nat) : Noted (Bool × Position) :=
  if p.height = height ∧ p.phase = phase then
    pure (true, { p with status := .finalized })
  else do
    log (.staleFinalization height phase p.height p.phase)
    return (false, p)

/-- Heights only go up; a new one starts at phase zero with nothing drawn. -/
def advanceHeight (p : Position) (height : Nat) : Bool × Position :=
  if height ≤ p.height then (false, p) else (true, { height })

def setDraw (p : Position) (draw : Nat) (answer : Option String) : Position :=
  { p with draw, answer, used := false }

/-- Marks the draw used; true if it was not yet. -/
def markUsed (p : Position) : Bool × Position := (!p.used, { p with used := true })

end Position

end Adjudication
