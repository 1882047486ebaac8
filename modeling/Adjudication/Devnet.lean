import Adjudication.Application
import Adjudication.Election

namespace Adjudication.Devnet

def phases : Nat := 3

def kindOf (phase : Nat) : RoundKind :=
  if phase = 0 then .initial else if phases ≤ phase + 1 then .last else .middle

def payload (height phase draw : Nat) : String := s!"{height}/{phase}/draw={draw}"

/-- The first phase of a height draws anew; the others repeat the draw that the position holds. -/
def plan (p : Position) (s : AppState) : Option PhasePlan × Position × AppState :=
  let phase := p.nextPhase
  let planWith (p : Position) : Option PhasePlan :=
    some {
      phase, kind := kindOf phase
      payload := payload (p.height + 1) phase p.draw
      finalizeTimeout := Limits.finalizeTimeout }
  if phases ≤ phase then (none, p, s)
  else if phase = 0 then
    let (draw, entropy) := s.entropy.next
    let p := p.setDraw draw none
    (planWith p, p, { s with entropy })
  else (planWith p, p, s)

/-- Commits the height of a finalized last phase, unless it has been committed. -/
def commit (address : Address) (key : RoundKey) (entries : List (Address × String)) (p : Position)
    (s : AppState) : Noted (Except DriverError Unit × Position × AppState) :=
  match electProducer entries with
  | none => pure (.error (.application "finalized an empty set"), p, s)
  | some producer =>
    let (advanced, p) := p.advanceHeight key.height
    if advanced then do
      log (.heightCommitted key.height producer (producer = address))
      return (.ok (), p, { s with metrics := s.metrics.setHeight key.height })
    else pure (.ok (), p, s)

def accept (address : Address) (outcome : RoundOutcome) (elapsed : Nat) (p : Position)
    (s : AppState) : Noted (Except DriverError Unit × Position × AppState) :=
  let s := { s with metrics := s.metrics.observeRound elapsed outcome.isFinalized }
  match outcome with
  | .finalized key entries _ =>
    if key.phase + 1 < phases then pure (.ok (), p, s) else commit address key entries p s
  | .failed .. => pure (.ok (), p, s)

def application (address : Address) : Application AppState := ⟨plan, accept address⟩

end Adjudication.Devnet
