import Adjudication.Application
import Adjudication.Entry

namespace Adjudication.PhaseWalk

def plan (address : Address) (kinds : List RoundKind) (finalizeTimeout : Nat) (p : Position)
    (s : AppState) : Option PhasePlan × Position × AppState :=
  let phase := p.nextPhase
  let payload := s!"{p.height + 1}:{phase}:" ++ String.ofList (address.toList.take 8)
  let planned := kinds[phase]?.map fun kind =>
    { phase, kind, payload, finalizeTimeout : PhasePlan }
  (planned, p, s)

def accept (count : Nat) (rejecting : Bool) (outcome : RoundOutcome) (p : Position) (s : AppState) :
    Noted (Except DriverError Unit × Position × AppState) :=
  let p :=
    if outcome.isFinalized && outcome.key.phase + 1 = count then
      (p.advanceHeight outcome.key.height).2
    else p
  pure (if rejecting then .error (.application "no thanks") else .ok (), p, s)

def application (address : Address) (kinds : List RoundKind) (finalizeTimeout : Nat)
    (rejecting : Bool) : Application AppState :=
  ⟨plan address kinds finalizeTimeout, fun outcome _ => accept kinds.length rejecting outcome⟩

end Adjudication.PhaseWalk
