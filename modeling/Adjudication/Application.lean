import Adjudication.Entropy
import Adjudication.Limits
import Adjudication.Metrics
import Adjudication.Noted
import Adjudication.Outcome
import Adjudication.Position

namespace Adjudication

/-- A phase to be negotiated; the driver signs the payload. -/
structure PhasePlan where
  phase : Nat
  kind : RoundKind
  payload : String
  finalizeTimeout : Nat

inductive DriverError
  | application (reason : String)
  | shutdown
deriving DecidableEq

def DriverError.message : DriverError → String
  | application reason => s!"application error: {reason}"
  | shutdown => "round driver received shutdown signal"

def DriverError.label : DriverError → String
  | application _ => "Application"
  | shutdown => "Shutdown"

/-- What plans the rounds and takes their outcomes. Both may change the node's position, and what the
application keeps for itself. -/
structure Application (σ : Type) where
  /-- What to negotiate next, or `none` to wait. -/
  plan : Position → σ → Option PhasePlan × Position × σ
  /-- Takes an outcome and the milliseconds that the round took. -/
  accept : RoundOutcome → Nat → Position → σ → Noted (Except DriverError Unit × Position × σ)

/-- The application without plans at a height from `height` on. -/
def Application.upTo {σ : Type} (app : Application σ) (height : Nat) : Application σ :=
  { app with plan := fun p s => if height ≤ p.height then (none, p, s) else app.plan p s }

/-- What the applications of this library keep: a source of draws, and the node's metrics. -/
structure AppState where
  entropy : Entropy
  metrics : Metrics

/-- The phase to work on next: the one in work, or the one behind it once that is finalized. -/
def Position.nextPhase (p : Position) : Nat := if p.isFinalized then p.phase + 1 else p.phase

end Adjudication
