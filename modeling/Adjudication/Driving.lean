import Adjudication.Agent

namespace Adjudication

inductive DriverStage
  | starting
  | planning
  | inRound (round : Nat) (since : Nat)
  | sleeping (wake : Nat)
  | stopped
deriving DecidableEq

/-- Asks its application for a plan, runs the round, and hands over the outcome; after a failure, and when
there is nothing to do, it sleeps. A shutdown ends it at its next pause, in the middle of a round too. -/
structure Driver (σ : Type) where
  app : Application σ
  signalled : Bool := false
  stage : DriverStage := .starting
  finalized : Nat := 0
  failed : Nat := 0
  /-- The outcomes handed to the application, latest first. -/
  accepted : List RoundOutcome := []

namespace Driver

variable {σ : Type}

/-- Sleeps for a while; a pause of no length only lets other tasks run. -/
def pause (d : Driver σ) (now delay : Nat) : Driver σ :=
  { d with stage := if delay = 0 then .planning else .sleeping (now + delay) }

/-- Asks for a plan and starts its round, unless the signal has come. -/
def plan (d : Driver σ) (a : Agent) (s : σ) (now : Nat) : Noted (Driver σ × Agent × σ) :=
  if d.signalled then do
    log .driverStopped
    return ({ d with stage := .stopped }, a, s)
  else
    let (planned, position, s) := d.app.plan a.node.position s
    let a := a.setNode { a.node with position }
    match planned with
    | none => pure (d.pause now a.node.config.driver.idleDelay, a, s)
    | some planned =>
      let (round, a) := a.startRound planned (a.node.signContribution planned.payload) now
      pure ({ d with stage := .inRound round now }, a, s)

/-- Counts an outcome, hands it to the application, and pauses. -/
def conclude (d : Driver σ) (a : Agent) (s : σ) (now : Nat) (outcome : RoundOutcome) (elapsed : Nat) :
    Noted (Driver σ × Agent × σ) := do
  let (d, delay) ← match outcome with
    | .finalized key .. => do
      log (.driverSawFinalized key elapsed)
      pure ({ d with finalized := d.finalized + 1 }, 0)
    | .failed key reason => do
      log (.driverSawFailure key reason)
      pure ({ d with failed := d.failed + 1 }, a.node.config.driver.retryDelay)
  let (result, position, s) ← d.app.accept outcome elapsed a.node.position s
  match result with
  | .ok _ => pure ()
  | .error e => log (.outcomeRejected e.message)
  let d := { d with accepted := outcome :: d.accepted }
  return (d.pause now delay, a.setNode { a.node with position }, s)

/-- One step of a driver, when it is ready for one. -/
def step (d : Driver σ) (a : Agent) (s : σ) (now : Nat) : Noted (Driver σ × Agent × σ) :=
  match d.stage with
  | .starting => do
    log (.driverStarting a.address)
    d.plan a s now
  | .planning => d.plan a s now
  | .inRound round since =>
    match a.outcome? round with
    | some outcome => d.conclude (a.dropRound round) s now outcome (now - since)
    | none =>
      if d.signalled then do
        log .driverStoppedMidRound
        return ({ d with stage := .stopped }, a.dropRound round, s)
      else pure (d, a, s)
  | .sleeping _ =>
    if d.signalled then do
      log .driverStoppedAsleep
      return ({ d with stage := .stopped }, a, s)
    else d.plan a s now
  | .stopped => pure (d, a, s)

/-- When the driver has something to do next. -/
def readyAt (d : Driver σ) (a : Agent) : Option Nat :=
  match d.stage with
  | .starting | .planning => some 0
  | .inRound round _ => if d.signalled || (a.outcome? round).isSome then some 0 else none
  | .sleeping wake => if d.signalled then some 0 else some wake
  | .stopped => none

end Driver

end Adjudication
