import Adjudication.Node
import Adjudication.Transit

namespace Adjudication

inductive HeartbeatStage
  | waking
  | probing (transit : Transit)
  | resting (wake : Nat)

/-- A loop that wakes once per poll interval and, when an interval has passed since its last probe, sends
the peer the node's attestation and takes the peer's in return. -/
structure Heartbeat where
  peer : Address
  lastProbe : Option Nat := none
  cancelled : Bool := false
  stage : HeartbeatStage := .waking

namespace Heartbeat

def rest (b : Heartbeat) (n : Node) (now : Nat) : Heartbeat :=
  { b with stage := .resting (now + n.config.heartbeat.poll) }

/-- Probes the peer if that is due. -/
def wake (b : Heartbeat) (n : Node) (m : Moment) : Heartbeat × Node :=
  if b.lastProbe.all fun at_ => n.config.heartbeat.interval ≤ m.now - at_ then
    let (own, n) := n.attest m.clock
    ({ b with lastProbe := some m.now, stage := .probing (.departing (.roundState own)) }, n)
  else (b.rest n m.now, n)

/-- Takes up what came of a probe. -/
def absorb (b : Heartbeat) (n : Node) (m : Moment) : Landing → Noted Node
  | .crashed => pure n
  | .timedOut => do
    log (.heartbeatTimedOut b.peer)
    return n
  | .answered reply =>
    match reply >>= Response.attestation with
    | .error e => do
      log (.heartbeatFailed b.peer e.message)
      return n
    | .ok a => do
      let (result, n) ← n.observe m b.peer a
      match result with
      | .error e => log (.heartbeatRefused b.peer e.message)
      | .ok _ => pure ()
      return n

/-- Whether something is ready for the loop besides a cancellation. -/
def isReady (b : Heartbeat) (now : Nat) : Bool :=
  match b.stage with
  | .waking | .probing (.landed _) => true
  | .probing _ => false
  | .resting wake => wake ≤ now

/-- Whether the loop takes up a cancellation, which may have to stand back for what else is ready. -/
def Ends (b : Heartbeat) (m : Moment) : Prop := b.cancelled ∧ (b.isReady m.now → m.choice % 2 = 0)

instance (b : Heartbeat) (m : Moment) : Decidable (b.Ends m) := inferInstanceAs (Decidable (_ ∧ _))

def finish (b : Heartbeat) (n : Node) : Noted (Option Heartbeat × Node) := do
  log (.heartbeatEnded b.peer)
  return (none, n)

/-- One step of a heartbeat loop; `none` when the loop has ended. A crash of the peer ends it too. -/
def step (b : Heartbeat) (n : Node) (m : Moment) : Noted (Option Heartbeat × Node) :=
  if b.Ends m then b.finish n
  else
    match b.stage with
    | .probing (.landed .crashed) => pure (none, n)
    | .probing (.landed landing) => do
      let n ← b.absorb n m landing
      if b.cancelled then b.finish n else return (some (b.rest n m.now), n)
    | .probing _ => pure (some b, n)
    | .waking | .resting _ =>
      let (b, n) := b.wake n m
      pure (some b, n)

/-- When the loop has something to do next; what a call on its way does is not its doing. -/
def readyAt (b : Heartbeat) : Option Nat :=
  if b.cancelled then some 0
  else
    match b.stage with
    | .waking | .probing (.landed _) => some 0
    | .probing _ => none
    | .resting wake => some wake

end Heartbeat

end Adjudication
