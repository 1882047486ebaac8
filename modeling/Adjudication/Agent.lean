import Adjudication.Application
import Adjudication.Heartbeat
import Adjudication.Round

namespace Adjudication

/-- What becomes of accusations: they are logged, or kept, or end the task that makes one. -/
inductive Reporter
  | logging
  | recording
  | exploding
deriving DecidableEq

/-- What notices leave behind. -/
structure Heard where
  events : List Event := []
  reports : List (Address × Offence) := []
  crashed : Bool := false

/-- Hears the notices of a step in order; nothing is heard of a task after it crashed. -/
def Reporter.hear (reporter : Reporter) : List Notice → Heard
  | [] => {}
  | .event e :: rest =>
    let heard := reporter.hear rest
    { heard with events := e :: heard.events }
  | .accusation peer offence :: rest =>
    match reporter with
    | .logging =>
      let heard := hear .logging rest
      { heard with events := .peerMisbehaved peer offence :: heard.events }
    | .recording =>
      let heard := hear .recording rest
      { heard with reports := (peer, offence) :: heard.reports }
    | .exploding => { crashed := true }

inductive NodeError
  | peerLimit (limit : Nat)
  | selfConnect
deriving DecidableEq

namespace NodeError

def message : NodeError → String
  | peerLimit limit => s!"peer limit of {limit} reached"
  | selfConnect => "refusing to connect to self"

def label : NodeError → String
  | peerLimit _ => "PeerLimit"
  | selfConnect => "SelfConnect"

end NodeError

/-- A node with everything that it has under way: its fills, its rounds and one heartbeat loop for every
connected peer. Between two steps of a task any others may run. -/
structure Agent extends Exchanger where
  reporter : Reporter
  /-- The accusations kept, latest first. -/
  reports : List (Address × Offence) := []
  heartbeats : List (Nat × Heartbeat) := []
  /-- The loop of each connected peer. -/
  loops : List (Address × Nat) := []
  nextLoop : Nat := 0
  rounds : List (Nat × RoundRun) := []
  nextRound : Nat := 0
  appState : AppState

/-- The tasks of an agent; a call is a step of its own for the fill or heartbeat loop it belongs to. -/
inductive Task
  | request (fill : Nat) (peer : Address)
  | probe (loop : Nat)
  | fill (id : Nat)
  | heartbeat (loop : Nat)
  | round (id : Nat)
deriving DecidableEq

namespace Agent

def address (a : Agent) : Address := a.node.address

def setNode (a : Agent) (node : Node) : Agent := { a with node }

/-- Gives a peer a new row and a new heartbeat loop, in place of those it had. -/
def track (a : Agent) (peer : Address) : Noted Agent := do
  let heartbeats := a.heartbeats.map fun b =>
    if Assoc.get? peer a.loops = some b.1 then (b.1, { b.2 with cancelled := true }) else b
  log (.peerConnected peer)
  return { a with
    node := { a.node with table := a.node.table.connect peer }
    heartbeats := heartbeats ++ [(a.nextLoop, { peer, cancelled := a.stopped })]
    loops := Assoc.insert peer a.nextLoop a.loops
    nextLoop := a.nextLoop + 1 }

/-- Connects a peer, unless it is the node itself or a new one beyond the limit. -/
def connect (a : Agent) (peer : Address) : Noted (Except NodeError Unit × Agent) :=
  let limit := a.node.config.maxPeers
  if peer = a.address then pure (.error .selfConnect, a)
  else if (a.node.table.get? peer).isNone && limit ≤ a.node.table.size then do
    log (.peerLimitReached peer limit)
    return (.error (.peerLimit limit), a)
  else do
    return (.ok (), ← a.track peer)

/-- Cancels a peer's loop and removes its row; says whether there was either. -/
def disconnect (a : Agent) (peer : Address) : Noted (Bool × Agent) := do
  let loop := Assoc.get? peer a.loops
  let heartbeats := a.heartbeats.map fun b =>
    if loop = some b.1 then (b.1, { b.2 with cancelled := true }) else b
  let known := (a.node.table.get? peer).isSome
  logIf known (.peerDisconnected peer)
  return (known || loop.isSome, { a with
    node := { a.node with table := a.node.table.disconnect peer }
    heartbeats
    loops := Assoc.erase peer a.loops })

/-- How many of the connected peers' loops are running. -/
def runningLoops (a : Agent) : Nat :=
  a.loops.countP fun l => Assoc.contains l.2 a.heartbeats

/-- Cancels all fills and heartbeat loops, those to come included. -/
def shutDown (a : Agent) : Noted Agent := do
  log (.nodeShuttingDown a.address)
  return { a with
    toExchanger := a.cancelAll
    heartbeats := a.heartbeats.map fun b => (b.1, { b.2 with cancelled := true })
    loops := [] }

/-- Schedules a round with a signed contribution. -/
def startRound (a : Agent) (plan : PhasePlan) (signature : Signature) (startsAt : Nat) : Nat × Agent :=
  let round := {
    phase := plan.phase, contribution := ⟨plan.payload, signature⟩
    finalizeTimeout := plan.finalizeTimeout, kind := plan.kind, startsAt : RoundRun }
  (a.nextRound, { a with
    rounds := Assoc.insert a.nextRound round a.rounds
    nextRound := a.nextRound + 1 })

def round? (a : Agent) (id : Nat) : Option RoundRun := Assoc.get? id a.rounds

def outcome? (a : Agent) (id : Nat) : Option RoundOutcome := (a.round? id).bind RoundRun.outcome?

/-- Drops a round, ended or not; its fill is let go. -/
def dropRound (a : Agent) (id : Nat) : Agent :=
  let fill := (a.round? id).bind RoundRun.fill?
  { a with
    toExchanger := match fill with | some f => a.releaseFill f | none => a.toExchanger
    rounds := Assoc.erase id a.rounds }

/-- The step of a task that is the agent's own affair; a call needs the network. -/
def stepOwn (a : Agent) (m : Moment) : Task → Noted Agent
  | .fill id => do
    return { a with toExchanger := ← a.toExchanger.stepFill id m }
  | .heartbeat loop =>
    match Assoc.get? loop a.heartbeats with
    | none => pure a
    | some b => do
      let (next, node) ← b.step a.node m
      let heartbeats := match next with
        | some b => Assoc.insert loop b a.heartbeats
        | none => Assoc.erase loop a.heartbeats
      return { a with node, heartbeats }
  | .round id =>
    match a.round? id with
    | none => pure a
    | some r => do
      let (r, x) ← r.step a.toExchanger m
      return { a with toExchanger := x, rounds := Assoc.insert id r a.rounds }
  | .request .. | .probe _ => pure a

/-- What a crash does to the task that crashed. -/
def crash (a : Agent) : Task → Agent
  | .fill id => { a with toExchanger := a.crashFill id }
  | .heartbeat loop => { a with heartbeats := Assoc.erase loop a.heartbeats }
  | .request .. | .probe _ | .round _ => a

/-- Keeps what a step reported. -/
def heed (a : Agent) (heard : Heard) : Agent := { a with reports := heard.reports.reverse ++ a.reports }

/-- Runs a task's own step: the events it logged, and the agent after it. -/
def step (a : Agent) (m : Moment) (task : Task) : List Event × Agent :=
  let done := a.stepOwn m task
  let heard := a.reporter.hear done.notices
  let a := done.value.heed heard
  (heard.events, if heard.crashed then a.crash task else a)

/-- Answers a call of a peer; `none` if that crashed, which the caller's task does not survive. -/
def receive (a : Agent) (m : Moment) (caller : Address) (request : Request) :
    List Event × Option Response × Agent :=
  let done := a.node.answer m caller request
  let heard := a.reporter.hear done.notices
  let a := (a.setNode done.value.2).heed heard
  (heard.events, if heard.crashed then none else some done.value.1, a)

/-- When each task has something to do next. -/
def agenda (a : Agent) : List (Nat × Task) :=
  let requests := a.fills.flatMap fun f => f.2.flights.filterMap fun flight =>
    match flight.transit with
    | .landed _ => none
    | transit => some (transit.readyAt, .request f.1 flight.peer)
  let probes := a.heartbeats.filterMap fun b =>
    match b.2.stage with
    | .probing (.landed _) => none
    | .probing transit => some (transit.readyAt, .probe b.1)
    | _ => none
  let fills := a.fills.filterMap fun f => f.2.readyAt.map fun t => (t, .fill f.1)
  let heartbeats := a.heartbeats.filterMap fun b => b.2.readyAt.map fun t => (t, .heartbeat b.1)
  let rounds := a.rounds.filterMap fun r => (r.2.readyAt a.toExchanger).map fun t => (t, .round r.1)
  requests ++ probes ++ fills ++ heartbeats ++ rounds

end Agent

end Adjudication
