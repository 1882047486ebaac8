import Adjudication.World

namespace Adjudication

namespace World

/-- The earliest of some tasks; of several, the first. -/
def earliest : List (Nat × WorldTask) → Option (Nat × WorldTask)
  | [] => none
  | x :: xs => some (xs.foldl (fun best y => if y.1 < best.1 then y else best) x)

/-- What can run now comes before what can run later, whatever moment it has been ready since. -/
def nextTask (w : World) : Option (Nat × WorldTask) :=
  earliest (w.agenda.map fun (t, task) => (max t w.now, task))

/-- Runs tasks until `done` holds, nothing is left to do before `limit`, or `fuel` steps have been
taken. -/
def run (done : World → Bool) (limit : Option Nat) : Nat → World → World
  | 0, w => w
  | fuel + 1, w =>
    if done w then w
    else
      match w.nextTask with
      | none => w
      | some (t, task) =>
        if limit.any (· ≤ t) then w else run done limit fuel ({ w with now := t }.step task)

/-- More steps than any run in reasonable time takes. -/
def stepLimit : Nat := 1000000000000

/-- Runs everything before a moment, which is then the present. -/
def advance (w : World) (time : Nat) : World :=
  let w := run (fun _ => false) (some time) stepLimit w
  { w with now := max w.now time }

/-- Runs everything that can run at the present moment. -/
def settle (w : World) : World := run (fun _ => false) (some (w.now + 1)) stepLimit w

def sleep (w : World) (duration : Nat) : World := w.advance (w.now + duration)

/-- Runs until something has come about. -/
def await (w : World) (done : World → Bool) : World := run done none stepLimit w

/-- A call from outside the agents, which takes as long as the network takes. -/
def call (w : World) (sender receiver : Address) (request : Request) : Landing × World :=
  match w.carry sender receiver 0 (.departing request) with
  | (.travelling frame arrives _, w) => (w.advance arrives).deliver sender receiver frame
  | (.landed landing, w) => (landing, w)
  | (.departing _, w) => (.timedOut, w)

/-- Makes an agent reachable under an address. -/
def join (w : World) (i : Nat) (address : Address) : World :=
  { w with network := w.network.register address (.agent i) }

/-- Connects an agent to an address, unless that is its own; says what stood against it. -/
def connect (w : World) (i : Nat) (address : Address) : List NodeError × World :=
  match w.onAgent i fun a => if address = a.address then pure (.ok (), a) else a.connect address with
  | (some (.error e), w) => ([e], w)
  | (_, w) => ([], w)

/-- Connects every agent to all others and to all scripted peers; says what stood against it. -/
def connectMesh (w : World) : List NodeError × World :=
  let addresses := w.agents.map (·.address) ++ w.scripts.map (·.address)
  let pairs := (List.range w.agents.length).flatMap fun i => addresses.map fun address => (i, address)
  pairs.foldl (fun (errors, w) (i, address) =>
    let (more, w) := w.connect i address
    (errors ++ more, w)) ([], w)

/-- Shuts an agent down and waits for its heartbeat loops to exit. -/
def shutDown (w : World) (i : Nat) : World :=
  let (_, w) := w.onAgent i fun a => do return ((), ← a.shutDown)
  w.settle.record [.trackerStopped]

def startFill (w : World) (i : Nat) (kind : EntryKind) (key : RoundKey) (targets : List Address) :
    Nat × World :=
  match w.agent? i with
  | none => (0, w)
  | some a =>
    let (fill, x) := a.startFill kind key targets
    (fill, w.setAgent i { a with toExchanger := x })

def isFillEnded (w : World) (i fill : Nat) : Bool := (w.agent? i).all fun a => a.isFillEnded fill

/-- Cancels a fill; one that is not kept is let go as well. -/
def cancelFill (w : World) (i fill : Nat) (keep : Bool) : World :=
  match w.agent? i with
  | none => w
  | some a =>
    w.setAgent i { a with toExchanger := if keep then a.cancelFill fill else a.releaseFill fill }

/-- Cancels all fills of an agent, those to come included. -/
def cancelFills (w : World) (i : Nat) : World :=
  match w.agent? i with
  | none => w
  | some a => w.setAgent i { a with toExchanger := a.cancelAll }

def startRound (w : World) (i : Nat) (plan : PhasePlan) (signature : Option Signature)
    (startsAt : Nat) : Nat × World :=
  match w.agent? i with
  | none => (0, w)
  | some a =>
    let signature := signature.getD (a.node.signContribution plan.payload)
    let (round, a) := a.startRound plan signature startsAt
    (round, w.setAgent i a)

def round? (w : World) (i round : Nat) : Option RoundRun := (w.agent? i).bind fun a => a.round? round

def isRoundEnded (w : World) (i round : Nat) : Bool :=
  (w.round? i round).all fun r => r.outcome?.isSome

def dropRound (w : World) (i round : Nat) : World :=
  match w.agent? i with
  | none => w
  | some a => w.setAgent i (a.dropRound round)

def startDriver (w : World) (i : Nat) (app : Application AppState) (signalled : Bool) : Nat × World :=
  (w.drivers.length, { w with drivers := w.drivers ++ [(i, { app, signalled })] })

/-- Gives all drivers the signal to shut down. -/
def signalDrivers (w : World) : World :=
  { w with drivers := w.drivers.map fun (i, d) => (i, { d with signalled := true }) }

def areDriversStopped (w : World) : Bool := w.drivers.all fun d => d.2.stage = .stopped

end World

end Adjudication
