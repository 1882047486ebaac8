import Adjudication.Delivery
import Adjudication.Driving
import Adjudication.ScriptedPeer

namespace Adjudication

/-- Who answers at an address of the network. -/
inductive Endpoint
  | agent (index : Nat)
  | script (index : Nat)
deriving DecidableEq

/-- Agents and scripted peers on one network, in virtual time: it stands still while a task can run, and
then jumps to the moment at which the next one can. -/
structure World where
  now : Nat := 0
  clock : Int
  members : Members
  agents : List Agent := []
  scripts : List ScriptedPeer := []
  network : Network Endpoint := {}
  /-- The drivers, each with the place of the agent that it drives. -/
  drivers : List (Nat × Driver AppState) := []
  /-- The events logged, latest first, as far as they pass the threshold. -/
  journal : List Event := []
  threshold : Level := .error

/-- A task of an agent, or a driver, by their places. -/
inductive WorldTask
  | own (agent : Nat) (task : Task)
  | driver (index : Nat)

namespace World

def moment (w : World) : Moment := ⟨w.now, w.clock, w.members, 0⟩

def record (w : World) (events : List Event) : World :=
  { w with journal := (events.filter fun e => e.passes w.threshold).reverse ++ w.journal }

/-- All events so far, in order. -/
def events (w : World) : List Event := w.journal.reverse

def agent? (w : World) (i : Nat) : Option Agent := w.agents[i]?

def setAgent (w : World) (i : Nat) (a : Agent) : World := { w with agents := w.agents.set i a }

/-- Applies an operation to an agent; `none` if there is no such agent. -/
def onAgent {α : Type} (w : World) (i : Nat) (f : Agent → Noted (α × Agent)) : Option α × World :=
  match w.agent? i with
  | none => (none, w)
  | some a =>
    let done := f a
    let heard := a.reporter.hear done.notices
    (some done.value.1, (w.setAgent i (done.value.2.heed heard)).record heard.events)

def addAgent (w : World) (signer : Signer) (verifier : Verifier) (config : NodeConfig)
    (position : Position) (reporter : Reporter) : World :=
  let index := w.agents.length
  let node := Node.create signer verifier config position (.ofSeed (2 * index + 1))
  let appState : AppState := { entropy := .ofSeed (2 * index + 2), metrics := {} }
  let agent : Agent := { node := node.value, reporter, appState }
  { w with agents := w.agents ++ [agent] }.record (reporter.hear node.notices).events

/-- Adds a scripted peer; one that is offline is not on the network. -/
def addScript (w : World) (p : ScriptedPeer) (offline : Bool) : World :=
  let network :=
    if offline then w.network else w.network.register p.address (.script w.scripts.length)
  { w with scripts := w.scripts ++ [p], network }

/-- Lets a service answer a request; `none` if it crashes. -/
def handle (w : World) (service : Endpoint) (caller : Address) (request : Request) :
    Option Response × World :=
  match service with
  | .agent i =>
    match w.agent? i with
    | none => (none, w)
    | some a =>
      let (events, response, a) := a.receive w.moment caller request
      (response, (w.setAgent i a).record events)
  | .script i =>
    match w.scripts[i]? with
    | none => (none, w)
    | some p =>
      let (response, p) := p.answer w.clock request
      (response, { w with scripts := w.scripts.set i p })

/-- Lets a service answer a request that came in a frame of `size` bytes. -/
def handleFrame (w : World) (size : Nat) (receiver : Address) (service : Endpoint) (caller : Address)
    (request : Request) : Option Response × World :=
  match w.handle service caller request with
  | (none, w) => (none, w)
  | (some response, w) => (some response, w.record [.frameDelivered caller receiver size])

/-- Delivers a frame to the agent or scripted peer at its receiver. -/
def deliver (w : World) (sender receiver : Address) (frame : Bytes) : Landing × World :=
  w.network.deliver (fun service caller request w =>
    w.handleFrame frame.length receiver service caller request) sender receiver frame w

/-- Moves a call on: it departs, arrives or expires. A call that would arrive as it expires
arrives. -/
def carry (w : World) (sender receiver : Address) (timeout : Nat) : Transit → Transit × World
  | .departing request =>
    match Wire.toFrame Wire.request request with
    | .error e => (.landed (.answered (.error e)), w)
    | .ok frame =>
      if w.network.latency = 0 then
        let (landing, w) := w.deliver sender receiver frame
        (.landed landing, w)
      else (.travelling frame (w.now + w.network.latency) (w.now + timeout), w)
  | .travelling frame arrives expires =>
    if arrives ≤ w.now then
      let (landing, w) := w.deliver sender receiver frame
      (.landed landing, w)
    else if expires ≤ w.now then (.landed .timedOut, w)
    else (.travelling frame arrives expires, w)
  | .landed landing => (.landed landing, w)

/-- Moves a fill's request on. -/
def carryRequest (w : World) (i fill : Nat) (peer : Address) : World :=
  match w.agent? i with
  | none => w
  | some a =>
    match (a.fill? fill).bind fun f => f.flights.find? fun flight => flight.peer = peer with
    | none => w
    | some flight =>
      let (transit, w) := w.carry a.address peer a.node.config.gossip.requestTimeout flight.transit
      match w.agent? i with
      | none => w
      | some a => w.setAgent i { a with toExchanger := a.setTransit fill peer transit }

/-- Moves a heartbeat loop's probe on. -/
def carryProbe (w : World) (i loop : Nat) : World :=
  match w.agent? i with
  | none => w
  | some a =>
    match Assoc.get? loop a.heartbeats with
    | some { peer, stage := .probing transit, .. } =>
      let (transit, w) := w.carry a.address peer a.node.config.heartbeat.timeout transit
      match w.agent? i with
      | none => w
      | some a =>
        let heartbeats := a.heartbeats.map fun b =>
          if b.1 = loop then (loop, { b.2 with stage := .probing transit }) else b
        w.setAgent i { a with heartbeats }
    | _ => w

def stepDriver (w : World) (index : Nat) : World :=
  match w.drivers[index]? with
  | none => w
  | some (i, d) =>
    match w.agent? i with
    | none => w
    | some a =>
      let done := d.step a a.appState w.now
      let (d, a, appState) := done.value
      let heard := a.reporter.hear done.notices
      { w with drivers := w.drivers.set index (i, d) }.setAgent i { a with appState }
        |>.record heard.events

/-- Runs one step of a task. -/
def step (w : World) : WorldTask → World
  | .own i (.request fill peer) => w.carryRequest i fill peer
  | .own i (.probe loop) => w.carryProbe i loop
  | .own i task =>
    match w.agent? i with
    | none => w
    | some a =>
      let (events, a) := a.step w.moment task
      (w.setAgent i a).record events
  | .driver index => w.stepDriver index

/-- When each task has something to do next. -/
def agenda (w : World) : List (Nat × WorldTask) :=
  (w.agents.zipIdx.flatMap fun (a, i) => a.agenda.map fun (t, task) => (t, .own i task)) ++
    w.drivers.zipIdx.filterMap fun ((i, d), index) =>
      ((w.agent? i).bind d.readyAt).map fun t => (t, .driver index)

end World

end Adjudication
