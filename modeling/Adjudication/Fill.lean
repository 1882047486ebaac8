import Adjudication.Node
import Adjudication.Transit

namespace Adjudication

structure Flight where
  peer : Address
  transit : Transit

inductive FillStage
  | starting
  /-- Asked for `missing`, and waiting to ask anew at `wake`. -/
  | waiting (missing : List Address) (wake : Nat)
  | complete
  | stopped
  | crashed

def FillStage.isEnd : FillStage → Bool
  | starting | waiting .. => false
  | complete | stopped | crashed => true

/-- The pulling of a round's entries from peers until none is missing. In each batch every peer that works
on the round, and has no request of this fill under way, is asked for the missing entries, each from
another place of the list on; the node's own entry rides along on the first request to a peer. -/
structure Fill where
  kind : EntryKind
  key : RoundKey
  targets : List Address
  /-- The requests under way or landed, at most one to a peer. -/
  flights : List Flight := []
  single : (flights.map (·.peer)).Nodup := by exact List.nodup_nil
  offeredTo : List Address := []
  merged : Nat := 0
  cancelled : Bool := false
  /-- Whether someone still waits for its end. -/
  held : Bool := true
  stage : FillStage := .starting

/-- The list turned left by the `index`-th of `count` equal parts, and cut to what one request may
ask for. -/
def rotatedSlice (missing : List Address) (index count : Nat) : List Address :=
  let offset := index * missing.length / max count 1 % missing.length
  (missing.drop offset ++ missing.take offset).take Limits.maxMissing

namespace Fill

def isEnded (f : Fill) : Bool := f.stage.isEnd

/-- The targets that have no entry yet. -/
def missing (f : Fill) (n : Node) : List Address :=
  let cache := n.cache f.kind
  f.targets.filter fun address => !cache.contains f.key address

def isBusy (f : Fill) (peer : Address) : Bool := f.flights.any fun flight => flight.peer = peer

theorem isBusy_iff {f : Fill} {peer : Address} : f.isBusy peer = true ↔ peer ∈ f.flights.map (·.peer) := by
  simp [isBusy]

theorem single_of_free {f : Fill} {peer : Address} (h : ¬ f.isBusy peer = true) (transit : Transit) :
    ((f.flights ++ [Flight.mk peer transit]).map (·.peer)).Nodup := by
  rw [isBusy_iff] at h
  rw [List.map_append]
  refine List.nodup_append.mpr ⟨f.single, List.pairwise_singleton _ _, ?_⟩
  rintro busy hbusy _ hnew rfl
  rw [List.mem_singleton.mp hnew] at hbusy
  exact h hbusy

/-- The node's own entry, for a peer that was not offered it before. -/
def offer? (f : Fill) (n : Node) (peer : Address) : Option AddressedEntry :=
  if peer ∈ f.offeredTo then none
  else ((n.cache f.kind).get? f.key n.address).map fun entry => ⟨n.address, entry⟩

/-- Sends a request to the peer at place `index` of `count`, unless one is under way. -/
def ask (f : Fill) (n : Node) (missing : List Address) (count index : Nat) (peer : Address) : Fill :=
  if h : f.isBusy peer then f
  else
    let offered := f.offer? n peer
    let request := .gossip f.kind ⟨f.key, rotatedSlice missing index count, offered⟩
    { f with
      flights := f.flights ++ [⟨peer, .departing request⟩]
      single := single_of_free h _
      offeredTo := if offered.isSome then peer :: f.offeredTo else f.offeredTo }

def askAll (f : Fill) (n : Node) (missing : List Address) : Fill :=
  let peers := (n.table.toList.filter fun row => row.WorksOn f.key).map (·.address)
  peers.zipIdx.foldl (fun f p => f.ask n missing peers.length p.2 p.1) f

/-- The fill at its end; requests under way are given up. -/
def ended (f : Fill) (stage : FillStage) : Fill :=
  { f with stage, flights := [], single := List.nodup_nil }

def finish (f : Fill) (stage : FillStage) : Noted Fill := do
  log (.fillEnded f.merged)
  return f.ended stage

/-- Starts a batch, or ends the fill if nothing is missing or it was cancelled. -/
def batch (f : Fill) (n : Node) (now : Nat) : Noted (Fill × Node) :=
  let (missing, entropy) := shuffle (f.missing n) n.entropy
  let n := { n with entropy }
  if missing.isEmpty then do
    log (.fillComplete f.merged)
    return (← f.finish .complete, n)
  else if f.cancelled then do
    return (← f.finish .stopped, n)
  else
    pure ({ f.askAll n missing with stage := .waiting missing (now + n.config.gossip.batch) }, n)

/-- Takes up what came of a request for `missing`; says whether it brought a new entry. -/
def absorb (f : Fill) (n : Node) (members : Members) (peer : Address) (missing : List Address) :
    Landing → Noted (Bool × Node)
  | .crashed => do
    log (.requestCrashed (some peer))
    return (false, n)
  | .timedOut => do
    log (.requestTimedOut peer)
    return (false, n)
  | .answered reply =>
    match reply >>= Response.gossipReply with
    | .error e => do
      log (.requestFailed peer e.message)
      return (false, n)
    | .ok (.state s) => do
      log (.nothingOffered peer s.height s.phase s.finalized)
      return (false, n)
    | .ok (.entry found) =>
      if found.address ∉ missing then
        -- another peer may have delivered it in the meantime
        if (n.cache f.kind).contains f.key found.address then pure (false, n)
        else do
          accuse peer (.unsolicited found.address)
          return (false, n)
      else do
        let (result, n) ← n.consider members peer f.kind f.key found.address found.entry
        match result with
        | .ok .inserted =>
          log (.entryMerged peer found.address)
          return (true, n)
        | _ => return (false, n)

/-- The fill once it has joined its request to a peer, which brought a new entry or did not. -/
def joined (f : Fill) (peer : Address) (isNew : Bool) : Fill :=
  { f with
    flights := f.flights.filter fun flight => flight.peer ≠ peer
    single := f.single.sublist (List.filter_sublist.map _)
    merged := if isNew then f.merged + 1 else f.merged }

/-- News of a request leave each to the peer that it went to. -/
theorem map_peer_carried (flights : List Flight) (peer : Address) (transit : Transit) :
    (flights.map fun flight => if flight.peer = peer then { flight with transit } else flight).map
      (·.peer) = flights.map (·.peer) := by
  rw [List.map_map]
  refine List.map_congr_left fun flight _ => ?_
  dsimp only [Function.comp]
  split <;> rfl

/-- The fill with news of its request to a peer. -/
def carried (f : Fill) (peer : Address) (transit : Transit) : Fill :=
  { f with
    flights := f.flights.map fun flight => if flight.peer = peer then { flight with transit } else flight
    single := map_peer_carried f.flights peer transit ▸ f.single }

/-- What a waiting fill can take up. -/
inductive Branch
  | cancellation
  | landing (peer : Address) (landing : Landing)
  | window

/-- What a fill that waits until `wake` can take up. -/
def ready (f : Fill) (wake now : Nat) : List Branch :=
  (if f.cancelled then [.cancellation] else []) ++
    (f.flights.filterMap fun flight => flight.transit.landing?.map fun landing =>
      .landing flight.peer landing) ++
    (if wake ≤ now then [.window] else [])

/-- The one of the ready branches that the choice of the moment falls on. -/
def branch? (f : Fill) (wake : Nat) (m : Moment) : Option Branch :=
  (f.ready wake m.now)[m.choice % (f.ready wake m.now).length]?

/-- One step of a fill, when it is ready for one. -/
def step (f : Fill) (n : Node) (m : Moment) : Noted (Fill × Node) :=
  match f.stage with
  | .starting => f.batch n m.now
  | .waiting missing wake =>
    match f.branch? wake m with
    | none => pure (f, n)
    | some .cancellation => do
      return (← f.finish .stopped, n)
    | some (.landing peer landing) => do
      let (isNew, n) ← f.absorb n m.members peer missing landing
      let f := f.joined peer isNew
      if isNew && (f.missing n).isEmpty then f.batch n m.now else return (f, n)
    | some .window => f.batch n m.now
  | _ => pure (f, n)

/-- When the fill has something to do next. -/
def readyAt (f : Fill) : Option Nat :=
  match f.stage with
  | .starting => some 0
  | .waiting _ wake =>
    if f.cancelled || f.flights.any (·.transit.landing?.isSome) then some 0 else some wake
  | _ => none

end Fill

end Adjudication
