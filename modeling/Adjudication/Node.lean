import Adjudication.Admission
import Adjudication.Entropy
import Adjudication.Message
import Adjudication.Pruning
import Adjudication.Timing

namespace Adjudication

/-- What a node reads from outside itself: the time since the start in milliseconds, the wall clock,
the signing members, and which of the things that are ready at once it takes up. -/
structure Moment where
  now : Nat
  clock : Int
  members : Members
  choice : Nat

/-- One adjudicator's keys, position, caches and peer rows. Nothing here waits; what waits are the fills,
rounds and heartbeats. -/
structure Node where
  signer : Signer
  verifier : Verifier
  config : NodeConfig
  position : Position
  caches : Caches
  table : PeerTable
  replay : ReplayGuard
  entropy : Entropy
  /-- Whether the latest round got past collection. -/
  ready : Bool

/-- What a node tells about itself. -/
structure NodeStatus where
  address : Address
  height : Nat
  phase : Nat
  status : RoundStatus
  ready : Bool
  members : Nat
  connectedPeers : Nat
  freshPeers : Nat
  contributionKeys : Nat
  hashKeys : Nat
  peers : List PeerSummary

namespace Node

def create (signer : Signer) (verifier : Verifier) (config : NodeConfig) (position : Position)
    (entropy : Entropy) : Noted Node := do
  log (.nodeCreated signer.address position.height)
  return {
    signer, verifier, config, position, entropy
    caches := .empty config.cacheCapacity
    table := .empty
    replay := .standard
    ready := false }

def address (n : Node) : Address := n.signer.address

def activeKey (n : Node) : RoundKey := n.position.activeKey

def cache (n : Node) (kind : EntryKind) : Cache := n.caches.of kind

/-- Decides on an entry that a peer delivered. -/
def consider (n : Node) (members : Members) (peer : Address) (kind : EntryKind) (key : RoundKey)
    (address : Address) (entry : SignedEntry) : Noted (Except Offence Admitted × Node) := do
  let (result, cache) ←
    (n.cache kind).consider n.verifier members n.activeKey peer key address entry
  return (result, { n with caches := n.caches.set kind cache })

/-- Puts an entry straight into a cache; says whether it is new. -/
def put (n : Node) (kind : EntryKind) (key : RoundKey) (address : Address) (entry : SignedEntry) :
    Noted (Bool × Node) := do
  let (isNew, cache) ← (n.cache kind).insert key address entry
  return (isNew, { n with caches := n.caches.set kind cache })

/-- Puts an entry of the node's own making into a cache. -/
def publish (n : Node) (kind : EntryKind) (key : RoundKey) (entry : SignedEntry) : Noted Node := do
  return (← n.put kind key n.address entry).2

/-- Takes a peer's attestation. One that passes the guard overwrites the peer's row and prunes what
it makes stale; one that does not is held against the peer. -/
def observe (n : Node) (m : Moment) (peer : Address) (a : Attestation) :
    Noted (Except AttestationError (Option PeerRow) × Node) := do
  let (result, replay) ← n.replay.accept n.verifier a peer m.clock
  match result with
  | .error e =>
    accuse peer (.badAttestation e.message)
    return (.error e, { n with replay })
  | .ok _ =>
    let table := n.table.record peer a.height a.phase a.finalized m.now
    match table.get? peer with
    | none => return (.ok none, { n with replay, table })
    | some row =>
      log (.peerUpdated peer row.height row.phase row.finalized)
      let (_, caches) ← n.caches.prunePeer n.activeKey row.address row.phase row.finalized
      return (.ok (some row), { n with replay, table, caches })

/-- The node's own position, signed under a new nonce. -/
def attest (n : Node) (clock : Int) : Attestation × Node :=
  let (nonce, entropy) := n.entropy.next
  (.sign n.signer n.position clock nonce, { n with entropy })

/-- Takes up an entry that a caller offers: only the caller's own, and only for a round that it may
publish in by its last report. -/
def takeOffer (n : Node) (members : Members) (caller : Address) (kind : EntryKind) (key : RoundKey)
    (offered : AddressedEntry) : Noted Node :=
  if offered.address ≠ caller then do
    accuse caller (.malformed s!"offered entry for {offered.address}")
    return n
  else if !(n.table.get? caller).any fun row => row.MayPublish key then do
    log (.offerIgnored caller key)
    return n
  else do
    let (_, n) ← n.consider members caller kind key offered.address offered.entry
    return n

/-- Serves a gossip request with the first entry it has of those asked for, or with its position. -/
def serve (n : Node) (members : Members) (caller : Address) (kind : EntryKind)
    (request : GossipRequest) : Noted (Except RpcError GossipReply × Node) :=
  if Limits.maxMissing < request.missing.length then do
    let reason := s!"{request.missing.length} missing addresses, limit is {Limits.maxMissing}"
    accuse caller (.malformed reason)
    return (.error (.malformed reason), n)
  else do
    let n ← match request.offered with
      | none => pure n
      | some offered => n.takeOffer members caller kind request.key offered
    match (n.cache kind).firstPresent request.key request.missing with
    | some found =>
      log (.entryServed caller request.key found.address kind)
      return (.ok (.entry found), n)
    | none => return (.ok (.state n.position.toSummary), n)

/-- Answers a heartbeat with one of its own, unless the caller's is refused. -/
def answerHeartbeat (n : Node) (m : Moment) (caller : Address) (a : Attestation) :
    Noted (Except RpcError Attestation × Node) := do
  let (result, n) ← n.observe m caller a
  match result with
  | .error e => return (.error (.rejected e.message), n)
  | .ok _ =>
    let (own, n) := n.attest m.clock
    return (.ok own, n)

/-- Answers a call. -/
def answer (n : Node) (m : Moment) (caller : Address) : Request → Noted (Response × Node)
  | .roundState a => do
    let (result, n) ← n.answerHeartbeat m caller a
    return (match result with | .ok own => .roundState own | .error e => .failure e, n)
  | .gossip kind request => do
    let (result, n) ← n.serve m.members caller kind request
    return (match result with | .ok reply => .gossip reply | .error e => .failure e, n)

def signContribution (n : Node) (payload : String) : Signature :=
  n.signer.sign (contributionMessage payload)

def status (n : Node) (m : Moment) : NodeStatus where
  address := n.address
  height := n.position.height
  phase := n.position.phase
  status := n.position.status
  ready := n.ready
  members := m.members.size
  connectedPeers := n.table.size
  freshPeers := (n.table.fresh m.now n.config.heartbeat.freshness).length
  contributionKeys := n.caches.contributions.keyCount
  hashKeys := n.caches.hashes.keyCount
  peers := n.table.summaries m.now

/-- The description of a node's tracking of its peers. -/
def describeTracking (n : Node) : String :=
  Quoted.record "NodeStateTracker"
    [("address", Quoted.text n.address), ("peers", toString n.table.size)] true

end Node

end Adjudication
