import Adjudication.Entry
import Adjudication.Offence
import Adjudication.Outcome
import Adjudication.PeerTable
import Adjudication.RoundKey

namespace Adjudication

inductive Level
  | error
  | warn
  | info
  | debug
  | trace
deriving DecidableEq, Inhabited

namespace Level

/-- Less severe levels have greater ranks. -/
def rank : Level → Nat
  | error => 1
  | warn => 2
  | info => 3
  | debug => 4
  | trace => 5

def label : Level → String
  | error => "ERROR"
  | warn => "WARN"
  | info => "INFO"
  | debug => "DEBUG"
  | trace => "TRACE"

def ofLabel? (s : String) : Option Level :=
  [error, warn, info, debug, trace].find? fun level => level.label = s

end Level

inductive FieldValue
  | text (s : String)
  | number (n : Nat)
  | flag (b : Bool)
deriving DecidableEq

def FieldValue.render : FieldValue → String
  | text s => s
  | number n => toString n
  | flag b => toString b

/-- What a failed round leaves in the log about its node. -/
structure FailureReport where
  key : RoundKey
  reason : RoundFailure
  height : Nat
  phase : Nat
  finalized : Bool
  members : Nat
  contributions : Nat
  hashes : Nat
  contributionKeys : Nat
  hashKeys : Nat
  peers : List PeerSummary

inductive Event
  -- caches, admission, pruning
  | entryCached (kind : EntryKind) (key : RoundKey) (address : Address)
  | roundsSwept (kind : EntryKind) (active : RoundKey) (removed : Nat)
  | keysEvicted (kind : EntryKind) (removed : Nat)
  | lateEntry (peer : Address) (key active : RoundKey)
  | prematureEntry (peer : Address) (key active : RoundKey)
  | peerMisbehaved (peer : Address) (offence : Offence)
  | noncesEvicted (removed : Nat)
  | entriesPruned (peer : Address) (peerPhase : Nat) (peerFinalized : Bool) (active : RoundKey)
      (contributions hashes evictedKeys : Nat)
  | staleFinalization (height phase currentHeight currentPhase : Nat)
  -- serving peers
  | offerIgnored (caller : Address) (key : RoundKey)
  | entryServed (caller : Address) (key : RoundKey) (address : Address) (kind : EntryKind)
  | frameDelivered (sender receiver : Address) (bytes : Nat)
  -- heartbeats
  | peerUpdated (peer : Address) (height phase : Nat) (finalized : Bool)
  | peerConnected (peer : Address)
  | peerDisconnected (peer : Address)
  | peerLimitReached (peer : Address) (limit : Nat)
  | heartbeatRefused (peer : Address) (reason : String)
  | heartbeatFailed (peer : Address) (reason : String)
  | heartbeatTimedOut (peer : Address)
  | heartbeatEnded (peer : Address)
  | trackerStopped
  -- gossip
  | fillComplete (merged : Nat)
  | fillEnded (merged : Nat)
  | requestCrashed (peer : Option Address)
  | requestFailed (peer : Address) (reason : String)
  | requestTimedOut (peer : Address)
  | nothingOffered (peer : Address) (height phase : Nat) (finalized : Bool)
  | entryMerged (peer address : Address)
  -- rounds
  | contributionPublished (key : RoundKey)
  | collectionComplete (key : RoundKey) (count need waited : Nat)
  | collectionRestarted (key : RoundKey) (newHeight : Nat)
  | hashPublished (key : RoundKey) (digest : String)
  | hashMajorityReached (key : RoundKey) (agreeing need : Nat)
  | tallyRestarted (key : RoundKey) (newHeight : Nat)
  | catchUpExpired (key : RoundKey) (behind : List Address)
  | roundFinalized (key : RoundKey) (entries : Nat) (digest : String) (elapsed : Nat)
  | roundFailed (report : FailureReport)
  -- nodes and drivers
  | nodeCreated (address : Address) (height : Nat)
  | nodeShuttingDown (address : Address)
  | driverStarting (address : Address)
  | driverStopped
  | driverStoppedMidRound
  | driverStoppedAsleep
  | driverSawFinalized (key : RoundKey) (elapsed : Nat)
  | driverSawFailure (key : RoundKey) (reason : RoundFailure)
  | outcomeRejected (reason : String)
  | heightCommitted (height : Nat) (producer : Address) (isLocal : Bool)
  -- the program
  | programStarting (adjudicators apiPort metricsPort : Nat)
  | loggingStarted (format : String)
  | keyGenerated (address : Address) (path : String)

namespace Event

open FieldValue Level

/-- Level, message and fields. -/
def parts : Event → Level × String × List (String × FieldValue)
  | entryCached kind key address =>
    (trace, "entry cached", [("kind", text kind.label), ("key", text key.text), ("address", text address)])
  | roundsSwept kind active removed =>
    (debug, "swept rounds behind window",
      [("kind", text kind.label), ("active", text active.text), ("removed", number removed)])
  | keysEvicted kind removed =>
    (debug, "evicted round keys", [("kind", text kind.label), ("removed", number removed)])
  | lateEntry peer key active =>
    (trace, "late entry dropped",
      [("peer", text peer), ("key", text key.text), ("active", text active.text)])
  | prematureEntry peer key active =>
    (trace, "premature entry dropped",
      [("peer", text peer), ("key", text key.text), ("active", text active.text)])
  | peerMisbehaved peer offence =>
    (warn, "peer misbehaviour", [("peer", text peer), ("offense", text offence.message)])
  | noncesEvicted removed =>
    (trace, "replay guard evicted old nonces", [("removed", number removed)])
  | entriesPruned peer peerPhase peerFinalized active contributions hashes evictedKeys =>
    (debug, "pruned stale round entries",
      [("peer", text peer), ("peer_phase", number peerPhase), ("peer_finalized", flag peerFinalized),
        ("active", text active.text), ("contributions", number contributions),
        ("hashes", number hashes), ("evicted_keys", number evictedKeys)])
  | staleFinalization height phase currentHeight currentPhase =>
    (debug, "stale phase finalization ignored",
      [("height", number height), ("phase", number phase), ("current_height", number currentHeight),
        ("current_phase", number currentPhase)])
  | offerIgnored caller key =>
    (trace, "offer outside caller's reported round ignored",
      [("caller", text caller), ("key", text key.text)])
  | entryServed caller key address kind =>
    (trace, "serving entry",
      [("caller", text caller), ("key", text key.text), ("address", text address),
        ("kind", text kind.label)])
  | frameDelivered sender receiver bytes =>
    (trace, "frame delivered",
      [("from", text sender), ("to", text receiver), ("bytes", number bytes)])
  | peerUpdated peer height phase finalized =>
    (trace, "peer state updated",
      [("peer", text peer), ("height", number height), ("phase", number phase),
        ("finalized", flag finalized)])
  | peerConnected peer => (info, "peer connected", [("peer", text peer)])
  | peerDisconnected peer => (info, "peer disconnected", [("peer", text peer)])
  | peerLimitReached peer limit =>
    (warn, "peer limit reached, rejecting connection", [("peer", text peer), ("max", number limit)])
  | heartbeatRefused peer reason =>
    (debug, "heartbeat reply refused", [("peer", text peer), ("error", text reason)])
  | heartbeatFailed peer reason =>
    (trace, "heartbeat failed", [("peer", text peer), ("error", text reason)])
  | heartbeatTimedOut peer => (trace, "heartbeat timed out", [("peer", text peer)])
  | heartbeatEnded peer => (trace, "heartbeat loop exited", [("peer", text peer)])
  | trackerStopped => (debug, "node state tracker stopped", [])
  | fillComplete merged => (debug, "fill complete", [("merged", number merged)])
  | fillEnded merged => (trace, "fill loop exited", [("merged", number merged)])
  | requestCrashed peer =>
    (debug, "gossip request task failed",
      [("peer", text (Quoted.option (peer.map Quoted.text))), ("error", text "task panicked")])
  | requestFailed peer reason =>
    (trace, "gossip request failed", [("peer", text peer), ("error", text reason)])
  | requestTimedOut peer => (trace, "gossip request timed out", [("peer", text peer)])
  | nothingOffered peer height phase finalized =>
    (trace, "peer had nothing to offer",
      [("peer", text peer), ("height", number height), ("phase", number phase),
        ("finalized", flag finalized)])
  | entryMerged peer address =>
    (trace, "gossip entry merged", [("peer", text peer), ("address", text address)])
  | contributionPublished key => (debug, "contribution published", [("key", text key.text)])
  | collectionComplete key count need waited =>
    (debug, "collection complete",
      [("key", text key.text), ("count", number count), ("need", number need),
        ("waited", number waited)])
  | collectionRestarted key newHeight =>
    (info, "height changed during collection, restarting",
      [("key", text key.text), ("new_height", number newHeight)])
  | hashPublished key digest =>
    (debug, "hash published", [("key", text key.text), ("digest", text digest)])
  | hashMajorityReached key agreeing need =>
    (debug, "hash majority reached",
      [("key", text key.text), ("matches", number agreeing), ("need", number need)])
  | tallyRestarted key newHeight =>
    (info, "height changed during tally, restarting",
      [("key", text key.text), ("new_height", number newHeight)])
  | catchUpExpired key behind =>
    (debug, "catch-up wait expired",
      [("key", text key.text), ("behind", text (Quoted.list (behind.map Quoted.text)))])
  | roundFinalized key entries digest elapsed =>
    (info, "round finalized",
      [("key", text key.text), ("entries", number entries), ("digest", text digest),
        ("elapsed_ms", number elapsed)])
  | roundFailed r =>
    (warn, "round failed",
      [("key", text r.key.text), ("reason", text r.reason.message), ("height", number r.height),
        ("phase", number r.phase),
        ("status", text (if r.finalized then "Finalized" else "Processing")),
        ("members", number r.members), ("contributions", number r.contributions),
        ("hashes", number r.hashes), ("contribution_keys", number r.contributionKeys),
        ("hash_keys", number r.hashKeys),
        ("peers", text (Quoted.list (r.peers.map PeerSummary.describe)))])
  | nodeCreated address height =>
    (info, "adjudicator node created", [("address", text address), ("height", number height)])
  | nodeShuttingDown address =>
    (info, "adjudicator node shutting down", [("address", text address)])
  | driverStarting address => (info, "round driver starting", [("address", text address)])
  | driverStopped => (info, "round driver received shutdown signal, exiting cleanly", [])
  | driverStoppedMidRound => (info, "round driver shutting down mid-round", [])
  | driverStoppedAsleep => (info, "round driver shutting down during sleep", [])
  | driverSawFinalized key elapsed =>
    (debug, "driver saw finalized round", [("key", text key.text), ("elapsed_ms", number elapsed)])
  | driverSawFailure key reason =>
    (debug, "driver saw failed round, will retry",
      [("key", text key.text), ("reason", text reason.message)])
  | outcomeRejected reason =>
    (warn, "application rejected round outcome", [("error", text reason)])
  | heightCommitted height producer isLocal =>
    (info, "height committed",
      [("height", number height), ("producer", text producer), ("local", flag isLocal)])
  | programStarting adjudicators apiPort metricsPort =>
    (info, "starting arbiter-node",
      [("adjudicators", number adjudicators), ("api_port", number apiPort),
        ("metrics_port", number metricsPort)])
  | loggingStarted format => (debug, "logging initialized", [("format", text format)])
  | keyGenerated address path =>
    (info, "adjudicator keypair generated", [("address", text address), ("key_path", text path)])

def level (e : Event) : Level := e.parts.1

def message (e : Event) : String := e.parts.2.1

def fields (e : Event) : List (String × FieldValue) := e.parts.2.2

/-- Where in the program an event comes from, by the names that log filters know. -/
def target : Event → String
  | programStarting .. | keyGenerated .. => "arbiter_node"
  | loggingStarted _ => "arbiter_node::logging"
  | heightCommitted .. => "arbiter_node::devnet"
  | _ => "arbiter_protocol"

/-- Whether an event is logged at a threshold: it is at least as severe. -/
def passes (e : Event) (threshold : Level) : Bool := e.level.rank ≤ threshold.rank

end Event

end Adjudication
