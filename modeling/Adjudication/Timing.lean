import Adjudication.Limits
import Adjudication.Outcome

namespace Adjudication

/-- Times are milliseconds. -/
structure RoundTiming where
  initialCollection : Nat := Limits.initialCollection
  followupCollection : Nat := Limits.followupCollection
  grace : Nat := Limits.grace
  settle : Nat := Limits.settle
  catchUp : Nat := Limits.catchUp
  pollSetting : Nat := Limits.roundPoll
  freshness : Nat := Limits.freshness
deriving DecidableEq, Inhabited

def RoundTiming.poll (t : RoundTiming) : Nat := max t.pollSetting 1

def RoundTiming.collectionDeadline (t : RoundTiming) (kind : RoundKind) : Nat :=
  kind.collectionDeadline t.initialCollection t.followupCollection

structure GossipTiming where
  batchSetting : Nat := Limits.gossipBatch
  requestTimeout : Nat := Limits.gossipTimeout
deriving DecidableEq, Inhabited

def GossipTiming.batch (t : GossipTiming) : Nat := max t.batchSetting 1

structure HeartbeatTiming where
  interval : Nat := Limits.heartbeatInterval
  timeout : Nat := Limits.heartbeatTimeout
  pollSetting : Nat := Limits.heartbeatPoll
  freshness : Nat := Limits.freshness
deriving DecidableEq, Inhabited

def HeartbeatTiming.poll (t : HeartbeatTiming) : Nat := max t.pollSetting 1

structure DriverTiming where
  retryDelay : Nat := Limits.retryDelay
  idleDelay : Nat := Limits.idleDelay
deriving DecidableEq, Inhabited

structure NodeConfig where
  round : RoundTiming := {}
  gossip : GossipTiming := {}
  heartbeat : HeartbeatTiming := {}
  driver : DriverTiming := {}
  cacheCapacity : Nat := Limits.cacheCapacity
  maxPeers : Nat := Limits.maxPeers
deriving DecidableEq, Inhabited

/-- The times that the parts of a node go by, with their names. -/
def NodeConfig.times (c : NodeConfig) : List (String × Nat) := [
  ("round_poll", c.round.poll), ("grace", c.round.grace), ("settle", c.round.settle),
  ("catch_up", c.round.catchUp), ("round_fresh", c.round.freshness), ("gossip_batch", c.gossip.batch),
  ("gossip_timeout", c.gossip.requestTimeout), ("beat_interval", c.heartbeat.interval),
  ("beat_timeout", c.heartbeat.timeout), ("beat_poll", c.heartbeat.poll),
  ("beat_fresh", c.heartbeat.freshness)]

end Adjudication
