import Adjudication.Json.Reader
import Adjudication.Json.Value
import Adjudication.Timing

namespace Adjudication

def naturalField {α : Type} (name : String) (get : α → Nat) (set : α → Nat → α) : Json.Field α :=
  .of name get set fun _ => Json.natural

def RoundTiming.jsonFields : List (Json.Field RoundTiming) := [
  naturalField "initial_collection_ms" (·.initialCollection) fun t n => { t with initialCollection := n },
  naturalField "followup_collection_ms" (·.followupCollection) fun t n => { t with followupCollection := n },
  naturalField "grace_ms" (·.grace) fun t n => { t with grace := n },
  naturalField "settle_ms" (·.settle) fun t n => { t with settle := n },
  naturalField "catch_up_timeout_ms" (·.catchUp) fun t n => { t with catchUp := n },
  naturalField "poll_interval_ms" (·.pollSetting) fun t n => { t with pollSetting := n },
  naturalField "freshness_window_ms" (·.freshness) fun t n => { t with freshness := n }]

def GossipTiming.jsonFields : List (Json.Field GossipTiming) := [
  naturalField "batch_interval_ms" (·.batchSetting) fun t n => { t with batchSetting := n },
  naturalField "request_timeout_ms" (·.requestTimeout) fun t n => { t with requestTimeout := n }]

def HeartbeatTiming.jsonFields : List (Json.Field HeartbeatTiming) := [
  naturalField "interval_ms" (·.interval) fun t n => { t with interval := n },
  naturalField "timeout_ms" (·.timeout) fun t n => { t with timeout := n },
  naturalField "poll_interval_ms" (·.pollSetting) fun t n => { t with pollSetting := n },
  naturalField "freshness_window_ms" (·.freshness) fun t n => { t with freshness := n }]

def DriverTiming.jsonFields : List (Json.Field DriverTiming) := [
  naturalField "retry_delay_ms" (·.retryDelay) fun t n => { t with retryDelay := n },
  naturalField "idle_delay_ms" (·.idleDelay) fun t n => { t with idleDelay := n }]

def NodeConfig.jsonFields : List (Json.Field NodeConfig) := [
  .of "round" (·.round) (fun c t => { c with round := t }) (Json.record RoundTiming.jsonFields),
  .of "gossip" (·.gossip) (fun c t => { c with gossip := t }) (Json.record GossipTiming.jsonFields),
  .of "heartbeat" (·.heartbeat) (fun c t => { c with heartbeat := t })
    (Json.record HeartbeatTiming.jsonFields),
  .of "driver" (·.driver) (fun c t => { c with driver := t }) (Json.record DriverTiming.jsonFields),
  naturalField "cache_capacity" (·.cacheCapacity) fun c n => { c with cacheCapacity := n },
  naturalField "max_peers" (·.maxPeers) fun c n => { c with maxPeers := n }]

def naturals (fields : List (String × Nat)) : JsonValue :=
  .object (fields.map fun f => (f.1, .natural f.2))

/-- A configuration with all its fields. -/
def NodeConfig.toJson (c : NodeConfig) : JsonValue :=
  .object [
    ("round", naturals [
      ("initial_collection_ms", c.round.initialCollection),
      ("followup_collection_ms", c.round.followupCollection), ("grace_ms", c.round.grace),
      ("settle_ms", c.round.settle), ("catch_up_timeout_ms", c.round.catchUp),
      ("poll_interval_ms", c.round.pollSetting), ("freshness_window_ms", c.round.freshness)]),
    ("gossip", naturals [
      ("batch_interval_ms", c.gossip.batchSetting), ("request_timeout_ms", c.gossip.requestTimeout)]),
    ("heartbeat", naturals [
      ("interval_ms", c.heartbeat.interval), ("timeout_ms", c.heartbeat.timeout),
      ("poll_interval_ms", c.heartbeat.pollSetting), ("freshness_window_ms", c.heartbeat.freshness)]),
    ("driver", naturals [
      ("retry_delay_ms", c.driver.retryDelay), ("idle_delay_ms", c.driver.idleDelay)]),
    ("cache_capacity", .natural c.cacheCapacity), ("max_peers", .natural c.maxPeers)]

/-- The configuration that a text gives, or `none` if it is not one. -/
def NodeConfig.ofJson? (text : String) : Option NodeConfig :=
  Json.readText (Json.record NodeConfig.jsonFields {}) text

end Adjudication
