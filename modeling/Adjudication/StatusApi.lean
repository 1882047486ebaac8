import Adjudication.Json.Value
import Adjudication.Metrics
import Adjudication.Node

namespace Adjudication

def PeerSummary.toJson (s : PeerSummary) : JsonValue :=
  .object [("address", .text s.address), ("height", .natural s.height), ("phase", .natural s.phase),
    ("finalized", .flag s.finalized), ("age_ms", .orNull (s.age.map .natural))]

def NodeStatus.fields (s : NodeStatus) : List (String × JsonValue) :=
  [("address", .text s.address), ("height", .natural s.height), ("phase", .natural s.phase),
    ("status", .text s.status.label), ("ready", .flag s.ready), ("members", .natural s.members),
    ("connected_peers", .natural s.connectedPeers), ("fresh_peers", .natural s.freshPeers),
    ("contribution_keys", .natural s.contributionKeys), ("hash_keys", .natural s.hashKeys),
    ("peers", .array (s.peers.map PeerSummary.toJson))]

def NodeStatus.toJson (s : NodeStatus) : JsonValue := .object s.fields

namespace StatusApi

structure Reply where
  code : Nat
  body : String

/-- What one asks for, by its path. -/
inductive Resource
  | health
  | status
  | peers
  | metrics
deriving DecidableEq

/-- The resource of a path; what follows a question mark or a hash sign does not count. -/
def Resource.ofPath? (path : String) : Option Resource :=
  match String.ofList (path.toList.takeWhile fun c => c != '?' && c != '#') with
  | "/health" => some .health
  | "/status" => some .status
  | "/peers" => some .peers
  | "/metrics" => some .metrics
  | _ => none

/-- The version and the network that a status names. -/
structure Identity where
  version : String
  network : String

def gauge (metrics : Metrics) (s : NodeStatus) : Metrics :=
  { metrics.setHeight s.height with connectedPeers := s.connectedPeers, freshPeers := s.freshPeers }

/-- The text of a resource, and the metrics after looking at it. -/
def read (id : Identity) (s : NodeStatus) (metrics : Metrics) : Resource → String × Metrics
  | .health => ((JsonValue.object [("status", .text "ok")]).render, metrics)
  | .status =>
    let fields := [("version", .text id.version), ("network", .text id.network)] ++ s.fields
    ((JsonValue.object fields).render, gauge metrics s)
  | .peers =>
    ((JsonValue.object [("count", .natural s.connectedPeers), ("fresh", .natural s.freshPeers),
      ("peers", .array (s.peers.map PeerSummary.toJson))]).render, metrics)
  | .metrics => ("\n".intercalate metrics.lines ++ "\n", metrics)

/-- Answers a request. Asking for the options is granted everywhere but for the metrics; otherwise a
known path can be read, with or without its body. -/
def respond (id : Identity) (s : NodeStatus) (metrics : Metrics) (method path : String) :
    Reply × Metrics :=
  match Resource.ofPath? path, method with
  | some .metrics, "OPTIONS" => (⟨405, ""⟩, metrics)
  | _, "OPTIONS" => (⟨200, ""⟩, metrics)
  | none, _ => (⟨404, ""⟩, metrics)
  | some resource, "GET" =>
    let (body, metrics) := read id s metrics resource
    (⟨200, body⟩, metrics)
  | some resource, "HEAD" => (⟨200, ""⟩, (read id s metrics resource).2)
  | some _, _ => (⟨405, ""⟩, metrics)

end StatusApi

end Adjudication
