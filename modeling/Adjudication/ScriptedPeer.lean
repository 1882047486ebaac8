import Adjudication.Message

namespace Adjudication

/-- How a scripted peer answers a heartbeat. -/
inductive HeartbeatStyle
  | honest
  /-- Claims its own address, but signs with a stranger's key. -/
  | forged
  /-- Sends a stranger's attestation. -/
  | foreign
  /-- Stamps its attestation one millisecond too long ago. -/
  | stale
  /-- Uses one nonce for all attestations. -/
  | replayed
  | refused
deriving DecidableEq, Inhabited

namespace HeartbeatStyle

def label : HeartbeatStyle → String
  | honest => "honest"
  | forged => "forged"
  | foreign => "foreign"
  | stale => "stale"
  | replayed => "replayed"
  | refused => "refused"

def ofLabel? (s : String) : Option HeartbeatStyle :=
  [honest, forged, foreign, stale, replayed, refused].find? fun style => style.label = s

end HeartbeatStyle

/-- An entry that a scripted peer gives out: when its address is asked for, or always. -/
structure ScriptedEntry where
  address : Address
  always : Bool
  /-- The entry for the key of the request. -/
  entry : RoundKey → SignedEntry

structure ScriptedPeer where
  signer : Signer
  stranger : Signer
  position : Position := {}
  heartbeat : HeartbeatStyle := .honest
  contributions : List ScriptedEntry := []
  hashes : List ScriptedEntry := []
  reject : Option String := none
  /-- How many requests it crashes on before it answers one. -/
  crashes : Nat := 0
  /-- The requests it got, latest first. -/
  asked : List GossipRequest := []
  nextNonce : Nat := UInt64.size / 2

namespace ScriptedPeer

def address (p : ScriptedPeer) : Address := p.signer.address

def entries (p : ScriptedPeer) : EntryKind → List ScriptedEntry
  | .contribution => p.contributions
  | .hash => p.hashes

/-- The reply to a gossip request that is neither rejected nor crashed on. -/
def reply (p : ScriptedPeer) (kind : EntryKind) (request : GossipRequest) : GossipReply :=
  match (p.entries kind).find? fun e => e.always || e.address ∈ request.missing with
  | some e => .entry ⟨e.address, e.entry request.key⟩
  | none => .state p.position.toSummary

/-- Answers a gossip request; `none` if it crashes. -/
def answerGossip (p : ScriptedPeer) (kind : EntryKind) (request : GossipRequest) :
    Option Response × ScriptedPeer :=
  let seen := { p with asked := request :: p.asked }
  let response :=
    if p.asked.length < p.crashes then none
    else
      match p.reject with
      | some reason => some (.failure (.rejected reason))
      | none => some (.gossip (p.reply kind request))
  (response, seen)

def answerHeartbeat (p : ScriptedPeer) (clock : Int) : Response × ScriptedPeer :=
  let next := { p with nextNonce := p.nextNonce + 1 }
  let honest := Attestation.sign p.signer p.position clock p.nextNonce
  match p.heartbeat with
  | .honest => (.roundState honest, next)
  | .forged =>
    (.roundState (.sign { p.stranger with address := p.address } p.position clock p.nextNonce), next)
  | .foreign => (.roundState (.sign p.stranger p.position clock p.nextNonce), next)
  | .stale =>
    (.roundState (.sign p.signer p.position (clock - (Limits.maxSkew + 1)) p.nextNonce), next)
  | .replayed => (.roundState (.sign p.signer p.position clock 7), p)
  | .refused => (.failure (.rejected "go away"), p)

def answer (p : ScriptedPeer) (clock : Int) : Request → Option Response × ScriptedPeer
  | .roundState _ =>
    let (response, p) := p.answerHeartbeat clock
    (some response, p)
  | .gossip kind request => p.answerGossip kind request

end ScriptedPeer

end Adjudication
