import Adjudication.Attestation

namespace Adjudication

/-- Asks for the entries that the caller is missing under a key, and may offer the caller's own. -/
structure GossipRequest where
  key : RoundKey
  /-- The addresses that the caller has no entry of, in the order it prefers. -/
  missing : List Address
  offered : Option AddressedEntry
deriving DecidableEq, Inhabited

structure StateSummary where
  height : Nat
  phase : Nat
  finalized : Bool
deriving DecidableEq, Inhabited

def Position.toSummary (p : Position) : StateSummary := ⟨p.height, p.phase, p.isFinalized⟩

inductive GossipReply
  | entry (found : AddressedEntry)
  | state (summary : StateSummary)
deriving DecidableEq

/-- Why a call failed, in transit or at its receiver. -/
inductive RpcError
  | timeout
  | unreachable (address : Address)
  | frameTooLarge (size limit : Nat)
  | codec (reason : String)
  | malformed (reason : String)
  | rejected (reason : String)
deriving DecidableEq

namespace RpcError

def message : RpcError → String
  | timeout => "request timed out"
  | unreachable address => s!"peer {address} is not reachable"
  | frameTooLarge size limit => s!"frame of {size} bytes exceeds limit of {limit}"
  | codec reason => s!"codec error: {reason}"
  | malformed reason => s!"malformed request: {reason}"
  | rejected reason => s!"request rejected: {reason}"

def label : RpcError → String
  | timeout => "Timeout"
  | unreachable _ => "Unreachable"
  | frameTooLarge .. => "FrameTooLarge"
  | codec _ => "Codec"
  | malformed _ => "Malformed"
  | rejected _ => "Rejected"

end RpcError

inductive Request
  | roundState (attestation : Attestation)
  | gossip (kind : EntryKind) (request : GossipRequest)
deriving DecidableEq

inductive Response
  | roundState (attestation : Attestation)
  | gossip (reply : GossipReply)
  | failure (reason : RpcError)
deriving DecidableEq

end Adjudication
