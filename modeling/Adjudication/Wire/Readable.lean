import Adjudication.Json.Value
import Adjudication.Message
import Adjudication.Wire.Frame

namespace Adjudication

def RoundKey.toJson (k : RoundKey) : JsonValue :=
  .object [("height", .natural k.height), ("phase", .natural k.phase)]

def SignedEntry.toJson (e : SignedEntry) : JsonValue :=
  .object [("value", .text e.value), ("signature", .text e.signature)]

def AddressedEntry.toJson (e : AddressedEntry) : JsonValue :=
  .object [("address", .text e.address), ("entry", e.entry.toJson)]

def StateSummary.toJson (s : StateSummary) : JsonValue :=
  .object [("height", .natural s.height), ("phase", .natural s.phase), ("finalized", .flag s.finalized)]

def GossipRequest.toJson (r : GossipRequest) : JsonValue :=
  .object [("key", r.key.toJson), ("missing", .array (r.missing.map .text)),
    ("offered", .orNull (r.offered.map AddressedEntry.toJson))]

def GossipReply.toJson : GossipReply → JsonValue
  | entry found => .object [("Entry", found.toJson)]
  | state summary => .object [("State", summary.toJson)]

def Attestation.toJson (a : Attestation) : JsonValue :=
  .object [("address", .text a.address), ("height", .natural a.height), ("phase", .natural a.phase),
    ("finalized", .flag a.finalized), ("timestamp_ms", .number a.timestamp), ("nonce", .natural a.nonce),
    ("signature", .text a.signature)]

def RpcError.toJson (e : RpcError) : JsonValue :=
  match e with
  | timeout => .text e.label
  | frameTooLarge size limit =>
    .object [(e.label, .object [("size", .natural size), ("max", .natural limit)])]
  | unreachable reason | codec reason | malformed reason | rejected reason =>
    .object [(e.label, .text reason)]

namespace Wire

def Codec.read {α : Type} (c : Codec α) (write : α → JsonValue) (bytes : Bytes) :
    Except DecodeError JsonValue := do
  let (a, _) ← c.decode bytes
  return write a

/-- Reads bytes as a value of a type that is given by name; bytes behind the value are ignored. -/
def read (type : String) (bytes : Bytes) : Option (Except DecodeError JsonValue) :=
  match type with
  | "RoundKey" => some (roundKey.read RoundKey.toJson bytes)
  | "SignedEntry" => some (signedEntry.read SignedEntry.toJson bytes)
  | "AddressedEntry" => some (addressedEntry.read AddressedEntry.toJson bytes)
  | "StateSummary" => some (stateSummary.read StateSummary.toJson bytes)
  | "GossipRequest" => some (gossipRequest.read GossipRequest.toJson bytes)
  | "GossipReply" => some (gossipReply.read GossipReply.toJson bytes)
  | "RoundAttestation" => some (attestation.read Attestation.toJson bytes)
  | "RpcError" => some (rpcError.read RpcError.toJson bytes)
  | _ => none

end Wire

end Adjudication
