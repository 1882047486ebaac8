import Adjudication.Message
import Adjudication.Wire.Codec

namespace Adjudication.Wire

open Codec

def roundKey : Codec RoundKey :=
  ((word 8).pair (word 4)).via (fun k => (k.height, k.phase)) (fun p => ⟨p.1, p.2⟩)

def signedEntry : Codec SignedEntry :=
  (text.pair text).via (fun e => (e.value, e.signature)) (fun p => ⟨p.1, p.2⟩)

def addressedEntry : Codec AddressedEntry :=
  (text.pair signedEntry).via (fun e => (e.address, e.entry)) (fun p => ⟨p.1, p.2⟩)

def gossipRequest : Codec GossipRequest :=
  (roundKey.pair (text.list.pair addressedEntry.option)).via
    (fun r => (r.key, r.missing, r.offered)) (fun p => ⟨p.1, p.2.1, p.2.2⟩)

def stateSummary : Codec StateSummary :=
  ((word 8).pair ((word 4).pair flag)).via
    (fun s => (s.height, s.phase, s.finalized)) (fun p => ⟨p.1, p.2.1, p.2.2⟩)

def attestation : Codec Attestation :=
  (text.pair ((word 8).pair ((word 4).pair (flag.pair (int64.pair ((word 8).pair text)))))).via
    (fun a => (a.address, a.height, a.phase, a.finalized, a.timestamp, a.nonce, a.signature))
    (fun p => ⟨p.1, p.2.1, p.2.2.1, p.2.2.2.1, p.2.2.2.2.1, p.2.2.2.2.2.1, p.2.2.2.2.2.2⟩)

/-- Reads the number of a variant, of `count` there are, and then its content. -/
def decodeVariant {α : Type} (count : Nat) (content : Nat → Option (Decoder α)) : Decoder α :=
  fun bs => do
    let (n, rest) ← (word 4).decode bs
    match content n with
    | some decode => decode rest
    | none => throw (.invalidVariant n count)

def Codec.mapDecode {α β : Type} (c : Codec α) (f : α → β) : Decoder β := fun bs => do
  let (a, rest) ← c.decode bs
  return (f a, rest)

def gossipReply : Codec GossipReply where
  encode
    | .entry found => littleEndian 4 0 ++ addressedEntry.encode found
    | .state summary => littleEndian 4 1 ++ stateSummary.encode summary
  decode := decodeVariant 2 fun
    | 0 => some (addressedEntry.mapDecode .entry)
    | 1 => some (stateSummary.mapDecode .state)
    | _ => none

def rpcError : Codec RpcError where
  encode
    | .timeout => littleEndian 4 0
    | .unreachable address => littleEndian 4 1 ++ text.encode address
    | .frameTooLarge size limit => littleEndian 4 2 ++ ((word 8).pair (word 8)).encode (size, limit)
    | .codec reason => littleEndian 4 3 ++ text.encode reason
    | .malformed reason => littleEndian 4 4 ++ text.encode reason
    | .rejected reason => littleEndian 4 5 ++ text.encode reason
  decode := decodeVariant 6 fun
    | 0 => some fun bs => .ok (.timeout, bs)
    | 1 => some (text.mapDecode .unreachable)
    | 2 => some (((word 8).pair (word 8)).mapDecode fun p => .frameTooLarge p.1 p.2)
    | 3 => some (text.mapDecode .codec)
    | 4 => some (text.mapDecode .malformed)
    | 5 => some (text.mapDecode .rejected)
    | _ => none

def request : Codec Request where
  encode
    | .roundState a => littleEndian 4 0 ++ attestation.encode a
    | .gossip .contribution r => littleEndian 4 1 ++ gossipRequest.encode r
    | .gossip .hash r => littleEndian 4 2 ++ gossipRequest.encode r
  decode := decodeVariant 3 fun
    | 0 => some (attestation.mapDecode .roundState)
    | 1 => some (gossipRequest.mapDecode (.gossip .contribution))
    | 2 => some (gossipRequest.mapDecode (.gossip .hash))
    | _ => none

def response : Codec Response where
  encode
    | .roundState a => littleEndian 4 0 ++ attestation.encode a
    | .gossip reply => littleEndian 4 1 ++ gossipReply.encode reply
    | .failure reason => littleEndian 4 2 ++ rpcError.encode reason
  decode := decodeVariant 3 fun
    | 0 => some (attestation.mapDecode .roundState)
    | 1 => some (gossipReply.mapDecode .gossip)
    | 2 => some (rpcError.mapDecode .failure)
    | _ => none

/-- The bytes of a message behind the version, unless they are more than a frame may have. -/
def toFrame {α : Type} (c : Codec α) (a : α) : Except RpcError Bytes :=
  let bytes := littleEndian 2 Limits.wireVersion ++ c.encode a
  let size := bytes.length
  if Limits.maxFrameBytes < size then .error (.frameTooLarge size Limits.maxFrameBytes) else .ok bytes

/-- Reads a frame; bytes behind the message are ignored. -/
def ofFrame {α : Type} (c : Codec α) (bytes : Bytes) : Except RpcError α :=
  match ((word 2).pair c).decode bytes with
  | .error e => .error (.codec e.message)
  | .ok ((version, a), _) =>
    if version = Limits.wireVersion then .ok a
    else .error (.codec s!"wire version {version} not supported")

end Adjudication.Wire
