import Adjudication.Bytes
import Adjudication.Entry
import Adjudication.RoundKey

namespace Adjudication

def contributionDomain : Bytes := utf8 "arbiter/contribution\x00"
def hashDomain : Bytes := utf8 "arbiter/hash\x00"
def attestationDomain : Bytes := utf8 "arbiter/attestation\x00"

def contributionMessage (payload : String) : Bytes := contributionDomain ++ utf8 payload

/-- A digest is signed together with the key of its round. -/
def hashMessage (key : RoundKey) (digest : String) : Bytes :=
  hashDomain ++ littleEndian 8 key.height ++ littleEndian 4 key.phase ++ utf8 digest

def attestationMessage (address : Address) (height phase : Nat) (finalized : Bool)
    (timestamp : Int) (nonce : Nat) : Bytes :=
  attestationDomain ++ utf8 address ++ littleEndian 8 height ++ littleEndian 4 phase ++
    littleEndian 1 finalized.toNat ++ littleEndianInt64 timestamp ++ littleEndian 8 nonce

/-- The message that an entry's signature is made over. -/
def EntryKind.message (kind : EntryKind) (key : RoundKey) (value : String) : Bytes :=
  match kind with
  | .contribution => contributionMessage value
  | .hash => hashMessage key value

end Adjudication
