import Adjudication.Blank
import Adjudication.Ed25519.Signature
import Adjudication.Entry
import Adjudication.Hex

namespace Adjudication

inductive KeyError
  | invalidSecretKey
  | invalidAddress
  | invalidSignature
deriving DecidableEq

def KeyError.message : KeyError → String
  | .invalidSecretKey => "invalid secret key bytes"
  | .invalidAddress => "invalid adjudicator address: not a hex-encoded Ed25519 point"
  | .invalidSignature => "invalid signature encoding"

/-- The address that a node signs for, and how it signs. -/
structure Signer where
  address : Address
  sign : Bytes → Signature

/-- Whether a signature over a message is the address's. -/
abbrev Verifier := Address → Bytes → Signature → Bool

def KeyError.label : KeyError → String
  | .invalidSecretKey => "InvalidSecretKey"
  | .invalidAddress => "InvalidAddress"
  | .invalidSignature => "InvalidSignature"

structure Keypair where
  seed : Bytes
  secret : Ed25519.Secret
  expanded : secret = .ofSeed seed

namespace Keypair

def ofSeed (seed : Bytes) : Keypair := ⟨seed, .ofSeed seed, rfl⟩

/-- Reads a secret key, blanks around it ignored. -/
def ofHex (text : String) : Except KeyError Keypair :=
  match Hex.decode (trimBlank text) with
  | some seed => if seed.length = 32 then .ok (.ofSeed seed) else .error .invalidSecretKey
  | none => .error .invalidSecretKey

def address (k : Keypair) : Address := Hex.encode k.secret.publicKey

def secretHex (k : Keypair) : String := Hex.encode k.seed

def sign (k : Keypair) (message : Bytes) : Signature := Hex.encode (k.secret.sign message)

def signer (k : Keypair) : Signer := ⟨k.address, k.sign⟩

end Keypair

/-- The description of a key shows its address only. -/
def Signer.describe (s : Signer) : String := "ArbiterKeypair(addr=" ++ s.address ++ ")"

/-- The public key bytes of an address, with the point they encode. -/
def decodeAddress (address : Address) : Except KeyError (Bytes × Ed25519.Point) :=
  match Hex.decode address with
  | none => .error .invalidAddress
  | some bytes =>
    match Ed25519.Point.decode? bytes with
    | none => .error .invalidAddress
    | some point => .ok (bytes, point)

def decodeSignature (signature : Signature) : Except KeyError Bytes :=
  match Hex.decode signature with
  | none => .error .invalidSignature
  | some bytes => if bytes.length = 64 then .ok bytes else .error .invalidSignature

/-- Verification of hexadecimal keys and signatures. -/
def ed25519Verifier : Verifier := fun address message signature =>
  match decodeAddress address, decodeSignature signature with
  | .ok (publicKey, point), .ok bytes => Ed25519.verify point publicKey message bytes
  | _, _ => false

end Adjudication
