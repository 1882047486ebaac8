import Adjudication.Digest.Sha512
import Adjudication.Ed25519.Point

namespace Adjudication.Ed25519

def groupOrder : Nat := Nat.pow 2 252 + 27742317777372353535851937790883648493

/-- What a 32-byte seed expands to. -/
structure Secret where
  /-- The clamped scalar. -/
  scalar : Nat
  /-- The bytes that go before a message when its commitment is chosen. -/
  nonceKey : Bytes
  /-- The encoding of the scalar's multiple of the generator. -/
  publicKey : Bytes

def clamp (n : Nat) : Nat := n / 8 * 8 % Nat.pow 2 254 + Nat.pow 2 254

def Secret.ofSeed (seed : Bytes) : Secret :=
  let h := sha512 seed
  let scalar := clamp (ofLittleEndian (h.take 32))
  ⟨scalar, h.drop 32, (scaleBase scalar).encode⟩

def challenge (commitment publicKey message : Bytes) : Nat :=
  ofLittleEndian (sha512 (commitment ++ publicKey ++ message)) % groupOrder

/-- The 64-byte signature: the commitment, then the response scalar. -/
def Secret.sign (secret : Secret) (message : Bytes) : Bytes :=
  let r := ofLittleEndian (sha512 (secret.nonceKey ++ message)) % groupOrder
  let commitment := (scaleBase r).encode
  let k := challenge commitment secret.publicKey message
  commitment ++ littleEndian 32 ((r + k * secret.scalar) % groupOrder)

/-- Whether the 64-byte `signature` is the holder of `publicKey`'s over `message`; `key` is the point
that `publicKey` encodes. -/
def verify (key : Point) (publicKey message signature : Bytes) : Bool :=
  let commitment := signature.take 32
  let s := ofLittleEndian (signature.drop 32)
  if s < groupOrder then
    let k := challenge commitment publicKey message
    ((scaleBase s).add (key.neg.scale k)).encode == commitment
  else false

end Adjudication.Ed25519
