import Adjudication.Bytes

namespace Adjudication.Wire

/-- The ranges that the other bytes of a character lie in, going by its first byte. -/
def tailRanges? (first : UInt8) : Option (List (UInt8 × UInt8)) :=
  let any : UInt8 × UInt8 := (0x80, 0xbf)
  if first < 0x80 then some []
  else if first < 0xc2 then none
  else if first < 0xe0 then some [any]
  else if first = 0xe0 then some [(0xa0, 0xbf), any]
  else if first = 0xed then some [(0x80, 0x9f), any]
  else if first < 0xf0 then some [any, any]
  else if first = 0xf0 then some [(0x90, 0xbf), any, any]
  else if first < 0xf4 then some [any, any, any]
  else if first = 0xf4 then some [(0x80, 0x8f), any, any]
  else none

/-- Where bytes are first no UTF-8 text, and how many of them are at fault there; `none` if they end within
a character. -/
structure Utf8Fault where
  place : Nat
  length : Option Nat
deriving DecidableEq

namespace Utf8Fault

def message (fault : Utf8Fault) : String :=
  match fault.length with
  | some length => s!"invalid utf-8 sequence of {length} bytes from index {fault.place}"
  | none => s!"incomplete utf-8 byte sequence from index {fault.place}"

/-- Goes on behind the first `seen` bytes of the character at `place`, with the ranges of the others. -/
def find (place seen : Nat) : List (UInt8 × UInt8) → Bytes → Utf8Fault
  | _, [] => ⟨place, none⟩
  | [], b :: bs =>
    match tailRanges? b with
    | none => ⟨place + seen, some 1⟩
    | some due => find (place + seen) 1 due bs
  | (low, high) :: due, b :: bs =>
    if low ≤ b ∧ b ≤ high then find place (seen + 1) due bs else ⟨place, some seen⟩

/-- The fault of bytes that are no text. -/
def ofBytes (bs : Bytes) : Utf8Fault := find 0 0 [] bs

end Utf8Fault

inductive DecodeError
  /-- The input ended. -/
  | short
  | invalidUtf8 (fault : Utf8Fault)
  | invalidFlag (found : Nat)
  | invalidPresence (found : Nat)
  | invalidVariant (found count : Nat)
deriving DecidableEq

namespace DecodeError

def label : DecodeError → String
  | short => "Io"
  | invalidUtf8 _ => "InvalidUtf8"
  | invalidFlag _ => "InvalidBool"
  | invalidPresence _ => "InvalidTag"
  | invalidVariant .. => "Custom"

def message : DecodeError → String
  | short => "io error: unexpected end of file"
  | invalidUtf8 fault => "string is not valid utf8: " ++ fault.message
  | invalidFlag found => s!"invalid u8 while decoding bool, expected 0 or 1, found {found}"
  | invalidPresence found => s!"tag for enum is not valid, found {found}"
  | invalidVariant found count =>
    "invalid value: integer \x60" ++ toString found ++ "\x60, expected variant index 0 <= i < "
      ++ toString count

end DecodeError

abbrev Decoder (α : Type) := Bytes → Except DecodeError (α × Bytes)

/-- An encoder beside the decoder that reads its bytes back. Numbers are fixed-width and little-endian,
lengths take eight bytes, the variant of a sum four, a flag or the presence of an optional value one. -/
structure Codec (α : Type) where
  encode : α → Bytes
  decode : Decoder α

namespace Codec

variable {α β : Type}

/-- What is encoded is read back, whatever follows it. -/
def ReadsBack (c : Codec α) (fits : α → Prop) : Prop :=
  ∀ a, fits a → ∀ rest, c.decode (c.encode a ++ rest) = .ok (a, rest)

/-- What is read was encoded: no value has a second encoding. -/
def Canonical (c : Codec α) : Prop :=
  ∀ bs a rest, c.decode bs = .ok (a, rest) → bs = c.encode a ++ rest

def takeBytes (n : Nat) : Decoder Bytes := fun bs =>
  let taken := bs.take n
  if taken.length = n then .ok (taken, bs.drop n) else .error .short

/-- Numbers below `wordCount width`. -/
def word (width : Nat) : Codec Nat where
  encode n := littleEndian width n
  decode bs := do
    let (taken, rest) ← takeBytes width bs
    return (ofLittleEndian taken, rest)

/-- Signed 64-bit numbers. -/
def int64 : Codec Int where
  encode := littleEndianInt64
  decode bs := do
    let (taken, rest) ← takeBytes 8 bs
    return (ofLittleEndianInt64 taken, rest)

def flag : Codec Bool where
  encode b := littleEndian 1 b.toNat
  decode bs := do
    let (n, rest) ← (word 1).decode bs
    match n with
    | 0 => return (false, rest)
    | 1 => return (true, rest)
    | n => throw (.invalidFlag n)

def text : Codec String where
  encode s :=
    let bytes := utf8 s
    littleEndian 8 bytes.length ++ bytes
  decode bs := do
    let (size, rest) ← (word 8).decode bs
    let (taken, rest) ← takeBytes size rest
    match String.fromUTF8? ⟨taken.toArray⟩ with
    | some s => return (s, rest)
    | none => throw (.invalidUtf8 (.ofBytes taken))

def option (c : Codec α) : Codec (Option α) where
  encode
    | none => littleEndian 1 0
    | some a => littleEndian 1 1 ++ c.encode a
  decode bs := do
    let (n, rest) ← (word 1).decode bs
    match n with
    | 0 => return (none, rest)
    | 1 =>
      let (a, rest) ← c.decode rest
      return (some a, rest)
    | n => throw (.invalidPresence n)

/-- Decodes `count` items onto those read so far, the last of them first. -/
def decodeOnto (c : Codec α) : Nat → List α → Decoder (List α)
  | 0, acc, bs => .ok (acc.reverse, bs)
  | count + 1, acc, bs =>
    match c.decode bs with
    | .error e => .error e
    | .ok (a, rest) => decodeOnto c count (a :: acc) rest

def list (c : Codec α) : Codec (List α) where
  encode xs := littleEndian 8 xs.length ++ xs.flatMap c.encode
  decode bs := do
    let (count, rest) ← (word 8).decode bs
    decodeOnto c count [] rest

/-- One value after the other. -/
def pair (c : Codec α) (d : Codec β) : Codec (α × β) where
  encode x := c.encode x.1 ++ d.encode x.2
  decode bs := do
    let (a, rest) ← c.decode bs
    let (b, rest) ← d.decode rest
    return ((a, b), rest)

/-- The codec of a type whose values are those of another, named differently. -/
def via (c : Codec α) (toα : β → α) (ofα : α → β) : Codec β where
  encode b := c.encode (toα b)
  decode bs := do
    let (a, rest) ← c.decode bs
    return (ofα a, rest)

end Codec

end Adjudication.Wire
