import Adjudication.Digest.Sha256
import Adjudication.Entry
import Adjudication.Hex
import Adjudication.Sorting

namespace Adjudication

/-- The digest of one entry; the length of the address goes first, so that address and payload
cannot run into each other. -/
def entryDigest (address : Address) (payload : String) : String :=
  let name := utf8 address
  Hex.encode (sha256 (littleEndian 8 name.length ++ name ++ utf8 payload))

/-- Pairs in ascending order of address; pairs of one address keep their order. -/
def sortByAddress {α : Type} (xs : List (Address × α)) : List (Address × α) :=
  sortBy (fun x y => x.1 ≤ y.1) xs

def canonicalDigest (entries : List (Address × String)) : String :=
  Hex.encode (sha256 ((sortByAddress entries).flatMap fun e => utf8 (entryDigest e.1 e.2)))

end Adjudication
