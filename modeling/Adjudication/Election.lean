import Adjudication.Digest.Blake3
import Adjudication.Fingerprint

namespace Adjudication

def electionSeed (sorted : List (Address × String)) : Bytes :=
  blake3 (sorted.flatMap fun e => utf8 e.1 ++ 0 :: utf8 e.2 ++ [0])

/-- The address at the place that the seed's first eight bytes point to; `none` for no entries. -/
def electProducer (entries : List (Address × String)) : Option Address :=
  let sorted := sortByAddress entries
  let index := ofLittleEndian ((electionSeed sorted).take 8) % sorted.length
  (sorted[index]?).map (·.1)

end Adjudication
