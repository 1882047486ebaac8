namespace Adjudication.Ed25519

def prime : Nat := Nat.pow 2 255 - 19

@[inline] def addMod (a b : Nat) : Nat := (a + b) % prime
@[inline] def subMod (a b : Nat) : Nat := (a + (prime - b)) % prime
@[inline] def mulMod (a b : Nat) : Nat := a * b % prime

/-- The power whose exponent has the given bits, most significant first, times `acc` squared as often,
modulo `m`. -/
def powBits (m a : Nat) : List Bool → Nat → Nat
  | [], acc => acc
  | bit :: bits, acc =>
    let sq := acc * acc % m
    powBits m a bits (if bit then sq * a % m else sq)

/-- The `width` low bits of `n`, most significant first. -/
def bitsOf (width n : Nat) : List Bool :=
  (List.range width).foldl (fun bits i => n.testBit i :: bits) []

def powMod (a e : Nat) : Nat := powBits prime (a % prime) (bitsOf 256 e) 1

/-- The inverse of a nonzero element, by Fermat; zero goes to zero. -/
def invMod (a : Nat) : Nat := powMod a (prime - 2)

/-- A square root of minus one. -/
def sqrtMinusOne : Nat := 19681161376707505956807079304988542015446066515923890162744021073123829784752

/-- The even one of an element and its opposite. -/
def evenRoot (r : Nat) : Nat := if r % 2 = 1 then prime - r else r

/-- A root of `u / v`, or of its opposite, if either has one. -/
def rootCandidate (u v : Nat) : Nat :=
  let v₃ := mulMod (mulMod v v) v
  let v₇ := mulMod (mulMod v₃ v₃) v
  mulMod (mulMod u v₃) (powMod (mulMod u v₇) ((prime - 5) / 8))

/-- The root of `u / v` that is even, if there is one. -/
def sqrtRatio? (u v : Nat) : Option Nat :=
  let r := rootCandidate u v
  let check := mulMod v (mulMod r r)
  if check = u then some (evenRoot r)
  else if check = subMod 0 u then some (evenRoot (mulMod r sqrtMinusOne))
  else none

end Adjudication.Ed25519
