import Adjudication.Bytes
import Adjudication.Ed25519.Field

namespace Adjudication.Ed25519

/-- Extended coordinates: x = X/Z, y = Y/Z and T Z = X Y. -/
structure Point where
  x : Nat
  y : Nat
  z : Nat
  t : Nat

def curveD : Nat := 37095705934669439343138083508754565189542113879843219016388785533085940283555

def Point.zero : Point := ⟨0, 1, 1, 0⟩

def Point.ofAffine (x y : Nat) : Point := ⟨x, y, 1, mulMod x y⟩

def Point.add (p q : Point) : Point :=
  let a := mulMod (subMod p.y p.x) (subMod q.y q.x)
  let b := mulMod (p.y + p.x) (q.y + q.x)
  let c := mulMod (mulMod p.t (2 * curveD % prime)) q.t
  let d := mulMod (2 * p.z) q.z
  let e := subMod b a
  let f := subMod d c
  let g := d + c
  let h := b + a
  ⟨mulMod e f, mulMod g h, mulMod f g, mulMod e h⟩

def Point.double (p : Point) : Point :=
  let a := mulMod p.x p.x
  let b := mulMod p.y p.y
  let c := 2 * mulMod p.z p.z
  let h := a + b
  let e := subMod h (mulMod (p.x + p.y) (p.x + p.y))
  let g := subMod a b
  let f := c + g
  ⟨mulMod e f, mulMod g h, mulMod f g, mulMod e h⟩

def Point.neg (p : Point) : Point := ⟨subMod 0 p.x, p.y, p.z, subMod 0 p.t⟩

/-- The multiples of `p` by zero to fifteen. -/
def Point.multiples (p : Point) : List Point :=
  ((List.range 15).foldl (fun acc _ => ((acc.headD .zero).add p) :: acc) [Point.zero]).reverse

/-- The `count` low hexadecimal digits of `n`, most significant first. -/
def nibbles (count n : Nat) : List Nat :=
  (List.range count).foldl (fun ds i => (n >>> (4 * i)) % 16 :: ds) []

/-- The multiple of `p` by a scalar below 2²⁵⁶. -/
def Point.scale (p : Point) (k : Nat) : Point :=
  let table := p.multiples.toArray
  (nibbles 64 k).foldl
    (fun acc n => acc.double.double.double.double.add (table.getD n .zero)) .zero

/-- The generator of the prime-order subgroup. -/
def basePoint : Point :=
  .ofAffine 15112221349535400772501151409588531511454012693041857206046113283949847762202
    46316835694926478169428394003475163141307993866256225615783033603165251855960

/-- The multiples of the generator by `16 ^ i * n`, for every place `i` and digit `n`. -/
def baseTable : Array (Array Point) :=
  ((List.range 64).foldl
    (fun (acc : Array (Array Point) × Point) _ =>
      (acc.1.push acc.2.multiples.toArray, acc.2.double.double.double.double))
    (#[], basePoint)).1

/-- The multiple of the generator by a scalar below 2²⁵⁶. -/
def scaleBase (k : Nat) : Point :=
  (List.range 64).foldl
    (fun acc i => acc.add ((baseTable.getD i #[]).getD ((k >>> (4 * i)) % 16) .zero)) .zero

/-- The 32 bytes of a point: y, with the parity of x in the top bit. -/
def Point.encode (p : Point) : Bytes :=
  let zi := invMod p.z
  let x := mulMod p.x zi
  let y := mulMod p.y zi
  littleEndian 32 (y + x % 2 * Nat.pow 2 255)

/-- Reads 32 bytes as a point. The y coordinate is taken modulo the prime, and x = 0 may carry
either sign. -/
def Point.decode? (bs : Bytes) : Option Point :=
  if bs.length ≠ 32 then none
  else
    let n := ofLittleEndian bs
    let y := n % Nat.pow 2 255 % prime
    let yy := mulMod y y
    match sqrtRatio? (subMod yy 1) (addMod (mulMod curveD yy) 1) with
    | none => none
    | some x => some (.ofAffine (if n / Nat.pow 2 255 = 1 then subMod 0 x else x) y)

end Adjudication.Ed25519
