namespace Adjudication

/-- A source of random numbers: the numbers of 64 bits that it will give, and how many it has given. -/
structure Entropy where
  draws : Nat → UInt64
  drawn : Nat := 0

namespace Entropy

/-- Numbers that look random, each determined by the seed and its place. -/
def scrambled (seed place : Nat) : UInt64 :=
  let s := UInt64.ofNat (seed + (place + 1) * 0x9e3779b97f4a7c15)
  let z := (s ^^^ (s >>> 30)) * 0xbf58476d1ce4e5b9
  let z := (z ^^^ (z >>> 27)) * 0x94d049bb133111eb
  z ^^^ (z >>> 31)

def ofSeed (seed : Nat) : Entropy := { draws := scrambled seed }

def next (e : Entropy) : Nat × Entropy :=
  ((e.draws e.drawn).toNat, { e with drawn := e.drawn + 1 })

def bytes : Nat → Entropy → List UInt8 × Entropy
  | 0, e => ([], e)
  | n + 1, e =>
    let (x, e) := e.next
    let (xs, e) := bytes n e
    (UInt8.ofNat x :: xs, e)

end Entropy

/-- Puts every element at a random place among those behind it. -/
def shuffle {α : Type} : List α → Entropy → List α × Entropy
  | [], e => ([], e)
  | x :: xs, e =>
    let (ys, e) := shuffle xs e
    let (r, e) := e.next
    let place := r % (ys.length + 1)
    (ys.take place ++ x :: ys.drop place, e)

theorem shuffle_perm {α : Type} (xs : List α) (e : Entropy) : (shuffle xs e).1.Perm xs := by
  induction xs with
  | nil => exact .refl _
  | cons x xs ih =>
    simp only [shuffle]
    refine List.perm_middle.trans ((List.Perm.cons x ?_))
    rw [List.take_append_drop]
    exact ih

end Adjudication
