import Adjudication.Ed25519.Point
import Mathlib.NumberTheory.LegendreSymbol.Basic
import Mathlib.NumberTheory.LucasPrimality
import Mathlib.Tactic.LinearCombination
import Mathlib.Tactic.NormNum.Prime

namespace Adjudication.Ed25519

theorem bitsOf_succ (width n : Nat) : bitsOf (width + 1) n = n.testBit width :: bitsOf width n := by
  simp only [bitsOf, List.range_succ, List.foldl_append, List.foldl_cons, List.foldl_nil]

/-- Squaring and multiplying along the bits of an exponent computes the power. -/
theorem cast_powBits (m a n width acc : Nat) :
    (powBits m a (bitsOf width n) acc : ZMod m) =
      (acc : ZMod m) ^ 2 ^ width * (a : ZMod m) ^ (n % 2 ^ width) := by
  induction width generalizing acc with
  | zero => simp [bitsOf, powBits, Nat.mod_one]
  | succ width ih =>
    have hlow : n % 2 ^ (width + 1) = n % 2 ^ width + 2 ^ width * (n.testBit width).toNat := by
      rw [Nat.mod_pow_succ, Nat.toNat_testBit]
    rw [bitsOf_succ, powBits, ih, hlow]
    cases n.testBit width with
    | false =>
      simp only [Bool.false_eq_true, if_false, ZMod.natCast_mod, Nat.cast_mul, Bool.toNat_false]
      ring
    | true =>
      simp only [if_true, ZMod.natCast_mod, Nat.cast_mul, Bool.toNat_true]
      ring

/-- A number with a witness for Lucas's test and the prime factors of its predecessor. -/
structure LucasEntry where
  number : Nat
  witness : Nat
  factors : List Nat

/-- The test is passed, given some primes: the witness has no smaller order than the predecessor. -/
def LucasEntry.Passes (c : LucasEntry) (primes : List Nat) : Prop :=
  1 < c.number ∧ c.number < 2 ^ 256 ∧ c.factors.prod = c.number - 1 ∧
    powBits c.number c.witness (bitsOf 256 (c.number - 1)) 1 % c.number = 1 ∧
    ∀ q ∈ c.factors, q ∈ primes ∧
      powBits c.number c.witness (bitsOf 256 ((c.number - 1) / q)) 1 % c.number ≠ 1

instance (c : LucasEntry) (primes : List Nat) : Decidable (c.Passes primes) :=
  inferInstanceAs (Decidable (_ ∧ _ ∧ _ ∧ _ ∧ _))

theorem LucasEntry.Passes.prime {c : LucasEntry} {primes : List Nat} (h : c.Passes primes)
    (hprimes : ∀ q ∈ primes, q.Prime) : c.number.Prime := by
  obtain ⟨hlow, hhigh, hprod, hone, hfactors⟩ := h
  have hpower : ∀ n, n ≤ c.number - 1 →
      ((c.witness : ZMod c.number) ^ n = 1 ↔
        powBits c.number c.witness (bitsOf 256 n) 1 % c.number = 1) := by
    intro n hn
    have hcast := cast_powBits c.number c.witness n 256 1
    rw [Nat.mod_eq_of_lt (show n < 2 ^ 256 by omega), Nat.cast_one, one_pow, one_mul] at hcast
    have hmod := ZMod.natCast_eq_natCast_iff' (powBits c.number c.witness (bitsOf 256 n) 1) 1 c.number
    rwa [hcast, Nat.cast_one, Nat.mod_eq_of_lt hlow] at hmod
  refine lucas_primality c.number c.witness ((hpower _ le_rfl).mpr hone) ?_
  intro q hq hdvd hpow
  rw [← hprod, hq.prime.dvd_prod_iff] at hdvd
  obtain ⟨r, hr, hqr⟩ := hdvd
  obtain ⟨hknown, hne⟩ := hfactors r hr
  obtain rfl := (Nat.prime_dvd_prime_iff_eq hq (hprimes r hknown)).mp hqr
  exact hne ((hpower _ (Nat.div_le_self _ _)).mp hpow)

/-- The numbers that pass, each given those before it and the primes at the start. -/
def provedPrimes (primes : List Nat) : List LucasEntry → List Nat
  | [] => primes
  | c :: cs => if c.Passes primes then provedPrimes (c.number :: primes) cs else primes

theorem prime_of_mem_provedPrimes {primes : List Nat} {cs : List LucasEntry}
    (hprimes : ∀ q ∈ primes, q.Prime) : ∀ q ∈ provedPrimes primes cs, q.Prime := by
  induction cs generalizing primes with
  | nil => exact hprimes
  | cons c cs ih =>
    rw [provedPrimes]
    split
    next hpasses =>
      refine ih fun q hq => ?_
      rcases List.mem_cons.mp hq with rfl | hq
      · exact hpasses.prime hprimes
      · exact hprimes q hq
    next => exact hprimes

def smallPrimes : List Nat := [2, 3, 5, 7, 13, 19, 31, 43, 47, 103, 107, 127, 223, 353, 991, 2437,
  3727, 4153, 57467, 65147, 75707, 132049, 430751, 569003]

theorem prime_of_mem_smallPrimes : ∀ q ∈ smallPrimes, q.Prime := by
  norm_num [smallPrimes]

def certificate : List LucasEntry := [
  ⟨1923133, 2, [2, 2, 3, 43, 3727]⟩,
  ⟨31757755568855353, 10, [2, 2, 2, 3, 31, 107, 223, 4153, 430751]⟩,
  ⟨2773320623, 5, [2, 2437, 569003]⟩,
  ⟨72106336199, 7, [2, 13, 2773320623]⟩,
  ⟨8574133, 2, [2, 2, 3, 7, 103, 991]⟩,
  ⟨1919519569386763, 2, [2, 3, 7, 19, 47, 47, 127, 8574133]⟩,
  ⟨75445702479781427272750846543864801, 7,
    [2, 2, 2, 2, 2, 3, 3, 5, 5, 75707, 72106336199, 1919519569386763]⟩,
  ⟨74058212732561358302231226437062788676166966415465897661863160754340907, 2,
    [2, 3, 353, 57467, 132049, 1923133, 31757755568855353, 75445702479781427272750846543864801]⟩,
  ⟨prime, 2,
    [2, 2, 3, 65147, 74058212732561358302231226437062788676166966415465897661863160754340907]⟩]

theorem prime_prime : prime.Prime := by
  have hmem : prime ∈ provedPrimes smallPrimes certificate := by decide +kernel
  exact prime_of_mem_provedPrimes prime_of_mem_smallPrimes _ hmem

instance : Fact prime.Prime := ⟨prime_prime⟩

theorem prime_pos : 0 < prime := prime_prime.pos

theorem mulMod_lt (a b : Nat) : mulMod a b < prime := Nat.mod_lt _ prime_pos

theorem subMod_lt (a b : Nat) : subMod a b < prime := Nat.mod_lt _ prime_pos

@[simp] theorem cast_addMod (a b : Nat) : (addMod a b : ZMod prime) = a + b := by
  simp [addMod]

@[simp] theorem cast_mulMod (a b : Nat) : (mulMod a b : ZMod prime) = a * b := by
  simp [mulMod]

theorem cast_subMod {a b : Nat} (hb : b ≤ prime) : (subMod a b : ZMod prime) = a - b := by
  rw [subMod, ZMod.natCast_mod, Nat.cast_add, Nat.cast_sub hb, ZMod.natCast_self]
  ring

theorem cast_powMod (a : Nat) {e : Nat} (he : e < 2 ^ 256) : (powMod a e : ZMod prime) = a ^ e := by
  have hcast := cast_powBits prime (a % prime) e 256 1
  rwa [Nat.mod_eq_of_lt he, Nat.cast_one, one_pow, one_mul, ZMod.natCast_mod] at hcast

theorem cast_invMod {a : Nat} (ha : (a : ZMod prime) ≠ 0) : (invMod a : ZMod prime) = (a : ZMod prime)⁻¹ := by
  have hfermat := ZMod.pow_card_sub_one_eq_one ha
  rw [show prime - 1 = prime - 2 + 1 by decide +kernel, pow_succ] at hfermat
  rw [invMod, cast_powMod _ (by decide +kernel)]
  exact eq_inv_of_mul_eq_one_left hfermat

theorem sqrtMinusOne_sq : (sqrtMinusOne : ZMod prime) * sqrtMinusOne = -1 := by
  have hcast : ((sqrtMinusOne * sqrtMinusOne + 1 : Nat) : ZMod prime) = ((0 : Nat) : ZMod prime) :=
    (ZMod.natCast_eq_natCast_iff' _ _ _).mpr (by decide +kernel)
  push_cast at hcast
  linear_combination hcast

theorem cast_evenRoot_sq {r : Nat} (hr : r ≤ prime) :
    (evenRoot r : ZMod prime) * evenRoot r = r * r := by
  unfold evenRoot
  split
  · rw [Nat.cast_sub hr, ZMod.natCast_self]
    ring
  · rfl

theorem evenRoot_lt {r : Nat} (hr : r < prime) : evenRoot r < prime := by
  unfold evenRoot
  split <;> omega

theorem rootCandidate_lt (u v : Nat) : rootCandidate u v < prime := mulMod_lt _ _

theorem cast_sqrtRatio? {u v x : Nat} (hu : u ≤ prime) (h : sqrtRatio? u v = some x) :
    (v : ZMod prime) * (x * x) = u := by
  unfold sqrtRatio? at h
  dsimp only at h
  split at h
  next hcheck =>
    rw [← Option.some.inj h, cast_evenRoot_sq (rootCandidate_lt u v).le]
    simpa using congrArg (Nat.cast : Nat → ZMod prime) hcheck
  next =>
    split at h
    next hcheck =>
      have hopposite := congrArg (Nat.cast : Nat → ZMod prime) hcheck
      rw [cast_mulMod, cast_mulMod, cast_subMod hu] at hopposite
      rw [← Option.some.inj h, cast_evenRoot_sq (mulMod_lt _ _).le, cast_mulMod]
      push_cast at hopposite
      linear_combination v * rootCandidate u v * rootCandidate u v * sqrtMinusOne_sq - hopposite
    next => cases h

theorem sqrtRatio?_lt {u v x : Nat} (h : sqrtRatio? u v = some x) : x < prime := by
  unfold sqrtRatio? at h
  dsimp only at h
  split at h
  next =>
    rw [← Option.some.inj h]
    exact evenRoot_lt (rootCandidate_lt u v)
  next =>
    split at h
    next =>
      rw [← Option.some.inj h]
      exact evenRoot_lt (mulMod_lt _ _)
    next => cases h

/-- The curve's constant is no square, so addition on the curve has no exceptions. -/
theorem not_isSquare_curveD : ¬ IsSquare (curveD : ZMod prime) := by
  have hpower : ((curveD : ZMod prime)) ^ (prime / 2) ≠ 1 := by
    rw [← cast_powMod _ (by decide +kernel), ← Nat.cast_one, Ne, ZMod.natCast_eq_natCast_iff']
    decide +kernel
  have hzero : (curveD : ZMod prime) ≠ 0 := by
    rw [Ne, ZMod.natCast_eq_zero_iff]
    decide +kernel
  exact fun hsquare => hpower ((ZMod.euler_criterion prime hzero).mp hsquare)

end Adjudication.Ed25519
