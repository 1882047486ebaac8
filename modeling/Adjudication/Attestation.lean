import Adjudication.Keypair
import Adjudication.Limits
import Adjudication.Noted
import Adjudication.Position
import Adjudication.Sorting
import Adjudication.Statement
import Adjudication.Words

namespace Adjudication

structure Attestation where
  address : Address
  height : Nat
  phase : Nat
  finalized : Bool
  timestamp : Int
  nonce : Nat
  signature : Signature
deriving DecidableEq, Inhabited

namespace Attestation

def message (a : Attestation) : Bytes :=
  attestationMessage a.address a.height a.phase a.finalized a.timestamp a.nonce

/-- Signs a position at a time, with a nonce of its own. -/
def sign (signer : Signer) (p : Position) (timestamp : Int) (nonce : Nat) : Attestation :=
  let message :=
    attestationMessage signer.address p.height p.phase p.isFinalized timestamp nonce
  ⟨signer.address, p.height, p.phase, p.isFinalized, timestamp, nonce, signer.sign message⟩

def verifies (a : Attestation) (verifier : Verifier) : Bool :=
  verifier a.address a.message a.signature

/-- How far an attestation's time is from the clock's, as words have it: a difference too wide for a word
starts over, and the least word is its own size. -/
def skew (a : Attestation) (now : Int) : Int :=
  signedWord (signedWord (now - a.timestamp)).natAbs

theorem skew_eq_natAbs {a : Attestation} {now : Int} (h : 2 * (now - a.timestamp).natAbs < UInt64.size) :
    a.skew now = (now - a.timestamp).natAbs := by
  have hdifference : FitsInt64 (now - a.timestamp) := by unfold FitsInt64; omega
  have hsize : FitsInt64 (now - a.timestamp).natAbs := by unfold FitsInt64; omega
  rw [skew, signedWord_eq_self hdifference]
  exact signedWord_eq_self hsize

end Attestation

inductive AttestationError
  | badSignature (address : Address)
  | impersonation (expected got : Address)
  | stale (skew : Int)
  | replayed (address : Address) (nonce : Nat)
deriving DecidableEq

namespace AttestationError

def message : AttestationError → String
  | badSignature address => s!"attestation signature does not verify for {address}"
  | impersonation expected got => s!"attestation from {got} presented on a channel for {expected}"
  | stale skew => s!"attestation clock skew of {skew}ms exceeds limit"
  | replayed address nonce => s!"attestation nonce {nonce} from {address} already seen"

def label : AttestationError → String
  | badSignature _ => "BadSignature"
  | impersonation .. => "Impersonation"
  | stale _ => "Stale"
  | replayed .. => "Replayed"

end AttestationError

/-- Remembers a nonce's time, in its old place if it was known. -/
def remember (slot : Address × Nat) (time : Int) :
    List ((Address × Nat) × Int) → List ((Address × Nat) × Int)
  | [] => [(slot, time)]
  | x :: xs => if x.1 = slot then (slot, time) :: xs else x :: remember slot time xs

theorem mem_remember_iff {slot other : Address × Nat} {time : Int} {seen : List ((Address × Nat) × Int)} :
    (∃ x ∈ remember slot time seen, x.1 = other) ↔ other = slot ∨ ∃ x ∈ seen, x.1 = other := by
  induction seen with
  | nil => simp [remember, eq_comm]
  | cons x xs ih =>
    unfold remember
    by_cases h : x.1 = slot
    · rw [if_pos h]
      simp only [List.mem_cons, exists_eq_or_imp]
      rw [h, ← or_assoc, eq_comm (a := other), or_self]
    · rw [if_neg h]
      simp only [List.mem_cons, exists_eq_or_imp, ih]
      exact or_left_comm

theorem nodup_remember {slot : Address × Nat} {time : Int} {seen : List ((Address × Nat) × Int)}
    (h : (seen.map (·.1)).Nodup) : ((remember slot time seen).map (·.1)).Nodup := by
  induction seen with
  | nil => exact List.nodup_cons.mpr ⟨List.not_mem_nil, List.nodup_nil⟩
  | cons x xs ih =>
    obtain ⟨hfirst, hrest⟩ := List.nodup_cons.mp h
    unfold remember
    by_cases hx : x.1 = slot
    · rw [if_pos hx]
      exact List.nodup_cons.mpr ⟨hx ▸ hfirst, hrest⟩
    · rw [if_neg hx]
      refine List.nodup_cons.mpr ⟨fun hmem => ?_, ih hrest⟩
      rcases mem_remember_iff.mp (List.mem_map.mp hmem) with hslot | hknown
      · exact hx hslot
      · exact hfirst (List.mem_map.mpr hknown)

/-- What takes each attestation once. A guard that holds too many nonces forgets a quarter of them, those
with the earliest times first. -/
@[ext]
structure ReplayGuard where
  capacity : Nat
  maxSkew : Int
  /-- Every remembered nonce with the time of its latest attestation, in the order first seen. -/
  seen : List ((Address × Nat) × Int)
  distinct : (seen.map (·.1)).Nodup

namespace ReplayGuard

/-- A guard remembers at least four nonces, whatever capacity is asked for. -/
def empty (capacity : Nat) (maxSkew : Int) : ReplayGuard :=
  { capacity := max capacity 4, maxSkew, seen := [], distinct := List.nodup_nil }

def standard : ReplayGuard := .empty Limits.replayCapacity Limits.maxSkew

def size (g : ReplayGuard) : Nat := g.seen.length

def note (g : ReplayGuard) (slot : Address × Nat) (time : Int) : ReplayGuard :=
  { g with seen := remember slot time g.seen, distinct := nodup_remember g.distinct }

def without (g : ReplayGuard) (victims : List (Address × Nat)) : ReplayGuard :=
  { g with
    seen := g.seen.filter fun x => x.1 ∉ victims
    distinct := g.distinct.sublist (List.filter_sublist.map _) }

/-- Forgets the earliest times if there are more than the capacity. -/
def forget (g : ReplayGuard) : Noted ReplayGuard :=
  if g.size ≤ g.capacity then pure g
  else do
    let excess := g.size - g.capacity * 3 / 4
    let victims := ((sortBy (fun x y => x.2 ≤ y.2) g.seen).take excess).map (·.1)
    log (.noncesEvicted excess)
    return g.without victims

/-- Takes an attestation that arrived on the channel of `expected` when the clock showed `now`. -/
def accept (g : ReplayGuard) (verifier : Verifier) (a : Attestation) (expected : Address)
    (now : Int) : Noted (Except AttestationError Unit × ReplayGuard) :=
  let skew := a.skew now
  let slot := (a.address, a.nonce)
  if a.address ≠ expected then pure (.error (.impersonation expected a.address), g)
  else if g.maxSkew < skew then pure (.error (.stale skew), g)
  else if !a.verifies verifier then pure (.error (.badSignature a.address), g)
  else
    let known := g.seen.any fun x => x.1 = slot
    let noted := g.note slot a.timestamp
    if known then pure (.error (.replayed a.address a.nonce), noted)
    else do
      let g ← noted.forget
      return (.ok (), g)

end ReplayGuard

end Adjudication
