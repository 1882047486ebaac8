import Adjudication.Cache
import Adjudication.Limits

namespace Adjudication

/-- What one pruning removed. -/
structure PruneReport where
  contributions : Nat
  hashes : Nat
  evictedKeys : Nat
deriving DecidableEq

def PruneReport.isEmpty (r : PruneReport) : Bool :=
  r.contributions == 0 && r.hashes == 0 && r.evictedKeys == 0

/-- A contribution is stale outside the window, unless it is of the peer's phase or the active one. -/
def StaleContribution (key active : RoundKey) (peerPhase : Nat) : Prop :=
  ¬ key.InRetention active ∧ key.phase ≠ peerPhase ∧ key.phase ≠ active.phase

instance (key active : RoundKey) (peerPhase : Nat) :
    Decidable (StaleContribution key active peerPhase) :=
  inferInstanceAs (Decidable (_ ∧ _))

/-- A hash is stale where a contribution is; also if the peer has finalized a later phase, or is
still in work one phase before it. The greatest phase counts as its own successor. -/
def StaleHash (key active : RoundKey) (peerPhase : Nat) (peerFinalized : Bool) : Prop :=
  ¬ key.InRetention active ∧
    (key.phase ≠ peerPhase ∧ key.phase ≠ active.phase ∨
      (if peerFinalized then key.phase < peerPhase else key.phase = min (peerPhase + 1) Limits.maxPhase))

instance (key active : RoundKey) (peerPhase : Nat) (peerFinalized : Bool) :
    Decidable (StaleHash key active peerPhase peerFinalized) :=
  inferInstanceAs (Decidable (_ ∧ (_ ∨ _)))

/-- Removes an address's entries under the given keys; says how many there were. -/
def Cache.removeAll (c : Cache) (address : Address) (keys : List RoundKey) : Nat × Cache :=
  keys.foldl
    (fun acc key =>
      let (removed, c) := acc.2.remove key address
      (if removed then acc.1 + 1 else acc.1, c))
    (0, c)

namespace Caches

/-- Prunes what a peer's report makes stale, for a node whose active key is `active`. -/
def prunePeer (c : Caches) (active : RoundKey) (address : Address) (peerPhase : Nat)
    (peerFinalized : Bool) : Noted (PruneReport × Caches) := do
  let staleContributions := (c.contributions.keysContaining address).filter
    fun key => StaleContribution key active peerPhase
  let staleHashes := (c.hashes.keysContaining address).filter
    fun key => StaleHash key active peerPhase peerFinalized
  let (contributions, first) := c.contributions.removeAll address staleContributions
  let (hashes, second) := c.hashes.removeAll address staleHashes
  let (evictedFirst, first) ← (first.setActive active).enforceCapacity
  let (evictedSecond, second) ← (second.setActive active).enforceCapacity
  let report := ⟨contributions, hashes, evictedFirst + evictedSecond⟩
  logIf (!report.isEmpty)
    (.entriesPruned address peerPhase peerFinalized active contributions hashes report.evictedKeys)
  return (report, ⟨first, second⟩)

/-- Drops every key behind the window from both caches; says how many went. -/
def sweep (c : Caches) (active : RoundKey) : Noted (Nat × Caches) := do
  let (first, contributions) ← c.contributions.sweep active
  let (second, hashes) ← c.hashes.sweep active
  return (first + second, ⟨contributions, hashes⟩)

end Caches

end Adjudication
