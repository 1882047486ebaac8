import Adjudication.Assoc
import Adjudication.Noted

namespace Adjudication

/-- What a cache holds: in ascending order of key, and under each key some entries in ascending order of
address. -/
structure Cache.Tidy (rounds : List (RoundKey × List (Address × SignedEntry))) : Prop where
  ascending : Assoc.Ascending rounds
  inhabited : ∀ r ∈ rounds, r.2 ≠ []
  entries : ∀ r ∈ rounds, Assoc.Ascending r.2

namespace Cache.Tidy

variable {rounds kept : List (RoundKey × List (Address × SignedEntry))}

theorem nil : Tidy [] where
  ascending := .nil
  inhabited _ hr := absurd hr List.not_mem_nil
  entries _ hr := absurd hr List.not_mem_nil

theorem sublist (h : Tidy rounds) (hs : kept.Sublist rounds) : Tidy kept where
  ascending := h.ascending.sublist hs
  inhabited r hr := h.inhabited r (hs.subset hr)
  entries r hr := h.entries r (hs.subset hr)

theorem insert (h : Tidy rounds) (key : RoundKey) {es : List (Address × SignedEntry)} (hne : es ≠ [])
    (hes : Assoc.Ascending es) : Tidy (Assoc.insert key es rounds) where
  ascending := h.ascending.insert key es
  inhabited r hr := by
    rcases Assoc.mem_insert hr with rfl | hr
    · exact hne
    · exact h.inhabited r hr
  entries r hr := by
    rcases Assoc.mem_insert hr with rfl | hr
    · exact hes
    · exact h.entries r hr

theorem get? (h : Tidy rounds) (key : RoundKey) :
    Assoc.Ascending ((Assoc.get? key rounds).getD []) := by
  cases hr : Assoc.get? key rounds with
  | none => exact .nil
  | some es => exact h.entries _ (Assoc.mem_of_get? hr)

theorem drop (h : Tidy rounds) (key : RoundKey) (address : Address) :
    let rest := Assoc.erase address ((Assoc.get? key rounds).getD [])
    Tidy (if rest.isEmpty then Assoc.erase key rounds else Assoc.insert key rest rounds) := by
  dsimp only
  split
  next => exact h.sublist List.filter_sublist
  next hrest =>
    refine h.insert key (fun hnil => hrest ?_) ((h.get? key).sublist List.filter_sublist)
    rw [hnil, List.isEmpty_nil]

end Cache.Tidy

/-- Under each round key at most one entry per address, the first that came; no key is kept without
entries. When the keys exceed the capacity, the oldest go first, but never one in the admission window
of the key that the cache was last told is active. -/
@[ext]
structure Cache where
  kind : EntryKind
  capacity : Nat
  active : Option RoundKey
  rounds : List (RoundKey × List (Address × SignedEntry))
  tidy : Cache.Tidy rounds

namespace Cache

/-- A cache holds at least one key, whatever capacity is asked for. -/
def empty (kind : EntryKind) (capacity : Nat) : Cache :=
  { kind, capacity := max capacity 1, active := none, rounds := [], tidy := .nil }

def entries (c : Cache) (key : RoundKey) : List (Address × SignedEntry) :=
  (Assoc.get? key c.rounds).getD []

def get? (c : Cache) (key : RoundKey) (address : Address) : Option SignedEntry :=
  Assoc.get? address (c.entries key)

def contains (c : Cache) (key : RoundKey) (address : Address) : Bool := (c.get? key address).isSome

def count (c : Cache) (key : RoundKey) : Nat := (c.entries key).length

/-- The addresses with an entry under a key, in ascending order. -/
def addresses (c : Cache) (key : RoundKey) : List Address := Assoc.keys (c.entries key)

def keys (c : Cache) : List RoundKey := Assoc.keys c.rounds

def keyCount (c : Cache) : Nat := c.rounds.length

def keysContaining (c : Cache) (address : Address) : List RoundKey :=
  (c.rounds.filter fun r => Assoc.contains address r.2).map (·.1)

/-- The entry of the first candidate that has one. -/
def firstPresent (c : Cache) (key : RoundKey) (candidates : List Address) : Option AddressedEntry :=
  let entries := c.entries key
  candidates.findSome? fun address => (Assoc.get? address entries).map fun e => ⟨address, e⟩

def setActive (c : Cache) (active : RoundKey) : Cache := { c with active := some active }

/-- Whether eviction spares a key. -/
def Protected (c : Cache) (key : RoundKey) : Prop := ∃ a ∈ c.active, key.InAdmission a

instance (c : Cache) (key : RoundKey) : Decidable (c.Protected key) :=
  match h : c.active with
  | none => .isFalse (by simp [Protected, h])
  | some a => decidable_of_iff (key.InAdmission a) (by simp [Protected, h])

def put (c : Cache) (key : RoundKey) (address : Address) (entry : SignedEntry) : Cache :=
  { c with
    rounds := Assoc.insert key (Assoc.insert address entry (c.entries key)) c.rounds
    tidy := c.tidy.insert key (Assoc.insert_ne_nil _ _ _) ((c.tidy.get? key).insert address entry) }

/-- Drops keys without entries, then the oldest unprotected keys beyond the capacity. -/
def evict (c : Cache) : Cache :=
  let held := c.rounds.filter fun r => !r.2.isEmpty
  let victims := ((Assoc.keys held).filter fun key => ¬ c.Protected key).take (held.length - c.capacity)
  { c with
    rounds := held.filter fun r => r.1 ∉ victims
    tidy := c.tidy.sublist (List.filter_sublist.trans List.filter_sublist) }

/-- Evicts, and says how many keys went. -/
def enforceCapacity (c : Cache) : Noted (Nat × Cache) := do
  let kept := c.evict
  let removed := c.keyCount - kept.keyCount
  logIf (removed > 0) (.keysEvicted c.kind removed)
  return (removed, kept)

/-- Inserts an entry unless its address has one under the key; says whether it did. -/
def insert (c : Cache) (key : RoundKey) (address : Address) (entry : SignedEntry) :
    Noted (Bool × Cache) :=
  if c.contains key address then
    pure (false, c)
  else do
    log (.entryCached c.kind key address)
    let grown := c.put key address entry
    if grown.capacity < grown.keyCount then
      let (_, kept) ← grown.enforceCapacity
      return (true, kept)
    else
      return (true, grown)

/-- Removes an entry, and its key if that leaves it empty; says whether it was there. -/
def remove (c : Cache) (key : RoundKey) (address : Address) : Bool × Cache :=
  if c.contains key address then
    let rest := Assoc.erase address (c.entries key)
    let rounds :=
      if rest.isEmpty then Assoc.erase key c.rounds else Assoc.insert key rest c.rounds
    (true, { c with rounds, tidy := c.tidy.drop key address })
  else (false, c)

/-- Makes a key the active one and drops every key behind its window; says how many went. -/
def sweep (c : Cache) (active : RoundKey) : Noted (Nat × Cache) := do
  let kept := { c with
    active := some active
    rounds := c.rounds.filter fun r => ¬ r.1.Behind active
    tidy := c.tidy.sublist List.filter_sublist }
  let removed := c.keyCount - kept.keyCount
  logIf (removed > 0) (.roundsSwept c.kind active removed)
  return (removed, kept)

end Cache

/-- The two caches of a node. -/
structure Caches where
  contributions : Cache
  hashes : Cache

namespace Caches

def empty (capacity : Nat) : Caches := ⟨.empty .contribution capacity, .empty .hash capacity⟩

def of (c : Caches) : EntryKind → Cache
  | .contribution => c.contributions
  | .hash => c.hashes

def set (c : Caches) (kind : EntryKind) (cache : Cache) : Caches :=
  match kind with
  | .contribution => { c with contributions := cache }
  | .hash => { c with hashes := cache }

end Caches

end Adjudication
