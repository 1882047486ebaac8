import Adjudication.Assoc
import Adjudication.Entry
import Adjudication.Quoted
import Adjudication.RoundKey

namespace Adjudication

/-- The round state that a peer last reported. A row says nothing until the first report. -/
structure PeerRow where
  address : Address
  /-- The last height that the peer reported as finalized. -/
  height : Nat
  phase : Nat
  finalized : Bool
  /-- When the last report was recorded. -/
  updatedAt : Option Nat
deriving DecidableEq, Inhabited

/-- What the outside world sees of a row; the age is in milliseconds. -/
structure PeerSummary where
  address : Address
  height : Nat
  phase : Nat
  finalized : Bool
  age : Option Nat
deriving DecidableEq, Inhabited

namespace PeerRow

def connected (address : Address) : PeerRow := ⟨address, 0, 0, false, none⟩

/-- A report from the future counts as new. -/
def Fresh (row : PeerRow) (now window : Nat) : Prop :=
  match row.updatedAt with
  | none => False
  | some at_ => now - at_ < window

instance (row : PeerRow) (now window : Nat) : Decidable (row.Fresh now window) := by
  unfold Fresh
  cases row.updatedAt <;> infer_instance

/-- Whether, going by its last report, the peer could publish under `key`: under its current key, or
once that is finalized under the next phase or the first of the next height. -/
def MayPublish (row : PeerRow) (key : RoundKey) : Prop :=
  row.updatedAt.isSome ∧
    (key = ⟨heightAfter row.height, row.phase⟩ ∨
      row.finalized ∧ (key = ⟨heightAfter row.height, phaseAfter row.phase⟩ ∨
        key = ⟨heightAfter (heightAfter row.height), 0⟩))

instance (row : PeerRow) (key : RoundKey) : Decidable (row.MayPublish key) :=
  inferInstanceAs (Decidable (_ ∧ _))

/-- Whether the peer has reported that it works on the round of `key`. -/
def WorksOn (row : PeerRow) (key : RoundKey) : Prop :=
  row.updatedAt.isSome ∧ heightAfter row.height = key.height ∧ row.phase = key.phase

instance (row : PeerRow) (key : RoundKey) : Decidable (row.WorksOn key) :=
  inferInstanceAs (Decidable (_ ∧ _))

def summary (row : PeerRow) (now : Nat) : PeerSummary :=
  ⟨row.address, row.height, row.phase, row.finalized, row.updatedAt.map fun at_ => now - at_⟩

def describe (row : PeerRow) : String :=
  Quoted.record "PeerNodeState"
    [("address", Quoted.text row.address), ("height", toString row.height),
      ("phase", toString row.phase), ("finalized", toString row.finalized),
      ("updated_at", Quoted.option (row.updatedAt.map toString))] true

end PeerRow

def PeerSummary.describe (s : PeerSummary) : String :=
  Quoted.record "PeerSummary"
    [("address", Quoted.text s.address), ("height", toString s.height),
      ("phase", toString s.phase), ("finalized", toString s.finalized),
      ("age_ms", Quoted.option (s.age.map toString))] false

/-- The rows, each under its address and in ascending order of address. -/
structure PeerTable where
  rows : List (Address × PeerRow)
  ascending : Assoc.Ascending rows
  filed : ∀ r ∈ rows, r.2.address = r.1

namespace PeerTable

def empty : PeerTable where
  rows := []
  ascending := .nil
  filed _ hr := absurd hr List.not_mem_nil

/-- Puts a row under its address, in place of any there was. -/
def file (table : PeerTable) (row : PeerRow) : PeerTable where
  rows := Assoc.insert row.address row table.rows
  ascending := table.ascending.insert row.address row
  filed r hr := by
    rcases Assoc.mem_insert hr with rfl | hr
    · rfl
    · exact table.filed r hr

def get? (table : PeerTable) (address : Address) : Option PeerRow := Assoc.get? address table.rows

theorem address_of_get? {table : PeerTable} {address : Address} {row : PeerRow}
    (h : table.get? address = some row) : row.address = address := table.filed _ (Assoc.mem_of_get? h)

theorem get?_file_self (table : PeerTable) (row : PeerRow) :
    (table.file row).get? row.address = some row := Assoc.get?_insert_self _ _ _

theorem get?_file_of_ne (table : PeerTable) (row : PeerRow) {x : Address} (h : x ≠ row.address) :
    (table.file row).get? x = table.get? x := Assoc.get?_insert_of_ne h _ _

def size (table : PeerTable) : Nat := table.rows.length

def addresses (table : PeerTable) : List Address := Assoc.keys table.rows

def toList (table : PeerTable) : List PeerRow := table.rows.map (·.2)

/-- A new row for a peer, in place of any it had. -/
def connect (table : PeerTable) (address : Address) : PeerTable :=
  table.file (.connected address)

def disconnect (table : PeerTable) (address : Address) : PeerTable where
  rows := Assoc.erase address table.rows
  ascending := table.ascending.sublist List.filter_sublist
  filed r hr := table.filed r (List.mem_filter.mp hr).1

/-- Overwrites a connected peer's report; an address without a row is ignored. -/
def record (table : PeerTable) (address : Address) (height phase : Nat) (finalized : Bool)
    (at_ : Nat) : PeerTable :=
  match table.get? address with
  | none => table
  | some row => table.file ⟨row.address, height, phase, finalized, some at_⟩

def fresh (table : PeerTable) (now window : Nat) : List PeerRow :=
  table.toList.filter fun row => row.Fresh now window

def summaries (table : PeerTable) (now : Nat) : List PeerSummary :=
  table.toList.map fun row => row.summary now

def describe (table : PeerTable) : String :=
  Quoted.record "PeerTable" [("peers", toString table.size)] false

end PeerTable

end Adjudication
