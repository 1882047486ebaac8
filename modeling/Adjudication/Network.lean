import Adjudication.Assoc
import Adjudication.Message

namespace Adjudication

/-- Who answers at an address, which links are cut, and how long a call is under way. A link is always cut
in both directions. -/
structure Network (σ : Type) where
  services : List (Address × σ) := []
  /-- Services that no longer exist; their addresses stay registered. -/
  gone : List σ := []
  cuts : List (Address × Address) := []
  latency : Nat := 0

namespace Network

variable {σ : Type} [DecidableEq σ]

def register (net : Network σ) (address : Address) (service : σ) : Network σ :=
  { net with services := Assoc.insert address service net.services }

def unregister (net : Network σ) (address : Address) : Network σ :=
  { net with services := Assoc.erase address net.services }

def drop (net : Network σ) (service : σ) : Network σ := { net with gone := service :: net.gone }

def isCut (net : Network σ) (a b : Address) : Bool := (a, b) ∈ net.cuts

def partition (net : Network σ) (a b : Address) : Network σ :=
  { net with cuts := (a, b) :: (b, a) :: net.cuts }

def heal (net : Network σ) (a b : Address) : Network σ :=
  { net with cuts := net.cuts.filter fun link => link ≠ (a, b) ∧ link ≠ (b, a) }

/-- Cuts an address off from every other one that is registered. -/
def isolate (net : Network σ) (address : Address) : Network σ :=
  ((Assoc.keys net.services).filter (· ≠ address)).foldl (fun net other => net.partition address other) net

def healAll (net : Network σ) : Network σ := { net with cuts := [] }

/-- The service that answers a call. -/
def route (net : Network σ) (sender receiver : Address) : Except RpcError σ :=
  if net.isCut sender receiver then .error (.unreachable receiver)
  else
    match Assoc.get? receiver net.services with
    | some service => if service ∈ net.gone then .error (.unreachable receiver) else .ok service
    | none => .error (.unreachable receiver)

end Network

end Adjudication
