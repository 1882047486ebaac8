import Adjudication.Decimal.Shortest

namespace Adjudication

structure Metrics where
  blockHeight : Int := 0
  connectedPeers : Nat := 0
  freshPeers : Nat := 0
  finalized : Nat := 0
  failed : Nat := 0
  /-- How many rounds took no longer than each bound. -/
  within : List Nat := List.replicate 10 0
  rounds : Nat := 0
  /-- The seconds that all rounds took together. -/
  seconds : Float := 0

namespace Metrics

/-- The bounds of the histogram in milliseconds, with their names in seconds. -/
def bounds : List (Nat × String) := [
  (10, "0.01"), (50, "0.05"), (100, "0.1"), (250, "0.25"), (500, "0.5"), (1000, "1"), (2000, "2"),
  (5000, "5"), (10000, "10"), (30000, "30")]

def secondsOf (milliseconds : Nat) : Float :=
  Float.ofNat (milliseconds / 1000) + Float.ofNat (milliseconds % 1000 * 1000000) / 1000000000

def observeRound (m : Metrics) (elapsed : Nat) (finalized : Bool) : Metrics :=
  { m with
    finalized := if finalized then m.finalized + 1 else m.finalized
    failed := if finalized then m.failed else m.failed + 1
    within := List.zipWith (fun count bound => if elapsed ≤ bound.1 then count + 1 else count)
      m.within bounds
    rounds := m.rounds + 1
    seconds := m.seconds + secondsOf elapsed }

/-- A gauge holds a signed number of 64 bits, into which a greater height wraps. -/
def setHeight (m : Metrics) (height : Nat) : Metrics :=
  { m with blockHeight := (height : Int).bmod UInt64.size }

def family (name help kind : String) (samples : List (String × String)) : List String :=
  s!"# HELP arbiter_{name} {help}" :: s!"# TYPE arbiter_{name} {kind}" ::
    samples.map fun s => s!"arbiter_{name}{s.1} {s.2}"

/-- The text of a sample; samples are floating-point numbers, so great ones are rounded. -/
def sample (n : Int) : String :=
  let magnitude := Decimal.shortest (Float.ofNat n.natAbs)
  if n < 0 then "-" ++ magnitude else magnitude

def bucketLabel (bound : String) : String := "_bucket\x7ble=\"" ++ bound ++ "\"\x7d"

def lines (m : Metrics) : List String :=
  family "block_height" "Height of the last committed block" "gauge"
      [("", sample m.blockHeight)] ++
    family "connected_peers" "Number of connected adjudicator peers" "gauge"
      [("", sample m.connectedPeers)] ++
    family "fresh_peers" "Number of peers with a heartbeat inside the freshness window" "gauge"
      [("", sample m.freshPeers)] ++
    family "round_duration_seconds" "Time from round start to outcome in seconds" "histogram"
      (List.zipWith (fun bound count => (bucketLabel bound.2, toString count)) bounds m.within ++
        [(bucketLabel "+Inf", toString m.rounds), ("_sum", Decimal.shortest m.seconds),
          ("_count", toString m.rounds)]) ++
    family "rounds_failed_total" "Total number of consensus rounds that failed" "counter"
      [("", sample m.failed)] ++
    family "rounds_finalized_total" "Total number of consensus rounds that finalized" "counter"
      [("", sample m.finalized)]

end Metrics

end Adjudication
