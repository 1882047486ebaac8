import Adjudication.Election
import Adjudication.StatusApi
import Adjudication.World
import Adjudication.Wire.Readable

namespace Adjudication

/-- Errors that have a name and a text. -/
class Described (ε : Type) where
  label : ε → String
  message : ε → String

instance : Described KeyError := ⟨KeyError.label, KeyError.message⟩
instance : Described Offence := ⟨Offence.label, Offence.message⟩
instance : Described AttestationError := ⟨AttestationError.label, AttestationError.message⟩
instance : Described NodeError := ⟨NodeError.label, NodeError.message⟩
instance : Described DriverError := ⟨DriverError.label, DriverError.message⟩
instance : Described RoundFailure := ⟨RoundFailure.label, RoundFailure.message⟩
instance : Described RpcError := ⟨RpcError.label, RpcError.message⟩

def describe {ε : Type} [Described ε] (e : ε) : JsonValue :=
  .object [("error", .text (Described.label e)), ("message", .text (Described.message e))]

def RoundKey.toPair (k : RoundKey) : JsonValue := .array [.natural k.height, .natural k.phase]

def Position.toJson (p : Position) : JsonValue :=
  .object [("height", .natural p.height), ("phase", .natural p.phase), ("status", .text p.status.label),
    ("draw", .natural p.draw), ("answer", .orNull (p.answer.map .text)), ("used", .flag p.used),
    ("active", p.activeKey.toPair)]

/-- The keys of a cache, each with something about it. -/
def Cache.list (c : Cache) (about : RoundKey → JsonValue) : JsonValue :=
  .array (c.keys.map fun k => .array [.natural k.height, .natural k.phase, about k])

/-- The keys of a cache, each with its number of entries. -/
def Cache.counts (c : Cache) : JsonValue := c.list fun k => .natural (c.count k)

/-- The keys of both caches, each with the addresses that have an entry. -/
def Caches.fields (c : Caches) : List (String × JsonValue) :=
  let listing (c : Cache) := c.list fun k => .array ((c.addresses k).map .text)
  [("contributions", listing c.contributions), ("hashes", listing c.hashes)]

def pairs (values : List (Address × String)) : JsonValue :=
  .array (values.map fun v => .array [.text v.1, .text v.2])

/-- An attestation without what is different every time, and whether its signature verifies. -/
def Attestation.inspect (a : Attestation) (verifier : Verifier) : JsonValue :=
  .object [("address", .text a.address), ("height", .natural a.height), ("phase", .natural a.phase),
    ("finalized", .flag a.finalized), ("timestamp_ms", .number a.timestamp),
    ("verified", .flag (a.verifies verifier))]

/-- An answer; of a long value only the length is shown. -/
def Response.inspect (r : Response) (verifier : Verifier) : JsonValue :=
  match r with
  | .roundState a => a.inspect verifier
  | .gossip (.entry ⟨address, entry⟩) =>
    let size := entry.value.utf8ByteSize
    let value := if 200 < size then .natural size else .text entry.value
    .object [("entry", .array [.text address, value, .text entry.signature])]
  | .gossip (.state s) =>
    .object [("state", .array [.natural s.height, .natural s.phase, .flag s.finalized])]
  | .failure e => describe e

def Landing.inspect (l : Landing) (verifier : Verifier) : JsonValue :=
  match l with
  | .answered (.ok r) => r.inspect verifier
  | .answered (.error e) => describe e
  | .timedOut => describe RpcError.timeout
  | .crashed => .text "crashed"

/-- An outcome; a brief one names the adjudicators of a finalized set and nothing more of it. -/
def RoundOutcome.fields (o : RoundOutcome) (brief : Bool) : List (String × JsonValue) :=
  ("finalized", .flag o.isFinalized) :: ("key", o.key.toPair) ::
    match o with
    | .finalized _ entries digest =>
      if brief then [("addresses", .array (entries.map fun e => .text e.1))]
      else [("entries", pairs entries), ("digest", .text digest),
        ("producer", .orNull ((electProducer entries).map .text))]
    | .failed _ (.internal reason) => [("reason", .text (RoundFailure.internal reason).label), ("message", .null)]
    | .failed _ reason => [("reason", .text reason.label), ("message", .text reason.message)]

/-- A round that has ended, with its duration if that is asked for. -/
def RoundRun.toJson (r : RoundRun) (timed : Bool) : JsonValue :=
  match r.stage with
  | .ended outcome time ready =>
    .object (("ready", .flag ready) :: outcome.fields false ++
      if timed then [("elapsed_ms", .natural (time - r.startsAt))] else [])
  | _ => .null

/-- A driver of an agent that has come to a height, with the outcomes it was handed. -/
def Driver.toJson {σ : Type} (d : Driver σ) (height : Nat) (brief : Bool) : JsonValue :=
  .object [("result", .text DriverError.shutdown.message), ("finalized", .natural d.finalized),
    ("failed", .natural d.failed), ("height", .natural height),
    ("outcomes", .array (d.accepted.reverse.map fun o => .object (o.fields brief)))]

/-- The address accused, the name of the offence and its text. -/
def accusationRow (a : Address × Offence) : List String := [a.1, a.2.label, a.2.message]

/-- The accusations that an agent kept, each once and in order. -/
def Agent.accusationRows (a : Agent) : List (List String) :=
  sortBy (fun x y => List.lex y x = false) (a.reports.map accusationRow).eraseDups

/-- Whether a scripted peer was asked, what it was offered, and which entries its first request missed;
more than eight are not named. -/
def ScriptedPeer.askedJson (p : ScriptedPeer) : JsonValue :=
  let first := (p.asked.getLast?.map GossipRequest.missing).getD []
  let offers := p.asked.reverse.filterMap GossipRequest.offered
  let named := sortBy (· ≤ ·) first
  .object [("asked", .flag !p.asked.isEmpty),
    ("offers", pairs (offers.map fun e => (e.address, e.entry.value))),
    ("first_len", .natural first.length),
    ("first", if 8 < first.length then .null else .array (named.map .text))]

end Adjudication
