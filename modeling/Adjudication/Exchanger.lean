import Adjudication.Fill

namespace Adjudication

/-- A node together with the fills that it runs. Letting a fill go cancels it, and it is forgotten once it
has ended. -/
structure Exchanger where
  node : Node
  fills : List (Nat × Fill) := []
  nextFill : Nat := 0
  /-- After a shutdown every fill is cancelled from its start. -/
  stopped : Bool := false

namespace Exchanger

def fill? (x : Exchanger) (id : Nat) : Option Fill := Assoc.get? id x.fills

def setFill (x : Exchanger) (id : Nat) (f : Fill) : Exchanger :=
  { x with fills := Assoc.insert id f x.fills }

def forgetFill (x : Exchanger) (id : Nat) : Exchanger := { x with fills := Assoc.erase id x.fills }

/-- Puts a fill back after a step, or forgets it if it has ended and no one holds it. -/
def keepFill (x : Exchanger) (id : Nat) (f : Fill) : Exchanger :=
  if f.isEnded && !f.held then x.forgetFill id else x.setFill id f

def startFill (x : Exchanger) (kind : EntryKind) (key : RoundKey) (targets : List Address) :
    Nat × Exchanger :=
  (x.nextFill,
    { x.setFill x.nextFill { kind, key, targets, cancelled := x.stopped } with
      nextFill := x.nextFill + 1 })

def cancelFill (x : Exchanger) (id : Nat) : Exchanger :=
  match x.fill? id with
  | none => x
  | some f => x.setFill id { f with cancelled := true }

/-- Lets a fill go. -/
def releaseFill (x : Exchanger) (id : Nat) : Exchanger :=
  match x.fill? id with
  | none => x
  | some f => x.keepFill id { f with cancelled := true, held := false }

def cancelAll (x : Exchanger) : Exchanger :=
  { x with stopped := true, fills := x.fills.map fun f => (f.1, { f.2 with cancelled := true }) }

def isFillEnded (x : Exchanger) (id : Nat) : Bool := (x.fill? id).all Fill.isEnded

/-- A step of the fill with the given number. -/
def stepFill (x : Exchanger) (id : Nat) (m : Moment) : Noted Exchanger :=
  match x.fill? id with
  | none => pure x
  | some f => do
    let (f, node) ← f.step x.node m
    return { x with node }.keepFill id f

/-- Ends a fill whose step crashed. -/
def crashFill (x : Exchanger) (id : Nat) : Exchanger :=
  match x.fill? id with
  | none => x
  | some f => x.keepFill id (f.ended .crashed)

/-- Puts back the state of a fill's request to a peer. -/
def setTransit (x : Exchanger) (id : Nat) (peer : Address) (transit : Transit) : Exchanger :=
  match x.fill? id with
  | none => x
  | some f => x.setFill id (f.carried peer transit)

end Exchanger

end Adjudication
