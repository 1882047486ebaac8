import Adjudication.Exchanger
import Adjudication.Fingerprint

namespace Adjudication

/-- What a node collected, and the digest it stands by. -/
structure Commitment where
  entries : List (Address × SignedEntry)
  digest : String
deriving DecidableEq

def Commitment.values (c : Commitment) : List (Address × String) :=
  c.entries.map fun e => (e.1, e.2.value)

def Commitment.ofEntries (entries : List (Address × SignedEntry)) : Commitment :=
  ⟨entries, canonicalDigest (entries.map fun e => (e.1, e.2.value))⟩

/-- How a stage that waits on a fill came to its end. -/
inductive Verdict
  | heightMoved
  | collected (count need waited : Nat)
  | agreed (agreeing need : Nat)
  | failed (reason : RoundFailure)

/-- What one look at the caches shows. -/
inductive Poll
  | pending
  /-- There are no members left to wait for. -/
  | deserted
  | settled (verdict : Verdict)

inductive Goal
  | collection
  | tally (commitment : Commitment)

inductive RoundStage
  | scheduled
  /-- Looks again at `wake`, or when the fill ends if it is `watching` for that. -/
  | polling (goal : Goal) (since fill wake : Nat) (watching : Bool)
  /-- Has seen enough, and waits for the fill to exit. -/
  | leaving (goal : Goal) (fill : Nat) (verdict : Verdict)
  | catchingUp (commitment : Commitment) (deadline wake : Nat)
  /-- Ended at a time, with the node's readiness at that time. -/
  | ended (outcome : RoundOutcome) (time : Nat) (ready : Bool)

/-- A round. It publishes its contribution and collects those of the others; then it publishes the digest
of what it collected and tallies those of the others; a majority of one digest finalizes the set. If the
height moves in the first two stages, the round starts over at the new one. -/
structure RoundRun where
  phase : Nat
  contribution : SignedEntry
  finalizeTimeout : Nat
  kind : RoundKind
  startsAt : Nat
  key : RoundKey := ⟨0, 0⟩
  stage : RoundStage := .scheduled

/-- How the digests of the members compare with one's own. -/
structure Tally where
  agreeing : Nat
  differing : Nat
  pending : Nat
  need : Nat
deriving DecidableEq

namespace Node

/-- The fresh rows of members at the height that a key decides. -/
def freshMembers (n : Node) (m : Moment) (key : RoundKey) : List PeerRow :=
  (n.table.fresh m.now n.config.round.freshness).filter fun row =>
    heightAfter row.height = key.height && m.members.contains row.address

/-- The peers to hear from: those in the phase of the key or the next one, and those that have
finalized the one before it. -/
def waitSet (n : Node) (m : Moment) (key : RoundKey) : List Address :=
  ((n.freshMembers m key).filter fun row =>
    row.phase = key.phase || row.phase = phaseAfter key.phase ||
      (0 < key.phase && row.phase = key.phase - 1 && row.finalized)).map (·.address)

/-- The members that have not finalized the key's phase. -/
def behind (n : Node) (m : Moment) (key : RoundKey) : List Address :=
  ((n.freshMembers m key).filter fun row =>
    row.phase < key.phase || (row.phase = key.phase && !row.finalized)).map (·.address)

def tally (n : Node) (m : Moment) (key : RoundKey) (digest : String) : Tally :=
  let hashes := n.caches.hashes
  let digests := m.members.addresses.filterMap fun member => hashes.get? key member
  { agreeing := digests.countP fun entry => entry.value = digest
    differing := digests.countP fun entry => entry.value ≠ digest
    pending := (n.waitSet m key).countP fun address => !hashes.contains key address
    need := majority m.members.size }

def heightMoved (n : Node) (key : RoundKey) : Bool := n.position.height + 1 ≠ key.height

/-- Collection ends when the wait set is complete, the grace period is over, a majority is present or
the time is up; it succeeds if a majority is present then. -/
def pollCollection (n : Node) (m : Moment) (key : RoundKey) (kind : RoundKind) (since : Nat) : Poll :=
  if n.heightMoved key then .settled .heightMoved
  else if m.members.size = 0 then .deserted
  else
    let contributions := n.caches.contributions
    let need := majority m.members.size
    let count := m.members.addresses.countP fun member => contributions.contains key member
    let waited := n.waitSet m key
    let complete := !waited.isEmpty && waited.all fun address => contributions.contains key address
    let elapsed := m.now - since
    let graceOver := kind.acceptsPartial && n.config.round.grace ≤ elapsed
    let late := n.config.round.collectionDeadline kind ≤ elapsed
    if complete || graceOver || need ≤ count || late then
      if need ≤ count then .settled (.collected count need waited.length)
      else .settled (.failed (.insufficientContributions count need))
    else .pending

/-- A tally ends when a majority agrees or differs; once it has settled, when a majority is out of
reach; or when the time is up. -/
def pollTally (n : Node) (m : Moment) (key : RoundKey) (digest : String) (finalizeTimeout since : Nat) :
    Poll :=
  if n.heightMoved key then .settled .heightMoved
  else if m.members.size = 0 then .deserted
  else
    let t := n.tally m key digest
    let elapsed := m.now - since
    if t.need ≤ t.agreeing then .settled (.agreed t.agreeing t.need)
    else if t.need ≤ t.differing then .settled (.failed (.hashMismatch t.differing t.need))
    else if n.config.round.settle ≤ elapsed && t.agreeing + t.pending < t.need then
      .settled (.failed (.majorityUnreachable t.agreeing t.pending t.need))
    else if finalizeTimeout ≤ elapsed then .settled (.failed (.finalizeTimeout t.agreeing t.need))
    else .pending

/-- Publishes the digest that the node now stands by, in place of an earlier one. -/
def publishDigest (n : Node) (key : RoundKey) (digest : String) : Noted Node := do
  let signature := n.signer.sign (hashMessage key digest)
  let (_, hashes) := n.caches.hashes.remove key n.address
  let n ← { n with caches := n.caches.set .hash hashes }.publish .hash key ⟨digest, signature⟩
  log (.hashPublished key digest)
  return n

/-- Enters the phase of a round and drops what is behind it. -/
def enterPhase (n : Node) (phase : Nat) : Noted Node := do
  let position := n.position.beginPhase phase
  let (_, caches) ← n.caches.sweep position.activeKey
  return { n with position, caches }

def failureReport (n : Node) (m : Moment) (key : RoundKey) (reason : RoundFailure) :
    FailureReport where
  key := key
  reason := reason
  height := n.position.height
  phase := n.position.phase
  finalized := n.position.isFinalized
  members := m.members.size
  contributions := n.caches.contributions.count key
  hashes := n.caches.hashes.count key
  contributionKeys := n.caches.contributions.keyCount
  hashKeys := n.caches.hashes.keyCount
  peers := n.table.summaries m.now

end Node

namespace RoundRun

def outcome? (r : RoundRun) : Option RoundOutcome :=
  match r.stage with
  | .ended outcome .. => some outcome
  | _ => none

/-- The fill that the round holds. -/
def fill? (r : RoundRun) : Option Nat :=
  match r.stage with
  | .polling _ _ fill .. | .leaving _ fill _ => some fill
  | _ => none

def finish (r : RoundRun) (x : Exchanger) (m : Moment) (outcome : RoundOutcome) : RoundRun :=
  { r with stage := .ended outcome m.now x.node.ready }

def fail (r : RoundRun) (x : Exchanger) (m : Moment) (reason : RoundFailure) :
    Noted (RoundRun × Exchanger) := do
  log (.roundFailed (x.node.failureReport m r.key reason))
  return (r.finish x m (.failed r.key reason), x)

/-- Waits for members that are behind, no longer than until `deadline`; then the round has
succeeded. -/
def catchUp (r : RoundRun) (x : Exchanger) (m : Moment) (c : Commitment) (deadline : Nat) :
    Noted (RoundRun × Exchanger) := do
  let behind := x.node.behind m r.key
  if behind.isEmpty || deadline ≤ m.now then
    logIf (!behind.isEmpty) (.catchUpExpired r.key behind)
    log (.roundFinalized r.key c.entries.length c.digest (m.now - r.startsAt))
    return (r.finish x m (.finalized r.key c.values c.digest), x)
  else
    return ({ r with stage := .catchingUp c deadline (m.now + x.node.config.round.poll) }, x)

/-- Looks at the caches, and goes on waiting or begins to leave the stage. -/
def poll (r : RoundRun) (x : Exchanger) (m : Moment) (goal : Goal) (since fill : Nat) :
    Noted (RoundRun × Exchanger) :=
  let seen :=
    match goal with
    | .collection => x.node.pollCollection m r.key r.kind since
    | .tally c => x.node.pollTally m r.key c.digest r.finalizeTimeout since
  match seen with
  | .pending =>
    let wake := m.now + x.node.config.round.poll
    pure ({ r with stage := .polling goal since fill wake (!x.isFillEnded fill) }, x)
  | .deserted => r.fail (x.releaseFill fill) m .noMembers
  | .settled verdict => pure ({ r with stage := .leaving goal fill verdict }, x.cancelFill fill)

/-- Starts the fill of a stage and has a first look. -/
def pursue (r : RoundRun) (x : Exchanger) (m : Moment) (goal : Goal) : Noted (RoundRun × Exchanger) :=
  if m.members.size = 0 then r.fail x m .noMembers
  else
    let kind := match goal with | .collection => .contribution | .tally _ => .hash
    let (fill, x) := x.startFill kind r.key m.members.addresses
    r.poll x m goal m.now fill

/-- Publishes the contribution at the node's height, and starts to collect. -/
def attempt (r : RoundRun) (x : Exchanger) (m : Moment) : Noted (RoundRun × Exchanger) := do
  let r := { r with key := ⟨x.node.position.height + 1, r.phase⟩ }
  let node ← x.node.enterPhase r.phase
  let node ← node.publish .contribution r.key r.contribution
  log (.contributionPublished r.key)
  r.pursue { x with node } m .collection

/-- Publishes the digest of the collected set, and starts to tally. -/
def commit (r : RoundRun) (x : Exchanger) (m : Moment) : Noted (RoundRun × Exchanger) := do
  let c := Commitment.ofEntries (x.node.caches.contributions.entries r.key)
  let node ← { x.node with ready := true }.publishDigest r.key c.digest
  r.pursue { x with node } m (.tally c)

/-- Finalizes the phase, and starts to wait for the others. -/
def conclude (r : RoundRun) (x : Exchanger) (m : Moment) (c : Commitment) :
    Noted (RoundRun × Exchanger) := do
  let (_, position) ← x.node.position.finalizePhase (r.key.height - 1) r.phase
  let x := { x with node := { x.node with position } }
  r.catchUp x m c (m.now + x.node.config.round.catchUp)

/-- Goes on from a stage whose fill has exited. -/
def leave (r : RoundRun) (x : Exchanger) (m : Moment) (goal : Goal) (verdict : Verdict) :
    Noted (RoundRun × Exchanger) :=
  match verdict, goal with
  | .heightMoved, .collection => do
    log (.collectionRestarted r.key x.node.position.height)
    r.attempt x m
  | .heightMoved, .tally _ => do
    log (.tallyRestarted r.key x.node.position.height)
    r.attempt { x with node := { x.node with ready := false } } m
  | .collected count need waited, _ => do
    log (.collectionComplete r.key count need waited)
    r.commit x m
  | .agreed agreeing need, .tally c => do
    log (.hashMajorityReached r.key agreeing need)
    r.conclude x m c
  | .agreed .., .collection => pure (r, x)
  | .failed reason, _ => r.fail x m reason

/-- One step of a round, when it is ready for one. -/
def step (r : RoundRun) (x : Exchanger) (m : Moment) : Noted (RoundRun × Exchanger) :=
  match r.stage with
  | .scheduled => r.attempt { x with node := { x.node with ready := false } } m
  | .polling goal since fill _ _ => r.poll x m goal since fill
  | .leaving goal fill verdict =>
    match x.fill? fill with
    | some { stage := .crashed, .. } =>
      r.fail (x.forgetFill fill) m (.internal "gossip task failed: task panicked")
    | _ => r.leave (x.forgetFill fill) m goal verdict
  | .catchingUp c deadline _ => r.catchUp x m c deadline
  | .ended .. => pure (r, x)

/-- When the round has something to do next. -/
def readyAt (r : RoundRun) (x : Exchanger) : Option Nat :=
  match r.stage with
  | .scheduled => some r.startsAt
  | .polling _ _ fill wake watching => if watching && x.isFillEnded fill then some 0 else some wake
  | .leaving _ fill _ => if x.isFillEnded fill then some 0 else none
  | .catchingUp _ _ wake => some wake
  | .ended .. => none

end RoundRun

end Adjudication
