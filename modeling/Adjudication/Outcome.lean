import Adjudication.Entry
import Adjudication.RoundKey

namespace Adjudication

inductive RoundKind
  | initial
  | middle
  | last
deriving DecidableEq, Inhabited

/-- Whether collection may end after the grace period with less than the whole wait set. -/
def RoundKind.acceptsPartial : RoundKind → Bool
  | .initial => false
  | .middle | .last => true

def RoundKind.collectionDeadline (kind : RoundKind) (initial followup : Nat) : Nat :=
  match kind with
  | .initial => initial
  | .middle | .last => followup

def RoundKind.label : RoundKind → String
  | .initial => "Initial"
  | .middle => "Middle"
  | .last => "Last"

def RoundKind.ofLabel? (s : String) : Option RoundKind :=
  [RoundKind.initial, .middle, .last].find? fun kind => kind.label = s

inductive RoundFailure
  | insufficientContributions (present need : Nat)
  | hashMismatch (mismatches need : Nat)
  | majorityUnreachable (agreeing pending need : Nat)
  | finalizeTimeout (agreeing need : Nat)
  | noMembers
  | internal (reason : String)
deriving DecidableEq

def RoundFailure.message : RoundFailure → String
  | .insufficientContributions present need =>
    s!"insufficient contributions: have {present}, need {need}"
  | .hashMismatch mismatches need =>
    s!"hash mismatch: {mismatches} peers disagree, majority is {need}"
  | .majorityUnreachable agreeing pending need =>
    s!"majority unreachable: {agreeing} matches + {pending} pending < {need}"
  | .finalizeTimeout agreeing need =>
    s!"finalize timeout: {agreeing} matching hashes, need {need}"
  | .noMembers => "no signing addresses available"
  | .internal reason => s!"internal round error: {reason}"

def RoundFailure.label : RoundFailure → String
  | .insufficientContributions .. => "InsufficientContributions"
  | .hashMismatch .. => "HashMismatch"
  | .majorityUnreachable .. => "MajorityUnreachable"
  | .finalizeTimeout .. => "FinalizeTimeout"
  | .noMembers => "NoMembers"
  | .internal _ => "Internal"

/-- A finalized round carries the agreed set in ascending order of address, and its digest. -/
inductive RoundOutcome
  | finalized (key : RoundKey) (entries : List (Address × String)) (digest : String)
  | failed (key : RoundKey) (reason : RoundFailure)
deriving DecidableEq

namespace RoundOutcome

def isFinalized : RoundOutcome → Bool
  | .finalized .. => true
  | .failed .. => false

def key : RoundOutcome → RoundKey
  | .finalized key _ _ | .failed key _ => key

def entries? : RoundOutcome → Option (List (Address × String))
  | .finalized _ entries _ => some entries
  | .failed .. => none

end RoundOutcome

end Adjudication
