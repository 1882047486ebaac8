import Adjudication.Cache
import Adjudication.Keypair
import Adjudication.Limits
import Adjudication.Members
import Adjudication.Statement

namespace Adjudication

inductive Admitted
  | inserted
  | duplicate
  | late
  | premature
deriving DecidableEq, Inhabited

def Admitted.label : Admitted → String
  | inserted => "Inserted"
  | duplicate => "Duplicate"
  | late => "Late"
  | premature => "Premature"

/-- What is wrong with an entry, whatever round it is for. -/
def entryOffence? (verifier : Verifier) (members : Members) (kind : EntryKind) (key : RoundKey)
    (address : Address) (entry : SignedEntry) : Option Offence :=
  let size := entry.value.utf8ByteSize
  if Limits.maxEntryBytes < size then some (.oversized size Limits.maxEntryBytes)
  else if !members.contains address then some (.unknownSigner address)
  else if !verifier address (kind.message key entry.value) entry.signature then
    some (.badSignature address)
  else none

/-- Decides on an entry that `peer` delivered for a node whose active key is `active`. -/
def Cache.consider (c : Cache) (verifier : Verifier) (members : Members) (active : RoundKey)
    (peer : Address) (key : RoundKey) (address : Address) (entry : SignedEntry) :
    Noted (Except Offence Admitted × Cache) :=
  if key.Behind active then do
    log (.lateEntry peer key active)
    return (.ok .late, c)
  else if ¬ key.InAdmission active then do
    log (.prematureEntry peer key active)
    return (.ok .premature, c)
  else
    let c := c.setActive active
    match entryOffence? verifier members c.kind key address entry with
    | some offence => do
      accuse peer offence
      return (.error offence, c)
    | none => do
      let (inserted, c) ← c.insert key address entry
      return (.ok (if inserted then .inserted else .duplicate), c)

end Adjudication
