import Adjudication.Entry

namespace Adjudication

inductive Offence
  | badSignature (address : Address)
  | unknownSigner (address : Address)
  | unsolicited (address : Address)
  | oversized (size limit : Nat)
  | malformed (reason : String)
  | badAttestation (reason : String)
deriving DecidableEq

namespace Offence

def message : Offence → String
  | badSignature address => s!"bad signature for {address}"
  | unknownSigner address => s!"{address} is not a signing member"
  | unsolicited address => s!"unsolicited entry for {address}"
  | oversized size limit => s!"{size} bytes exceeds limit of {limit}"
  | malformed reason => s!"malformed request: {reason}"
  | badAttestation reason => s!"bad attestation: {reason}"

def label : Offence → String
  | badSignature _ => "BadSignature"
  | unknownSigner _ => "UnknownSigner"
  | unsolicited _ => "Unsolicited"
  | oversized .. => "Oversized"
  | malformed _ => "Malformed"
  | badAttestation _ => "BadAttestation"

end Offence

end Adjudication
