namespace Adjudication

abbrev Address := String
abbrev Signature := String

inductive EntryKind
  | contribution
  | hash
deriving DecidableEq, Inhabited

def EntryKind.label : EntryKind → String
  | .contribution => "contribution"
  | .hash => "hash"

def EntryKind.ofLabel? (s : String) : Option EntryKind :=
  [EntryKind.contribution, .hash].find? fun kind => kind.label = s

structure SignedEntry where
  value : String
  signature : Signature
deriving DecidableEq, Inhabited

/-- An entry and the adjudicator it is attributed to. -/
structure AddressedEntry where
  address : Address
  entry : SignedEntry
deriving DecidableEq, Inhabited

end Adjudication
