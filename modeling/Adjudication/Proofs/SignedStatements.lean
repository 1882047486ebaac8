import Adjudication.Keypair
import Adjudication.Proofs.KeyMultiples
import Adjudication.Statement

namespace Adjudication

theorem littleEndian_uint64_inj {a b : UInt64} :
    littleEndian 8 a.toNat = littleEndian 8 b.toNat ↔ a = b :=
  (littleEndian_inj a.toNat_lt b.toNat_lt).trans UInt64.toNat_inj

theorem littleEndian_uint32_inj {a b : UInt32} :
    littleEndian 4 a.toNat = littleEndian 4 b.toNat ↔ a = b :=
  (littleEndian_inj a.toNat_lt b.toNat_lt).trans UInt32.toNat_inj

theorem littleEndian_bool_inj {a b : Bool} :
    littleEndian 1 a.toNat = littleEndian 1 b.toNat ↔ a = b := by
  cases a <;> cases b <;> decide

theorem littleEndianInt64_inj {a b : Int64} :
    littleEndianInt64 a.toInt = littleEndianInt64 b.toInt ↔ a = b := by
  constructor
  · intro h
    have hbound : ∀ n : Int, (n % UInt64.size).toNat < wordCount 8 := by
      intro n
      simp only [UInt64.size, wordCount]
      omega
    have hmod := (littleEndian_inj (hbound _) (hbound _)).mp h
    have ha := a.toInt_lt
    have ha' := a.le_toInt
    have hb := b.toInt_lt
    have hb' := b.le_toInt
    simp only [UInt64.size] at hmod
    exact Int64.toInt_inj.mp (by omega)
  · rintro rfl
    rfl

@[simp] theorem length_littleEndianInt64 (n : Int) : (littleEndianInt64 n).length = 8 :=
  length_littleEndian ..

theorem contributionMessage_inj {payload payload' : String} :
    contributionMessage payload = contributionMessage payload' ↔ payload = payload' := by
  simp only [contributionMessage, List.append_cancel_left_eq, utf8_inj]

theorem hashMessage_inj {height height' : UInt64} {phase phase' : UInt32} {digest digest' : String} :
    hashMessage ⟨height.toNat, phase.toNat⟩ digest =
        hashMessage ⟨height'.toNat, phase'.toNat⟩ digest' ↔
      height = height' ∧ phase = phase' ∧ digest = digest' := by
  constructor
  · intro h
    simp only [hashMessage, List.append_assoc, List.append_cancel_left_eq] at h
    obtain ⟨hheight, hrest⟩ := List.append_inj h (by simp)
    obtain ⟨hphase, hdigest⟩ := List.append_inj hrest (by simp)
    exact ⟨littleEndian_uint64_inj.mp hheight, littleEndian_uint32_inj.mp hphase,
      utf8_inj.mp hdigest⟩
  · rintro ⟨rfl, rfl, rfl⟩
    rfl

/-- The address has no length of its own, but everything behind it has: the words come off from the
back. -/
theorem attestationMessage_inj {address address' : Address} {height height' nonce nonce' : UInt64}
    {phase phase' : UInt32} {finalized finalized' : Bool} {timestamp timestamp' : Int64} :
    attestationMessage address height.toNat phase.toNat finalized timestamp.toInt nonce.toNat =
        attestationMessage address' height'.toNat phase'.toNat finalized' timestamp'.toInt
          nonce'.toNat ↔
      address = address' ∧ height = height' ∧ phase = phase' ∧ finalized = finalized' ∧
        timestamp = timestamp' ∧ nonce = nonce' := by
  constructor
  · intro h
    obtain ⟨h, hnonce⟩ := List.append_inj' h (by simp)
    obtain ⟨h, htimestamp⟩ := List.append_inj' h (by simp)
    obtain ⟨h, hfinalized⟩ := List.append_inj' h (by simp)
    obtain ⟨h, hphase⟩ := List.append_inj' h (by simp)
    obtain ⟨h, hheight⟩ := List.append_inj' h (by simp)
    exact ⟨utf8_inj.mp (List.append_cancel_left h), littleEndian_uint64_inj.mp hheight,
      littleEndian_uint32_inj.mp hphase, littleEndian_bool_inj.mp hfinalized,
      littleEndianInt64_inj.mp htimestamp, littleEndian_uint64_inj.mp hnonce⟩
  · rintro ⟨rfl, rfl, rfl, rfl, rfl, rfl⟩
    rfl

/-- Something that an adjudicator signs, with numbers as wide as their words. -/
inductive Statement
  | contribution (payload : String)
  | digest (height : UInt64) (phase : UInt32) (text : String)
  | attestation (address : Address) (height : UInt64) (phase : UInt32) (finalized : Bool)
      (timestamp : Int64) (nonce : UInt64)

namespace Statement

def message : Statement → Bytes
  | .contribution payload => contributionMessage payload
  | .digest height phase text => hashMessage ⟨height.toNat, phase.toNat⟩ text
  | .attestation address height phase finalized timestamp nonce =>
    attestationMessage address height.toNat phase.toNat finalized timestamp.toInt nonce.toNat

/-- The byte after "arbiter/": a letter for each kind. -/
def letter : Statement → UInt8
  | .contribution .. => 99
  | .digest .. => 104
  | .attestation .. => 97

theorem getElem?_message (s : Statement) : s.message[8]? = some s.letter := by
  cases s with
  | contribution payload =>
    simp only [message, contributionMessage, letter]
    rw [List.getElem?_append_left (by decide)]
    decide
  | digest height phase text =>
    simp only [message, hashMessage, List.append_assoc, letter]
    rw [List.getElem?_append_left (by decide)]
    decide
  | attestation address height phase finalized timestamp nonce =>
    simp only [message, attestationMessage, List.append_assoc, letter]
    rw [List.getElem?_append_left (by decide)]
    decide

theorem letter_eq_of_message_eq {s t : Statement} (h : s.message = t.message) :
    s.letter = t.letter := by
  have hs := getElem?_message s
  rw [h, getElem?_message t] at hs
  exact (Option.some.inj hs).symm

theorem message_inj {s t : Statement} : s.message = t.message ↔ s = t := by
  constructor
  · intro h
    have hletter := letter_eq_of_message_eq h
    cases s <;> cases t <;> simp only [letter, message] at h hletter
    case contribution.contribution => rw [contributionMessage_inj.mp h]
    case digest.digest =>
      obtain ⟨rfl, rfl, rfl⟩ := hashMessage_inj.mp h
      rfl
    case attestation.attestation =>
      obtain ⟨rfl, rfl, rfl, rfl, rfl, rfl⟩ := attestationMessage_inj.mp h
      rfl
    all_goals exact absurd hletter (by decide)
  · rintro rfl
    rfl

end Statement

/-- An accepted signature was checked against the point and the bytes that its texts encode. -/
theorem ed25519Verifier_eq_true_iff {address : Address} {message : Bytes} {signature : Signature} :
    ed25519Verifier address message signature = true ↔
      ∃ publicKey key bytes, decodeAddress address = .ok (publicKey, key) ∧
        decodeSignature signature = .ok bytes ∧
        Ed25519.verify key publicKey message bytes = true := by
  unfold ed25519Verifier
  rcases decodeAddress address with e | ⟨publicKey, key⟩
  · simp
  · cases decodeSignature signature with
    | error e => simp
    | ok bytes => simp [and_assoc]

theorem onCurve_of_decodeAddress {address : Address} {publicKey : Bytes} {key : Ed25519.Point}
    (h : decodeAddress address = .ok (publicKey, key)) : key.OnCurve := by
  unfold decodeAddress at h
  split at h
  next => cases h
  next =>
    split at h
    next => cases h
    next hpoint =>
      cases h
      exact Ed25519.Point.onCurve_of_decode? hpoint

/-- Equal messages are the same statement. One signature verifies for two statements only where their
messages collide under the hash, or where the signer's key repeats its multiples. -/
theorem Statement.eq_or_collide (s t : Statement) :
    (s.message = t.message ↔ s = t) ∧
      ∀ (address : Address) (signature : Signature),
        ed25519Verifier address s.message signature = true →
        ed25519Verifier address t.message signature = true →
        s = t ∨ ∃ publicKey key bytes, decodeAddress address = .ok (publicKey, key) ∧
          decodeSignature signature = .ok bytes ∧
          (Ed25519.Collide (bytes.take 32 ++ publicKey) s.message t.message ∨ key.Repeats) := by
  refine ⟨message_inj, ?_⟩
  intro address signature hs ht
  obtain ⟨publicKey, key, bytes, hkey, hbytes, hs⟩ := ed25519Verifier_eq_true_iff.mp hs
  obtain ⟨_, _, _, hkey', hbytes', ht⟩ := ed25519Verifier_eq_true_iff.mp ht
  rw [hkey] at hkey'
  rw [hbytes] at hbytes'
  obtain ⟨rfl, rfl⟩ := Prod.mk.inj (Except.ok.inj hkey')
  obtain rfl := Except.ok.inj hbytes'
  by_cases hst : s.message = t.message
  · exact Or.inl (message_inj.mp hst)
  · have hcurve := onCurve_of_decodeAddress hkey
    exact Or.inr ⟨publicKey, key, bytes, hkey, hbytes, Ed25519.collide_or_repeats hcurve hst hs ht⟩

namespace NeutralKey

/-- The neutral point's encoding. No multiple of it depends on the challenge. -/
def address : Address := "0100000000000000000000000000000000000000000000000000000000000000"

/-- The neutral point as commitment, zero as response. -/
def signature : Signature :=
  "0100000000000000000000000000000000000000000000000000000000000000" ++
  "0000000000000000000000000000000000000000000000000000000000000000"

theorem verifies_contribution :
    ed25519Verifier address (Statement.contribution "x").message signature = true := by
  change ed25519Verifier address (contributionMessage "x") signature = true
  decide +kernel

theorem verifies_digest :
    ed25519Verifier address (Statement.digest 1 1 "y").message signature = true := by
  change ed25519Verifier address (hashMessage ⟨1, 1⟩ "y") signature = true
  decide +kernel

theorem two_statements :
    ¬ ∀ (address : Address) (signature : Signature) (s t : Statement),
      ed25519Verifier address s.message signature = true →
      ed25519Verifier address t.message signature = true → s = t := by
  intro h
  have heq := h address signature _ _ verifies_contribution verifies_digest
  cases heq

def publicKey : Bytes := 1 :: List.replicate 31 0

theorem not_collide : ¬ Ed25519.Collide (publicKey ++ publicKey)
    (Statement.contribution "x").message (Statement.digest 1 1 "y").message := by
  change ¬ Ed25519.Collide (publicKey ++ publicKey) (contributionMessage "x") (hashMessage ⟨1, 1⟩ "y")
  decide +kernel

/-- The two messages have challenges of their own: it is the key that takes them for one. -/
theorem key_repeats : ∃ key, decodeAddress address = .ok (publicKey, key) ∧ key.Repeats := by
  have hor := (Statement.eq_or_collide (.contribution "x") (.digest 1 1 "y")).2 address signature
    verifies_contribution verifies_digest
  obtain ⟨bytes, key, signed, hkey, hsigned, hcause⟩ := hor.resolve_left (by simp)
  have hbytes : bytes = publicKey := by
    have hread : (decodeAddress address).toOption.map (·.1) = some publicKey := by decide +kernel
    rw [hkey] at hread
    exact Option.some.inj hread
  have hcommitment : signed.take 32 = publicKey := by
    have hread : (decodeSignature signature).toOption.map (·.take 32) = some publicKey := by
      decide +kernel
    rw [hsigned] at hread
    exact Option.some.inj hread
  rw [hbytes, hcommitment] at hcause
  exact ⟨key, hbytes ▸ hkey, hcause.resolve_left not_collide⟩

end NeutralKey

end Adjudication
