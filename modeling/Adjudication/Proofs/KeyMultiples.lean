import Adjudication.Ed25519.Signature
import Adjudication.Proofs.CurvePoints

namespace Adjudication.Ed25519

namespace Point

/-- Whether two points in extended coordinates are one point of the curve. -/
def Same (p q : Point) : Prop := mulMod p.x q.z = mulMod q.x p.z ∧ mulMod p.y q.z = mulMod q.y p.z

instance (p q : Point) : Decidable (p.Same q) := inferInstanceAs (Decidable (_ ∧ _))

/-- Among the multiples of the point by scalars below the group order some coincide, as they do where the
order of the point is smaller than that of the group. -/
def Repeats (p : Point) : Prop := ∃ k k', k < k' ∧ k' < groupOrder ∧ (p.scale k).Same (p.scale k')

variable {p q : Point} {P : CurvePoint}

theorem Denotes.same (hp : p.Denotes P) (hq : q.Denotes P) : p.Same q := by
  have hfield : ∀ {a b c d : Nat}, (a * b : ZMod prime) = c * d → mulMod a b = mulMod c d := by
    intro a b c d h
    exact (ZMod.natCast_eq_natCast_iff' _ _ _).mp (by exact_mod_cast h)
  constructor
  · refine hfield ?_
    rw [hp.x_eq, hq.x_eq]
    ring
  · refine hfield ?_
    rw [hp.y_eq, hq.y_eq]
    ring

theorem Repeats.of_ne {k k' : Nat} (hne : k ≠ k') (hk : k < groupOrder) (hk' : k' < groupOrder)
    (hp : (p.scale k).Denotes P) (hq : (p.scale k').Denotes P) : p.Repeats := by
  rcases Nat.lt_or_gt_of_ne hne with hlt | hgt
  · exact ⟨k, k', hlt, hk', hp.same hq⟩
  · exact ⟨k', k, hgt, hk, hq.same hp⟩

end Point

/-- The two messages behind what they are hashed with have one residue modulo the group order. -/
def Collide (before message message' : Bytes) : Prop :=
  message ≠ message' ∧
    ofLittleEndian (sha512 (before ++ message)) % groupOrder =
      ofLittleEndian (sha512 (before ++ message')) % groupOrder

instance (before message message' : Bytes) : Decidable (Collide before message message') :=
  inferInstanceAs (Decidable (_ ∧ _))

/-- What verification recomputes from the response and the challenge is the commitment. -/
theorem commitment_of_verify {key : Point} {publicKey message signature : Bytes}
    (h : verify key publicKey message signature = true) :
    ((scaleBase (ofLittleEndian (signature.drop 32))).add
      (key.neg.scale (challenge (signature.take 32) publicKey message))).encode =
        signature.take 32 := by
  simp only [verify] at h
  split at h
  · exact eq_of_beq h
  · cases h

/-- For one commitment and one response the challenge decides which multiple of the key it takes, so a
signature that verifies for two messages has one challenge for both, or the key repeats its multiples. -/
theorem collide_or_repeats {key : Point} {publicKey message message' signature : Bytes}
    (hkey : key.OnCurve) (hne : message ≠ message')
    (h : verify key publicKey message signature = true)
    (h' : verify key publicKey message' signature = true) :
    Collide (signature.take 32 ++ publicKey) message message' ∨ key.Repeats := by
  by_cases hchallenge : challenge (signature.take 32) publicKey message =
      challenge (signature.take 32) publicKey message'
  · exact Or.inl ⟨hne, hchallenge⟩
  · refine Or.inr ?_
    obtain ⟨B, hB⟩ := Point.onCurve_scaleBase (ofLittleEndian (signature.drop 32))
    obtain ⟨A, hA, hnegA⟩ := hkey.mirrored_scale (challenge (signature.take 32) publicKey message)
    obtain ⟨A', hA', hnegA'⟩ := hkey.mirrored_scale (challenge (signature.take 32) publicKey message')
    have hencode := (commitment_of_verify h).trans (commitment_of_verify h').symm
    have hsum := (hB.add hnegA).encode_inj (hB.add hnegA') hencode
    obtain rfl := CurvePoint.neg_injective (CurvePoint.add_left_cancel hsum)
    exact .of_ne hchallenge (Nat.mod_lt _ (by decide)) (Nat.mod_lt _ (by decide)) hA hA'

end Adjudication.Ed25519
