namespace Adjudication

/-- Signed numbers fit if eight bytes hold them in two's complement. -/
def FitsInt64 (n : Int) : Prop := -(UInt64.size : Int) ≤ 2 * n ∧ 2 * n < (UInt64.size : Int)

/-- The word of 64 bits, with a sign, that is left of an integer. -/
def signedWord (n : Int) : Int := n.bmod UInt64.size

theorem signedWord_eq_self {n : Int} (h : FitsInt64 n) : signedWord n = n := by
  unfold FitsInt64 at h
  exact Int.bmod_eq_of_le_mul_two (by omega) (by omega)

theorem fitsInt64_signedWord (n : Int) : FitsInt64 (signedWord n) := by
  unfold FitsInt64 signedWord UInt64.size
  rw [Int.bmod_def]
  split <;> omega

/-- The height after a height. Heights are words of 64 bits: the last is followed by the first. -/
def heightAfter (height : Nat) : Nat := if height + 1 = UInt64.size then 0 else height + 1

theorem heightAfter_of_ne {height : Nat} (h : height + 1 ≠ UInt64.size) :
    heightAfter height = height + 1 := if_neg h

/-- The phase after a phase. Phases are words of 32 bits. -/
def phaseAfter (phase : Nat) : Nat := if phase + 1 = UInt32.size then 0 else phase + 1

theorem phaseAfter_of_ne {phase : Nat} (h : phase + 1 ≠ UInt32.size) :
    phaseAfter phase = phase + 1 := if_neg h

end Adjudication
