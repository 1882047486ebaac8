import Adjudication.Words

namespace Adjudication

/-- A height and a phase within it, ordered by height first. -/
structure RoundKey where
  height : Nat
  phase : Nat
deriving DecidableEq, Inhabited

namespace RoundKey

instance : LT RoundKey where
  lt a b := a.height < b.height ∨ a.height = b.height ∧ a.phase < b.phase

theorem lt_def {a b : RoundKey} :
    a < b ↔ a.height < b.height ∨ a.height = b.height ∧ a.phase < b.phase := Iff.rfl

instance (a b : RoundKey) : Decidable (a < b) := decidable_of_iff' _ lt_def

/-- The key in work, the one a phase before it at the same height, and the first one of the next
height. -/
def InRetention (key active : RoundKey) : Prop :=
  key = active ∨ 0 < active.phase ∧ key = ⟨active.height, active.phase - 1⟩ ∨
    key = ⟨active.height + 1, 0⟩

instance (key active : RoundKey) : Decidable (key.InRetention active) :=
  inferInstanceAs (Decidable (_ ∨ _ ∨ _))

/-- Admission reaches one phase further than retention. -/
def InAdmission (key active : RoundKey) : Prop :=
  key.InRetention active ∨ key = ⟨active.height, active.phase + 1⟩

instance (key active : RoundKey) : Decidable (key.InAdmission active) :=
  inferInstanceAs (Decidable (_ ∨ _))

def Behind (key active : RoundKey) : Prop := key < ⟨active.height, active.phase - 1⟩

instance (key active : RoundKey) : Decidable (key.Behind active) :=
  inferInstanceAs (Decidable (_ < _))

def text (key : RoundKey) : String := toString key.height ++ ":" ++ toString key.phase

/-- Neither word of the key is the last of its width. The keys that a node itself works on are taken to be
of this kind throughout, and the windows count on from them; what peers report may be any words. -/
def HasNext (key : RoundKey) : Prop :=
  key.height + 1 < UInt64.size ∧ key.phase + 1 < UInt32.size

theorem HasNext.inAdmission_iff {key active : RoundKey} (h : active.HasNext) :
    key.InAdmission active ↔
      (key = active ∨ 0 < active.phase ∧ key = ⟨active.height, active.phase - 1⟩ ∨
        key = ⟨heightAfter active.height, 0⟩) ∨ key = ⟨active.height, phaseAfter active.phase⟩ := by
  rw [heightAfter_of_ne (Nat.ne_of_lt h.1), phaseAfter_of_ne (Nat.ne_of_lt h.2)]
  rfl

theorem InRetention.inAdmission {key active : RoundKey} (h : key.InRetention active) :
    key.InAdmission active := .inl h

theorem InRetention.not_behind {key active : RoundKey} (h : key.InRetention active) :
    ¬ key.Behind active := by
  rcases h with rfl | ⟨_, rfl⟩ | rfl <;> simp only [Behind, lt_def] <;> omega

theorem InAdmission.not_behind {key active : RoundKey} (h : key.InAdmission active) :
    ¬ key.Behind active := by
  rcases h with h | rfl
  · exact h.not_behind
  · simp only [Behind, lt_def]; omega

theorem lt_irrefl (a : RoundKey) : ¬ a < a := by simp only [lt_def]; omega

theorem lt_trans {a b c : RoundKey} (hab : a < b) (hbc : b < c) : a < c := by
  simp only [lt_def] at *; omega

theorem lt_trichotomy (a b : RoundKey) : a < b ∨ a = b ∨ b < a := by
  rcases a with ⟨h, p⟩
  rcases b with ⟨h', p'⟩
  simp only [lt_def, RoundKey.mk.injEq]
  omega

instance : Trans (α := RoundKey) (· < ·) (· < ·) (· < ·) := ⟨lt_trans⟩

instance : Std.Irrefl (α := RoundKey) (· < ·) := ⟨lt_irrefl⟩

instance : Std.Trichotomous (α := RoundKey) (· < ·) where
  trichotomous a b hab hba := ((lt_trichotomy a b).resolve_left hab).resolve_right hba

end RoundKey

end Adjudication
