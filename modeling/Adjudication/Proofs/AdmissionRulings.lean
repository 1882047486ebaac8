import Adjudication.Proofs.Accusations
import Adjudication.Proofs.Callers
import Adjudication.Proofs.WindowContents

namespace Adjudication

namespace RoundKey

variable {key active : RoundKey}

/-- What is neither behind nor admitted is ahead. -/
theorem lt_of_not_inAdmission (hb : ¬ key.Behind active) (hout : ¬ key.InAdmission active) :
    active < key := by
  rw [inAdmission_iff] at hout
  simp only [Behind, lt_def] at *
  omega

theorem Behind.not_lt (hb : key.Behind active) : ¬ active < key := by
  simp only [Behind, lt_def] at *
  omega

end RoundKey

namespace Cache

variable {c : Cache} {verifier : Verifier} {members : Members} {active k key : RoundKey}
  {peer address x : Address} {entry : SignedEntry}

@[simp] theorem rounds_setActive (c : Cache) (active : RoundKey) :
    (c.setActive active).rounds = c.rounds := rfl

theorem consider_of_ahead (c : Cache) (verifier : Verifier) (members : Members) (peer address : Address)
    (entry : SignedEntry) (hlt : active < key) (hout : ¬ key.InAdmission active) :
    (c.consider verifier members active peer key address entry).value = (.ok .premature, c) := by
  have hb : ¬ key.Behind active := fun hb => hb.not_lt hlt
  unfold consider
  rw [if_neg hb, if_pos hout]
  rfl

theorem consider_of_offence (peer : Address) (hin : key.InAdmission active) {offence : Offence}
    (hoffence : entryOffence? verifier members c.kind key address entry = some offence) :
    (c.consider verifier members active peer key address entry).value =
      (.error offence, c.setActive active) := by
  have hchecked : entryOffence? verifier members (c.setActive active).kind key address entry =
      some offence := hoffence
  unfold consider
  rw [if_neg hin.not_behind, if_neg (not_not.mpr hin)]
  simp only [hchecked]
  rfl

theorem insert_of_contains (hc : c.contains key address = true) (entry : SignedEntry) :
    (c.insert key address entry).value = (false, c) := by
  unfold insert
  rw [if_pos hc]
  rfl

theorem insert_of_not_contains (hc : c.contains key address = false) (entry : SignedEntry) :
    (c.insert key address entry).value.1 = true := by
  unfold insert
  rw [hc, if_neg Bool.false_ne_true]
  simp only [Noted.value_bind]
  split <;> rfl

theorem consider_of_sound (peer : Address) (hin : key.InAdmission active)
    (hsound : entryOffence? verifier members c.kind key address entry = none) :
    (c.consider verifier members active peer key address entry).value =
      (.ok (if c.contains key address then .duplicate else .inserted),
        ((c.setActive active).insert key address entry).value.2) := by
  have hchecked : entryOffence? verifier members (c.setActive active).kind key address entry = none :=
    hsound
  unfold consider
  rw [if_neg hin.not_behind, if_neg (not_not.mpr hin)]
  simp only [hchecked]
  rw [Noted.value_bind, Noted.value_pure]
  cases hc : c.contains key address with
  | true => rw [insert_of_contains (c := c.setActive active) hc entry]; rfl
  | false => rw [insert_of_not_contains (c := c.setActive active) hc entry]; rfl

/-- The entry is there, nothing admitted has gone for it, and what is left besides is as it was. -/
structure Entered (c : Cache) (active key : RoundKey) (address : Address) (entry : SignedEntry)
    (c' : Cache) : Prop where
  present : c'.get? key address = some entry
  evicted : ∀ k ∈ c.keys, k ∉ c'.keys → ¬ k.InAdmission active
  kept : ∀ k ∈ c'.keys, ∀ x, ¬ (k = key ∧ x = address) → c'.get? k x = c.get? k x

theorem entered_of_new (hin : key.InAdmission active)
    (hnew : c.contains key address = false) (entry : SignedEntry) :
    c.Entered active key address entry ((c.setActive active).insert key address entry).value.2 := by
  have hevicted : ((c.setActive active).put key address entry).Evicted
      ((c.setActive active).insert key address entry).value.2 := evicted_insert hnew
  refine ⟨get?_insert_self (protected_of_setActive hin) hnew entry, ?_, ?_⟩
  · intro k hk hgone hadmitted
    have hput : k ∈ ((c.setActive active).put key address entry).keys :=
      Assoc.mem_keys_insert.mpr (Or.inr hk)
    exact hgone (hevicted.spared k hput (protected_of_setActive (c := c) hadmitted))
  · intro k hk x hother
    obtain ⟨_, hentries⟩ := hevicted.unchanged k hk
    have hput := get?_put (c.setActive active) key k address x entry
    rw [if_neg hother] at hput
    rw [get?, hentries]
    exact hput

/-- The ruling on an entry that a peer delivers to a cache, and what comes of it. -/
structure Ruled (c : Cache) (verifier : Verifier) (members : Members) (active : RoundKey)
    (peer : Address) (key : RoundKey) (address : Address) (entry : SignedEntry)
    (outcome : Noted (Except Offence Admitted × Cache)) : Prop where
  late_iff : outcome.value.1 = .ok .late ↔ key.Behind active
  premature_iff : outcome.value.1 = .ok .premature ↔ active < key ∧ ¬ key.InAdmission active
  offence_iff : ∀ offence, outcome.value.1 = .error offence ↔ key.InAdmission active ∧
    entryOffence? verifier members c.kind key address entry = some offence
  duplicate_iff : outcome.value.1 = .ok .duplicate ↔ key.InAdmission active ∧
    entryOffence? verifier members c.kind key address entry = none ∧ c.contains key address = true
  inserted_iff : outcome.value.1 = .ok .inserted ↔ key.InAdmission active ∧
    entryOffence? verifier members c.kind key address entry = none ∧ c.contains key address = false
  late : outcome.value.1 = .ok .late → outcome.value.2 = c ∧ accusations outcome.notices = []
  premature : outcome.value.1 = .ok .premature → outcome.value.2 = c ∧ accusations outcome.notices = []
  offence : ∀ offence, outcome.value.1 = .error offence →
    outcome.value.2.rounds = c.rounds ∧ accusations outcome.notices = [(peer, offence)]
  duplicate : outcome.value.1 = .ok .duplicate →
    outcome.value.2.rounds = c.rounds ∧ accusations outcome.notices = []
  inserted : outcome.value.1 = .ok .inserted →
    c.Entered active key address entry outcome.value.2 ∧ accusations outcome.notices = []

/-- Whatever a cache holds, an entry for it is ruled late, premature, an offence, a duplicate or inserted by
its key and its check, and only the last of these changes an entry. -/
theorem ruled (c : Cache) (verifier : Verifier) (members : Members) (active : RoundKey)
    (peer : Address) (key : RoundKey) (address : Address) (entry : SignedEntry) :
    c.Ruled verifier members active peer key address entry
      (c.consider verifier members active peer key address entry) := by
  have hreports := c.accusations_consider verifier members active peer key address entry
  by_cases hin : key.InAdmission active
  · have hb := hin.not_behind
    rw [if_pos hin] at hreports
    cases hcheck : entryOffence? verifier members c.kind key address entry with
    | some offence =>
      have hvalue := consider_of_offence peer hin hcheck
      constructor <;> simp [hvalue, hreports, hin, hb, hcheck]
    | none =>
      have hvalue := consider_of_sound peer hin hcheck
      cases hc : c.contains key address with
      | true =>
        have hsame := insert_of_contains (c := c.setActive active) hc entry
        constructor <;> simp [hvalue, hreports, hin, hb, hcheck, hc, hsame]
      | false =>
        have hentered := entered_of_new hin hc entry
        constructor <;> simp [hvalue, hreports, hin, hb, hcheck, hc, hentered]
  · rw [if_neg hin] at hreports
    by_cases hb : key.Behind active
    · have hnlt := hb.not_lt
      have hvalue := c.consider_of_behind verifier members peer address entry hb
      constructor <;> simp [hvalue, hreports, hin, hb, hnlt]
    · have hlt := RoundKey.lt_of_not_inAdmission hb hin
      have hvalue := c.consider_of_ahead verifier members peer address entry hlt hin
      constructor <;> simp [hvalue, hreports, hin, hb, hlt]

end Cache

end Adjudication
