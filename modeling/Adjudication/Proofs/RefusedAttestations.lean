import Adjudication.Proofs.ReplayMemory

namespace Adjudication

namespace ReplayGuard

variable {g g' : ReplayGuard} {verifier : Verifier} {p : Presented} {e : AttestationError}
  {slot : Address × Nat} {time : Int} {seen : List ((Address × Nat) × Int)}

theorem map_retime_of_unknown (unknown : ∀ x ∈ seen, x.1 ≠ slot) :
    seen.map (fun x => if x.1 = slot then (x.1, time) else x) = seen := by
  refine (List.map_congr_left fun x hx => ?_).trans (List.map_id seen)
  exact if_neg (unknown x hx)

theorem remember_of_known (hdistinct : (seen.map (·.1)).Nodup) (known : ∃ x ∈ seen, x.1 = slot) :
    remember slot time seen = seen.map fun x => if x.1 = slot then (x.1, time) else x := by
  induction seen with
  | nil =>
    obtain ⟨x, hx, _⟩ := known
    cases hx
  | cons x xs ih =>
    obtain ⟨hfirst, hrest⟩ := List.nodup_cons.mp hdistinct
    rw [remember, List.map_cons]
    by_cases hx : x.1 = slot
    · have hothers : ∀ y ∈ xs, y.1 ≠ slot := by
        intro y hy hslot
        exact hfirst (List.mem_map.mpr ⟨y, hy, hslot.trans hx.symm⟩)
      rw [if_pos hx, if_pos hx, map_retime_of_unknown hothers, hx]
    · have hknown : ∃ y ∈ xs, y.1 = slot := by
        obtain ⟨y, hy, hslot⟩ := known
        rcases List.mem_cons.mp hy with rfl | hy
        · exact absurd hslot hx
        · exact ⟨y, hy, hslot⟩
      rw [if_neg hx, if_neg hx, ih hrest hknown]

theorem slots_retime (slot : Address × Nat) (time : Int) (seen : List ((Address × Nat) × Int)) :
    (seen.map fun x => if x.1 = slot then (x.1, time) else x).map (·.1) = seen.map (·.1) := by
  rw [List.map_map]
  refine List.map_congr_left fun x _ => ?_
  dsimp only [Function.comp]
  split <;> rfl

/-- The guard with the time of `p` in place of the one that it remembers for the nonce of `p`. -/
def retimed (g : ReplayGuard) (p : Presented) : ReplayGuard :=
  { g with
    seen := g.seen.map fun x => if x.1 = p.slot then (x.1, p.attestation.timestamp) else x
    distinct := (slots_retime _ _ g.seen).symm ▸ g.distinct }

theorem noting_of_known (known : g.Remembers p.slot) : g.noting p = g.retimed p :=
  ReplayGuard.ext rfl rfl (remember_of_known g.distinct known)

/-- Taking over a time that is remembered already changes nothing. -/
theorem retimed_eq_iff (known : g.Remembers p.slot) :
    g.retimed p = g ↔ (p.slot, p.attestation.timestamp) ∈ g.seen := by
  constructor
  · intro hsame
    obtain ⟨x, hx, hslot⟩ := known
    rw [← hsame]
    refine List.mem_map.mpr ⟨x, hx, ?_⟩
    rw [if_pos hslot, hslot]
  · intro hmem
    refine ReplayGuard.ext rfl rfl ((List.map_congr_left fun x hx => ?_).trans (List.map_id g.seen))
    split
    next hslot => rw [List.inj_on_of_nodup_map g.distinct hx hmem hslot, id]
    next => rfl

/-- An attestation is refused for a check that it fails, or as a replay of a nonce that is known. -/
theorem accept_error_cases
    (h : (g.accept verifier p.attestation p.expected p.now).value.1 = .error e) :
    (¬ p.Sound verifier g.maxSkew ∧ g.next verifier p = g ∧
      ∀ address nonce, e ≠ .replayed address nonce) ∨
    (p.Sound verifier g.maxSkew ∧ g.Remembers p.slot ∧ g.next verifier p = g.noting p ∧
      e = .replayed p.attestation.address p.attestation.nonce) := by
  have hrefused : g.admits verifier p = false := by rw [admits, h]; rfl
  rcases accept_cases g verifier p with ⟨hs, _, hn⟩ | ⟨hs, hr, _, hn⟩ | ⟨_, _, ha, _⟩
  · refine Or.inl ⟨hs, hn, ?_⟩
    rintro address nonce rfl
    -- the memory is asked only when all checks have been passed
    unfold accept at h
    dsimp only at h
    split at h
    next => cases h
    next haddress =>
      split at h
      next => cases h
      next hskew =>
        split at h
        next => cases h
        next hverifies =>
          refine hs ⟨not_not.mp haddress, Int.not_lt.mp hskew, ?_⟩
          simpa using hverifies
  · refine Or.inr ⟨hs, hr, hn, ?_⟩
    have hknown : (g.seen.any fun x => x.1 = (p.attestation.address, p.attestation.nonce)) = true := by
      obtain ⟨x, hx, hslot⟩ := hr
      exact List.any_eq_true.mpr ⟨x, hx, decide_eq_true hslot⟩
    have hskew : ¬ g.maxSkew < p.attestation.skew p.now := Int.not_lt.mpr hs.2.1
    simp only [accept, if_neg (not_not.mpr hs.1), if_neg hskew, hs.2.2, hknown, if_true,
      Bool.not_true, Bool.false_eq_true, if_false, Noted.value_pure, Except.error.injEq] at h
    exact h.symm
  · rw [hrefused] at ha
    cases ha

/-- What a refusal of `p` leaves of a guard. -/
structure Refused (verifier : Verifier) (g : ReplayGuard) (p : Presented) (e : AttestationError)
    (g' : ReplayGuard) : Prop where
  unchanged : (∀ address nonce, e ≠ .replayed address nonce) → g' = g
  /-- A replay leaves its time behind. -/
  retimed : ∀ address nonce, e = .replayed address nonce → p.slot = (address, nonce) ∧ g' = g.retimed p
  slots : g'.seen.map (·.1) = g.seen.map (·.1)
  unchanged_iff : g' = g ↔
    ¬ ∃ time, time ≠ p.attestation.timestamp ∧ (p.slot, time) ∈ g.seen ∧ p.Sound verifier g.maxSkew

/-- A refused attestation leaves no trace in a guard, unless it passes all checks and bears a nonce that
the guard remembers with another time. -/
theorem refused_of_error
    (h : (g.accept verifier p.attestation p.expected p.now).value.1 = .error e) :
    Refused verifier g p e (g.next verifier p) := by
  rcases accept_error_cases h with ⟨hs, hn, hne⟩ | ⟨hs, hr, hn, rfl⟩
  · rw [hn]
    refine ⟨fun _ => rfl, fun address nonce he => absurd he (hne address nonce), rfl, ?_⟩
    exact iff_of_true rfl fun ⟨_, _, _, sound⟩ => hs sound
  · rw [hn, noting_of_known hr]
    refine ⟨fun hne => absurd rfl (hne _ _), ?_, slots_retime _ _ g.seen, ?_⟩
    · intro address nonce he
      cases he
      exact ⟨rfl, rfl⟩
    · rw [retimed_eq_iff hr]
      constructor
      · rintro hmem ⟨time, hne, hother, _⟩
        exact hne (congrArg Prod.snd (List.inj_on_of_nodup_map g.distinct hother hmem rfl))
      · intro hnone
        obtain ⟨⟨slot, time⟩, hx, rfl⟩ := hr
        by_contra hmem
        refine hnone ⟨time, ?_, hx, hs⟩
        rintro rfl
        exact hmem hx

end ReplayGuard

namespace Echo

open ReplayGuard

/-- An attestation of "a" under its first nonce, with a time of its own. -/
def signedAt (timestamp : Int) : Presented :=
  { attestation := ⟨"a", 0, 0, false, timestamp, 1, "a"⟩, expected := "a", now := 10 }

def verifier : Verifier := fun address _ signature => signature = address

def guard : ReplayGuard := (empty 4 30000).after verifier [signedAt 0]

/-- The guard refuses the second attestation under a nonce, and takes over its time. -/
theorem refusal_leaves_time :
    (guard.accept verifier (signedAt 5).attestation (signedAt 5).expected (signedAt 5).now).value.1 =
      .error (.replayed "a" 1) ∧
    guard.next verifier (signedAt 5) ≠ guard := by
  refine ⟨by decide, fun hsame => ?_⟩
  exact absurd (congrArg ReplayGuard.seen hsame) (by decide)

theorem second_refused :
    (guard.accept verifier (signedAt 5).attestation (signedAt 5).expected (signedAt 5).now).value.1 =
      .error (.replayed "a" 1) ∧
    Refused verifier guard (signedAt 5) (.replayed "a" 1) (guard.next verifier (signedAt 5)) := by
  have hrefused : (guard.accept verifier (signedAt 5).attestation (signedAt 5).expected
      (signedAt 5).now).value.1 = .error (.replayed "a" 1) := by decide
  exact ⟨hrefused, refused_of_error hrefused⟩

end Echo

end Adjudication
