import Adjudication.Proofs.RefusedAttestations
import Adjudication.Proofs.SortedLists

namespace Adjudication

namespace ReplayGuard

variable {g g' : ReplayGuard} {verifier : Verifier} {p : Presented} {admitted : Bool}
  {capacity : Nat} {maxSkew : Int}

def byTime (g : ReplayGuard) : List ((Address × Nat) × Int) :=
  sortBy (fun x y => x.2 ≤ y.2) g.seen

/-- How many nonces a guard over its capacity forgets. -/
def excess (g : ReplayGuard) : Nat := g.size - g.capacity * 3 / 4

theorem byTime_perm (g : ReplayGuard) : g.byTime.Perm g.seen := sortBy_perm _ _

theorem byTime_pairwise (g : ReplayGuard) : g.byTime.Pairwise fun x y => x.2 ≤ y.2 :=
  sortBy_pairwise Prod.snd g.seen

theorem forget_of_lt (hover : g.capacity < g.size) :
    g.forget.value = g.without ((g.byTime.take g.excess).map (·.1)) := by
  rw [forget, if_neg (Nat.not_le.mpr hover)]
  rfl

/-- Over its capacity, a guard keeps what comes last in the order of time. -/
theorem forget_perm (hover : g.capacity < g.size) :
    g.forget.value.seen.Perm (g.byTime.drop g.excess) := by
  have hsplit : (g.byTime.take g.excess ++ g.byTime.drop g.excess).Perm g.seen := by
    rw [List.take_append_drop]
    exact g.byTime_perm
  have hslots : ((g.byTime.take g.excess).map (·.1) ++ (g.byTime.drop g.excess).map (·.1)).Nodup := by
    rw [← List.map_append]
    exact (hsplit.map _).nodup_iff.mpr g.distinct
  -- the victims are known by their slots, and no slot is both among the first and among the rest
  have hdisjoint := List.disjoint_of_nodup_append hslots
  rw [forget_of_lt hover]
  refine (hsplit.symm.filter _).trans ?_
  have hgone : (g.byTime.take g.excess).filter
      (fun x => decide (x.1 ∉ (g.byTime.take g.excess).map (·.1))) = [] := by
    refine List.filter_eq_nil_iff.mpr fun x hx => ?_
    rw [decide_eq_true_eq, not_not]
    exact List.mem_map_of_mem hx
  have hkept : (g.byTime.drop g.excess).filter
      (fun x => decide (x.1 ∉ (g.byTime.take g.excess).map (·.1))) = g.byTime.drop g.excess := by
    refine List.filter_eq_self.mpr fun x hx => ?_
    rw [decide_eq_true_eq]
    exact fun hfirst => hdisjoint hfirst (List.mem_map_of_mem hx)
  rw [List.filter_append, hgone, hkept, List.nil_append]

theorem size_forget (hover : g.capacity < g.size) : g.forget.value.size = g.capacity * 3 / 4 := by
  have hlength : g.byTime.length = g.size := g.byTime_perm.length_eq
  rw [size, (forget_perm hover).length_eq, List.length_drop, hlength, excess]
  omega

/-- What is forgotten is not later than what is kept. -/
theorem forget_oldest {x y : (Address × Nat) × Int} (hx : x ∈ g.seen)
    (lost : ¬ g.forget.value.Remembers x.1) (hy : y ∈ g.forget.value.seen) : x.2 ≤ y.2 := by
  by_cases hover : g.capacity < g.size
  · have hperm := forget_perm hover
    have hsorted : (g.byTime.take g.excess ++ g.byTime.drop g.excess).Pairwise fun x y => x.2 ≤ y.2 := by
      rw [List.take_append_drop]
      exact g.byTime_pairwise
    have hlast : x ∉ g.byTime.drop g.excess :=
      fun hx' => lost ⟨x, hperm.mem_iff.mpr hx', rfl⟩
    have hfirst : x ∈ g.byTime.take g.excess := by
      have hmem := g.byTime_perm.mem_iff.mpr hx
      rw [← List.take_append_drop g.excess g.byTime, List.mem_append] at hmem
      exact hmem.resolve_right hlast
    exact (List.pairwise_append.mp hsorted).2.2 x hfirst y (hperm.mem_iff.mp hy)
  · rw [forget_of_size_le (Nat.not_lt.mp hover)] at lost
    exact absurd ⟨x, hx, rfl⟩ lost

/-- The guards that come of an empty one. -/
inductive Reached (capacity : Nat) (maxSkew : Int) (verifier : Verifier) : ReplayGuard → Prop
  | empty : Reached capacity maxSkew verifier (.empty capacity maxSkew)
  | taken {g g' : ReplayGuard} {p : Presented} {admitted : Bool} :
      Reached capacity maxSkew verifier g → Takes verifier g p admitted g' →
      Reached capacity maxSkew verifier g'

theorem Reached.after (h : Reached capacity maxSkew verifier g) (ps : List Presented) :
    Reached capacity maxSkew verifier (g.after verifier ps) := by
  induction ps generalizing g with
  | nil => exact h
  | cons p ps ih => exact ih (.taken h (takes_next g verifier p))

/-- The guard once it has noted `p`, if it notes `p` at all. -/
def noted (g : ReplayGuard) (verifier : Verifier) (p : Presented) : ReplayGuard :=
  if p.Sound verifier g.maxSkew then g.noting p else g

/-- What taking `p` leaves of the nonces that are noted then. -/
structure Trims (verifier : Verifier) (bound : Nat) (g : ReplayGuard) (p : Presented) (admitted : Bool)
    (g' : ReplayGuard) : Prop where
  distinct : (g'.seen.map (·.1)).Nodup
  bounded : g'.size ≤ bound
  /-- What is kept is kept with its time. -/
  kept : ∀ x ∈ g'.seen, x ∈ (g.noted verifier p).seen
  /-- Nothing is forgotten but by an admission that exceeds the bound. -/
  forgets : (∃ x ∈ (g.noted verifier p).seen, ¬ g'.Remembers x.1) →
    admitted = true ∧ bound < (g.noted verifier p).size
  trimmed : admitted = true → bound < (g.noted verifier p).size → g'.size = bound * 3 / 4
  oldest : ∀ x ∈ (g.noted verifier p).seen, ¬ g'.Remembers x.1 → ∀ y ∈ g'.seen, x.2 ≤ y.2

/-- A guard that keeps all it has noted. -/
theorem trims_of_noted {bound : Nat} (hsize : (g.noted verifier p).size ≤ bound) :
    Trims verifier bound g p admitted (g.noted verifier p) where
  distinct := (g.noted verifier p).distinct
  bounded := hsize
  kept _ hx := hx
  forgets := fun ⟨x, hx, lost⟩ => absurd ⟨x, hx, rfl⟩ lost
  trimmed _ hover := absurd hover (Nat.not_lt.mpr hsize)
  oldest x hx lost := absurd ⟨x, hx, rfl⟩ lost

theorem size_noting_of_known (known : g.Remembers p.slot) : (g.noting p).size = g.size := by
  rw [noting_of_known known]
  exact List.length_map _

theorem Takes.trims (hsize : g.size ≤ g.capacity) (h : Takes verifier g p admitted g') :
    Trims verifier g.capacity g p admitted g' := by
  cases h with
  | refused unsound =>
    have hnoted : g.noted verifier p = g := if_neg unsound
    have htrims : Trims verifier g.capacity g p false (g.noted verifier p) :=
      trims_of_noted (by rwa [hnoted])
    rwa [hnoted] at htrims
  | replayed sound known =>
    have hnoted : g.noted verifier p = g.noting p := if_pos sound
    have htrims : Trims verifier g.capacity g p false (g.noted verifier p) := by
      refine trims_of_noted ?_
      rw [hnoted, size_noting_of_known known]
      exact hsize
    rwa [hnoted] at htrims
  | @admitted listing hlisting sound unknown =>
    have hnoted : g.noted verifier p = g.noting p := if_pos sound
    have hlength : ((g.noting p).relisted listing hlisting).size = (g.noting p).size :=
      hlisting.length_eq
    have hmem : ∀ x, x ∈ (g.noting p).seen ↔ x ∈ listing := fun x => hlisting.mem_iff.symm
    by_cases hover : g.capacity < (g.noting p).size
    · have hfull : g.capacity < ((g.noting p).relisted listing hlisting).size := by rwa [hlength]
      have htarget : ((g.noting p).relisted listing hlisting).forget.value.size = g.capacity * 3 / 4 :=
        size_forget hfull
      refine ⟨ReplayGuard.distinct _, ?_, ?_, fun _ => ?_, fun _ _ => htarget, ?_⟩
      · rw [htarget]
        omega
      · intro x hx
        rw [hnoted, hmem]
        exact (forget_seen_sublist _).subset hx
      · rw [hnoted]
        exact ⟨rfl, hover⟩
      · intro x hx lost y hy
        rw [hnoted, hmem] at hx
        exact forget_oldest hx lost hy
    · have hroom : ((g.noting p).relisted listing hlisting).size ≤ g.capacity := by
        rw [hlength]
        omega
      rw [forget_of_size_le hroom]
      have hkeeps : ∀ x ∈ (g.noted verifier p).seen,
          ((g.noting p).relisted listing hlisting).Remembers x.1 := by
        intro x hx
        rw [hnoted, hmem] at hx
        exact ⟨x, hx, rfl⟩
      refine ⟨ReplayGuard.distinct _, hroom, ?_, ?_, ?_, fun x hx lost => absurd (hkeeps x hx) lost⟩
      · intro x hx
        rw [hnoted, hmem]
        exact hx
      · rintro ⟨x, hx, lost⟩
        exact absurd (hkeeps x hx) lost
      · intro _ hbound
        rw [hnoted] at hbound
        exact absurd hbound hover

theorem Reached.invariant (h : Reached capacity maxSkew verifier g) :
    g.size ≤ g.capacity ∧ g.capacity = max capacity 4 := by
  induction h with
  | empty => exact ⟨Nat.zero_le _, rfl⟩
  | @taken g g' p admitted _ htakes ih =>
    obtain ⟨hsize, hcapacity⟩ := ih
    have htrims := htakes.trims hsize
    refine ⟨?_, htakes.limits.2.trans hcapacity⟩
    rw [htakes.limits.2]
    exact htrims.bounded

/-- A guard stays within its bound, and forgets the oldest first: the guard that lists its nonces as they
came, and one that lists them in any order. -/
theorem trims_of_run (capacity : Nat) (maxSkew : Int) (verifier : Verifier) :
    (∀ ps p, Trims verifier (max capacity 4) ((empty capacity maxSkew).after verifier ps) p
      (((empty capacity maxSkew).after verifier ps).admits verifier p)
      (((empty capacity maxSkew).after verifier ps).next verifier p)) ∧
    ∀ g, Reached capacity maxSkew verifier g → ∀ p admitted g', Takes verifier g p admitted g' →
      Trims verifier (max capacity 4) g p admitted g' := by
  have hany : ∀ g, Reached capacity maxSkew verifier g → ∀ p admitted g',
      Takes verifier g p admitted g' → Trims verifier (max capacity 4) g p admitted g' := by
    intro g hg p admitted g' htakes
    obtain ⟨hsize, hcapacity⟩ := hg.invariant
    rw [← hcapacity]
    exact htakes.trims hsize
  exact ⟨fun ps p => hany _ (Reached.empty.after ps) p _ _ (takes_next _ _ p), hany⟩

end ReplayGuard

namespace Brim

open ReplayGuard

def verifier : Verifier := fun address _ signature => signature = address

/-- A guard for four that holds the first four nonces of a flood. -/
def guard : ReplayGuard := (empty 4 30000).after verifier (flood.take 4)

def fifth : Presented := ⟨⟨"a", 0, 0, false, 4, 5, "a"⟩, "a", 10⟩

theorem fifth_trims :
    (guard.noted verifier fifth).size = 5 ∧ (guard.next verifier fifth).seen.map (·.1.2) = [3, 4, 5] ∧
      Trims verifier 4 guard fifth true (guard.next verifier fifth) := by
  have hadmitted : guard.admits verifier fifth = true := by decide +kernel
  have htrims := (trims_of_run 4 30000 verifier).1 (flood.take 4) fifth
  refine ⟨by decide +kernel, by decide +kernel, ?_⟩
  rw [← hadmitted]
  exact htrims

end Brim

end Adjudication
