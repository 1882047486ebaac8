import Adjudication.Attestation
import Mathlib.Data.List.Nodup

namespace Adjudication

/-- An attestation as it reaches a guard, with the channel it came on and the time the clock showed. -/
structure Presented where
  attestation : Attestation
  expected : Address
  now : Int

namespace Presented

def slot (p : Presented) : Address × Nat := (p.attestation.address, p.attestation.nonce)

/-- Passes every check that a guard makes before it asks its memory. -/
def Sound (p : Presented) (verifier : Verifier) (maxSkew : Int) : Prop :=
  p.attestation.address = p.expected ∧ p.attestation.skew p.now ≤ maxSkew ∧
    p.attestation.verifies verifier = true

instance (p : Presented) (verifier : Verifier) (maxSkew : Int) :
    Decidable (p.Sound verifier maxSkew) :=
  inferInstanceAs (Decidable (_ ∧ _))

end Presented

namespace ReplayGuard

def Remembers (g : ReplayGuard) (slot : Address × Nat) : Prop := ∃ x ∈ g.seen, x.1 = slot

instance (g : ReplayGuard) (slot : Address × Nat) : Decidable (g.Remembers slot) :=
  inferInstanceAs (Decidable (∃ x ∈ g.seen, x.1 = slot))

def next (g : ReplayGuard) (verifier : Verifier) (p : Presented) : ReplayGuard :=
  (g.accept verifier p.attestation p.expected p.now).value.2

def admits (g : ReplayGuard) (verifier : Verifier) (p : Presented) : Bool :=
  (g.accept verifier p.attestation p.expected p.now).value.1.toBool

def after (g : ReplayGuard) (verifier : Verifier) (ps : List Presented) : ReplayGuard :=
  ps.foldl (fun g p => g.next verifier p) g

/-- The addresses and nonces that pass, in order. -/
def admitted (verifier : Verifier) : ReplayGuard → List Presented → List (Address × Nat)
  | _, [] => []
  | g, p :: ps =>
    if g.admits verifier p then p.slot :: admitted verifier (g.next verifier p) ps
    else admitted verifier (g.next verifier p) ps

/-- The guard knows a slot once it has noted `p`, and has forgotten it when it is done with `p`. -/
def Drops (g : ReplayGuard) (verifier : Verifier) (p : Presented) (slot : Address × Nat) : Prop :=
  (g.Remembers slot ∨ p.Sound verifier g.maxSkew ∧ slot = p.slot) ∧
    ¬ (g.next verifier p).Remembers slot

variable {g g' : ReplayGuard} {verifier : Verifier} {slot : Address × Nat} {p : Presented}
  {passes : Bool} {capacity : Nat} {maxSkew : Int}

theorem length_remember_le (time : Int) (seen : List ((Address × Nat) × Int)) :
    (remember slot time seen).length ≤ seen.length + 1 := by
  induction seen with
  | nil => simp [remember]
  | cons x xs ih =>
    unfold remember
    split
    · simp
    · simpa using ih

/-- What the guard holds between noting `p` and evicting. -/
def noting (g : ReplayGuard) (p : Presented) : ReplayGuard := g.note p.slot p.attestation.timestamp

theorem noting_remembers (p : Presented) :
    (g.noting p).Remembers slot ↔ slot = p.slot ∨ g.Remembers slot :=
  mem_remember_iff

/-- The guard, with its nonces listed in another order. -/
def relisted (g : ReplayGuard) (listing : List ((Address × Nat) × Int)) (h : listing.Perm g.seen) :
    ReplayGuard :=
  { g with seen := listing, distinct := (h.map _).nodup_iff.mpr g.distinct }

theorem relisted_remembers {listing : List ((Address × Nat) × Int)} (h : listing.Perm g.seen) :
    (g.relisted listing h).Remembers slot ↔ g.Remembers slot := by
  simp only [Remembers, relisted, h.mem_iff]

theorem forget_seen_sublist (g : ReplayGuard) : g.forget.value.seen.Sublist g.seen := by
  unfold forget
  split
  · exact List.Sublist.refl _
  · exact List.filter_sublist

theorem forget_of_size_le (h : g.size ≤ g.capacity) : g.forget.value = g := by
  unfold forget
  rw [if_pos h]
  rfl

theorem forget_limits (g : ReplayGuard) :
    g.forget.value.maxSkew = g.maxSkew ∧ g.forget.value.capacity = g.capacity := by
  unfold forget
  split <;> exact ⟨rfl, rfl⟩

/-- The three ways in which a guard can take an attestation. -/
theorem accept_cases (g : ReplayGuard) (verifier : Verifier) (p : Presented) :
    (¬ p.Sound verifier g.maxSkew ∧ g.admits verifier p = false ∧ g.next verifier p = g) ∨
    (p.Sound verifier g.maxSkew ∧ g.Remembers p.slot ∧ g.admits verifier p = false ∧
      g.next verifier p = g.noting p) ∨
    (p.Sound verifier g.maxSkew ∧ ¬ g.Remembers p.slot ∧ g.admits verifier p = true ∧
      g.next verifier p = (g.noting p).forget.value) := by
  by_cases ha : p.attestation.address = p.expected
  · have hne : ¬ p.attestation.address ≠ p.expected := not_not.mpr ha
    by_cases hs : g.maxSkew < p.attestation.skew p.now
    · refine Or.inl ⟨fun h => ?_, ?_⟩
      · have := h.2.1
        omega
      · simp only [admits, next, accept, if_neg hne, if_pos hs]
        exact ⟨rfl, rfl⟩
    · cases hv : p.attestation.verifies verifier with
      | false =>
        refine Or.inl ⟨fun h => by simp [h.2.2] at hv, ?_⟩
        simp only [admits, next, accept, if_neg hne, if_neg hs, hv, Bool.not_false, if_true]
        exact ⟨rfl, rfl⟩
      | true =>
        have sound : p.Sound verifier g.maxSkew := ⟨ha, by omega, hv⟩
        unfold admits next accept
        simp only [if_neg hne, if_neg hs, hv, Bool.not_true, Bool.false_eq_true, if_false]
        split
        next hk =>
          simp only [List.any_eq_true, decide_eq_true_eq] at hk
          exact Or.inr (Or.inl ⟨sound, hk, rfl, rfl⟩)
        next hk =>
          simp only [List.any_eq_true, decide_eq_true_eq] at hk
          exact Or.inr (Or.inr ⟨sound, hk, rfl, rfl⟩)
  · refine Or.inl ⟨fun h => ha h.1, ?_⟩
    simp only [admits, next, accept, if_pos ha]
    exact ⟨rfl, rfl⟩

/-- What a guard may do with an attestation, and whether it admits it. It may list its nonces in any order
before it looks for the earliest. -/
inductive Takes (verifier : Verifier) (g : ReplayGuard) (p : Presented) : Bool → ReplayGuard → Prop
  | refused : ¬ p.Sound verifier g.maxSkew → Takes verifier g p false g
  | replayed : p.Sound verifier g.maxSkew → g.Remembers p.slot → Takes verifier g p false (g.noting p)
  | admitted {listing : List ((Address × Nat) × Int)} (h : listing.Perm (g.noting p).seen) :
      p.Sound verifier g.maxSkew → ¬ g.Remembers p.slot →
      Takes verifier g p true ((g.noting p).relisted listing h).forget.value

theorem takes_next (g : ReplayGuard) (verifier : Verifier) (p : Presented) :
    Takes verifier g p (g.admits verifier p) (g.next verifier p) := by
  rcases accept_cases g verifier p with ⟨hs, ha, hn⟩ | ⟨hs, hr, ha, hn⟩ | ⟨hs, hr, ha, hn⟩
  · rw [ha, hn]
    exact .refused hs
  · rw [ha, hn]
    exact .replayed hs hr
  · rw [ha, hn]
    exact .admitted (.refl _) hs hr

theorem Takes.admitted_iff (h : Takes verifier g p passes g') :
    passes = true ↔ p.Sound verifier g.maxSkew ∧ ¬ g.Remembers p.slot := by
  cases h with
  | refused unsound => simp [unsound]
  | replayed _ known => simp [known]
  | admitted _ sound unknown => simp [sound, unknown]

theorem admits_iff (p : Presented) :
    g.admits verifier p = true ↔ p.Sound verifier g.maxSkew ∧ ¬ g.Remembers p.slot :=
  (takes_next g verifier p).admitted_iff

theorem Takes.limits (h : Takes verifier g p passes g') :
    g'.maxSkew = g.maxSkew ∧ g'.capacity = g.capacity := by
  cases h with
  | refused => exact ⟨rfl, rfl⟩
  | replayed => exact ⟨rfl, rfl⟩
  | admitted => exact forget_limits _

theorem Takes.size_le (h : Takes verifier g p passes g') : g'.size ≤ g.size + 1 := by
  have hnoting : (g.noting p).size ≤ g.size + 1 := length_remember_le _ _
  cases h with
  | refused => omega
  | replayed => exact hnoting
  | admitted hlisting =>
    refine Nat.le_trans (forget_seen_sublist _).length_le ?_
    rw [relisted, hlisting.length_eq]
    exact hnoting

theorem Takes.remembers (h : Takes verifier g p passes g') (known : g'.Remembers slot) :
    g.Remembers slot ∨ passes = true ∧ slot = p.slot := by
  cases h with
  | refused => exact Or.inl known
  | replayed _ hr =>
    rcases (noting_remembers p).mp known with rfl | known
    · exact Or.inl hr
    · exact Or.inl known
  | admitted hlisting =>
    obtain ⟨x, hx, he⟩ := known
    have hmem : ((g.noting p).relisted _ hlisting).Remembers slot :=
      ⟨x, (forget_seen_sublist _).subset hx, he⟩
    rw [relisted_remembers, noting_remembers] at hmem
    rcases hmem with rfl | hmem
    · exact Or.inr ⟨rfl, rfl⟩
    · exact Or.inl hmem

/-- An attestation, what a guard said of it, and the guard that was left. -/
structure Taking where
  presented : Presented
  admitted : Bool
  left : ReplayGuard

/-- Taking an attestation makes a guard forget a slot that it knew once it had noted the attestation. -/
def Taking.Drops (t : Taking) (verifier : Verifier) (g : ReplayGuard) (slot : Address × Nat) : Prop :=
  (g.Remembers slot ∨ t.presented.Sound verifier g.maxSkew ∧ slot = t.presented.slot) ∧
    ¬ t.left.Remembers slot

/-- Only a guard that was full drops anything. -/
theorem Taking.Drops.capacity_le {t : Taking} (h : t.Drops verifier g slot)
    (htakes : Takes verifier g t.presented t.admitted t.left) : g.capacity ≤ g.size := by
  obtain ⟨p, passes, g'⟩ := t
  obtain ⟨known, lost⟩ := h
  replace htakes : Takes verifier g p passes g' := htakes
  cases htakes with
  | refused unsound => exact absurd (known.resolve_right fun hk => unsound hk.1) lost
  | replayed =>
    rw [noting_remembers] at lost
    exact absurd (known.elim Or.inr fun hk => Or.inl hk.2) lost
  | admitted hlisting =>
    by_contra full
    have hroom : ((g.noting p).relisted _ hlisting).size ≤ g.capacity := by
      have hlength : (g.noting p).seen.length ≤ g.seen.length + 1 := length_remember_le _ _
      rw [size, relisted, hlisting.length_eq]
      unfold size at full
      omega
    rw [forget_of_size_le hroom, relisted_remembers, noting_remembers] at lost
    exact absurd (known.elim Or.inr fun hk => Or.inl hk.2) lost

/-- One taking after the other, each by the guard that the one before left. -/
def Course (verifier : Verifier) : ReplayGuard → List Taking → Prop
  | _, [] => True
  | g, t :: ts => Takes verifier g t.presented t.admitted t.left ∧ Course verifier t.left ts

def leftBy (g : ReplayGuard) (ts : List Taking) : ReplayGuard := ts.foldl (fun _ t => t.left) g

/-- The addresses and nonces that pass, in order. -/
def passed (ts : List Taking) : List (Address × Nat) :=
  (ts.filter (·.admitted)).map (·.presented.slot)

theorem leftBy_append (g : ReplayGuard) (ts us : List Taking) :
    g.leftBy (ts ++ us) = (g.leftBy ts).leftBy us :=
  List.foldl_append

theorem passed_cons (t : Taking) (ts : List Taking) :
    passed (t :: ts) = if t.admitted then t.presented.slot :: passed ts else passed ts := by
  unfold passed
  cases ha : t.admitted with
  | false => rw [List.filter_cons_of_neg (by simp [ha])]; rfl
  | true => rw [List.filter_cons_of_pos ha]; rfl

theorem passed_append (ts us : List Taking) : passed (ts ++ us) = passed ts ++ passed us := by
  rw [passed, List.filter_append, List.map_append]
  rfl

theorem mem_passed_iff {ts : List Taking} :
    slot ∈ passed ts ↔ ∃ t ∈ ts, t.admitted = true ∧ t.presented.slot = slot := by
  simp only [passed, List.mem_map, List.mem_filter, and_assoc]

theorem course_append {ts us : List Taking} :
    Course verifier g (ts ++ us) ↔ Course verifier g ts ∧ Course verifier (g.leftBy ts) us := by
  induction ts generalizing g with
  | nil => exact (and_iff_right trivial).symm
  | cons t ts ih =>
    rw [List.cons_append, Course, Course, ih, and_assoc]
    rfl

theorem Course.limits {ts : List Taking} (h : Course verifier g ts) :
    (g.leftBy ts).maxSkew = g.maxSkew ∧ (g.leftBy ts).capacity = g.capacity := by
  induction ts generalizing g with
  | nil => exact ⟨rfl, rfl⟩
  | cons t ts ih =>
    obtain ⟨hskew, hcapacity⟩ := ih h.2
    exact ⟨hskew.trans h.1.limits.1, hcapacity.trans h.1.limits.2⟩

theorem Course.size_le {ts : List Taking} (h : Course verifier g ts) :
    (g.leftBy ts).size ≤ g.size + ts.length := by
  induction ts generalizing g with
  | nil => exact Nat.le_refl _
  | cons t ts ih =>
    have hfirst := h.1.size_le
    have hrest := ih h.2
    simp only [leftBy, List.foldl_cons, List.length_cons] at hrest ⊢
    omega

/-- What a guard remembers it knew before, or has admitted since. -/
theorem Course.remembers {ts : List Taking} (h : Course verifier g ts)
    (known : (g.leftBy ts).Remembers slot) : g.Remembers slot ∨ slot ∈ passed ts := by
  induction ts generalizing g with
  | nil => exact Or.inl known
  | cons t ts ih =>
    rcases ih h.2 known with hleft | hpassed
    · refine (h.1.remembers hleft).imp_right ?_
      rintro ⟨hadmitted, rfl⟩
      exact mem_passed_iff.mpr ⟨t, List.mem_cons_self, hadmitted, rfl⟩
    · obtain ⟨u, hu, hadmitted, hslot⟩ := mem_passed_iff.mp hpassed
      exact Or.inr (mem_passed_iff.mpr ⟨u, List.mem_cons_of_mem _ hu, hadmitted, hslot⟩)

/-- What a guard knew and no longer knows, it has dropped at some moment in between. -/
theorem exists_drop (verifier : Verifier) {ts : List Taking} (known : g.Remembers slot)
    (lost : ¬ (g.leftBy ts).Remembers slot) :
    ∃ pre t mid, ts = pre ++ t :: mid ∧ t.Drops verifier (g.leftBy pre) slot := by
  induction ts generalizing g with
  | nil => exact absurd known lost
  | cons t ts ih =>
    by_cases hleft : t.left.Remembers slot
    · obtain ⟨pre, u, mid, rfl, hdrops⟩ := ih hleft lost
      exact ⟨t :: pre, u, mid, rfl, hdrops⟩
    · exact ⟨[], t, ts, rfl, Or.inl known, hleft⟩

/-- A slot that the guard does not know passes the first time it is soundly presented. -/
theorem Course.mem_passed_of_sound {ts : List Taking} (h : Course verifier g ts) {u : Taking}
    (unknown : ¬ g.Remembers u.presented.slot) (hu : u ∈ ts)
    (sound : u.presented.Sound verifier g.maxSkew) : u.presented.slot ∈ passed ts := by
  induction ts generalizing g with
  | nil => cases hu
  | cons t ts ih =>
    by_cases hleft : t.left.Remembers u.presented.slot
    · obtain ⟨hadmitted, hslot⟩ := (h.1.remembers hleft).resolve_left unknown
      exact mem_passed_iff.mpr ⟨t, List.mem_cons_self, hadmitted, hslot.symm⟩
    · rcases List.mem_cons.mp hu with rfl | hu
      · exact mem_passed_iff.mpr
          ⟨u, List.mem_cons_self, h.1.admitted_iff.mpr ⟨sound, unknown⟩, rfl⟩
      · have hpassed := ih h.2 hleft hu (by rw [h.1.limits.1]; exact sound)
        obtain ⟨v, hv, hadmitted, hslot⟩ := mem_passed_iff.mp hpassed
        exact mem_passed_iff.mpr ⟨v, List.mem_cons_of_mem _ hv, hadmitted, hslot⟩

/-- No slot passes twice if none is soundly presented after an eviction dropped it. -/
theorem Course.nodup_of_drops {ts : List Taking} (h : Course verifier g ts)
    (hdrops : ∀ pre t mid u post, ts = pre ++ t :: (mid ++ u :: post) →
      t.Drops verifier (g.leftBy pre) u.presented.slot → ¬ u.presented.Sound verifier g.maxSkew) :
    (passed ts).Nodup := by
  induction ts generalizing g with
  | nil => exact List.nodup_nil
  | cons t ts ih =>
    have hrest : (passed ts).Nodup := by
      refine ih h.2 fun pre u mid v post he hd => ?_
      rw [h.1.limits.1]
      exact hdrops (t :: pre) u mid v post (by rw [he]; rfl) hd
    cases hadmitted : t.admitted with
    | false => rwa [passed_cons, hadmitted]
    | true =>
      rw [passed_cons, if_pos hadmitted]
      refine List.nodup_cons.mpr ⟨fun hagain => ?_, hrest⟩
      obtain ⟨u, hu, huadmitted, hslot⟩ := mem_passed_iff.mp hagain
      obtain ⟨pre, post, rfl⟩ := List.append_of_mem hu
      -- the guard that admits the slot again does not know it, so it has dropped it in between
      have hcourse := course_append.mp h.2
      obtain ⟨sound, unknown⟩ := hcourse.2.1.admitted_iff.mp huadmitted
      rw [hcourse.1.limits.1, h.1.limits.1] at sound
      rw [hslot] at unknown
      by_cases hleft : t.left.Remembers t.presented.slot
      · obtain ⟨before, v, mid, rfl, hd⟩ := exists_drop verifier hleft unknown
        exact hdrops (t :: before) v mid u post (by simp) (hslot ▸ hd) sound
      · have tsound := (h.1.admitted_iff.mp hadmitted).1
        exact hdrops [] t pre u post rfl (hslot ▸ ⟨Or.inr ⟨tsound, rfl⟩, hleft⟩) sound

/-- A guard that is not presented more than it can hold admits nothing twice. -/
theorem Course.nodup_of_length_le {ts : List Taking}
    (h : Course verifier (.empty capacity maxSkew) ts) (hlength : ts.length ≤ capacity) :
    (passed ts).Nodup := by
  refine h.nodup_of_drops ?_
  rintro pre t mid u post rfl hd
  have hcourse := course_append.mp h
  have hfull := hd.capacity_le hcourse.2.1
  have hsize := hcourse.1.size_le
  rw [hcourse.1.limits.2] at hfull
  simp only [empty, size, List.length_nil, List.length_append, List.length_cons] at hfull hsize hlength
  omega

/-- What a guard has dropped passes again the next time it is soundly presented. -/
theorem Course.not_sound_of_nodup {ts : List Taking}
    (h : Course verifier (.empty capacity maxSkew) ts) (hnodup : (passed ts).Nodup)
    {pre mid post : List Taking} {t u : Taking} (hts : ts = pre ++ t :: (mid ++ u :: post))
    (hd : t.Drops verifier ((empty capacity maxSkew).leftBy pre) u.presented.slot) :
    ¬ u.presented.Sound verifier maxSkew := by
  rw [List.append_cons] at hts
  subst hts
  intro sound
  obtain ⟨hfirst, hsecond⟩ := course_append.mp h
  obtain ⟨hpre, htaken, _⟩ := course_append.mp hfirst
  obtain ⟨known, lost⟩ := hd
  have before : u.presented.slot ∈ passed (pre ++ [t]) := by
    rw [passed_append, List.mem_append]
    by_cases hr : ((empty capacity maxSkew).leftBy pre).Remembers u.presented.slot
    · refine Or.inl ((hpre.remembers hr).resolve_left ?_)
      rintro ⟨x, hx, _⟩
      cases hx
    · obtain ⟨tsound, hslot⟩ := known.resolve_left hr
      refine Or.inr (mem_passed_iff.mpr ⟨t, List.mem_cons_self, ?_, hslot.symm⟩)
      exact htaken.admitted_iff.mpr ⟨tsound, hslot ▸ hr⟩
  have again : u.presented.slot ∈ passed (mid ++ u :: post) := by
    refine hsecond.mem_passed_of_sound ?_ (by simp) ?_
    · rw [leftBy_append]
      exact lost
    · rw [hfirst.limits.1]
      exact sound
  rw [passed_append] at hnodup
  exact List.disjoint_of_nodup_append hnodup before again

/-- The run of the guard that lists its nonces in the order first seen. -/
def takings (verifier : Verifier) : ReplayGuard → List Presented → List Taking
  | _, [] => []
  | g, p :: ps => ⟨p, g.admits verifier p, g.next verifier p⟩ :: takings verifier (g.next verifier p) ps

theorem course_takings (g : ReplayGuard) (ps : List Presented) :
    Course verifier g (takings verifier g ps) := by
  induction ps generalizing g with
  | nil => trivial
  | cons p ps ih => exact ⟨takes_next g verifier p, ih _⟩

theorem passed_takings (g : ReplayGuard) (ps : List Presented) :
    passed (takings verifier g ps) = admitted verifier g ps := by
  induction ps generalizing g with
  | nil => rfl
  | cons p ps ih =>
    rw [takings, passed_cons, admitted, ih]

theorem leftBy_takings (g : ReplayGuard) (ps : List Presented) :
    g.leftBy (takings verifier g ps) = g.after verifier ps := by
  induction ps generalizing g with
  | nil => rfl
  | cons p ps ih => exact ih _

theorem takings_append (g : ReplayGuard) (ps qs : List Presented) :
    takings verifier g (ps ++ qs) =
      takings verifier g ps ++ takings verifier (g.after verifier ps) qs := by
  induction ps generalizing g with
  | nil => rfl
  | cons p ps ih =>
    rw [List.cons_append, takings, ih]
    rfl

theorem takings_eq_append {ps : List Presented} {ts us : List Taking}
    (h : takings verifier g ps = ts ++ us) :
    ∃ qs rs, ps = qs ++ rs ∧ ts = takings verifier g qs ∧
      us = takings verifier (g.after verifier qs) rs := by
  induction ts generalizing g ps with
  | nil => exact ⟨[], ps, rfl, rfl, h.symm⟩
  | cons t ts ih =>
    cases ps with
    | nil => cases h
    | cons p ps =>
      obtain ⟨rfl, hrest⟩ := List.cons.inj h
      obtain ⟨qs, rs, rfl, rfl, rfl⟩ := ih hrest
      exact ⟨p :: qs, rs, rfl, rfl, rfl⟩

theorem takings_eq_cons {ps : List Presented} {t : Taking} {ts : List Taking}
    (h : takings verifier g ps = t :: ts) :
    ∃ p qs, ps = p :: qs ∧ t = ⟨p, g.admits verifier p, g.next verifier p⟩ ∧
      ts = takings verifier (g.next verifier p) qs := by
  cases ps with
  | nil => cases h
  | cons p ps =>
    obtain ⟨rfl, rfl⟩ := List.cons.inj h
    exact ⟨p, ps, rfl, rfl, rfl⟩

/-- Over a run nothing passes a guard twice exactly if nothing is soundly presented after an eviction
dropped its address and nonce: for the guard that lists its nonces as they came, and for one that lists
them in any order. -/
theorem admitted_nodup_iff (capacity : Nat) (maxSkew : Int) (verifier : Verifier) :
    (∀ ps, (admitted verifier (.empty capacity maxSkew) ps).Nodup ↔
      ∀ pre p mid q post, ps = pre ++ p :: (mid ++ q :: post) →
        ((empty capacity maxSkew).after verifier pre).Drops verifier p q.slot →
          ¬ q.Sound verifier maxSkew) ∧
    ∀ ts, Course verifier (.empty capacity maxSkew) ts → ((passed ts).Nodup ↔
      ∀ pre t mid u post, ts = pre ++ t :: (mid ++ u :: post) →
        t.Drops verifier ((empty capacity maxSkew).leftBy pre) u.presented.slot →
          ¬ u.presented.Sound verifier maxSkew) := by
  have hany : ∀ ts, Course verifier (.empty capacity maxSkew) ts → ((passed ts).Nodup ↔
      ∀ pre t mid u post, ts = pre ++ t :: (mid ++ u :: post) →
        t.Drops verifier ((empty capacity maxSkew).leftBy pre) u.presented.slot →
          ¬ u.presented.Sound verifier maxSkew) := fun ts h =>
    ⟨fun hnodup pre t mid u post hts hd => h.not_sound_of_nodup hnodup hts hd, h.nodup_of_drops⟩
  refine ⟨fun ps => ?_, hany⟩
  rw [← passed_takings, hany _ (course_takings _ ps)]
  constructor
  · rintro hts pre p mid q post rfl hd
    refine hts _ _ _ ⟨q, _, _⟩ _ (by rw [takings_append, takings, takings_append, takings]) ?_
    rw [leftBy_takings]
    exact hd
  · intro hps pre t mid u post hts hd
    obtain ⟨before, ps₁, hps₁, rfl, h₁⟩ := takings_eq_append hts
    obtain ⟨p, ps₂, hps₂, rfl, h₂⟩ := takings_eq_cons h₁.symm
    obtain ⟨between, ps₃, hps₃, rfl, h₃⟩ := takings_eq_append h₂.symm
    obtain ⟨q, behind, hps₄, rfl, -⟩ := takings_eq_cons h₃.symm
    rw [leftBy_takings] at hd
    exact hps before p between q behind (by rw [hps₁, hps₂, hps₃, hps₄]) hd

/-- Attestations of one adjudicator at one moment: with five nonces, one millisecond apart, and then
the first of them again. -/
def flood : List Presented :=
  [(1, 0), (2, 1), (3, 2), (4, 3), (5, 4), (1, 0)].map fun (nonce, timestamp) =>
    { attestation := ⟨"a", 0, 0, false, timestamp, nonce, "a"⟩, expected := "a", now := 10 }

/-- The fifth nonce makes a guard for four drop the first two, which then pass again. -/
theorem flood_admits_twice :
    (flood.map (·.now)).Pairwise (· ≤ ·) ∧
      ¬ (admitted (fun address _ signature => signature = address) (.empty 4 30000) flood).Nodup := by
  decide +kernel

/-- Attestations with five nonces and one time, and then the last of them again. -/
def tied : List Presented := [1, 2, 3, 4, 5, 5].map fun nonce =>
  { attestation := ⟨"a", 0, 0, false, 0, nonce, "a"⟩, expected := "a", now := 10 }

/-- The run of a guard that lists its nonces backwards, over attestations that it admits. -/
def backwards : ReplayGuard → List Presented → List Taking
  | _, [] => []
  | g, p :: ps =>
    let left := ((g.noting p).relisted _ (List.reverse_perm _)).forget.value
    ⟨p, true, left⟩ :: backwards left ps

/-- Listed backwards, the fifth nonce is among the first two, so a guard for four drops it at once. -/
theorem tied_admits_twice :
    (admitted (fun address _ signature => signature = address) (.empty 4 30000) tied).Nodup ∧
      Course (fun address _ signature => signature = address) (.empty 4 30000)
        (backwards (.empty 4 30000) tied) ∧
      ¬ ∀ pre t mid u post, backwards (.empty 4 30000) tied = pre ++ t :: (mid ++ u :: post) →
        t.Drops (fun address _ signature => signature = address) ((empty 4 30000).leftBy pre)
          u.presented.slot → ¬ u.presented.Sound (fun address _ signature => signature = address) 30000 := by
  have hcourse : Course (fun address _ signature => signature = address) (.empty 4 30000)
      (backwards (.empty 4 30000) tied) := by
    refine ⟨.admitted (List.reverse_perm _) ?_ ?_, .admitted (List.reverse_perm _) ?_ ?_,
      .admitted (List.reverse_perm _) ?_ ?_, .admitted (List.reverse_perm _) ?_ ?_,
      .admitted (List.reverse_perm _) ?_ ?_, .admitted (List.reverse_perm _) ?_ ?_, trivial⟩ <;>
      decide +kernel
  refine ⟨by decide +kernel, hcourse, ?_⟩
  rw [← (admitted_nodup_iff 4 30000 _).2 _ hcourse]
  decide +kernel

end ReplayGuard

end Adjudication
