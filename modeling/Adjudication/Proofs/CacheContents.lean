import Adjudication.Admission
import Adjudication.Pruning
import Mathlib.Data.List.Sort
import Mathlib.Tactic.ByContra

namespace Adjudication

namespace Assoc

variable {κ ν : Type} [DecidableEq κ] {k : κ} {v : ν} {xs : List (κ × ν)}

theorem get?_filter_of_forall {p : κ × ν → Bool} (h : get? k xs = some v) (hp : p (k, v) = true) :
    get? k (xs.filter p) = some v := by
  induction xs with
  | nil => simp [get?] at h
  | cons x xs ih =>
    obtain ⟨k', v'⟩ := x
    by_cases hk : k = k'
    · subst k'
      have hv : v' = v := by simpa [get?] using h
      subst v'
      simp [hp, get?]
    · have hrest : get? k (xs.filter p) = some v := ih (by simpa [get?, hk] using h)
      rw [List.filter_cons]
      split
      · simpa [get?, hk] using hrest
      · exact hrest

theorem get?_filter_eq_none {p : κ × ν → Bool} (h : get? k xs = none) :
    get? k (xs.filter p) = none := by
  rw [get?_eq_none_iff] at h ⊢
  intro hk
  obtain ⟨x, hx, rfl⟩ := List.mem_map.mp hk
  exact h (List.mem_map_of_mem (List.mem_filter.mp hx).1)

end Assoc

namespace Cache

variable {c : Cache} {key k : RoundKey} {address x : Address} {entry e : SignedEntry}

def Holds (c : Cache) (key : RoundKey) (address : Address) (e : SignedEntry) : Prop :=
  ∃ r ∈ c.rounds, r.1 = key ∧ (address, e) ∈ r.2

theorem holds_of_mem_entries (h : (x, e) ∈ c.entries k) : c.Holds k x e := by
  unfold entries at h
  cases hr : Assoc.get? k c.rounds with
  | none => simp [hr] at h
  | some es =>
    rw [hr] at h
    exact ⟨(k, es), Assoc.mem_of_get? hr, rfl, h⟩

theorem mem_entries_of_get? (h : c.get? k x = some e) : (x, e) ∈ c.entries k :=
  Assoc.mem_of_get? h

theorem holds_of_get? (h : c.get? k x = some e) : c.Holds k x e :=
  holds_of_mem_entries (mem_entries_of_get? h)

theorem Holds.of_sublist {c' : Cache} (hs : c'.rounds.Sublist c.rounds) (h : c'.Holds k x e) :
    c.Holds k x e := by
  obtain ⟨r, hr, hk, he⟩ := h
  exact ⟨r, hs.subset hr, hk, he⟩

theorem evict_rounds_sublist (c : Cache) : c.evict.rounds.Sublist c.rounds :=
  List.filter_sublist.trans List.filter_sublist

theorem sweep_rounds_sublist (c : Cache) (active : RoundKey) :
    (c.sweep active).value.2.rounds.Sublist c.rounds :=
  List.filter_sublist

theorem holds_of_put (h : (c.put key address entry).Holds k x e) :
    c.Holds k x e ∨ k = key ∧ x = address ∧ e = entry := by
  obtain ⟨r, hr, hk, he⟩ := h
  rcases Assoc.mem_insert hr with rfl | hr
  · rcases Assoc.mem_insert he with hxe | he
    · exact Or.inr ⟨hk.symm, (Prod.mk.inj hxe).1, (Prod.mk.inj hxe).2⟩
    · exact Or.inl (hk ▸ holds_of_mem_entries he)
  · exact Or.inl ⟨r, hr, hk, he⟩

/-- An insertion changes nothing, puts the entry in, or puts it in and evicts. -/
theorem insert_cases (c : Cache) (key : RoundKey) (address : Address) (entry : SignedEntry) :
    (c.contains key address = true ∧ (c.insert key address entry).value.2 = c) ∨
    (c.contains key address = false ∧
      ((c.insert key address entry).value.2 = c.put key address entry ∨
        (c.insert key address entry).value.2 = (c.put key address entry).evict)) := by
  unfold insert
  cases hc : c.contains key address with
  | true => exact Or.inl ⟨rfl, rfl⟩
  | false =>
    refine Or.inr ⟨rfl, ?_⟩
    simp only [Bool.false_eq_true, if_false, Noted.value_bind]
    split
    · exact Or.inr rfl
    · exact Or.inl rfl

theorem holds_of_insert (h : (c.insert key address entry).value.2.Holds k x e) :
    c.Holds k x e ∨ k = key ∧ x = address ∧ e = entry := by
  rcases insert_cases c key address entry with ⟨_, hc⟩ | ⟨_, hc | hc⟩
  · exact Or.inl (hc ▸ h)
  · rw [hc] at h
    exact holds_of_put h
  · rw [hc] at h
    exact holds_of_put (h.of_sublist (evict_rounds_sublist _))

theorem holds_of_remove (h : (c.remove key address).2.Holds k x e) : c.Holds k x e := by
  unfold remove at h
  split at h
  next =>
    obtain ⟨r, hr, hk, he⟩ := h
    dsimp only at hr
    split at hr
    · exact ⟨r, (List.mem_filter.mp hr).1, hk, he⟩
    · rcases Assoc.mem_insert hr with rfl | hr
      · exact hk ▸ holds_of_mem_entries (List.mem_filter.mp he).1
      · exact ⟨r, hr, hk, he⟩
  next => exact h

/-- Removing an address under several keys does so under one after the other. -/
theorem removeAll_induction {P : Cache → Prop} (address : Address) (keys : List RoundKey)
    (step : ∀ c key, key ∈ keys → P c → P (c.remove key address).2) (h : P c) :
    P (c.removeAll address keys).2 := by
  have hfold : ∀ (ks : List RoundKey) (acc : Nat × Cache), (∀ key ∈ ks, key ∈ keys) → P acc.2 →
      P (ks.foldl (fun acc key =>
        (if (acc.2.remove key address).1 then acc.1 + 1 else acc.1, (acc.2.remove key address).2)) acc).2 := by
    intro ks
    induction ks with
    | nil => exact fun _ _ hp => hp
    | cons key ks ih =>
      intro acc hks hp
      exact ih _ (fun k hk => hks k (List.mem_cons_of_mem _ hk))
        (step acc.2 key (hks key List.mem_cons_self) hp)
  exact hfold keys (0, c) (fun _ hk => hk) h

theorem holds_of_removeAll {keys : List RoundKey} (h : (c.removeAll address keys).2.Holds k x e) :
    c.Holds k x e :=
  removeAll_induction (P := fun c' => c'.Holds k x e → c.Holds k x e) address keys
    (fun _ _ _ ih hh => ih (holds_of_remove hh)) id h

/-- An entry from a peer is put aside, refused, or inserted into a cache that has been told the active
key. -/
theorem consider_cases (c : Cache) (verifier : Verifier) (members : Members) (active : RoundKey)
    (peer : Address) (key : RoundKey) (address : Address) (entry : SignedEntry) :
    ((c.consider verifier members active peer key address entry).value.2 = c) ∨
    (key.InAdmission active ∧
      (c.consider verifier members active peer key address entry).value.2 = c.setActive active) ∨
    (key.InAdmission active ∧
      entryOffence? verifier members c.kind key address entry = none ∧
      (c.consider verifier members active peer key address entry).value.2 =
        ((c.setActive active).insert key address entry).value.2) := by
  unfold consider
  split
  next => exact Or.inl rfl
  next =>
    split
    next => exact Or.inl rfl
    next ha =>
      have inside : key.InAdmission active := Decidable.not_not.mp ha
      refine Or.inr ?_
      cases hv : entryOffence? verifier members c.kind key address entry with
      | some offence => exact Or.inl ⟨inside, by simp [setActive, hv]⟩
      | none => exact Or.inr ⟨inside, rfl, by simp [setActive, hv]⟩

/-- Only an insertion changes what is under the keys. -/
theorem consider_rounds_eq {verifier : Verifier} {members : Members} {active : RoundKey} {peer : Address}
    (h : (c.consider verifier members active peer key address entry).value.1 ≠ .ok .inserted) :
    (c.consider verifier members active peer key address entry).value.2.rounds = c.rounds := by
  unfold consider at h ⊢
  split at h
  next hbehind => rw [if_pos hbehind]; rfl
  next hbehind =>
    rw [if_neg hbehind]
    split at h
    next hahead => rw [if_pos hahead]; rfl
    next hahead =>
      rw [if_neg hahead]
      cases hv : entryOffence? verifier members c.kind key address entry with
      | some offence =>
        simp only [setActive, hv]
        rfl
      | none =>
        have hinsert : ((c.setActive active).insert key address entry).value.1 ≠ true := by
          intro hinserted
          simp only [setActive] at hinserted
          simp [setActive, hv, hinserted] at h
        have hsame : ((c.setActive active).insert key address entry).value.2.rounds = c.rounds := by
          unfold insert at hinsert ⊢
          split at hinsert
          next hin => rw [if_pos hin]; rfl
          next =>
            refine absurd ?_ hinsert
            simp only [Noted.value_bind]
            split <;> rfl
        simp only [setActive, hv]
        exact hsame

/-- What passes the check is small enough, a member's, and signed by that member. -/
theorem entryOffence?_eq_none_iff {verifier : Verifier} {members : Members} {kind : EntryKind} :
    entryOffence? verifier members kind key address entry = none ↔
      entry.value.utf8ByteSize ≤ Limits.maxEntryBytes ∧ members.contains address = true ∧
        verifier address (kind.message key entry.value) entry.signature = true := by
  dsimp only [entryOffence?]
  constructor
  · intro h
    split at h
    next => cases h
    next hsize =>
      split at h
      next => cases h
      next hmember =>
        split at h
        next => cases h
        next hsigned =>
          exact ⟨Nat.le_of_not_lt hsize, by simpa using hmember, by simpa using hsigned⟩
  · rintro ⟨hsize, hmember, hsigned⟩
    simp [Nat.not_lt.mpr hsize, hmember, hsigned]

/-- What a cache holds after considering an entry it held before, or it is the new one, checked. -/
theorem holds_of_consider {verifier : Verifier} {members : Members} {active : RoundKey}
    {peer : Address}
    (h : (c.consider verifier members active peer key address entry).value.2.Holds k x e) :
    c.Holds k x e ∨
      (k = key ∧ x = address ∧ e = entry ∧ entryOffence? verifier members c.kind k x e = none) := by
  rcases consider_cases c verifier members active peer key address entry with
    hc | ⟨_, hc⟩ | ⟨_, hv, hc⟩
  · exact Or.inl (hc ▸ h)
  · rw [hc] at h
    exact Or.inl h
  · rw [hc] at h
    rcases holds_of_insert h with h | ⟨rfl, rfl, rfl⟩
    · exact Or.inl h
    · exact Or.inr ⟨rfl, rfl, rfl, hv⟩

@[simp] theorem value_insert_kind (c : Cache) (key : RoundKey) (address : Address)
    (entry : SignedEntry) : (c.insert key address entry).value.2.kind = c.kind := by
  rcases insert_cases c key address entry with ⟨_, hc⟩ | ⟨_, hc | hc⟩
  · rw [hc]
  · rw [hc]; rfl
  · rw [hc]; rfl

@[simp] theorem remove_kind (c : Cache) (key : RoundKey) (address : Address) :
    (c.remove key address).2.kind = c.kind := by
  unfold remove
  split <;> rfl

@[simp] theorem removeAll_kind (c : Cache) (address : Address) (keys : List RoundKey) :
    (c.removeAll address keys).2.kind = c.kind :=
  removeAll_induction (P := fun c' => c'.kind = c.kind) address keys
    (fun c' key _ ih => (remove_kind c' key address).trans ih) rfl

@[simp] theorem value_consider_kind (c : Cache) (verifier : Verifier) (members : Members)
    (active : RoundKey) (peer : Address) (key : RoundKey) (address : Address)
    (entry : SignedEntry) :
    (c.consider verifier members active peer key address entry).value.2.kind = c.kind := by
  rcases consider_cases c verifier members active peer key address entry with
    hc | ⟨_, hc⟩ | ⟨_, _, hc⟩
  · rw [hc]
  · rw [hc]; rfl
  · rw [hc]; exact value_insert_kind _ _ _ _

@[simp] theorem value_insert_active (c : Cache) (key : RoundKey) (address : Address)
    (entry : SignedEntry) : (c.insert key address entry).value.2.active = c.active := by
  rcases insert_cases c key address entry with ⟨_, hc⟩ | ⟨_, hc | hc⟩
  · rw [hc]
  · rw [hc]; rfl
  · rw [hc]; rfl

@[simp] theorem remove_active (c : Cache) (key : RoundKey) (address : Address) :
    (c.remove key address).2.active = c.active := by
  unfold remove
  split <;> rfl

theorem get?_eq_some_iff : c.get? k x = some e ↔
    ∃ es, Assoc.get? k c.rounds = some es ∧ Assoc.get? x es = some e := by
  unfold get? entries
  cases Assoc.get? k c.rounds <;> simp [Assoc.get?]

theorem get?_put_self (c : Cache) (key : RoundKey) (address : Address) (entry : SignedEntry) :
    (c.put key address entry).get? key address = some entry :=
  get?_eq_some_iff.mpr ⟨_, Assoc.get?_insert_self _ _ _, Assoc.get?_insert_self _ _ _⟩

theorem get?_put_of_some (hc : c.contains key address = false) (h : c.get? k x = some e) :
    (c.put key address entry).get? k x = some e := by
  obtain ⟨es, hes, hx⟩ := get?_eq_some_iff.mp h
  by_cases hk : k = key
  · subst k
    have hne : x ≠ address := by
      rintro rfl
      simp [contains, h] at hc
    refine get?_eq_some_iff.mpr ⟨_, Assoc.get?_insert_self _ _ _, ?_⟩
    rw [Assoc.get?_insert_of_ne hne]
    simpa [entries, hes] using hx
  · exact get?_eq_some_iff.mpr ⟨es, by rw [put, Assoc.get?_insert_of_ne hk]; exact hes, hx⟩

/-- Eviction leaves what is under a protected key. -/
theorem rounds_evict_of_protected {es : List (Address × SignedEntry)} (hp : c.Protected k)
    (hes : Assoc.get? k c.rounds = some es) (hne : es ≠ []) :
    Assoc.get? k c.evict.rounds = some es := by
  unfold evict
  apply Assoc.get?_filter_of_forall
  · exact Assoc.get?_filter_of_forall hes (by simpa using hne)
  · simp only [decide_eq_true_eq]
    intro hm
    have := (List.mem_filter.mp (List.mem_of_mem_take hm)).2
    simp [hp] at this

theorem get?_evict_of_some (hp : c.Protected k) (h : c.get? k x = some e) :
    c.evict.get? k x = some e := by
  obtain ⟨es, hes, hx⟩ := get?_eq_some_iff.mp h
  have hne : es ≠ [] := by
    rintro rfl
    cases hx
  exact get?_eq_some_iff.mpr ⟨es, rounds_evict_of_protected hp hes hne, hx⟩

theorem get?_insert_of_some (hp : c.Protected k) (h : c.get? k x = some e) :
    (c.insert key address entry).value.2.get? k x = some e := by
  rcases insert_cases c key address entry with ⟨_, hc⟩ | ⟨habsent, hc | hc⟩
  · rw [hc]; exact h
  · rw [hc]; exact get?_put_of_some habsent h
  · rw [hc]
    exact get?_evict_of_some (c := c.put key address entry) hp (get?_put_of_some habsent h)

theorem get?_insert_self (hp : c.Protected key) (habsent : c.contains key address = false)
    (entry : SignedEntry) : (c.insert key address entry).value.2.get? key address = some entry := by
  rcases insert_cases c key address entry with ⟨hin, _⟩ | ⟨_, hc | hc⟩
  · rw [habsent] at hin
    cases hin
  · rw [hc]
    exact get?_put_self _ _ _ _
  · rw [hc]
    exact get?_evict_of_some (c := c.put key address entry) hp (get?_put_self _ _ _ _)

/-- Under a protected key an address has an entry once one has been inserted for it. -/
theorem exists_get?_insert (hp : c.Protected key) (address : Address) (entry : SignedEntry) :
    ∃ e, (c.insert key address entry).value.2.get? key address = some e := by
  cases hin : c.contains key address with
  | true =>
    obtain ⟨e, he⟩ := Option.isSome_iff_exists.mp hin
    exact ⟨e, get?_insert_of_some hp he⟩
  | false => exact ⟨entry, get?_insert_self hp hin entry⟩

theorem rounds_remove_of_ne (hne : k ≠ key) :
    Assoc.get? k (c.remove key address).2.rounds = Assoc.get? k c.rounds := by
  unfold remove
  split
  · dsimp only
    split
    · exact Assoc.get?_erase_of_ne hne _
    · exact Assoc.get?_insert_of_ne hne _ _
  · rfl

theorem get?_remove_of_some (hne : k ≠ key ∨ x ≠ address) (h : c.get? k x = some e) :
    (c.remove key address).2.get? k x = some e := by
  obtain ⟨es, hes, hx⟩ := get?_eq_some_iff.mp h
  by_cases hk : k = key
  · subst key
    have haddress : x ≠ address := hne.resolve_left fun hkey => hkey rfl
    have hrest : Assoc.get? x (Assoc.erase address (c.entries k)) = some e := by
      rw [Assoc.get?_erase_of_ne haddress]
      exact h
    unfold remove
    split
    · dsimp only
      split
      · next hempty =>
        rw [List.isEmpty_iff.mp hempty] at hrest
        cases hrest
      · exact get?_eq_some_iff.mpr ⟨_, Assoc.get?_insert_self _ _ _, hrest⟩
    · exact h
  · exact get?_eq_some_iff.mpr ⟨es, (rounds_remove_of_ne hk).trans hes, hx⟩

theorem get?_removeAll_of_some {keys : List RoundKey} (hk : k ∉ keys) (h : c.get? k x = some e) :
    (c.removeAll address keys).2.get? k x = some e :=
  removeAll_induction (P := fun c => c.get? k x = some e) address keys
    (fun _ _ hkey ih => get?_remove_of_some (Or.inl fun he => hk (he ▸ hkey)) ih) h

theorem get?_sweep_of_some {active : RoundKey} (hb : ¬ k.Behind active) (h : c.get? k x = some e) :
    (c.sweep active).value.2.get? k x = some e := by
  obtain ⟨es, hes, hx⟩ := get?_eq_some_iff.mp h
  exact get?_eq_some_iff.mpr ⟨es, Assoc.get?_filter_of_forall hes (by simpa using hb), hx⟩

theorem protected_of_setActive {active : RoundKey} (h : k.InAdmission active) :
    (c.setActive active).Protected k :=
  ⟨active, rfl, h⟩

theorem get?_consider_of_some {verifier : Verifier} {members : Members} {active : RoundKey}
    {peer : Address} (ha : k.InAdmission active) (h : c.get? k x = some e) :
    (c.consider verifier members active peer key address entry).value.2.get? k x = some e := by
  rcases consider_cases c verifier members active peer key address entry with
    hc | ⟨_, hc⟩ | ⟨_, _, hc⟩
  · rw [hc]; exact h
  · rw [hc]; exact h
  · rw [hc]
    exact get?_insert_of_some (protected_of_setActive ha) h

/-- The address has nothing under a key, and the key is not kept for nothing. -/
def Lacks (c : Cache) (key : RoundKey) (address : Address) : Prop :=
  ∀ es, Assoc.get? key c.rounds = some es → es ≠ [] ∧ Assoc.get? address es = none

theorem Lacks.get?_eq_none (h : c.Lacks k x) : c.get? k x = none := by
  unfold get? entries
  cases hes : Assoc.get? k c.rounds with
  | none => rfl
  | some es => exact (h es hes).2

theorem lacks_remove (h : c.get? key address = some e) :
    (c.remove key address).2.Lacks key address := by
  have hc : c.contains key address = true := by simp [contains, h]
  intro es hes
  unfold remove at hes
  rw [if_pos hc] at hes
  dsimp only at hes
  split at hes
  · rw [Assoc.get?_erase_self] at hes
    cases hes
  · next hne =>
    rw [Assoc.get?_insert_self] at hes
    cases hes
    exact ⟨by simpa using hne, Assoc.get?_erase_self _ _⟩

theorem Lacks.remove (h : c.Lacks k x) (key : RoundKey) : (c.remove key x).2.Lacks k x := by
  by_cases hk : k = key
  · subst key
    have hc : c.contains k x = false := by simp [contains, h.get?_eq_none]
    unfold Cache.remove
    rw [if_neg (by simp [hc])]
    exact h
  · intro es hes
    rw [rounds_remove_of_ne hk] at hes
    exact h es hes

/-- Removing an address under a key and then under others counts it under all of them. -/
theorem removeAll_cons_eq (c : Cache) (address : Address) (key : RoundKey) (keys : List RoundKey) :
    c.removeAll address (key :: keys) =
      ((if (c.remove key address).1 then 1 else 0) + ((c.remove key address).2.removeAll address keys).1,
        ((c.remove key address).2.removeAll address keys).2) := by
  have hfold : ∀ (keys : List RoundKey) (n : Nat) (c : Cache), keys.foldl (fun acc key =>
      (if (acc.2.remove key address).1 then acc.1 + 1 else acc.1, (acc.2.remove key address).2)) (n, c) =
      (n + (c.removeAll address keys).1, (c.removeAll address keys).2) := by
    intro keys
    induction keys with
    | nil => exact fun _ _ => rfl
    | cons key keys ih =>
      intro n c
      have hfirst : c.removeAll address (key :: keys) =
          ((if (c.remove key address).1 then 0 + 1 else 0) +
            ((c.remove key address).2.removeAll address keys).1,
            ((c.remove key address).2.removeAll address keys).2) := ih _ (c.remove key address).2
      refine (ih _ (c.remove key address).2).trans ?_
      rw [hfirst, ← Nat.add_assoc]
      cases (c.remove key address).1 <;> rfl
  rw [← Nat.zero_add 1]
  exact hfold keys _ (c.remove key address).2

theorem removeAll_cons (c : Cache) (address : Address) (key : RoundKey) (keys : List RoundKey) :
    (c.removeAll address (key :: keys)).2 = ((c.remove key address).2.removeAll address keys).2 := by
  rw [removeAll_cons_eq]

theorem lacks_removeAll {keys : List RoundKey} (hk : k ∈ keys) (h : c.get? k x = some e) :
    (c.removeAll x keys).2.Lacks k x := by
  induction keys generalizing c with
  | nil => cases hk
  | cons key keys ih =>
    rw [removeAll_cons]
    by_cases heq : k = key
    · subst key
      exact removeAll_induction (P := fun c => c.Lacks k x) x keys
        (fun _ key _ hlacks => hlacks.remove key) (lacks_remove h)
    · have hmem : k ∈ keys := (List.mem_cons.mp hk).resolve_left heq
      exact ih hmem (get?_remove_of_some (Or.inl heq) h)

theorem get?_evict_of_lacks (hp : c.Protected k) (h : c.Lacks k x) : c.evict.get? k x = none := by
  unfold get? entries
  cases hes : Assoc.get? k c.rounds with
  | none =>
    have hnone : Assoc.get? k c.evict.rounds = none :=
      Assoc.get?_filter_eq_none (Assoc.get?_filter_eq_none hes)
    rw [hnone]
    rfl
  | some es =>
    obtain ⟨hne, hx⟩ := h es hes
    rw [rounds_evict_of_protected hp hes hne]
    exact hx

theorem mem_keysContaining_of_get? (h : c.get? k x = some e) : k ∈ c.keysContaining x := by
  obtain ⟨es, hes, hx⟩ := get?_eq_some_iff.mp h
  refine List.mem_map.mpr ⟨(k, es), List.mem_filter.mpr ⟨Assoc.mem_of_get? hes, ?_⟩, rfl⟩
  simp [Assoc.contains, hx]

theorem entries_ascending (c : Cache) (k : RoundKey) : Assoc.Ascending (c.entries k) := c.tidy.get? k

theorem addresses_nodup (c : Cache) (k : RoundKey) : (c.addresses k).Nodup :=
  (c.entries_ascending k).keys_nodup

theorem mem_entries_iff : (x, e) ∈ c.entries k ↔ c.get? k x = some e :=
  ⟨(c.entries_ascending k).get?_of_mem, mem_entries_of_get?⟩

theorem entries_eq {c' : Cache} (hget : ∀ x, c.get? k x = c'.get? k x) : c.entries k = c'.entries k := by
  have hasymm : Std.Antisymm fun y z : Address × SignedEntry => y.1 < z.1 :=
    ⟨fun _ _ hyz hzy => absurd hzy (String.lt_asymm hyz)⟩
  have hirrefl : Std.Irrefl fun y z : Address × SignedEntry => y.1 < z.1 :=
    ⟨fun _ => String.lt_irrefl _⟩
  refine List.Pairwise.eq_of_mem_iff (c.entries_ascending k) (c'.entries_ascending k) ?_
  rintro ⟨x, e⟩
  rw [mem_entries_iff, mem_entries_iff, hget]

end Cache

/-- Whether a report of its peer makes an entry of a kind stale. -/
def EntryKind.Stale (kind : EntryKind) (key active : RoundKey) (phase : Nat) (finalized : Bool) :
    Prop :=
  match kind with
  | .contribution => StaleContribution key active phase
  | .hash => StaleHash key active phase finalized

instance (kind : EntryKind) (key active : RoundKey) (phase : Nat) (finalized : Bool) :
    Decidable (kind.Stale key active phase finalized) :=
  match kind with
  | .contribution => inferInstanceAs (Decidable (StaleContribution key active phase))
  | .hash => inferInstanceAs (Decidable (StaleHash key active phase finalized))

section

variable {c : Caches} {kind : EntryKind} {active key : RoundKey} {address x : Address} {phase : Nat}
  {finalized : Bool} {e : SignedEntry}

theorem not_stale_of_inRetention (h : key.InRetention active) :
    ¬ kind.Stale key active phase finalized := by
  intro hstale
  cases kind with
  | contribution => exact hstale.1 h
  | hash => exact hstale.1 h

/-- Pruning removes the stale entries of an address, and evicts under the active key. -/
theorem Caches.prunePeer_of (c : Caches) (kind : EntryKind) (active : RoundKey) (address : Address)
    (phase : Nat) (finalized : Bool) :
    (c.prunePeer active address phase finalized).value.2.of kind =
      (((c.of kind).removeAll address (((c.of kind).keysContaining address).filter
        fun key => kind.Stale key active phase finalized)).2.setActive active).evict := by
  cases kind with
  | contribution => rfl
  | hash => rfl

theorem Caches.holds_of_prunePeer
    (h : ((c.prunePeer active address phase finalized).value.2.of kind).Holds key x e) :
    (c.of kind).Holds key x e := by
  rw [prunePeer_of] at h
  have kept := h.of_sublist (Cache.evict_rounds_sublist _)
  exact Cache.holds_of_removeAll kept

/-- Pruning removes nothing under a retained key. -/
theorem Caches.get?_prunePeer_of_inRetention (hr : key.InRetention active)
    (h : (c.of kind).get? key x = some e) :
    ((c.prunePeer active address phase finalized).value.2.of kind).get? key x = some e := by
  rw [prunePeer_of]
  refine Cache.get?_evict_of_some (Cache.protected_of_setActive hr.inAdmission) ?_
  refine Cache.get?_removeAll_of_some ?_ h
  intro hmem
  have hstale := of_decide_eq_true (List.mem_filter.mp hmem).2
  exact not_stale_of_inRetention hr hstale

end

end Adjudication
