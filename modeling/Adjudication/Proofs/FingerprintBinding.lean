import Adjudication.Proofs.ByteOrder
import Adjudication.Proofs.Eviction
import Adjudication.Proofs.Finalization
import Adjudication.Proofs.SortedLists

namespace Adjudication

theorem Hex.utf8Size_digit : ∀ n, n < 16 → (digit n).utf8Size = 1 := by decide

theorem Hex.length_utf8_encode (bs : Bytes) : (utf8 (encode bs)).length = 2 * bs.length := by
  rw [encode, utf8_ofList]
  induction bs with
  | nil => rfl
  | cons b bs ih =>
    have hb := b.toNat_lt
    have hhigh := utf8Size_digit (b.toNat / 16) (by omega)
    have hlow := utf8Size_digit (b.toNat % 16) (by omega)
    have hcons : encodeChars (b :: bs) =
        digit (b.toNat / 16) :: digit (b.toNat % 16) :: encodeChars bs := rfl
    rw [hcons, List.flatMap_cons, List.flatMap_cons, List.length_append, List.length_append, ih,
      String.length_utf8EncodeChar, String.length_utf8EncodeChar, hhigh, hlow, List.length_cons]
    omega

theorem length_sha256 (message : Bytes) : (sha256 message).length = 32 := by
  simp [sha256, Sha256.Chain.bytes, bigEndian]

theorem length_entryDigest (address : Address) (payload : String) :
    (utf8 (entryDigest address payload)).length = 64 := by
  rw [entryDigest, Hex.length_utf8_encode, length_sha256]

theorem length_canonicalDigest (entries : List (Address × String)) :
    (utf8 (canonicalDigest entries)).length = 64 := by
  rw [canonicalDigest, Hex.length_utf8_encode, length_sha256]

/-- What the digest of an entry hashes. -/
def entryInput (e : Address × String) : Bytes :=
  littleEndian 8 (utf8 e.1).length ++ utf8 e.1 ++ utf8 e.2

/-- What the canonical digest hashes when it has the digests of all entries. -/
def setInput (entries : List (Address × String)) : Bytes :=
  (sortByAddress entries).flatMap fun e => utf8 (entryDigest e.1 e.2)

/-- Everything that is hashed on the way to the canonical digest, in this order. -/
def hashedInputs (entries : List (Address × String)) : List Bytes :=
  (sortByAddress entries).map entryInput ++ [setInput entries]

def Collides (inputs : List Bytes) : Prop :=
  ∃ m ∈ inputs, ∃ m' ∈ inputs, m ≠ m' ∧ sha256 m = sha256 m'

/-- Addresses whose length fits the word that it is written into. -/
def Short (entries : List (Address × String)) : Prop :=
  ∀ e ∈ entries, (utf8 e.1).length < UInt64.size

instance (entries : List (Address × String)) : Decidable (Short entries) :=
  inferInstanceAs (Decidable (∀ e ∈ entries, _))

variable {S T : List (Address × String)}

theorem canonicalDigest_eq (entries : List (Address × String)) :
    canonicalDigest entries = Hex.encode (sha256 (setInput entries)) := rfl

theorem Collides.mono {inputs inputs' : List Bytes} (h : Collides inputs) (hs : inputs ⊆ inputs') :
    Collides inputs' := by
  obtain ⟨m, hm, m', hm', hne, heq⟩ := h
  exact ⟨m, hs hm, m', hs hm', hne, heq⟩

theorem entryInput_inj {e e' : Address × String} (hshort : (utf8 e.1).length < UInt64.size)
    (hshort' : (utf8 e'.1).length < UInt64.size) : entryInput e = entryInput e' ↔ e = e' := by
  constructor
  · intro h
    simp only [entryInput, List.append_assoc] at h
    obtain ⟨hword, hrest⟩ := List.append_inj h (by simp)
    have hlength := (littleEndian_inj hshort hshort').mp hword
    obtain ⟨hname, hpayload⟩ := List.append_inj hrest hlength
    exact Prod.ext (utf8_inj.mp hname) (utf8_inj.mp hpayload)
  · rintro rfl
    rfl

theorem sortByAddress_perm (entries : List (Address × String)) :
    (sortByAddress entries).Perm entries :=
  sortBy_perm _ _

theorem sortByAddress_pairwise (entries : List (Address × String)) :
    (sortByAddress entries).Pairwise fun x y => x.1 ≤ y.1 :=
  sortBy_pairwise Prod.fst entries

/-- Distinct addresses stand in order in one way only. -/
theorem sortByAddress_eq_of_perm (hdistinct : (S.map Prod.fst).Nodup) (h : S.Perm T) :
    sortByAddress S = sortByAddress T := by
  refine List.Perm.eq_of_pairwise ?_ (sortByAddress_pairwise S) (sortByAddress_pairwise T)
    ((sortByAddress_perm S).trans (h.trans (sortByAddress_perm T).symm))
  intro x y hx hy hxy hyx
  have hxS : x ∈ S := (sortByAddress_perm S).mem_iff.mp hx
  have hyS : y ∈ S := h.mem_iff.mpr ((sortByAddress_perm T).mem_iff.mp hy)
  exact List.inj_on_of_nodup_map hdistinct hxS hyS (String.le_antisymm hxy hyx)

theorem canonicalDigest_eq_of_perm (hdistinct : (S.map Prod.fst).Nodup) (h : S.Perm T) :
    canonicalDigest S = canonicalDigest T := by
  rw [canonicalDigest, canonicalDigest, sortByAddress_eq_of_perm hdistinct h]

theorem eq_of_map_eq {α β : Type} {f : α → β} {xs ys : List α}
    (hinj : ∀ x ∈ xs, ∀ y ∈ ys, f x = f y → x = y) (h : xs.map f = ys.map f) : xs = ys := by
  induction xs generalizing ys with
  | nil => exact (List.map_eq_nil_iff.mp h.symm).symm
  | cons x xs ih =>
    cases ys with
    | nil => cases h
    | cons y ys =>
      obtain ⟨hfirst, hrest⟩ := List.cons.inj h
      have hxy := hinj x List.mem_cons_self y List.mem_cons_self hfirst
      have hxys := ih (fun x hx y hy => hinj x (List.mem_cons_of_mem _ hx) y
        (List.mem_cons_of_mem _ hy)) hrest
      rw [hxy, hxys]

/-- Pieces of one length can be read off their concatenation. -/
theorem map_eq_of_flatMap_eq {α β : Type} {f : α → List β} {n : Nat} (hpos : 0 < n)
    (hlength : ∀ x, (f x).length = n) {xs ys : List α} (h : xs.flatMap f = ys.flatMap f) :
    xs.map f = ys.map f := by
  have hne : ∀ x, f x ≠ [] := fun x hx => by
    have hx' := hlength x
    rw [hx] at hx'
    exact absurd hx' (Nat.ne_of_lt hpos)
  induction xs generalizing ys with
  | nil =>
    cases ys with
    | nil => rfl
    | cons y ys => exact absurd (List.append_eq_nil_iff.mp h.symm).1 (hne y)
  | cons x xs ih =>
    cases ys with
    | nil => exact absurd (List.append_eq_nil_iff.mp h).1 (hne x)
    | cons y ys =>
      obtain ⟨hfirst, hrest⟩ := List.append_inj h ((hlength x).trans (hlength y).symm)
      rw [List.map_cons, List.map_cons, hfirst, ih hrest]

theorem eq_or_collides {inputs inputs' : List Bytes}
    (h : inputs.map sha256 = inputs'.map sha256) :
    inputs = inputs' ∨ Collides (inputs ++ inputs') := by
  by_cases hcollides : Collides (inputs ++ inputs')
  · exact Or.inr hcollides
  · refine Or.inl (eq_of_map_eq (fun m hm m' hm' heq => ?_) h)
    by_contra hne
    exact hcollides
      ⟨m, List.mem_append_left _ hm, m', List.mem_append_right _ hm', hne, heq⟩

theorem map_entryInput_of_setInput_eq (h : setInput S = setInput T) :
    ((sortByAddress S).map entryInput).map sha256 =
      ((sortByAddress T).map entryInput).map sha256 := by
  have hdigests := map_eq_of_flatMap_eq
    (f := fun e : Address × String => utf8 (Hex.encode (sha256 (entryInput e)))) (Nat.zero_lt_succ 63)
    (fun e => length_entryDigest e.1 e.2) h
  refine eq_of_map_eq (f := fun hash => utf8 (Hex.encode hash)) ?_ ?_
  · exact fun _ _ _ _ h => Hex.encode_inj.mp (utf8_inj.mp h)
  · simp only [List.map_map]
    exact hdigests

/-- Sets of one canonical digest are the same set, or two of their hashed inputs collide. -/
theorem perm_or_collides (hS : Short S) (hT : Short T) (h : canonicalDigest S = canonicalDigest T) :
    S.Perm T ∨ Collides (hashedInputs S ++ hashedInputs T) := by
  rw [canonicalDigest_eq, canonicalDigest_eq, Hex.encode_inj] at h
  by_cases hset : setInput S = setInput T
  · rcases eq_or_collides (map_entryInput_of_setInput_eq hset) with hinputs | hcollides
    · refine Or.inl ?_
      have hsorted : sortByAddress S = sortByAddress T := by
        refine eq_of_map_eq (fun x hx y hy hxy => ?_) hinputs
        exact (entryInput_inj (hS x ((sortByAddress_perm S).mem_iff.mp hx))
          (hT y ((sortByAddress_perm T).mem_iff.mp hy))).mp hxy
      exact (sortByAddress_perm S).symm.trans (hsorted ▸ sortByAddress_perm T)
    · refine Or.inr (hcollides.mono ?_)
      exact List.append_subset.mpr
        ⟨fun m hm => List.mem_append_left _ (List.mem_append_left _ hm),
          fun m hm => List.mem_append_right _ (List.mem_append_left _ hm)⟩
  · have hlast : ∀ entries, setInput entries ∈ hashedInputs entries := fun entries =>
      List.mem_append_right _ (List.mem_singleton.mpr rfl)
    exact Or.inr ⟨_, List.mem_append_left _ (hlast S), _, List.mem_append_right _ (hlast T), hset, h⟩

namespace Agent

variable {a b : Agent} {script script' : Script} {id id' : Nat} {key key' : RoundKey}
  {entries entries' : List (Address × String)} {digest digest' : String}

theorem ascending_of_finalized (ha : a.Blank)
    (h : (a.run script).outcome? id = some (.finalized key entries digest)) :
    entries.Pairwise fun x y => x.1 < y.1 := by
  obtain ⟨before, _, _, c, _, rfl, _, ⟨r, hr, agreed⟩, _⟩ :=
    exists_conclusion (ha.unbegun _) (inRound_closed_of_outcome? h)
  obtain ⟨earlier, _, _, r', _, _, _, _, rfl, _⟩ :=
    exists_commitment (ha.unbegun _) ⟨r, hr, agreed.tallying⟩
  exact List.pairwise_map.mpr (Cache.entries_ascending _ r'.key)

end Agent

theorem eq_of_perm_of_ascending (hS : S.Pairwise fun x y => x.1 < y.1)
    (hT : T.Pairwise fun x y => x.1 < y.1) (h : S.Perm T) : S = T :=
  List.Perm.eq_of_pairwise (fun _ _ _ _ hxy hyx => absurd hyx (String.lt_asymm hxy)) hS hT h

open Agent in
/-- The order of a listing does not matter to its canonical digest, equal digests mean equal sets or a
collision that can be shown, and so do those of finalized rounds, of whatever nodes and keys. -/
theorem canonicalDigest_binds :
    (∀ S T : List (Address × String), (S.map Prod.fst).Nodup → S.Perm T →
      canonicalDigest S = canonicalDigest T) ∧
    (∀ S T : List (Address × String), Short S → Short T →
      canonicalDigest S = canonicalDigest T → S.Perm T ∨ Collides (hashedInputs S ++ hashedInputs T)) ∧
    (∀ (a b : Agent) (script script' : Script) (id id' : Nat) (key key' : RoundKey)
        (entries entries' : List (Address × String)) (digest digest' : String),
      a.Blank → b.Blank →
      (a.run script).outcome? id = some (.finalized key entries digest) →
      (b.run script').outcome? id' = some (.finalized key' entries' digest') →
      Short entries → Short entries' → digest = digest' →
      entries = entries' ∨ Collides (hashedInputs entries ++ hashedInputs entries')) := by
  refine ⟨fun S T => canonicalDigest_eq_of_perm, fun S T => perm_or_collides, ?_⟩
  intro a b script script' id id' key key' entries entries' digest digest' ha hb hout hout' hshort
    hshort' hdigest
  have hcanonical := digest_of_finalized (ha.unbegun _) hout
  have hcanonical' := digest_of_finalized (hb.unbegun _) hout'
  have heq : canonicalDigest entries = canonicalDigest entries' := by
    rw [← hcanonical, ← hcanonical', hdigest]
  refine (perm_or_collides hshort hshort' heq).imp_left ?_
  exact eq_of_perm_of_ascending (ascending_of_finalized ha hout) (ascending_of_finalized hb hout')

namespace TwoSided

/-- What a node does that meets one peer, in a round in which both contribute. -/
def script (x peer : Address) : Script := [
  (TwoFaced.moment 0, .connect peer),
  (TwoFaced.moment 0, .call peer (.roundState (.sign (.plain peer) {} 0 7))),
  (TwoFaced.moment 0, .start ⟨0, .initial, x, 5000⟩
    ((Signer.plain x).sign (contributionMessage x)) 0),
  (TwoFaced.moment 0, .task (.round 0)),
  (TwoFaced.moment 0, .call peer
    (.gossip .contribution ⟨⟨1, 0⟩, [], some (.plain .contribution ⟨1, 0⟩ peer peer)⟩)),
  (TwoFaced.moment 0, .task (.round 0)),
  (TwoFaced.moment 0, .task (.round 0)),
  (TwoFaced.moment 0, .call peer
    (.gossip .hash ⟨⟨1, 0⟩, [], some (.plain .hash ⟨1, 0⟩ peer TwoFaced.digestA)⟩)),
  (TwoFaced.moment 0, .task (.round 0)),
  (TwoFaced.moment 0, .task (.round 0)),
  (TwoFaced.moment 10000, .task (.round 0))]

theorem outcome_a : ((Agent.plain "a").run (script "a" "p")).outcome? 0 =
    some (.finalized ⟨1, 0⟩ [("a", "a"), ("p", "p")] TwoFaced.digestA) := by
  decide +kernel

theorem outcome_p : ((Agent.plain "p").run (script "p" "a")).outcome? 0 =
    some (.finalized ⟨1, 0⟩ [("a", "a"), ("p", "p")] TwoFaced.digestA) := by
  decide +kernel

theorem short : Short [("a", "a"), ("p", "p")] := by
  decide

/-- Both sides list the set alike, and the other way round it has the same digest. -/
theorem listings_bound :
    canonicalDigest [("a", "a"), ("p", "p")] = canonicalDigest [("p", "p"), ("a", "a")] ∧
      (([("a", "a"), ("p", "p")] : List (Address × String)).Perm [("p", "p"), ("a", "a")] ∨
        Collides (hashedInputs [("a", "a"), ("p", "p")] ++
          hashedInputs [("p", "p"), ("a", "a")])) ∧
      ((([("a", "a"), ("p", "p")] : List (Address × String)) = [("a", "a"), ("p", "p")]) ∨
        Collides (hashedInputs [("a", "a"), ("p", "p")] ++
          hashedInputs [("a", "a"), ("p", "p")])) := by
  obtain ⟨horder, hbinds, hrounds⟩ := canonicalDigest_binds
  have hdigest := horder [("a", "a"), ("p", "p")] [("p", "p"), ("a", "a")] (by decide) (.swap ..)
  exact ⟨hdigest, hbinds _ _ short (by decide) hdigest,
    hrounds _ _ _ _ _ _ _ _ _ _ _ _ (Agent.plain_blank "a") (Agent.plain_blank "p") outcome_a
      outcome_p short short rfl⟩

end TwoSided

end Adjudication
