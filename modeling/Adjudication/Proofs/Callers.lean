import Adjudication.Proofs.Eviction

namespace Adjudication

namespace Cache

variable {c : Cache} {key k active : RoundKey} {address x : Address} {entry : SignedEntry}

/-- Eviction changes nothing under a protected key. -/
theorem get?_evict (hp : c.Protected k) (x : Address) :
    c.evict.get? k x = c.get? k x := by
  have hentries : Assoc.get? k c.evict.rounds = Assoc.get? k c.rounds := by
    cases hes : Assoc.get? k c.rounds with
    | none => exact Assoc.get?_filter_eq_none (Assoc.get?_filter_eq_none hes)
    | some es => exact rounds_evict_of_protected hp hes (c.tidy.inhabited _ (Assoc.mem_of_get? hes))
  unfold get? entries
  rw [hentries]

theorem get?_put (c : Cache) (key k : RoundKey) (address x : Address) (entry : SignedEntry) :
    (c.put key address entry).get? k x = if k = key ∧ x = address then some entry else c.get? k x := by
  by_cases hk : k = key
  · subst key
    have hentries : (c.put k address entry).entries k = Assoc.insert address entry (c.entries k) := by
      unfold entries put
      rw [Assoc.get?_insert_self]
      rfl
    by_cases hx : x = address
    · subst address
      rw [if_pos ⟨rfl, rfl⟩, get?, hentries, Assoc.get?_insert_self]
    · rw [if_neg fun hboth => hx hboth.2, get?, hentries, Assoc.get?_insert_of_ne hx]
      rfl
  · have hentries : (c.put key address entry).entries k = c.entries k := by
      unfold entries put
      rw [Assoc.get?_insert_of_ne hk]
    rw [if_neg fun hboth => hk hboth.1, get?, hentries]
    rfl

/-- Under a protected key an insertion adds the entry, unless there is one of its address. -/
theorem get?_insert (hp : c.Protected k) :
    (c.insert key address entry).value.2.get? k x =
      (c.get? k x).or (if k = key ∧ x = address then some entry else none) := by
  have hput : c.contains key address = false → (c.put key address entry).get? k x =
      (c.get? k x).or (if k = key ∧ x = address then some entry else none) := by
    intro hnew
    rw [get?_put]
    split
    next hself =>
      obtain ⟨rfl, rfl⟩ := hself
      have hnone : c.get? k x = none := by simpa [contains] using hnew
      rw [hnone, Option.none_or]
    next => rw [Option.or_none]
  rcases insert_cases c key address entry with ⟨hin, hc⟩ | ⟨hnew, hc | hc⟩
  · rw [hc]
    split
    next hself =>
      obtain ⟨rfl, rfl⟩ := hself
      obtain ⟨e, he⟩ := Option.isSome_iff_exists.mp hin
      rw [he, Option.some_or]
    next => rw [Option.or_none]
  · rw [hc, hput hnew]
  · rw [hc, get?_evict (c := c.put key address entry) hp, hput hnew]

/-- What a peer delivers is added under an admitted key if it passes the check. -/
theorem get?_consider (c : Cache) (verifier : Verifier) (members : Members)
    (peer : Address) (hk : k.InAdmission active) :
    (c.consider verifier members active peer key address entry).value.2.get? k x =
      (c.get? k x).or (if (k = key ∧ x = address) ∧
        entryOffence? verifier members c.kind key address entry = none then some entry else none) := by
  have hother : k ≠ key → ¬ ((k = key ∧ x = address) ∧
      entryOffence? verifier members c.kind key address entry = none) := by
    intro hne hself
    exact hne hself.1.1
  unfold consider
  split
  next hb =>
    have hne : k ≠ key := by
      rintro rfl
      exact hk.not_behind hb
    rw [if_neg (hother hne), Option.or_none]
    rfl
  next =>
    split
    next houtside =>
      have hne : k ≠ key := by
        rintro rfl
        exact houtside hk
      rw [if_neg (hother hne), Option.or_none]
      rfl
    next =>
      have hp : (c.setActive active).Protected k := protected_of_setActive hk
      cases hv : entryOffence? verifier members c.kind key address entry with
      | some offence =>
        simp only [setActive, hv, reduceCtorEq, and_false, if_false, Option.or_none]
        rfl
      | none =>
        have hinsert : ((c.setActive active).insert key address entry).value.2.get? k x =
            (c.get? k x).or (if k = key ∧ x = address then some entry else none) :=
          get?_insert (c := c.setActive active) hp
        simp only [setActive, hv, and_true]
        exact hinsert

end Cache

/-- A request for entries of a kind, and who makes it. -/
structure Inquiry where
  caller : Address
  kind : EntryKind
  request : GossipRequest

namespace Node

variable {n n' : Node} {members : Members} {kind : EntryKind} {k : RoundKey} {x : Address}
  {e : SignedEntry}

/-- The caches after the requests have been served one after the other. -/
def serveAll (n : Node) (members : Members) (inquiries : List Inquiry) : Node :=
  inquiries.foldl (fun n i => (n.serve members i.caller i.kind i.request).value.2) n

theorem serveAll_snoc (n : Node) (members : Members) (inquiries : List Inquiry) (i : Inquiry) :
    n.serveAll members (inquiries ++ [i]) =
      ((n.serveAll members inquiries).serve members i.caller i.kind i.request).value.2 := by
  rw [serveAll, List.foldl_append]
  rfl

/-- Whether an offer is taken up: it is the caller's own, for a key that the caller may publish under, and
passes the check. -/
def Accepts (n : Node) (members : Members) (i : Inquiry) (offered : AddressedEntry) : Prop :=
  i.request.missing.length ≤ Limits.maxMissing ∧ offered.address = i.caller ∧
    (n.table.get? i.caller).any (fun row => row.MayPublish i.request.key) = true ∧
    entryOffence? n.verifier members (n.cache i.kind).kind i.request.key i.caller offered.entry = none

instance (n : Node) (members : Members) (i : Inquiry) (offered : AddressedEntry) :
    Decidable (n.Accepts members i offered) :=
  inferInstanceAs (Decidable (_ ∧ _))

/-- The entry that a request would bring an address under a key. -/
def brought? (n : Node) (members : Members) (i : Inquiry) (kind : EntryKind) (k : RoundKey)
    (x : Address) : Option SignedEntry :=
  i.request.offered.bind fun offered =>
    if (kind = i.kind ∧ k = i.request.key ∧ x = i.caller) ∧ n.Accepts members i offered
    then some offered.entry else none

theorem get?_consider (hk : k.InAdmission n.activeKey) (peer : Address)
    (other : EntryKind) (key : RoundKey) (address : Address) (entry : SignedEntry) :
    ((n.consider members peer other key address entry).value.2.cache kind).get? k x =
      ((n.cache kind).get? k x).or (if kind = other ∧ (k = key ∧ x = address) ∧
        entryOffence? n.verifier members (n.cache kind).kind key address entry = none
        then some entry else none) := by
  by_cases hkind : kind = other
  · subst other
    rw [cache_consider_self, Cache.get?_consider _ n.verifier members peer hk]
    simp only [true_and]
  · rw [cache_consider_of_ne hkind, if_neg fun hself => hkind hself.1, Option.or_none]

/-- Serving takes up the offer, if the request is in bounds, and changes nothing else. -/
theorem serve_eq (n : Node) (members : Members) (i : Inquiry) :
    (n.serve members i.caller i.kind i.request).value.2 =
      if i.request.missing.length ≤ Limits.maxMissing then
        match i.request.offered with
        | none => n
        | some offered => (n.takeOffer members i.caller i.kind i.request.key offered).value
      else n := by
  unfold serve
  by_cases hlimit : Limits.maxMissing < i.request.missing.length
  · rw [if_pos hlimit, if_neg (Nat.not_le.mpr hlimit)]
    rfl
  · rw [if_neg hlimit, if_pos (Nat.le_of_not_lt hlimit)]
    cases i.request.offered with
    | none =>
      simp only [Noted.value_bind, Noted.value_pure]
      split <;> rfl
    | some offered =>
      simp only [Noted.value_bind]
      split <;> rfl

/-- An offer is taken up as an entry that the caller delivers, or ignored. -/
theorem takeOffer_eq (n : Node) (members : Members) (i : Inquiry) (offered : AddressedEntry) :
    (n.takeOffer members i.caller i.kind i.request.key offered).value =
      if offered.address = i.caller ∧
        (n.table.get? i.caller).any (fun row => row.MayPublish i.request.key) = true then
        (n.consider members i.caller i.kind i.request.key i.caller offered.entry).value.2
      else n := by
  unfold takeOffer
  by_cases hcaller : offered.address = i.caller
  · rw [if_neg (not_not.mpr hcaller), hcaller]
    cases hrow : (n.table.get? i.caller).any fun row => row.MayPublish i.request.key with
    | true => simp
    | false => simp
  · rw [if_pos hcaller, if_neg fun hboth => hcaller hboth.1]
    rfl

/-- Under an admitted key a request adds at most what it brings. -/
theorem get?_serve (hk : k.InAdmission n.activeKey) (i : Inquiry) :
    ((n.serve members i.caller i.kind i.request).value.2.cache kind).get? k x =
      ((n.cache kind).get? k x).or (n.brought? members i kind k x) := by
  rw [serve_eq]
  unfold brought?
  cases i.request.offered with
  | none => simp
  | some offered =>
    rw [Option.bind_some]
    have hrefused : ¬ n.Accepts members i offered → ¬ ((kind = i.kind ∧ k = i.request.key ∧
        x = i.caller) ∧ n.Accepts members i offered) := fun hno hboth => hno hboth.2
    by_cases hlimit : i.request.missing.length ≤ Limits.maxMissing
    · by_cases htaken : offered.address = i.caller ∧
          (n.table.get? i.caller).any (fun row => row.MayPublish i.request.key) = true
      · rw [if_pos hlimit]
        simp only
        rw [takeOffer_eq, if_pos htaken, get?_consider hk]
        refine congrArg _ (if_congr ⟨?_, ?_⟩ rfl rfl)
        · rintro ⟨rfl, hself, hv⟩
          exact ⟨⟨rfl, hself⟩, hlimit, htaken.1, htaken.2, hv⟩
        · rintro ⟨⟨rfl, hself⟩, _, _, _, hv⟩
          exact ⟨rfl, hself, hv⟩
      · rw [if_pos hlimit, if_neg (hrefused fun haccepts => htaken ⟨haccepts.2.1, haccepts.2.2.1⟩),
          Option.or_none]
        simp only
        rw [takeOffer_eq, if_neg htaken]
    · rw [if_neg hlimit, if_neg (hrefused fun haccepts => hlimit haccepts.1), Option.or_none]

/-- What requests leave as it is: the position, the rows of peers, and what entries are checked by. -/
structure Keeps (n n' : Node) : Prop where
  position : n'.position = n.position
  table : n'.table = n.table
  verifier : n'.verifier = n.verifier
  kind : ∀ kind, (n'.cache kind).kind = (n.cache kind).kind

theorem serve_keeps (n : Node) (members : Members) (i : Inquiry) :
    n.Keeps (n.serve members i.caller i.kind i.request).value.2 := by
  have hrun := n.serve_peerRun (m := ⟨0, 0, members, 0⟩) i.caller i.kind i.request
  refine ⟨hrun.position_eq, ?_, hrun.verifier_eq, hrun.cache_kind⟩
  rw [serve_eq]
  split
  · split
    · rfl
    · rw [takeOffer_eq]
      split <;> rfl
  · rfl

theorem Keeps.brought?_eq (h : n.Keeps n') (i : Inquiry) :
    n'.brought? members i kind k x = n.brought? members i kind k x := by
  have haccepts : ∀ offered, n'.Accepts members i offered ↔ n.Accepts members i offered := by
    intro offered
    unfold Accepts
    rw [h.table, h.verifier, h.kind]
  simp only [brought?, haccepts]

theorem serveAll_keeps (n : Node) (members : Members) (inquiries : List Inquiry) :
    n.Keeps (n.serveAll members inquiries) := by
  induction inquiries using List.reverseRecOn with
  | nil => exact ⟨rfl, rfl, rfl, fun _ => rfl⟩
  | append_singleton inquiries i ih =>
    have hlast := (n.serveAll members inquiries).serve_keeps members i
    rw [serveAll_snoc]
    exact ⟨hlast.position.trans ih.position, hlast.table.trans ih.table,
      hlast.verifier.trans ih.verifier, fun kind => (hlast.kind kind).trans (ih.kind kind)⟩

/-- Under an admitted key the next request adds at most what it would bring from the start. -/
theorem get?_serveAll_snoc (hk : k.InAdmission n.activeKey) (inquiries : List Inquiry)
    (i : Inquiry) : ((n.serveAll members (inquiries ++ [i])).cache kind).get? k x =
      (((n.serveAll members inquiries).cache kind).get? k x).or (n.brought? members i kind k x) := by
  have hkeeps := n.serveAll_keeps members inquiries
  have hactive : (n.serveAll members inquiries).activeKey = n.activeKey :=
    congrArg Position.activeKey hkeeps.position
  rw [serveAll_snoc, get?_serve (hactive ▸ hk), hkeeps.brought?_eq]

/-- A request brings only its caller an entry. -/
theorem brought?_eq_none_of_ne {i : Inquiry} (hne : i.caller ≠ x) :
    n.brought? members i kind k x = none := by
  have hother : ∀ offered, ¬ ((kind = i.kind ∧ k = i.request.key ∧ x = i.caller) ∧
      n.Accepts members i offered) := fun _ hself => hne hself.1.2.2.symm
  simp only [brought?, hother, if_false, Option.bind_fun_none]

/-- What an address has in the window depends on no one's requests but its own. -/
theorem get?_serveAll_filter (hk : k.InAdmission n.activeKey) (inquiries : List Inquiry) :
    ((n.serveAll members inquiries).cache kind).get? k x =
      ((n.serveAll members (inquiries.filter fun i => i.caller = x)).cache kind).get? k x := by
  induction inquiries using List.reverseRecOn with
  | nil => rfl
  | append_singleton inquiries i ih =>
    rw [get?_serveAll_snoc hk, ih, List.filter_append]
    by_cases hcaller : i.caller = x
    · have hlast : [i].filter (fun i => decide (i.caller = x)) = [i] := by simp [hcaller]
      rw [hlast, get?_serveAll_snoc hk]
    · have hlast : [i].filter (fun i => decide (i.caller = x)) = [] := by simp [hcaller]
      rw [hlast, List.append_nil, brought?_eq_none_of_ne hcaller, Option.or_none]

theorem brought?_eq_some {i : Inquiry} (h : n.brought? members i kind k x = some e) :
    kind = i.kind ∧ k = i.request.key ∧ x = i.caller ∧ i.request.offered = some ⟨x, e⟩ ∧
      (n.table.get? x).any (fun row => row.MayPublish k) = true ∧
      entryOffence? n.verifier members (n.cache kind).kind k x e = none := by
  obtain ⟨offered, hoffered, hself⟩ := Option.bind_eq_some_iff.mp h
  split at hself
  next hboth =>
    obtain ⟨⟨rfl, rfl, rfl⟩, _, haddress, hrow, hchecked⟩ := hboth
    obtain ⟨address, entry⟩ := offered
    cases hself
    cases haddress
    exact ⟨rfl, rfl, rfl, hoffered, hrow, hchecked⟩
  next => cases hself

/-- The requests are those of `asked`, each caller's in order. -/
def Interleaves (asked : Address → List Inquiry) (inquiries : List Inquiry) : Prop :=
  ∀ x, inquiries.filter (fun i => i.caller = x) = asked x

/-- Requests change nothing in the window but that one adds an entry of its caller, under its key and where
the caller may publish; and they leave the same there in whatever order the callers' requests come. -/
theorem callers_independent (n : Node) (members : Members) :
    (∀ inquiries i kind k x, k.InAdmission n.activeKey →
      ((n.serveAll members (inquiries ++ [i])).cache kind).get? k x =
        ((n.serveAll members inquiries).cache kind).get? k x ∨
      ((n.serveAll members inquiries).cache kind).get? k x = none ∧
        kind = i.kind ∧ k = i.request.key ∧ x = i.caller ∧
        (n.table.get? x).any (fun row => row.MayPublish k) = true ∧
        ∃ e, i.request.offered = some ⟨x, e⟩ ∧
          ((n.serveAll members (inquiries ++ [i])).cache kind).get? k x = some e) ∧
    ∀ asked inquiries inquiries', Interleaves asked inquiries → Interleaves asked inquiries' →
      ∀ kind k, k.InAdmission n.activeKey →
        ((n.serveAll members inquiries).cache kind).entries k =
          ((n.serveAll members inquiries').cache kind).entries k := by
  constructor
  · intro inquiries i kind k x hk
    rw [get?_serveAll_snoc hk]
    cases hold : ((n.serveAll members inquiries).cache kind).get? k x with
    | some e => exact Or.inl (Option.some_or ..)
    | none =>
      cases hnew : n.brought? members i kind k x with
      | none => exact Or.inl rfl
      | some e =>
        obtain ⟨hkind, hkey, hcaller, hoffered, hrow, _⟩ := brought?_eq_some hnew
        exact Or.inr ⟨rfl, hkind, hkey, hcaller, hrow, e, hoffered, rfl⟩
  · intro asked inquiries inquiries' hfirst hsecond kind k hk
    refine Cache.entries_eq fun x => ?_
    rw [get?_serveAll_filter hk, hfirst x, ← hsecond x, ← get?_serveAll_filter hk]

end Node

namespace TwoFaced

def members : Members := .ofList ["a", "b", "p"]

/-- A node that has room for a single key, with two peers that have reported. -/
def crowded : Node :=
  ((Agent.fresh (.plain "a") plainVerifier { cacheCapacity := 1 } {} (.ofSeed 1) .logging
    ⟨.ofSeed 2, {}⟩).run [
      (moment 0, .connect "b"),
      (moment 0, .connect "p"),
      (moment 0, .call "b" (.roundState (.sign (.plain "b") {} 0 7))),
      (moment 0, .call "p" (.roundState (.sign (.plain "p") { status := .finalized } 0 7)))]).node

def contributing (x : Address) (key : RoundKey) : Inquiry :=
  ⟨x, .contribution, ⟨key, [], some (.plain .contribution key x x)⟩⟩

/-- The peer contributes wherever it may. -/
def pushing : List Inquiry :=
  [contributing "p" ⟨1, 0⟩, contributing "p" ⟨1, 1⟩, contributing "p" ⟨2, 0⟩]

/-- The other peer's contribution is there, and the same, whether it comes after those or before. -/
theorem pushing_displaces_nothing :
    ((crowded.serveAll members (pushing ++ [contributing "b" ⟨1, 0⟩])).cache .contribution).entries
        ⟨1, 0⟩ =
      ((crowded.serveAll members (contributing "b" ⟨1, 0⟩ :: pushing)).cache .contribution).entries
        ⟨1, 0⟩ ∧
    ((crowded.serveAll members (contributing "b" ⟨1, 0⟩ :: pushing)).cache .contribution).addresses
      ⟨1, 0⟩ = ["b", "p"] ∧
    ((crowded.serveAll members (contributing "b" ⟨1, 0⟩ :: pushing)).cache .contribution).keyCount = 3 := by
  have hasked : ∀ inquiries : List Inquiry,
      Node.Interleaves (fun x => inquiries.filter fun i => i.caller = x) inquiries := fun _ _ => rfl
  obtain ⟨_, horder⟩ := Node.callers_independent crowded members
  have hother : Node.Interleaves
      (fun x => (contributing "b" ⟨1, 0⟩ :: pushing).filter fun i => i.caller = x)
      (pushing ++ [contributing "b" ⟨1, 0⟩]) := by
    intro x
    by_cases hb : "b" = x
    · subst x
      rfl
    · by_cases hp : "p" = x
      · subst x
        rfl
      · simp [pushing, contributing, hb, hp]
  refine ⟨?_, by decide +kernel, by decide +kernel⟩
  exact horder _ _ _ hother (hasked _) .contribution ⟨1, 0⟩ (by decide +kernel)

end TwoFaced

end Adjudication
