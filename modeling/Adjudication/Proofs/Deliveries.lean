import Adjudication.Proofs.Authenticity

namespace Adjudication

namespace Node

variable {delivered : EntryKind → RoundKey → Address → SignedEntry → Prop} {m : Moment}
  {n n' n'' : Node} {kind : EntryKind} {key : RoundKey}

/-- The caches hold at most what they held before, and what was delivered. -/
def Gains (delivered : EntryKind → RoundKey → Address → SignedEntry → Prop) (n n' : Node) : Prop :=
  ∀ kind k x e, (n'.cache kind).Holds k x e → (n.cache kind).Holds k x e ∨ delivered kind k x e

theorem Gains.of_caches (h : n'.caches = n.caches) : n.Gains delivered n' := by
  intro kind k x e held
  rw [cache, h] at held
  exact Or.inl held

theorem Gains.mono {delivered' : EntryKind → RoundKey → Address → SignedEntry → Prop}
    (h : n.Gains delivered n')
    (himp : ∀ {kind k x e}, delivered kind k x e → delivered' kind k x e) : n.Gains delivered' n' :=
  fun kind k x e held => (h kind k x e held).imp_right himp

theorem Gains.trans (h : n.Gains delivered n') (h' : n'.Gains delivered n'') :
    n.Gains delivered n'' := by
  intro kind k x e held
  rcases h' kind k x e held with hmid | hnew
  · exact h kind k x e hmid
  · exact Or.inr hnew

/-- What an admission brings is the entry, if it is inserted. -/
theorem consider_inserts (n : Node) (members : Members) (peer : Address) (kind : EntryKind)
    (key : RoundKey) (address : Address) (entry : SignedEntry) :
    n.Gains (fun kind' k x e => kind' = kind ∧ k = key ∧ x = address ∧ e = entry ∧
      (n.consider members peer kind key address entry).value.1 = .ok .inserted)
      (n.consider members peer kind key address entry).value.2 := by
  intro other k x e held
  by_cases hkind : other = kind
  · subst other
    rw [cache_consider_self] at held
    by_cases hinserted : (n.consider members peer kind key address entry).value.1 = .ok .inserted
    · rcases Cache.holds_of_consider held with hold | ⟨rfl, rfl, rfl, _⟩
      · exact Or.inl hold
      · exact Or.inr ⟨rfl, rfl, rfl, rfl, hinserted⟩
    · have hrounds := Cache.consider_rounds_eq hinserted
      exact Or.inl (held.of_sublist (hrounds ▸ List.Sublist.refl _))
  · rw [cache_consider_of_ne hkind] at held
    exact Or.inl held

theorem consider_gains (members : Members) (peer : Address) {address : Address} {entry : SignedEntry}
    (h : delivered kind key address entry) :
    n.Gains delivered (n.consider members peer kind key address entry).value.2 := by
  refine (n.consider_inserts members peer kind key address entry).mono ?_
  rintro _ _ _ _ ⟨rfl, rfl, rfl, rfl, _⟩
  exact h

theorem observe_gains (n : Node) (m : Moment) (peer : Address) (a : Attestation) :
    n.Gains delivered (n.observe m peer a).value.2 := by
  unfold observe
  simp only [Noted.value_bind]
  split
  · exact .of_caches rfl
  · split
    · exact .of_caches rfl
    · intro kind k x e held
      exact Or.inl (Caches.holds_of_prunePeer held)

theorem takeOffer_gains (n : Node) (members : Members) (caller : Address) {offered : AddressedEntry}
    (h : delivered kind key offered.address offered.entry) :
    n.Gains delivered (n.takeOffer members caller kind key offered).value := by
  unfold takeOffer
  split
  · exact .of_caches rfl
  · split
    · exact .of_caches rfl
    · exact consider_gains members caller h

theorem serve_gains (n : Node) (members : Members) (caller : Address) {request : GossipRequest}
    (h : ∀ o ∈ request.offered, delivered kind request.key o.address o.entry) :
    n.Gains delivered (n.serve members caller kind request).value.2 := by
  unfold serve
  split
  · exact .of_caches rfl
  · split
    · simp only [Noted.value_bind, Noted.value_pure]
      split
      · exact .of_caches rfl
      · exact .of_caches rfl
    · next offered ho =>
      have taken : n.Gains delivered
          (n.takeOffer members caller kind request.key offered).value :=
        n.takeOffer_gains members caller (h offered ho)
      simp only [Noted.value_bind]
      split
      · exact taken
      · exact taken

theorem holds_of_firstPresent {c : Cache} {candidates : List Address} {found : AddressedEntry}
    (h : c.firstPresent key candidates = some found) : c.Holds key found.address found.entry := by
  obtain ⟨address, _, haddress⟩ := List.exists_of_findSome?_eq_some h
  obtain ⟨entry, hentry, rfl⟩ := Option.map_eq_some_iff.mp haddress
  exact Cache.holds_of_get? hentry

/-- A node serves an entry that it holds. -/
theorem holds_of_serve {members : Members} {caller : Address} {request : GossipRequest}
    {found : AddressedEntry}
    (h : (n.serve members caller kind request).value.1 = .ok (.entry found)) :
    ((n.serve members caller kind request).value.2.cache kind).Holds request.key found.address
      found.entry := by
  unfold serve at h ⊢
  split at h
  next => cases h
  next hlimit =>
    rw [if_neg hlimit]
    split at h
    · simp only [Noted.value_bind, Noted.value_pure] at h ⊢
      split at h
      next hpresent =>
        cases h
        exact holds_of_firstPresent hpresent
      next => cases h
    · simp only [Noted.value_bind] at h ⊢
      split at h
      next hpresent =>
        cases h
        exact holds_of_firstPresent hpresent
      next => cases h

theorem attest_gains (n : Node) (clock : Int) : n.Gains delivered (n.attest clock).2 := by
  have hcaches : (n.attest clock).2.caches = n.caches := by
    unfold attest
    split
    rfl
  exact .of_caches hcaches

theorem answerHeartbeat_gains (n : Node) (m : Moment) (caller : Address) (a : Attestation) :
    n.Gains delivered (n.answerHeartbeat m caller a).value.2 := by
  have observed : n.Gains delivered _ := n.observe_gains m caller a
  unfold answerHeartbeat
  simp only [Noted.value_bind]
  split
  · exact observed
  · exact observed.trans (attest_gains _ m.clock)

theorem answer_gains (n : Node) (m : Moment) (caller : Address) {request : Request}
    (h : ∀ kind req, request = .gossip kind req →
      ∀ o ∈ req.offered, delivered kind req.key o.address o.entry) :
    n.Gains delivered (n.answer m caller request).value.2 := by
  cases request with
  | roundState a => exact n.answerHeartbeat_gains m caller a
  | gossip kind req => exact n.serve_gains m.members caller (h kind req rfl)

theorem holds_of_answer {caller : Address} {request : GossipRequest} {found : AddressedEntry}
    (h : (n.answer m caller (.gossip kind request)).value.1 = .gossip (.entry found)) :
    ((n.answer m caller (.gossip kind request)).value.2.cache kind).Holds request.key found.address
      found.entry := by
  have hserved : (n.serve m.members caller kind request).value.1 = .ok (.entry found) := by
    unfold answer at h
    simp only [Noted.value_bind] at h
    cases hr : (n.serve m.members caller kind request).value.1 with
    | ok reply =>
      rw [hr] at h
      cases h
      rfl
    | error e =>
      rw [hr] at h
      cases h
  exact holds_of_serve hserved

end Node

end Adjudication
