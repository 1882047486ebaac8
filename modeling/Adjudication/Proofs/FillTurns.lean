import Adjudication.Proofs.Deliveries

namespace Adjudication

namespace Fill

/-- What a fill does before it may start a batch: the fill and the node after it. -/
inductive Takes (m : Moment) (f : Fill) (n : Node) : Fill → Node → Prop
  | nothing : Takes m f n f n
  | stop : Takes m f n (f.ended .stopped) n
  | answer (missing : List Address) (wake : Nat) (peer : Address) (landing : Landing)
      (was : f.stage = .waiting missing wake) (landed : ⟨peer, .landed landing⟩ ∈ f.flights) :
      Takes m f n (f.joined peer (f.absorb n m.members peer missing landing).value.1)
        (f.absorb n m.members peer missing landing).value.2

/-- A batch that ends the fill, or that asks. -/
inductive Batched (now : Nat) (f : Fill) (n : Node) : Fill → Node → Prop
  | finish (stage : FillStage) (entropy : Entropy) (ends : stage.isEnd = true) :
      Batched now f n (f.ended stage) { n with entropy }
  | ask (missing : List Address) (entropy : Entropy) (perm : missing.Perm (f.missing n)) :
      Batched now f n
        { f.askAll { n with entropy } missing with
          stage := .waiting missing (now + n.config.gossip.batch) } { n with entropy }

variable {m : Moment} {f f' : Fill} {n n' : Node}

theorem batch_batched (f : Fill) (n : Node) (now : Nat) :
    Batched now f n (f.batch n now).value.1 (f.batch n now).value.2 := by
  unfold batch
  split
  next missing entropy hshuffle =>
    split
    next => exact .finish .complete entropy rfl
    next =>
      split
      next => exact .finish .stopped entropy rfl
      next =>
        have hperm := shuffle_perm (f.missing n) n.entropy
        rw [hshuffle] at hperm
        exact .ask missing entropy hperm

/-- When a fill that waits until `wake` can take a branch. -/
def Permits (f : Fill) (wake now : Nat) : Branch → Prop
  | .cancellation => f.cancelled = true
  | .landing peer landing => ⟨peer, .landed landing⟩ ∈ f.flights
  | .window => wake ≤ now

theorem permits_of_branch? {branch : Branch} {wake : Nat} (h : f.branch? wake m = some branch) :
    f.Permits wake m.now branch := by
  have hready : branch ∈ f.ready wake m.now := List.mem_of_getElem? h
  unfold ready at hready
  simp only [List.mem_append, List.mem_filterMap] at hready
  rcases hready with (hmem | ⟨⟨peer, transit⟩, hflight, heq⟩) | hmem
  · split at hmem
    next hcancelled =>
      cases List.mem_singleton.mp hmem
      exact hcancelled
    next => cases hmem
  · obtain ⟨_, hlanding, rfl⟩ := Option.map_eq_some_iff.mp heq
    cases transit with
    | landed landing =>
      cases hlanding
      exact hflight
    | departing request => cases hlanding
    | travelling frame arrives expires => cases hlanding
  · split at hmem
    next hwake =>
      cases List.mem_singleton.mp hmem
      exact hwake
    next => cases hmem

/-- Whatever is ready, there is a choice that falls on it. -/
theorem exists_choice {branch : Branch} {wake : Nat} (h : branch ∈ f.ready wake m.now) :
    ∃ choice, f.branch? wake { m with choice } = some branch := by
  obtain ⟨choice, hlt, hbranch⟩ := List.getElem_of_mem h
  refine ⟨choice, ?_⟩
  rw [branch?, Nat.mod_eq_of_lt hlt, List.getElem?_eq_getElem hlt, hbranch]

/-- A step of a fill takes something up, and then starts a batch or does not. -/
theorem step_cases (f : Fill) (n : Node) (m : Moment) : ∃ f₁ n₁, Takes m f n f₁ n₁ ∧
    ((f.step n m).value = (f₁, n₁) ∨ (f.step n m).value = (f₁.batch n₁ m.now).value) := by
  unfold step
  split
  next => exact ⟨f, n, .nothing, Or.inr rfl⟩
  next missing wake hstage =>
    split
    next => exact ⟨f, n, .nothing, Or.inl rfl⟩
    next => exact ⟨_, n, .stop, Or.inl rfl⟩
    next peer landing hbranch =>
      refine ⟨_, _, .answer missing wake peer landing hstage (permits_of_branch? hbranch), ?_⟩
      rw [Noted.value_bind]
      by_cases hdone : ((f.absorb n m.members peer missing landing).value.1 &&
          ((f.joined peer (f.absorb n m.members peer missing landing).value.1).missing
            (f.absorb n m.members peer missing landing).value.2).isEmpty) = true
      · exact Or.inr (congrArg Noted.value (if_pos hdone))
      · exact Or.inl (congrArg Noted.value (if_neg hdone))
    next => exact ⟨f, n, .nothing, Or.inr rfl⟩
  next => exact ⟨f, n, .nothing, Or.inl rfl⟩

/-- A request that the fill sends for a node: for its kind and key, and with no other offer than the
node's own entry. -/
def Sends (f : Fill) (n : Node) (flight : Flight) : Prop :=
  ∃ missing offered, flight.transit = .departing (.gossip f.kind ⟨f.key, missing, offered⟩) ∧
    ∀ o ∈ offered, o.address = n.address ∧ (n.cache f.kind).get? f.key n.address = some o.entry

/-- The fill after asking: for the same kind and key, with more requests. -/
structure Asked (f : Fill) (n : Node) (f' : Fill) : Prop where
  kind : f'.kind = f.kind
  key : f'.key = f.key
  flights : ∀ flight ∈ f'.flights, flight ∈ f.flights ∨ f.Sends n flight

theorem Asked.trans {f'' : Fill} (h : f.Asked n f') (h' : f'.Asked n f'') : f.Asked n f'' where
  kind := h'.kind.trans h.kind
  key := h'.key.trans h.key
  flights flight hflight := by
    rcases h'.flights flight hflight with hold | hsent
    · exact h.flights flight hold
    · unfold Sends at hsent
      rw [h.kind, h.key] at hsent
      exact Or.inr hsent

theorem ask_asked (f : Fill) (n : Node) (missing : List Address) (count index : Nat)
    (peer : Address) : f.Asked n (f.ask n missing count index peer) := by
  unfold ask
  split
  next => exact ⟨rfl, rfl, fun _ h => Or.inl h⟩
  next =>
    refine ⟨rfl, rfl, ?_⟩
    intro flight hflight
    rcases List.mem_append.mp hflight with hold | hnew
    · exact Or.inl hold
    · refine Or.inr ⟨rotatedSlice missing index count, f.offer? n peer, ?_, ?_⟩
      · rw [List.mem_singleton.mp hnew]
      · intro o ho
        unfold offer? at ho
        split at ho
        next => cases ho
        next =>
          obtain ⟨entry, hentry, rfl⟩ := Option.map_eq_some_iff.mp ho
          exact ⟨rfl, hentry⟩

theorem askAll_asked (f : Fill) (n : Node) (missing : List Address) :
    f.Asked n (f.askAll n missing) := by
  have hfold : ∀ (peers : List (Address × Nat)) (count : Nat) (f : Fill), f.Asked n
      (peers.foldl (fun f p => f.ask n missing count p.2 p.1) f) := by
    intro peers count
    induction peers with
    | nil => exact fun f => ⟨rfl, rfl, fun _ h => Or.inl h⟩
    | cons p peers ih => exact fun f => (f.ask_asked n missing count p.2 p.1).trans (ih _)
  exact hfold _ _ f

theorem Batched.asked {now : Nat} (h : Batched now f n f' n') : f.Asked n' f' := by
  cases h with
  | finish stage entropy ends =>
    refine ⟨rfl, rfl, ?_⟩
    intro flight hflight
    cases hflight
  | ask missing entropy perm =>
    have hasked := f.askAll_asked { n with entropy } missing
    exact ⟨hasked.kind, hasked.key, hasked.flights⟩

theorem Batched.caches_eq {now : Nat} (h : Batched now f n f' n') : n'.caches = n.caches := by
  cases h <;> rfl

/-- The answers that have landed for a fill, as what they say of entries. -/
def Landed (f : Fill) (kind : EntryKind) (k : RoundKey) (x : Address) (e : SignedEntry) : Prop :=
  f.kind = kind ∧ f.key = k ∧ ∃ peer,
    (⟨peer, .landed (.answered (.ok (.gossip (.entry ⟨x, e⟩))))⟩ : Flight) ∈ f.flights

variable {delivered : EntryKind → RoundKey → Address → SignedEntry → Prop}

/-- The entry that an answer to a request for `missing` brings. -/
def Merges (f : Fill) (n : Node) (members : Members) (peer : Address) (missing : List Address)
    (landing : Landing) (kind : EntryKind) (k : RoundKey) (x : Address) (e : SignedEntry) : Prop :=
  kind = f.kind ∧ k = f.key ∧ landing = .answered (.ok (.gossip (.entry ⟨x, e⟩))) ∧ x ∈ missing ∧
    (n.consider members peer kind k x e).value.1 = .ok .inserted

theorem absorb_merges (f : Fill) (n : Node) (members : Members) (peer : Address)
    (missing : List Address) (landing : Landing) :
    n.Gains (f.Merges n members peer missing landing)
      (f.absorb n members peer missing landing).value.2 := by
  cases landing with
  | crashed => exact .of_caches rfl
  | timedOut => exact .of_caches rfl
  | answered reply =>
    unfold absorb
    dsimp only
    split
    next => exact .of_caches rfl
    next => exact .of_caches rfl
    next found hreply =>
      have hfound : reply = .ok (.gossip (.entry found)) := by
        cases reply with
        | error e => cases hreply
        | ok response =>
          cases response with
          | roundState a => cases hreply
          | failure e => cases hreply
          | gossip reply =>
            cases hreply
            rfl
      subst hfound
      split
      next =>
        split
        next => exact .of_caches rfl
        next => exact .of_caches rfl
      next hlisted =>
        have hmerges : n.Gains (f.Merges n members peer missing
            (.answered (.ok (.gossip (.entry found)))))
            (n.consider members peer f.kind f.key found.address found.entry).value.2 := by
          refine (n.consider_inserts members peer f.kind f.key found.address found.entry).mono ?_
          rintro kind k x e ⟨rfl, rfl, rfl, rfl, hinserted⟩
          exact ⟨rfl, rfl, rfl, not_not.mp hlisted, hinserted⟩
        simp only [Noted.value_bind]
        split
        next => exact hmerges
        next => exact hmerges

theorem absorb_gains (f : Fill) (n : Node) (members : Members) (peer : Address)
    (missing : List Address) (landing : Landing)
    (h : ∀ found, landing = .answered (.ok (.gossip (.entry found))) →
      delivered f.kind f.key found.address found.entry) :
    n.Gains delivered (f.absorb n members peer missing landing).value.2 := by
  refine (f.absorb_merges n members peer missing landing).mono ?_
  rintro kind k x e ⟨rfl, rfl, hlanding, -⟩
  exact h ⟨x, e⟩ hlanding

theorem Takes.asked (h : Takes m f n f' n') (sender : Node) : f.Asked sender f' := by
  cases h with
  | nothing => exact ⟨rfl, rfl, fun _ h => Or.inl h⟩
  | stop =>
    refine ⟨rfl, rfl, ?_⟩
    intro flight hflight
    cases hflight
  | answer missing wake peer landing was landed =>
    exact ⟨rfl, rfl, fun _ h => Or.inl (List.mem_filter.mp h).1⟩

theorem Takes.gains (h : Takes m f n f' n') : n.Gains f.Landed n' := by
  cases h with
  | nothing => exact .of_caches rfl
  | stop => exact .of_caches rfl
  | answer missing wake peer landing was landed =>
    refine f.absorb_gains n m.members peer missing landing ?_
    rintro found rfl
    exact ⟨rfl, rfl, peer, landed⟩

/-- With a step a fill sends only its own requests, and its node gains only what has landed for it. -/
theorem step_asked_gains (f : Fill) (n : Node) (m : Moment) :
    f.Asked (f.step n m).value.2 (f.step n m).value.1 ∧ n.Gains f.Landed (f.step n m).value.2 := by
  obtain ⟨f₁, n₁, htakes, hresult | hresult⟩ := f.step_cases n m
  · rw [hresult]
    exact ⟨htakes.asked n₁, htakes.gains⟩
  · have hbatched := f₁.batch_batched n₁ m.now
    rw [hresult]
    refine ⟨(htakes.asked _).trans hbatched.asked, ?_⟩
    exact htakes.gains.trans (.of_caches hbatched.caches_eq)

end Fill

end Adjudication
