import Adjudication.Proofs.FillRequests

namespace Adjudication

/-- The flight departs with an offer. -/
def Flight.Offers (flight : Flight) : Prop :=
  ∃ kind request, flight.transit = .departing (.gossip kind request) ∧ request.offered.isSome = true

namespace Fill

variable {m : Moment} {f f' g : Fill} {n n' : Node} {missing : List Address} {new : List Flight}
  {peer : Address} {landing : Landing}

/-- The fill after asking some of the peers that work on its round: `new` are the requests sent. -/
structure Asking (f : Fill) (n : Node) (new : List Flight) (g : Fill) : Prop where
  flights : g.flights = f.flights ++ new
  alone : (new.map (·.peer)).Nodup
  free : ∀ flight ∈ new, f.isBusy flight.peer = false
  working : ∀ flight ∈ new, ∃ row ∈ n.table.toList, row.address = flight.peer ∧ row.WorksOn f.key
  known : ∀ peer ∈ f.offeredTo, peer ∈ g.offeredTo
  offers : ∀ flight ∈ new, flight.Offers → flight.peer ∉ f.offeredTo ∧ flight.peer ∈ g.offeredTo

theorem Asking.refl (f : Fill) (n : Node) : f.Asking n [] f where
  flights := (List.append_nil _).symm
  alone := List.nodup_nil
  free _ h := absurd h List.not_mem_nil
  working _ h := absurd h List.not_mem_nil
  known _ h := h
  offers _ h := absurd h List.not_mem_nil

theorem Asking.ask (h : f.Asking n new g) (missing : List Address) (count index : Nat)
    (hpeer : ∃ row ∈ n.table.toList, row.address = peer ∧ row.WorksOn f.key) :
    ∃ new, f.Asking n new (g.ask n missing count index peer) := by
  by_cases hbusy : g.isBusy peer = true
  · refine ⟨new, ?_⟩
    rw [Fill.ask, dif_pos hbusy]
    exact h
  · have hfree : peer ∉ f.flights.map (·.peer) ∧ peer ∉ new.map (·.peer) := by
      rw [isBusy_iff, h.flights, List.map_append, List.mem_append, not_or] at hbusy
      exact hbusy
    rw [Fill.ask, dif_neg hbusy]
    refine ⟨new ++ [⟨peer, .departing (.gossip g.kind
      ⟨g.key, rotatedSlice missing index count, g.offer? n peer⟩)⟩], ?_⟩
    constructor
    case flights =>
      dsimp only
      rw [h.flights, List.append_assoc]
    case alone =>
      rw [List.map_append]
      refine List.nodup_append.mpr ⟨h.alone, List.nodup_singleton _, ?_⟩
      rintro a ha b hb rfl
      cases List.mem_singleton.mp hb
      exact hfree.2 ha
    case free =>
      intro flight hflight
      rcases List.mem_append.mp hflight with hold | hlast
      · exact h.free flight hold
      · cases List.mem_singleton.mp hlast
        rw [Bool.eq_false_iff, ne_eq, isBusy_iff]
        exact hfree.1
    case working =>
      intro flight hflight
      rcases List.mem_append.mp hflight with hold | hlast
      · exact h.working flight hold
      · cases List.mem_singleton.mp hlast
        exact hpeer
    case known =>
      intro other hother
      dsimp only
      split
      · exact List.mem_cons_of_mem _ (h.known other hother)
      · exact h.known other hother
    case offers =>
      intro flight hflight hoffers
      rcases List.mem_append.mp hflight with hold | hlast
      · obtain ⟨hbefore, hafter⟩ := h.offers flight hold hoffers
        refine ⟨hbefore, ?_⟩
        dsimp only
        split
        · exact List.mem_cons_of_mem _ hafter
        · exact hafter
      · cases List.mem_singleton.mp hlast
        obtain ⟨kind, request, htransit, hoffered⟩ := hoffers
        cases htransit
        dsimp only at hoffered ⊢
        rw [if_pos hoffered]
        refine ⟨fun hknown => ?_, List.mem_cons_self⟩
        rw [offer?, if_pos (h.known peer hknown)] at hoffered
        cases hoffered

theorem askAll_asking (f : Fill) (n : Node) (missing : List Address) :
    ∃ new, f.Asking n new (f.askAll n missing) := by
  have hfold : ∀ (peers : List (Address × Nat)) (count : Nat) (g : Fill) (new : List Flight),
      (∀ p ∈ peers, ∃ row ∈ n.table.toList, row.address = p.1 ∧ row.WorksOn f.key) →
      f.Asking n new g →
      ∃ new, f.Asking n new (peers.foldl (fun f p => f.ask n missing count p.2 p.1) g) := by
    intro peers count
    induction peers with
    | nil => exact fun g new _ h => ⟨new, h⟩
    | cons p peers ih =>
      intro g new hworking h
      obtain ⟨hfirst, hrest⟩ := List.forall_mem_cons.mp hworking
      obtain ⟨new', h'⟩ := h.ask missing count p.2 hfirst
      exact ih _ new' hrest h'
  refine hfold _ _ f [] ?_ (.refl f n)
  intro p hp
  obtain ⟨row, hrow, heq⟩ := List.mem_map.mp (List.fst_mem_of_mem_zipIdx hp)
  obtain ⟨hmem, hworks⟩ := List.mem_filter.mp hrow
  exact ⟨row, hmem, heq, of_decide_eq_true hworks⟩

/-- What a batch sends is for the fill's kind and key, with no other offer than the node's own entry. -/
theorem Asking.sends (h : f.Asking n new g) (hasked : f.Asked n g) :
    ∀ flight ∈ new, f.Sends n flight := by
  intro flight hflight
  have hmem : flight ∈ g.flights := by
    rw [h.flights]
    exact List.mem_append_right _ hflight
  rcases hasked.flights flight hmem with hold | hsends
  · have hbusy : f.isBusy flight.peer = true := isBusy_iff.mpr (List.mem_map_of_mem hold)
    rw [h.free flight hflight] at hbusy
    cases hbusy
  · exact hsends

/-- To whom the request is that a step joins, and what came of it. -/
def joining? (f : Fill) (m : Moment) : Option (Address × Landing) :=
  match f.stage with
  | .waiting _ wake =>
    match f.branch? wake m with
    | some (.landing peer landing) => some (peer, landing)
    | _ => none
  | _ => none

/-- Whether the fill may ask at this time. -/
def Due (f : Fill) (now : Nat) : Prop :=
  f.stage = .starting ∨ ∃ missing wake, f.stage = .waiting missing wake ∧ wake ≤ now

/-- The ways in which a step of a fill can go. -/
inductive Goes (m : Moment) (f : Fill) (n : Node) : Fill → Node → Prop
  | idles (alone : f.joining? m = none) : Goes m f n f n
  | stops (alone : f.joining? m = none) (cancelled : f.cancelled = true) (entropy : Entropy) :
      Goes m f n (f.ended .stopped) { n with entropy }
  | completes (alone : f.joining? m = none) (done : f.missing n = []) (entropy : Entropy) :
      Goes m f n (f.ended .complete) { n with entropy }
  | asks (alone : f.joining? m = none) (due : f.Due m.now) (missing : List Address)
      (perm : missing.Perm (f.missing n)) (entropy : Entropy) :
      Goes m f n
        { f.askAll { n with entropy } missing with
          stage := .waiting missing (m.now + n.config.gossip.batch) } { n with entropy }
  | joins {peer : Address} {landing : Landing} {missing : List Address} {wake : Nat}
      (was : f.stage = .waiting missing wake) (joined : f.joining? m = some (peer, landing)) :
      Goes m f n (f.joined peer (f.absorb n m.members peer missing landing).value.1)
        (f.absorb n m.members peer missing landing).value.2
  | joinsLast {peer : Address} {landing : Landing} {missing : List Address} {wake : Nat}
      (was : f.stage = .waiting missing wake) (joined : f.joining? m = some (peer, landing))
      (done : f.missing (f.absorb n m.members peer missing landing).value.2 = []) (entropy : Entropy) :
      Goes m f n
        ((f.joined peer (f.absorb n m.members peer missing landing).value.1).ended .complete)
        { (f.absorb n m.members peer missing landing).value.2 with entropy }

theorem batch_of_done (now : Nat) (done : f.missing n = []) :
    ∃ entropy, (f.batch n now).value =
      (f.ended .complete, { n with entropy }) := by
  refine ⟨(shuffle (f.missing n) n.entropy).2, ?_⟩
  unfold batch
  rw [done]
  rfl

theorem batch_goes (alone : f.joining? m = none) (due : f.Due m.now) :
    Goes m f n (f.batch n m.now).value.1 (f.batch n m.now).value.2 := by
  unfold batch
  split
  next missing entropy hshuffle =>
    have hperm := shuffle_perm (f.missing n) n.entropy
    rw [hshuffle] at hperm
    split
    next hempty =>
      have hnil : missing = [] := List.isEmpty_iff.mp hempty
      rw [hnil] at hperm
      exact .completes alone hperm.symm.eq_nil entropy
    next =>
      split
      next hcancelled => exact .stops alone hcancelled entropy
      next => exact .asks alone due missing hperm entropy

theorem goes_of_joined {wake : Nat} (was : f.stage = .waiting missing wake)
    (joined : f.joining? m = some (peer, landing)) :
    let done := (f.absorb n m.members peer missing landing).value
    let after := (if done.1 && ((f.joined peer done.1).missing done.2).isEmpty then
      (f.joined peer done.1).batch done.2 m.now else pure (f.joined peer done.1, done.2)).value
    Goes m f n after.1 after.2 := by
  dsimp only
  split
  next hdone =>
    have hnil : f.missing (f.absorb n m.members peer missing landing).value.2 = [] :=
      List.isEmpty_iff.mp (Bool.and_eq_true_iff.mp hdone).2
    obtain ⟨entropy, hend⟩ :=
      batch_of_done (f := f.joined peer (f.absorb n m.members peer missing landing).value.1) m.now hnil
    rw [hend]
    exact .joinsLast was joined hnil entropy
  next => exact .joins was joined

theorem step_goes (f : Fill) (n : Node) (m : Moment) :
    Goes m f n (f.step n m).value.1 (f.step n m).value.2 := by
  unfold step
  split
  next hstage => exact batch_goes (by rw [joining?, hstage]) (Or.inl hstage)
  next missing wake hstage =>
    split
    next hbranch =>
      refine .idles ?_
      rw [joining?, hstage]
      simp only [hbranch]
    next hbranch =>
      refine .stops ?_ (permits_of_branch? hbranch) n.entropy
      rw [joining?, hstage]
      simp only [hbranch]
    next peer landing hbranch =>
      have joined : f.joining? m = some (peer, landing) := by
        rw [joining?, hstage]
        simp only [hbranch]
      rw [Noted.value_bind]
      exact goes_of_joined hstage joined
    next hbranch =>
      have alone : f.joining? m = none := by
        rw [joining?, hstage]
        simp only [hbranch]
      exact batch_goes alone (Or.inr ⟨missing, wake, hstage, permits_of_branch? hbranch⟩)
  next hstarting hwaiting =>
    refine .idles ?_
    unfold joining?
    split
    next missing wake hstage => exact absurd hstage (hwaiting missing wake)
    next => rfl

theorem landed_of_joining? (h : f.joining? m = some (peer, landing)) :
    ⟨peer, .landed landing⟩ ∈ f.flights := by
  unfold joining? at h
  split at h
  next missing wake hstage =>
    split at h
    next hbranch =>
      cases h
      exact permits_of_branch? hbranch
    next => cases h
  next => cases h

end Fill

end Adjudication
