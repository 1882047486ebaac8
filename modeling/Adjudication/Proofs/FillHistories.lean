import Adjudication.Proofs.FillBatches
import Adjudication.Proofs.RoundStrides

namespace Adjudication

/-- A step of a fill: when it is taken, and the node and the fill before it. -/
structure FillTurn where
  moment : Moment
  node : Node
  fill : Fill

namespace FillTurn

variable {t u : FillTurn} {ts : List FillTurn} {peer : Address} {landing : Landing}
  {missing : List Address}

def after (t : FillTurn) : Fill := (t.fill.step t.node t.moment).value.1

def nodeAfter (t : FillTurn) : Node := (t.fill.step t.node t.moment).value.2

/-- To whom the request is that the turn joins, and what came of it. -/
def joined? (t : FillTurn) : Option (Address × Landing) := t.fill.joining? t.moment

/-- The requests under way that the turn does not join. -/
def left (t : FillTurn) : List Flight :=
  match t.joined? with
  | none => t.fill.flights
  | some (peer, _) => t.fill.flights.filter fun flight => flight.peer ≠ peer

/-- The requests that the turn sends. -/
def sent (t : FillTurn) : List Flight := t.after.flights.drop t.left.length

def Joins (t : FillTurn) (peer : Address) : Prop := ∃ landing, t.joined? = some (peer, landing)

/-- The time between two batches. -/
def interval (t : FillTurn) : Nat := t.node.config.gossip.batch

theorem goes (t : FillTurn) : t.fill.Goes t.moment t.node t.after t.nodeAfter := t.fill.step_goes _ _

theorem left_of_alone (h : t.joined? = none) : t.left = t.fill.flights := by
  rw [left, h]

theorem left_of_joined (h : t.joined? = some (peer, landing)) (isNew : Bool) :
    t.left = (t.fill.joined peer isNew).flights := by
  rw [left, h]
  rfl

/-- A turn that starts a batch. -/
structure Batches (t : FillTurn) (missing : List Address) : Prop where
  joined : t.joined? = none
  due : t.fill.Due t.moment.now
  stage : t.after.stage = .waiting missing (t.moment.now + t.interval)
  perm : missing.Perm (t.fill.missing t.node)
  asking : t.fill.Asking t.node t.sent t.after
  sends : ∀ flight ∈ t.sent, t.fill.Sends t.node flight

/-- A turn that sends nothing, and lets the fill go on or ends it. -/
structure Rests (t : FillTurn) : Prop where
  sent : t.sent = []
  offeredTo : t.after.offeredTo = t.fill.offeredTo
  stage : t.after.stage = t.fill.stage ∨ t.after.isEnded = true

theorem sent_eq_nil (h : t.after.flights.length ≤ t.left.length) : t.sent = [] :=
  List.drop_eq_nil_of_le h

theorem turn_cases (t : FillTurn) : (∃ missing, t.Batches missing) ∨ t.Rests := by
  have hgoes := t.goes
  generalize hafter : t.after = g at hgoes
  generalize t.nodeAfter = n' at hgoes
  cases hgoes with
  | idles alone =>
    refine Or.inr ⟨sent_eq_nil ?_, by rw [hafter], Or.inl (by rw [hafter])⟩
    rw [hafter, left_of_alone alone]
  | stops alone cancelled entropy =>
    refine Or.inr ⟨sent_eq_nil ?_, by rw [hafter]; rfl, Or.inr (by rw [hafter]; rfl)⟩
    rw [hafter]
    exact Nat.zero_le _
  | completes alone done entropy =>
    refine Or.inr ⟨sent_eq_nil ?_, by rw [hafter]; rfl, Or.inr (by rw [hafter]; rfl)⟩
    rw [hafter]
    exact Nat.zero_le _
  | asks alone due missing perm entropy =>
    have hleft := left_of_alone alone
    obtain ⟨new, hasking⟩ := t.fill.askAll_asking { t.node with entropy } missing
    have hsends := hasking.sends (t.fill.askAll_asked _ missing)
    have hflights : t.after.flights = t.fill.flights ++ new := by
      rw [hafter]
      exact hasking.flights
    have hsent : t.sent = new := by
      rw [sent, hleft, hflights, List.drop_left]
    refine Or.inl ⟨missing, alone, due, by rw [hafter]; rfl, perm, ?_, hsent ▸ hsends⟩
    rw [hsent, hafter]
    exact ⟨hasking.flights, hasking.alone, hasking.free, hasking.working, hasking.known, hasking.offers⟩
  | joins was joined =>
    refine Or.inr ⟨sent_eq_nil ?_, by rw [hafter]; rfl, Or.inl (by rw [hafter]; rfl)⟩
    rw [hafter, left_of_joined joined]
  | joinsLast was joined done entropy =>
    refine Or.inr ⟨sent_eq_nil ?_, by rw [hafter]; rfl, Or.inr (by rw [hafter]; rfl)⟩
    rw [hafter]
    exact Nat.zero_le _

/-- After a turn those requests are under way that it has left or sent, or none if it has ended the
fill. -/
theorem flights_after (t : FillTurn) :
    t.after.flights = t.left ++ t.sent ∨ t.after.flights = [] ∧ t.after.isEnded = true := by
  have hextends : t.left <+: t.after.flights → t.after.flights = t.left ++ t.sent := by
    rintro ⟨new, hnew⟩
    rw [sent, ← hnew, List.drop_left]
  have hgoes := t.goes
  generalize hafter : t.after = g at hgoes hextends ⊢
  generalize t.nodeAfter = n' at hgoes
  cases hgoes with
  | idles alone =>
    refine Or.inl (hextends ?_)
    rw [left_of_alone alone]
  | stops => exact Or.inr ⟨rfl, rfl⟩
  | completes => exact Or.inr ⟨rfl, rfl⟩
  | asks alone due missing perm entropy =>
    obtain ⟨new, hasking⟩ := t.fill.askAll_asking { t.node with entropy } missing
    refine Or.inl (hextends ⟨new, ?_⟩)
    rw [left_of_alone alone]
    exact hasking.flights.symm
  | joins was joined =>
    refine Or.inl (hextends ?_)
    rw [left_of_joined joined]
  | joinsLast => exact Or.inr ⟨rfl, rfl⟩

/-- Of the requests under way a turn leaves all but the one that it joins. -/
theorem mem_left_iff : peer ∈ t.left.map (·.peer) ↔ t.fill.isBusy peer = true ∧ ¬ t.Joins peer := by
  rw [Fill.isBusy_iff]
  cases hjoined : t.joined? with
  | none =>
    have hnone : ¬ t.Joins peer := by
      rintro ⟨landing, hjoins⟩
      cases hjoined.symm.trans hjoins
    rw [left_of_alone hjoined]
    exact ⟨fun hmem => ⟨hmem, hnone⟩, fun hboth => hboth.1⟩
  | some found =>
    obtain ⟨other, landing⟩ := found
    have hjoins : t.Joins peer ↔ peer = other := by
      constructor
      · rintro ⟨landing', hjoined'⟩
        cases hjoined.symm.trans hjoined'
        rfl
      · rintro rfl
        exact ⟨landing, hjoined⟩
    rw [hjoins, left, hjoined]
    constructor
    · intro hmem
      obtain ⟨flight, hflight, rfl⟩ := List.mem_map.mp hmem
      obtain ⟨hmem, hne⟩ := List.mem_filter.mp hflight
      exact ⟨List.mem_map_of_mem hmem, of_decide_eq_true hne⟩
    · rintro ⟨hmem, hne⟩
      obtain ⟨flight, hflight, rfl⟩ := List.mem_map.mp hmem
      exact List.mem_map_of_mem (List.mem_filter.mpr ⟨hflight, decide_eq_true hne⟩)

/-- A turn that sends starts a batch. -/
theorem batches_of_sent (h : t.sent ≠ []) : ∃ missing, t.Batches missing := by
  rcases t.turn_cases with hbatches | hrests
  · exact hbatches
  · exact absurd hrests.sent h

/-- Whom a turn may ask, and with what: only peers that have reported to work on the fill's round, for that
round, and with no other offer than the node's own entry. -/
def Asks (t : FillTurn) (flight : Flight) : Prop :=
  (∃ row ∈ t.node.table.toList, row.address = flight.peer ∧ row.WorksOn t.fill.key) ∧
    t.fill.Sends t.node flight

theorem asks_of_mem_sent {flight : Flight} (h : flight ∈ t.sent) : t.Asks flight := by
  obtain ⟨missing, hbatches⟩ := batches_of_sent (List.ne_nil_of_mem h)
  exact ⟨hbatches.asking.working flight h, hbatches.sends flight h⟩

/-- What a turn may bring the caches: the entry in the answer that it joins, if its address is on the list
of the batch and admission inserts it. -/
def Brings (t : FillTurn) (kind : EntryKind) (k : RoundKey) (x : Address) (e : SignedEntry) : Prop :=
  ∃ missing wake peer landing, t.fill.stage = .waiting missing wake ∧
    t.joined? = some (peer, landing) ∧
    t.fill.Merges t.node t.moment.members peer missing landing kind k x e

theorem gains (t : FillTurn) : t.node.Gains t.Brings t.nodeAfter := by
  have hjoins : ∀ {peer landing missing wake}, t.fill.stage = .waiting missing wake →
      t.joined? = some (peer, landing) →
      t.node.Gains t.Brings (t.fill.absorb t.node t.moment.members peer missing landing).value.2 := by
    intro peer landing missing wake was joined
    refine (t.fill.absorb_merges t.node t.moment.members peer missing landing).mono ?_
    intro kind k x e hmerges
    exact ⟨missing, wake, peer, landing, was, joined, hmerges⟩
  have hgoes := t.goes
  generalize t.after = g at hgoes
  generalize t.nodeAfter = n' at hgoes ⊢
  cases hgoes with
  | idles => exact .of_caches rfl
  | stops => exact .of_caches rfl
  | completes => exact .of_caches rfl
  | asks => exact .of_caches rfl
  | joins was joined => exact hjoins was joined
  | joinsLast was joined done entropy => exact (hjoins was joined).trans (.of_caches rfl)

/-- A turn that ends a fill that was not cancelled leaves no target without an entry. -/
theorem contains_of_ends (hrunning : t.fill.isEnded = false) (hends : t.after.isEnded = true)
    (hkept : t.fill.cancelled = false) : ∀ x ∈ t.fill.targets,
      (t.nodeAfter.cache t.fill.kind).contains t.fill.key x = true := by
  have hdone : ∀ {n : Node}, t.fill.missing n = [] → ∀ x ∈ t.fill.targets,
      (n.cache t.fill.kind).contains t.fill.key x = true := by
    intro n hnil x hx
    have hpresent := List.filter_eq_nil_iff.mp hnil x hx
    simpa using hpresent
  have hgoes := t.goes
  generalize t.after = g at hgoes hends
  generalize t.nodeAfter = n' at hgoes ⊢
  cases hgoes with
  | idles =>
    rw [hrunning] at hends
    cases hends
  | stops alone cancelled entropy =>
    rw [hkept] at cancelled
    cases cancelled
  | completes alone done entropy => exact hdone done
  | asks => cases hends
  | joins was joined =>
    have hsame : t.fill.isEnded = true := hends
    rw [hrunning] at hsame
    cases hsame
  | joinsLast was joined done entropy => exact hdone done

/-- A request to the peer has been sent, and not been joined since. -/
def Unjoined (ts : List FillTurn) (peer : Address) : Prop :=
  ∃ before t later, ts = before ++ t :: later ∧ peer ∈ t.sent.map (·.peer) ∧ ∀ u ∈ later, ¬ u.Joins peer

/-- The latest batch was for `missing`, and the next is due at `wake`. -/
def Awaits (ts : List FillTurn) (missing : List Address) (wake : Nat) : Prop :=
  ∃ before t later, ts = before ++ t :: later ∧ t.Batches missing ∧ wake = t.moment.now + t.interval ∧
    ∀ u ∈ later, ∀ missing', ¬ u.Batches missing'

theorem mem_snoc (h : u ∈ ts ++ [t]) : u ∈ ts ∨ u = t :=
  (List.mem_append.mp h).imp_right List.mem_singleton.mp

theorem unjoined_snoc : Unjoined (ts ++ [t]) peer ↔
    peer ∈ t.sent.map (·.peer) ∨ Unjoined ts peer ∧ ¬ t.Joins peer := by
  constructor
  · rintro ⟨before, u, later, hts, hsent, hlater⟩
    rcases split_snoc hts with ⟨-, rfl, -⟩ | ⟨rest, rfl, hold⟩
    · exact Or.inl hsent
    · refine Or.inr ⟨⟨before, u, rest, hold, hsent, ?_⟩, hlater t (by simp)⟩
      exact fun w hw => hlater w (List.mem_append_left _ hw)
  · rintro (hsent | ⟨⟨before, u, later, rfl, hsent, hlater⟩, hlast⟩)
    · exact ⟨ts, t, [], rfl, hsent, fun _ h => absurd h List.not_mem_nil⟩
    · refine ⟨before, u, later ++ [t], by simp, hsent, ?_⟩
      intro w hw
      rcases mem_snoc hw with hold | rfl
      · exact hlater w hold
      · exact hlast

theorem not_unjoined_nil (peer : Address) : ¬ Unjoined [] peer := by
  rintro ⟨before, t, later, hts, -⟩
  simp at hts

theorem Awaits.snoc {missing : List Address} {wake : Nat} (h : Awaits ts missing wake)
    (ht : ∀ missing', ¬ t.Batches missing') : Awaits (ts ++ [t]) missing wake := by
  obtain ⟨before, u, later, rfl, hbatches, hwake, hlater⟩ := h
  refine ⟨before, u, later ++ [t], by simp, hbatches, hwake, ?_⟩
  intro w hw
  rcases mem_snoc hw with hold | rfl
  · exact hlater w hold
  · exact ht

/-- What the history of a fill says of it now. -/
structure Recorded (interval : Nat) (ts : List FillTurn) (f : Fill) : Prop where
  busy : f.isEnded = false → ∀ peer, f.isBusy peer = true ↔ Unjoined ts peer
  awaits : ∀ missing wake, f.stage = .waiting missing wake → Awaits ts missing wake
  waits : f.isEnded = false → ∀ t ∈ ts, t.sent ≠ [] →
    ∃ missing wake, f.stage = .waiting missing wake ∧ t.moment.now + interval ≤ wake
  offered : ∀ t ∈ ts, ∀ flight ∈ t.sent, flight.Offers → flight.peer ∈ f.offeredTo
  alike : ∀ t ∈ ts, t.fill.kind = f.kind ∧ t.fill.key = f.key ∧ t.fill.targets = f.targets

variable {interval : Nat} {f f' : Fill}

theorem Batches.running (h : t.Batches missing) : t.fill.isEnded = false := by
  rcases h.due with hstage | ⟨missing, wake, hstage, -⟩
  · rw [Fill.isEnded, hstage]
    rfl
  · rw [Fill.isEnded, hstage]
    rfl

theorem running_of_after (h : t.after.isEnded = false) : t.fill.isEnded = false := by
  cases hended : t.fill.isEnded with
  | false => rfl
  | true =>
    have hsame : t.after = t.fill := Fill.step_of_isEnded hended t.node t.moment
    rw [hsame, hended] at h
    cases h

theorem interval_pos (t : FillTurn) : 0 < t.interval :=
  Nat.lt_of_lt_of_le Nat.zero_lt_one (Nat.le_max_right _ _)

/-- A batch moves the time to wake, since the next is not due at once. -/
theorem Rests.not_batches (h : t.Rests) (missing : List Address) : ¬ t.Batches missing := by
  intro hbatches
  have hstage := hbatches.stage
  rcases h.stage with hsame | hends
  · rw [hsame] at hstage
    rcases hbatches.due with hstarting | ⟨missing', wake, hwaiting, hwake⟩
    · cases hstarting.symm.trans hstage
    · -- the fill would wait until the time at which it wakes
      cases hwaiting.symm.trans hstage
      have hpos := t.interval_pos
      omega
  · rw [Fill.isEnded, hstage] at hends
    cases hends

theorem alike_after (t : FillTurn) :
    t.after.kind = t.fill.kind ∧ t.after.key = t.fill.key ∧ t.after.targets = t.fill.targets := by
  have hasked := (t.fill.step_asked_gains t.node t.moment).1
  exact ⟨hasked.kind, hasked.key, t.fill.step_targets t.node t.moment⟩

namespace Recorded

/-- A batch is an interval later than all before it. -/
theorem spaced (h : Recorded interval ts t.fill) (hbatches : t.Batches missing) (hu : u ∈ ts)
    (hsent : u.sent ≠ []) : u.moment.now + interval ≤ t.moment.now := by
  obtain ⟨missing', wake, hstage, hwake⟩ := h.waits hbatches.running u hu hsent
  rcases hbatches.due with hstarting | ⟨missing'', wake', hwaiting, hdue⟩
  · cases hstarting.symm.trans hstage
  · cases hwaiting.symm.trans hstage
    omega

/-- What a turn joins it frees, and what it sends makes busy, as in the history. -/
theorem busy_after (h : Recorded interval ts t.fill) (hrunning : t.after.isEnded = false) :
    t.after.isBusy peer = true ↔ Unjoined (ts ++ [t]) peer := by
  rcases t.flights_after with hflights | ⟨-, hends⟩
  · rw [Fill.isBusy_iff, hflights, List.map_append, List.mem_append, mem_left_iff,
      h.busy (running_of_after hrunning), unjoined_snoc, or_comm]
  · rw [hrunning] at hends
    cases hends

theorem awaits_after {wake : Nat} (h : Recorded interval ts t.fill)
    (hstage : t.after.stage = .waiting missing wake) : Awaits (ts ++ [t]) missing wake := by
  rcases t.turn_cases with ⟨missing', hbatches⟩ | hrests
  · cases hbatches.stage.symm.trans hstage
    exact ⟨ts, t, [], rfl, hbatches, rfl, fun _ hu => absurd hu List.not_mem_nil⟩
  · rcases hrests.stage with hsame | hends
    · exact (h.awaits missing wake (hsame.symm.trans hstage)).snoc hrests.not_batches
    · rw [Fill.isEnded, hstage] at hends
      cases hends

theorem waits_after (h : Recorded t.interval ts t.fill) (hrunning : t.after.isEnded = false)
    (hu : u ∈ ts ++ [t]) (hsent : u.sent ≠ []) :
    ∃ missing wake, t.after.stage = .waiting missing wake ∧ u.moment.now + t.interval ≤ wake := by
  rcases t.turn_cases with ⟨missing, hbatches⟩ | hrests
  · refine ⟨missing, _, hbatches.stage, ?_⟩
    rcases mem_snoc hu with hpast | rfl
    · have hspaced := h.spaced hbatches hpast hsent
      omega
    · exact Nat.le_refl _
  · rcases mem_snoc hu with hpast | rfl
    · obtain ⟨missing, wake, hstage, hwake⟩ := h.waits (running_of_after hrunning) u hpast hsent
      rcases hrests.stage with hsame | hends
      · exact ⟨missing, wake, hsame.trans hstage, hwake⟩
      · rw [hrunning] at hends
        cases hends
    · exact absurd hrests.sent hsent

theorem offered_after {flight : Flight} (h : Recorded interval ts t.fill) (hu : u ∈ ts ++ [t])
    (hflight : flight ∈ u.sent) (hoffers : flight.Offers) : flight.peer ∈ t.after.offeredTo := by
  rcases t.turn_cases with ⟨missing, hbatches⟩ | hrests
  · rcases mem_snoc hu with hpast | rfl
    · exact hbatches.asking.known _ (h.offered u hpast flight hflight hoffers)
    · exact (hbatches.asking.offers flight hflight hoffers).2
  · rw [hrests.offeredTo]
    rcases mem_snoc hu with hpast | rfl
    · exact h.offered u hpast flight hflight hoffers
    · exact absurd hrests.sent (List.ne_nil_of_mem hflight)

/-- The history says of the fill after a turn what it said before, with the turn. -/
theorem turn (h : Recorded t.interval ts t.fill) : Recorded t.interval (ts ++ [t]) t.after where
  busy hrunning _ := h.busy_after hrunning
  awaits _ _ hstage := h.awaits_after hstage
  waits hrunning _ hu hsent := h.waits_after hrunning hu hsent
  offered _ hu _ hflight hoffers := h.offered_after hu hflight hoffers
  alike u hu := by
    obtain ⟨hkind, hkey, htargets⟩ := t.alike_after
    rw [hkind, hkey, htargets]
    rcases mem_snoc hu with hpast | rfl
    · exact h.alike u hpast
    · exact ⟨rfl, rfl, rfl⟩

/-- What a fill does not learn by itself: that it is cancelled, and how far its requests are. -/
theorem of_same (h : Recorded interval ts f)
    (hpeers : f'.flights.map (·.peer) = f.flights.map (·.peer)) (hstage : f'.stage = f.stage)
    (hoffered : f'.offeredTo = f.offeredTo)
    (halike : f'.kind = f.kind ∧ f'.key = f.key ∧ f'.targets = f.targets) : Recorded interval ts f' where
  busy hrunning peer := by
    rw [Fill.isEnded, hstage] at hrunning
    rw [Fill.isBusy_iff, hpeers, ← Fill.isBusy_iff]
    exact h.busy hrunning peer
  awaits := by
    rw [hstage]
    exact h.awaits
  waits := by
    rw [Fill.isEnded, hstage]
    exact h.waits
  offered := by
    rw [hoffered]
    exact h.offered
  alike := by
    rw [halike.1, halike.2.1, halike.2.2]
    exact h.alike

/-- Whatever ends a fill in the midst of its turn leaves no requests. -/
theorem crashed (h : Recorded interval ts f) :
    Recorded interval ts (f.ended .crashed) where
  busy hrunning := by cases hrunning
  awaits _ _ hstage := by cases hstage
  waits hrunning := by cases hrunning
  offered := h.offered
  alike := h.alike

theorem of_fresh (h : f.Fresh) : Recorded interval [] f := by
  obtain ⟨kind, key, targets, cancelled, held, rfl⟩ := h
  constructor
  case busy =>
    intro _ peer
    exact iff_of_false Bool.false_ne_true (not_unjoined_nil peer)
  case awaits =>
    intro missing wake hstage
    cases hstage
  case waits => exact fun _ _ hu => absurd hu List.not_mem_nil
  case offered => exact fun _ hu => absurd hu List.not_mem_nil
  case alike => exact fun _ hu => absurd hu List.not_mem_nil

end Recorded

end FillTurn

end Adjudication
