import Adjudication.Proofs.FillHistories

namespace Adjudication

namespace FillTurn

variable {t : FillTurn} {ts : List FillTurn} {interval : Nat}

/-- What a turn does, and what it may not do because of the turns before it. -/
structure Disciplined (interval : Nat) (past : List FillTurn) (t : FillTurn) : Prop where
  /-- Busy are the peers with a request that has not been joined, and no others. -/
  busy : t.fill.isEnded = false → ∀ peer, t.fill.isBusy peer = true ↔ Unjoined past peer
  /-- A peer is sent one request at a time. -/
  lone : (t.sent.map (·.peer)).Nodup ∧ ∀ flight ∈ t.sent, ¬ Unjoined past flight.peer
  /-- A request that is joined frees its peer, whatever came of it. -/
  freed : ∀ peer landing, t.joined? = some (peer, landing) →
    t.fill.isBusy peer = true ∧ t.after.isBusy peer = false
  spaced : t.sent ≠ [] → ∀ u ∈ past, u.sent ≠ [] → u.moment.now + interval ≤ t.moment.now
  offered : ∀ flight ∈ t.sent, flight.Offers → ∀ u ∈ past, ∀ earlier ∈ u.sent,
    earlier.peer = flight.peer → ¬ earlier.Offers
  asked : ∀ flight ∈ t.sent, t.Asks flight
  /-- The list that an answer is held against is that of the latest batch. -/
  awaits : ∀ missing wake, t.fill.stage = .waiting missing wake → Awaits past missing wake
  brings : t.node.Gains t.Brings t.nodeAfter
  complete : t.fill.isEnded = false → t.after.isEnded = true → t.fill.cancelled = false →
    ∀ x ∈ t.fill.targets, (t.nodeAfter.cache t.fill.kind).contains t.fill.key x = true
  alike : ∀ u ∈ past,
    u.fill.kind = t.fill.kind ∧ u.fill.key = t.fill.key ∧ u.fill.targets = t.fill.targets

theorem Recorded.disciplined (h : Recorded interval ts t.fill) : Disciplined interval ts t where
  busy := h.busy
  lone := by
    by_cases hsent : t.sent = []
    · rw [hsent]
      exact ⟨List.nodup_nil, fun _ hmem => absurd hmem List.not_mem_nil⟩
    · obtain ⟨missing, hbatches⟩ := batches_of_sent hsent
      refine ⟨hbatches.asking.alone, fun flight hflight hunjoined => ?_⟩
      have hbusy := (h.busy hbatches.running flight.peer).mpr hunjoined
      rw [hbatches.asking.free flight hflight] at hbusy
      cases hbusy
  freed peer landing hjoined := by
    have hjoins : t.Joins peer := ⟨landing, hjoined⟩
    refine ⟨?_, ?_⟩
    · exact Fill.isBusy_iff.mpr (List.mem_map_of_mem (Fill.landed_of_joining? hjoined))
    · rw [Bool.eq_false_iff, ne_eq, Fill.isBusy_iff]
      rcases t.flights_after with hflights | ⟨hnone, -⟩
      · have hsent : t.sent = [] := by
          by_contra hsent
          obtain ⟨missing, hbatches⟩ := batches_of_sent hsent
          cases hbatches.joined.symm.trans hjoined
        rw [hflights, hsent, List.append_nil, mem_left_iff]
        exact fun hboth => hboth.2 hjoins
      · rw [hnone]
        exact List.not_mem_nil
  spaced hsent u hu hearlier := by
    obtain ⟨missing, hbatches⟩ := batches_of_sent hsent
    exact h.spaced hbatches hu hearlier
  offered flight hflight hoffers u hu earlier hearlier hpeer hbefore := by
    obtain ⟨missing, hbatches⟩ := batches_of_sent (List.ne_nil_of_mem hflight)
    have hknown := h.offered u hu earlier hearlier hbefore
    rw [hpeer] at hknown
    exact (hbatches.asking.offers flight hflight hoffers).1 hknown
  asked _ hflight := asks_of_mem_sent hflight
  awaits := h.awaits
  brings := t.gains
  complete := t.contains_of_ends
  alike := h.alike

end FillTurn

namespace Agent

open FillTurn

variable {a : Agent} {m : Moment} {v : Move} {id : Nat} {f f' : Fill}

/-- The turn that a fill takes with a move, if it does. -/
def turn? (a : Agent) (id : Nat) (m : Moment) : Move → Option FillTurn
  | .task (.fill other) => if other = id then (a.fill? id).map fun f => ⟨m, a.node, f⟩ else none
  | _ => none

/-- The turns that a fill takes as the script is run. -/
def turns (a : Agent) (id : Nat) : Script → List FillTurn
  | [] => []
  | (m, v) :: script => (a.turn? id m v).toList ++ (a.act m v).turns id script

theorem turns_snoc (a : Agent) (id : Nat) (script : Script) (m : Moment) (v : Move) :
    a.turns id (script ++ [(m, v)]) = a.turns id script ++ ((a.run script).turn? id m v).toList := by
  induction script generalizing a with
  | nil => simp [turns]
  | cons w script ih =>
    obtain ⟨m', v'⟩ := w
    rw [List.cons_append, turns, turns, ih, run_cons, List.append_assoc]

theorem turn?_eq_some {t : FillTurn} (h : a.turn? id m v = some t) :
    v = .task (.fill id) ∧ a.fill? id = some t.fill ∧ t.moment = m ∧ t.node = a.node := by
  unfold turn? at h
  split at h
  next other =>
    split at h
    next heq =>
      subst heq
      obtain ⟨f, hf, rfl⟩ := Option.map_eq_some_iff.mp h
      exact ⟨rfl, hf, rfl, rfl⟩
    next => cases h
  next => cases h

theorem turn?_of_fill (hf : a.fill? id = some f) :
    a.turn? id m (.task (.fill id)) = some ⟨m, a.node, f⟩ := by
  rw [turn?, if_pos rfl, hf]
  rfl

/-- What the history of a fill says of the agent. -/
structure Follows (interval : Nat) (ts : List FillTurn) (id : Nat) (a : Agent) : Prop where
  config : a.node.config.gossip.batch = interval
  /-- A fill that has taken turns has its number from before. -/
  numbered : ts ≠ [] → id < a.nextFill
  past : ∀ f, a.fill? id = some f → id < a.nextFill ∧ FillTurn.Recorded interval ts f

theorem Follows.act {interval : Nat} {ts : List FillTurn} (h : Follows interval ts id a) (m : Moment)
    (v : Move) : Follows interval (ts ++ (a.turn? id m v).toList) id (a.act m v) := by
  have hnext := nextFill_le_act a m v
  have hconfig : (a.act m v).node.config.gossip.batch = interval := by
    rw [config_act, h.config]
  cases hturn : a.turn? id m v with
  | some t =>
    obtain ⟨rfl, hf, rfl, hnode⟩ := turn?_eq_some hturn
    obtain ⟨hlt, hsteady⟩ := h.past t.fill hf
    have hinterval : t.interval = interval := by rw [FillTurn.interval, hnode, h.config]
    rw [← hinterval] at hsteady
    have hafter := hsteady.turn
    rw [hinterval] at hafter
    refine ⟨hconfig, fun _ => by omega, fun f' hf' => ⟨by omega, ?_⟩⟩
    rcases fill?_act_fill hf' with ⟨-, f, hf₀, hf'⟩ | ⟨hne, -⟩
    · cases hf₀.symm.trans hf
      rw [← hnode] at hf'
      rcases hf' with rfl | rfl
      · exact hafter
      · exact hafter.crashed
    · exact absurd rfl hne
  | none =>
    rw [Option.toList_none, List.append_nil]
    refine ⟨hconfig, fun hne => Nat.lt_of_lt_of_le (h.numbered hne) hnext, fun f' hf' => ?_⟩
    rcases fill_act hf' with ⟨f, hf, hmoved⟩ | ⟨hle, hlt, hfresh⟩
    · obtain ⟨hlt, hsteady⟩ := h.past f hf
      refine ⟨Nat.lt_of_lt_of_le hlt hnext, ?_⟩
      have hother : v ≠ .task (.fill id) := by
        rintro rfl
        rw [turn?_of_fill hf] at hturn
        cases hturn
      cases hmoved with
      | marked => exact hsteady.of_same rfl rfl rfl ⟨rfl, rfl, rfl⟩
      | stepped => exact absurd rfl hother
      | crashed => exact absurd rfl hother
      | carried peer transit =>
        exact hsteady.of_same (Fill.map_peer_carried _ _ _) rfl rfl ⟨rfl, rfl, rfl⟩
    · have hnil : ts = [] := by
        by_contra hne
        have hnumbered := h.numbered hne
        omega
      rw [hnil]
      exact ⟨hlt, .of_fresh hfresh⟩

theorem follows_run (hfills : a.fills = []) (script : Script) (id : Nat) :
    Follows a.node.config.gossip.batch (a.turns id script) id (a.run script) := by
  induction script using List.reverseRecOn with
  | nil =>
    refine ⟨rfl, fun hne => absurd rfl hne, fun f hf => ?_⟩
    rw [run_nil, Exchanger.fill?, hfills] at hf
    cases hf
  | append_singleton script w ih =>
    obtain ⟨m, v⟩ := w
    rw [run_snoc, turns_snoc]
    exact ih.act m v

/-- The peers that a fill treats as busy are at any time those with a request that it has not joined, one
for each; and each of its turns keeps the discipline. -/
theorem disciplined_of_run (hfills : a.fills = []) (script : Script) (id : Nat) :
    (∀ f, (a.run script).fill? id = some f → f.isEnded = false →
      (f.flights.map (·.peer)).Nodup ∧
        ∀ peer, f.isBusy peer = true ↔ Unjoined (a.turns id script) peer) ∧
    ∀ past t later, a.turns id script = past ++ t :: later →
      t.Disciplined a.node.config.gossip.batch past := by
  refine ⟨fun f hf hrunning => ?_, ?_⟩
  · have hsteady := ((follows_run hfills script id).past f hf).2
    exact ⟨f.single, hsteady.busy hrunning⟩
  · induction script using List.reverseRecOn with
    | nil =>
      intro past t later hsplit
      simp [turns] at hsplit
    | append_singleton script w ih =>
      obtain ⟨m, v⟩ := w
      intro past t later hsplit
      rw [turns_snoc] at hsplit
      cases hturn : (a.run script).turn? id m v with
      | none =>
        rw [hturn, Option.toList_none, List.append_nil] at hsplit
        exact ih past t later hsplit
      | some t' =>
        rw [hturn, Option.toList_some] at hsplit
        rcases split_snoc hsplit with ⟨hpast, rfl, -⟩ | ⟨later', -, hold⟩
        · obtain ⟨-, hf, -, -⟩ := turn?_eq_some hturn
          rw [← hpast]
          exact ((follows_run hfills script id).past t'.fill hf).2.disciplined
        · exact ih past t later' hold

end Agent

namespace CrashedRequest

open TwoFaced

def contribution : AddressedEntry := .plain .contribution ⟨1, 0⟩ "p" "p"

/-- A fill asks a peer, whose request crashes; it asks again an interval later, and is answered. -/
def retried : Script := opening "a" ++ [
  (moment 0, .task (.round 0)),
  (moment 0, .startFill .contribution ⟨1, 0⟩ ["a", "p"]),
  (moment 0, .task (.fill 1)),
  (moment 4, .carried 1 "p" (.landed .crashed)),
  (moment 4, .task (.fill 1)),
  (moment 10, .task (.fill 1)),
  (moment 12, .carried 1 "p" (.landed (.answered (.ok (.gossip (.entry contribution)))))),
  (moment 12, .task (.fill 1))]

/-- Of each turn: when it is taken, whose request it joins, and to whom it sends one, with an offer or
without. -/
def summary (t : FillTurn) : Nat × Option Address × List (Address × Bool) :=
  (t.moment.now, t.joined?.map (·.1), t.sent.map fun flight => (flight.peer,
    match flight.transit with
    | .departing (.gossip _ request) => request.offered.isSome
    | _ => false))

theorem retried_disciplined :
    ((Agent.plain "a").turns 1 retried).map summary =
      [(0, none, [("p", true)]), (4, some "p", []), (10, none, [("p", false)]), (12, some "p", [])] ∧
    (((Agent.plain "a").run retried).fill? 1).any
      (fun f => match f.stage with | .complete => true | _ => false) = true ∧
    (Agent.plain "a").fills = [] ∧
    ∀ past t later, (Agent.plain "a").turns 1 retried = past ++ t :: later → t.Disciplined 10 past := by
  have hfills : (Agent.plain "a").fills = [] := rfl
  refine ⟨by decide +kernel, by decide +kernel, hfills, ?_⟩
  exact (Agent.disciplined_of_run hfills retried 1).2

end CrashedRequest

end Adjudication
