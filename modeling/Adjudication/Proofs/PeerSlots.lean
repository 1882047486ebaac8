import Adjudication.Proofs.Eviction
import Adjudication.Proofs.HeartbeatLoops
import Adjudication.Proofs.RoundStrides

namespace Adjudication

namespace Assoc

variable {κ ν ω : Type} [DecidableEq κ] {k : κ}

theorem keys_erase (k : κ) (xs : List (κ × ν)) : keys (erase k xs) = (keys xs).filter (· ≠ k) := by
  rw [keys, keys, erase, List.filter_map]
  rfl

variable [LT κ] [DecidableLT κ]

theorem length_insert_le (k : κ) (v : ν) (xs : List (κ × ν)) :
    (insert k v xs).length ≤ xs.length + 1 := by
  fun_induction insert k v xs with
  | case1 => simp
  | case2 => simp
  | case3 => simp
  | case4 k' v' xs _ _ ih => simpa using ih

/-- Where a key goes depends on the other keys only. -/
theorem keys_insert_congr {xs : List (κ × ν)} {ys : List (κ × ω)} (h : keys xs = keys ys) (k : κ) (v : ν)
    (w : ω) : keys (insert k v xs) = keys (insert k w ys) := by
  induction xs generalizing ys with
  | nil =>
    rw [List.map_eq_nil_iff.mp h.symm]
    rfl
  | cons x xs ih =>
    cases ys with
    | nil => cases h
    | cons y ys =>
      obtain ⟨k₁, v₁⟩ := x
      obtain ⟨k₂, w₂⟩ := y
      obtain ⟨hhead, htail⟩ := List.cons.inj h
      have hhead : k₁ = k₂ := hhead
      subst hhead
      simp only [insert]
      split
      next => exact congrArg (k :: ·) htail
      next =>
        split
        next => exact congrArg (k :: ·) h
        next => exact congrArg (k₁ :: ·) (ih htail)

theorem keys_insert_of_mem [Std.Asymm (α := κ) (· < ·)] {xs : List (κ × ν)}
    (h : (keys xs).Pairwise (· < ·)) (hk : k ∈ keys xs) (v : ν) : keys (insert k v xs) = keys xs := by
  induction xs with
  | nil => cases hk
  | cons x xs ih =>
    obtain ⟨hfirst, hrest⟩ := List.pairwise_cons.mp h
    obtain ⟨k', v'⟩ := x
    simp only [insert]
    split
    next heq =>
      subst heq
      rfl
    next hne =>
      have hmem : k ∈ keys xs := (List.mem_cons.mp hk).resolve_left hne
      split
      next hlt => exact absurd hlt (Std.Asymm.asymm _ _ (hfirst k hmem))
      next => exact congrArg (k' :: ·) (ih hrest hmem)

end Assoc

namespace PeerTable

variable {table : PeerTable} {peer : Address}

/-- A report gives no one a row. -/
theorem addresses_record (table : PeerTable) (peer : Address) (height phase : Nat) (finalized : Bool)
    (now : Nat) :
    (table.record peer height phase finalized now).addresses = table.addresses := by
  unfold record
  split
  next => rfl
  next row hrow =>
    have hmem : row.address ∈ table.addresses := by
      rw [address_of_get? hrow]
      exact Assoc.get?_isSome_iff.mp (Option.isSome_of_eq_some hrow)
    exact Assoc.keys_insert_of_mem table.ascending.keys_pairwise hmem _

theorem get?_isSome_iff : (table.get? peer).isSome ↔ peer ∈ table.addresses := Assoc.get?_isSome_iff

theorem size_eq (table : PeerTable) : table.size = table.addresses.length := (List.length_map _).symm

end PeerTable

/-- Moves that shut down. -/
def Move.Closes : Move → Prop
  | .shutDown | .cancelAll => True
  | _ => False

namespace Agent

variable {a b : Agent} {m : Moment} {v : Move} {peer x : Address} {script : Script}

theorem addresses_act (h : ¬ v.IsPeering) (a : Agent) (m : Moment) :
    (a.act m v).node.table.addresses = a.node.table.addresses := by
  cases hp : a.presented? m v with
  | some p =>
    obtain ⟨⟨entropy, hnode⟩, _, _⟩ := act_presented hp
    rw [hnode]
    have hpresented := presented_now hp
    cases hadmits : a.node.replay.admits a.node.verifier p with
    | false =>
      rw [hpresented] at hadmits
      obtain ⟨e, _, hobserved, _⟩ := Node.observe_of_refused hadmits
      rw [hobserved]
    | true =>
      rw [hpresented] at hadmits
      show (a.node.observe m p.expected p.attestation).value.2.table.addresses = _
      rw [Node.observe_of_admitted hadmits]
      exact PeerTable.addresses_record _ _ _ _ _ _
  | none =>
    rcases act_of_not_presented hp with hsame | ⟨peer, rfl | rfl, _⟩
    · rw [hsame.table]
    · exact absurd trivial h
    · exact absurd trivial h

theorem config_run (a : Agent) (script : Script) : (a.run script).node.config = a.node.config := by
  induction script using List.reverseRecOn with
  | nil => rfl
  | append_singleton script u ih =>
    rw [run_snoc, config_act]
    exact ih

/-- The agent connects to the peer, or would at this point. -/
def Admits (a : Agent) (peer : Address) : Prop :=
  peer ≠ a.address ∧ ((a.node.table.get? peer).isSome ∨ a.node.table.size < a.node.config.maxPeers)

theorem connect_of_admits (h : a.Admits peer) :
    (a.connect peer).value = (.ok (), (a.track peer).value) := by
  obtain ⟨hother, hroom⟩ := h
  have hlimit : ¬ ((a.node.table.get? peer).isNone && decide (a.node.config.maxPeers ≤ a.node.table.size)) =
      true := by
    rcases hroom with hknown | hroom
    · simp [Option.isNone_eq_false_iff.mpr hknown]
    · simp [Nat.not_le.mpr hroom]
  unfold connect
  dsimp only
  rw [if_neg hother, if_neg hlimit]
  rfl

theorem connect_of_not_admits (h : ¬ a.Admits peer) :
    (∃ e, (a.connect peer).value.1 = .error e) ∧ (a.connect peer).value.2 = a := by
  unfold connect
  dsimp only
  split
  next => exact ⟨⟨_, rfl⟩, rfl⟩
  next hother =>
    split
    next => exact ⟨⟨_, rfl⟩, rfl⟩
    next hlimit =>
      refine absurd ⟨hother, ?_⟩ h
      cases hrow : a.node.table.get? peer with
      | some row => exact Or.inl rfl
      | none =>
        refine Or.inr (Nat.lt_of_not_le fun hfull => hlimit ?_)
        simp [hrow, hfull]

/-- The loops, with the one of this number cancelled. -/
def cancelLoop (loop : Option Nat) (heartbeats : List (Nat × Heartbeat)) : List (Nat × Heartbeat) :=
  heartbeats.map fun b => if loop = some b.1 then (b.1, { b.2 with cancelled := true }) else b

theorem cancelled_fst (loop : Option Nat) (b : Nat × Heartbeat) :
    (if loop = some b.1 then (b.1, { b.2 with cancelled := true }) else b).1 = b.1 := by
  split <;> rfl

theorem keys_cancelLoop (loop : Option Nat) (heartbeats : List (Nat × Heartbeat)) :
    Assoc.keys (cancelLoop loop heartbeats) = Assoc.keys heartbeats :=
  Assoc.keys_map (cancelled_fst loop) heartbeats

theorem get?_cancelLoop (loop : Option Nat) (heartbeats : List (Nat × Heartbeat)) (id : Nat) :
    Assoc.get? id (cancelLoop loop heartbeats) = (Assoc.get? id heartbeats).map fun beat =>
      if loop = some id then { beat with cancelled := true } else beat := by
  rw [cancelLoop, Assoc.get?_map (cancelled_fst loop)]
  congr 1
  funext beat
  split <;> rfl

theorem heartbeats_track (a : Agent) (peer : Address) : (a.track peer).value.heartbeats =
    cancelLoop (Assoc.get? peer a.loops) a.heartbeats ++
      [(a.nextLoop, { peer, cancelled := a.stopped })] := rfl

theorem heartbeats_disconnect (a : Agent) (peer : Address) : (a.disconnect peer).value.2.heartbeats =
    cancelLoop (Assoc.get? peer a.loops) a.heartbeats := rfl

/-- What connecting and disconnecting make of an agent, before it heeds what it has to report. -/
theorem peering_cases (a : Agent) (hpeering : v.IsPeering) (hopen : ¬ v.Closes) (m : Moment) :
    ∃ b heard, a.act m v = b.heed heard ∧
      (b = a ∨ (∃ peer, a.Admits peer ∧ b = (a.track peer).value) ∨
        ∃ peer, b = (a.disconnect peer).value.2) := by
  cases v with
  | connect peer =>
    refine ⟨(a.connect peer).value.2, _, rfl, ?_⟩
    by_cases hadmits : a.Admits peer
    · rw [connect_of_admits hadmits]
      exact Or.inr (Or.inl ⟨peer, hadmits, rfl⟩)
    · exact Or.inl (connect_of_not_admits hadmits).2
  | disconnect peer => exact ⟨_, _, rfl, Or.inr (Or.inr ⟨peer, rfl⟩)⟩
  | shutDown => exact absurd trivial hopen
  | cancelAll => exact absurd trivial hopen
  | _ => exact hpeering.elim

/-- The rows and the kept loops are for the same peers, and a loop is not cancelled just if it is kept for
its peer. -/
structure InStep (a : Agent) : Prop where
  opened : a.stopped = false
  loops : Assoc.keys a.loops = a.node.table.addresses
  size : a.node.table.size ≤ a.node.config.maxPeers
  own : a.node.table.get? a.address = none
  ascending : (Assoc.keys a.heartbeats).Pairwise (· < ·)
  kept : ∀ id beat, Assoc.get? id a.heartbeats = some beat →
    id < a.nextLoop ∧ (beat.cancelled = false ↔ Assoc.get? beat.peer a.loops = some id)
  peers : ∀ x id, Assoc.get? x a.loops = some id →
    id < a.nextLoop ∧ ∀ beat, Assoc.get? id a.heartbeats = some beat → beat.peer = x

/-- Nobody has been connected yet. -/
structure Unconnected (a : Agent) : Prop where
  opened : a.stopped = false
  table : a.node.table = .empty
  loops : a.loops = []
  heartbeats : a.heartbeats = []

theorem fresh_unconnected (signer : Signer) (verifier : Verifier) (config : NodeConfig)
    (position : Position) (entropy : Entropy) (reporter : Reporter) (appState : AppState) :
    (fresh signer verifier config position entropy reporter appState).Unconnected := ⟨rfl, rfl, rfl, rfl⟩

theorem Unconnected.inStep (h : a.Unconnected) : a.InStep where
  opened := h.opened
  loops := by
    rw [h.loops, PeerTable.addresses, h.table]
    rfl
  size := by
    rw [h.table]
    exact Nat.zero_le _
  own := by
    rw [h.table]
    rfl
  ascending := by simp [h.heartbeats, Assoc.keys]
  kept id beat hbeat := by
    rw [h.heartbeats] at hbeat
    cases hbeat
  peers x id hx := by
    rw [h.loops] at hx
    cases hx

theorem InStep.of_keeps {falls : Nat → Prop} (h : a.InStep) (hkeeps : a.Keeps falls b)
    (hrows : b.node.table.addresses = a.node.table.addresses) (hconfig : b.node.config = a.node.config)
    (hown : b.node.table.get? b.address = none) : b.InStep where
  opened := hkeeps.stopped.trans h.opened
  loops := by rw [hkeeps.loops, h.loops, hrows]
  size := by
    rw [PeerTable.size_eq, hrows, ← PeerTable.size_eq, hconfig]
    exact h.size
  own := hown
  ascending := hkeeps.ascending h.ascending
  kept id beat' hbeat' := by
    obtain ⟨beat, hbeat, hpeer, hcancelled⟩ := hkeeps.sources id beat' hbeat'
    rw [hkeeps.nextLoop, hkeeps.loops, hpeer, hcancelled]
    exact h.kept id beat hbeat
  peers x id hx := by
    rw [hkeeps.loops] at hx
    obtain ⟨hlt, hbeats⟩ := h.peers x id hx
    refine ⟨hkeeps.nextLoop ▸ hlt, ?_⟩
    intro beat' hbeat'
    obtain ⟨beat, hbeat, hpeer, _⟩ := hkeeps.sources id beat' hbeat'
    exact hpeer.trans (hbeats beat hbeat)

theorem InStep.lt_of_mem (h : a.InStep) {id : Nat} (hid : id ∈ Assoc.keys a.heartbeats) :
    id < a.nextLoop := by
  obtain ⟨beat, hbeat⟩ := Option.isSome_iff_exists.mp (Assoc.get?_isSome_iff.mpr hid)
  exact (h.kept id beat hbeat).1

/-- A loop whose number is not the handle's was not kept for the peer. -/
theorem InStep.kept_of_ne (h : a.InStep) {id : Nat} {beat : Heartbeat}
    (hbeat : Assoc.get? id a.heartbeats = some beat) (hhandle : Assoc.get? peer a.loops ≠ some id)
    {loops : List (Address × Nat)} (hpeer : Assoc.get? peer loops ≠ some id)
    (hothers : ∀ x, x ≠ peer → Assoc.get? x loops = Assoc.get? x a.loops) :
    beat.cancelled = false ↔ Assoc.get? beat.peer loops = some id := by
  rw [(h.kept id beat hbeat).2]
  by_cases hx : beat.peer = peer
  · rw [hx]
    exact iff_of_false hhandle hpeer
  · rw [hothers beat.peer hx]

/-- Cancelling the loop that was kept for a peer leaves the others as they are kept, if of those there
were none is kept for that peer any more. -/
theorem InStep.kept_cancelLoop (h : a.InStep) {id : Nat} {beat' : Heartbeat}
    {loops : List (Address × Nat)} (hpeer : ∀ id < a.nextLoop, Assoc.get? peer loops ≠ some id)
    (hothers : ∀ x, x ≠ peer → Assoc.get? x loops = Assoc.get? x a.loops)
    (hbeat' : Assoc.get? id (cancelLoop (Assoc.get? peer a.loops) a.heartbeats) = some beat') :
    id < a.nextLoop ∧ (beat'.cancelled = false ↔ Assoc.get? beat'.peer loops = some id) := by
  rw [get?_cancelLoop] at hbeat'
  obtain ⟨beat, hbeat, rfl⟩ := Option.map_eq_some_iff.mp hbeat'
  have hlt := (h.kept id beat hbeat).1
  refine ⟨hlt, ?_⟩
  split
  next hhandle =>
    rw [(h.peers peer id hhandle).2 beat hbeat]
    exact iff_of_false (by simp) (hpeer id hlt)
  next hhandle => exact h.kept_of_ne hbeat hhandle (hpeer id hlt) hothers

theorem InStep.peer_cancelLoop (h : a.InStep) {id : Nat} {loop : Option Nat} {beat' : Heartbeat}
    (hx : Assoc.get? x a.loops = some id)
    (hbeat' : Assoc.get? id (cancelLoop loop a.heartbeats) = some beat') : beat'.peer = x := by
  rw [get?_cancelLoop] at hbeat'
  obtain ⟨beat, hbeat, rfl⟩ := Option.map_eq_some_iff.mp hbeat'
  have hpeer := (h.peers x id hx).2 beat hbeat
  split
  next => exact hpeer
  next => exact hpeer

theorem InStep.get?_nextLoop (h : a.InStep) (loop : Option Nat) :
    Assoc.get? a.nextLoop (cancelLoop loop a.heartbeats) = none := by
  rw [Assoc.get?_eq_none_iff, keys_cancelLoop]
  exact fun hmem => Nat.lt_irrefl _ (h.lt_of_mem hmem)

/-- The loops of an agent that connects a peer are its old ones, some cancelled, and a new one. -/
theorem InStep.get?_track (h : a.InStep) {id : Nat} {beat' : Heartbeat}
    (hbeat' : Assoc.get? id (a.track peer).value.heartbeats = some beat') :
    (id < a.nextLoop ∧
      Assoc.get? id (cancelLoop (Assoc.get? peer a.loops) a.heartbeats) = some beat') ∨
    (id = a.nextLoop ∧ beat' = { peer, cancelled := a.stopped }) := by
  rw [heartbeats_track, Assoc.get?_append] at hbeat'
  rcases Option.or_eq_some_iff.mp hbeat' with hold | ⟨_, hnew⟩
  · have hmem : id ∈ Assoc.keys a.heartbeats := by
      rw [← keys_cancelLoop]
      exact Assoc.get?_isSome_iff.mp (Option.isSome_of_eq_some hold)
    exact Or.inl ⟨h.lt_of_mem hmem, hold⟩
  · simp only [Assoc.get?] at hnew
    split at hnew
    next hid =>
      cases hnew
      exact Or.inr ⟨hid, rfl⟩
    next => cases hnew

theorem InStep.track (h : a.InStep) (hadmits : a.Admits peer) : (a.track peer).value.InStep where
  opened := h.opened
  loops := Assoc.keys_insert_congr h.loops peer a.nextLoop _
  size := by
    show (Assoc.insert peer (PeerRow.connected peer) a.node.table.rows).length ≤ a.node.config.maxPeers
    rcases hadmits.2 with hknown | hroom
    · have hsame : (a.node.table.connect peer).addresses = a.node.table.addresses :=
        Assoc.keys_insert_of_mem a.node.table.ascending.keys_pairwise (PeerTable.get?_isSome_iff.mp hknown) _
      have hsize : (a.node.table.connect peer).size = a.node.table.size := by
        rw [PeerTable.size_eq, hsame, PeerTable.size_eq]
      exact hsize.trans_le h.size
    · exact (Assoc.length_insert_le peer _ a.node.table.rows).trans hroom
  own := (Assoc.get?_insert_of_ne (Ne.symm hadmits.1) _ _).trans h.own
  ascending := by
    have hold : (Assoc.keys (cancelLoop (Assoc.get? peer a.loops) a.heartbeats)).Pairwise (· < ·) := by
      rw [keys_cancelLoop]
      exact h.ascending
    rw [heartbeats_track, Assoc.keys, List.map_append]
    refine List.pairwise_append.mpr ⟨hold, List.pairwise_singleton _ _, ?_⟩
    intro id hid new hnew
    rw [List.mem_singleton.mp hnew]
    exact h.lt_of_mem (keys_cancelLoop _ _ ▸ hid)
  kept id beat' hbeat' := by
    have hself : Assoc.get? peer (a.track peer).value.loops = some a.nextLoop :=
      Assoc.get?_insert_self _ _ _
    rcases h.get?_track hbeat' with ⟨hlt, hold⟩ | ⟨rfl, rfl⟩
    · refine ⟨Nat.lt_succ_of_lt hlt, (h.kept_cancelLoop ?_ ?_ hold).2⟩
      · intro id hlt hid
        exact Nat.ne_of_gt hlt (Option.some.inj (hself.symm.trans hid))
      · exact fun x hx => Assoc.get?_insert_of_ne hx _ _
    · exact ⟨Nat.lt_succ_self _, iff_of_true h.opened hself⟩
  peers x id hx := by
    by_cases hpeer : x = peer
    · subst hpeer
      cases (Assoc.get?_insert_self x a.nextLoop a.loops).symm.trans hx
      refine ⟨Nat.lt_succ_self _, ?_⟩
      intro beat' hbeat'
      rcases h.get?_track hbeat' with ⟨hlt, _⟩ | ⟨_, rfl⟩
      · exact absurd hlt (Nat.lt_irrefl _)
      · rfl
    · have hold : Assoc.get? x a.loops = some id := (Assoc.get?_insert_of_ne hpeer _ _).symm.trans hx
      have hlt := (h.peers x id hold).1
      refine ⟨Nat.lt_succ_of_lt hlt, ?_⟩
      intro beat' hbeat'
      rcases h.get?_track hbeat' with ⟨_, hbeat'⟩ | ⟨rfl, _⟩
      · exact h.peer_cancelLoop hold hbeat'
      · exact absurd hlt (Nat.lt_irrefl _)

theorem InStep.disconnect (h : a.InStep) (peer : Address) : (a.disconnect peer).value.2.InStep where
  opened := h.opened
  loops := by
    show Assoc.keys (Assoc.erase peer a.loops) = Assoc.keys (Assoc.erase peer a.node.table.rows)
    rw [Assoc.keys_erase, Assoc.keys_erase, h.loops, PeerTable.addresses]
  size := (List.length_filter_le _ _).trans h.size
  own := row_disconnect h.own peer
  ascending := by
    rw [heartbeats_disconnect, keys_cancelLoop]
    exact h.ascending
  kept id beat' hbeat' := by
    refine h.kept_cancelLoop ?_ ?_ hbeat'
    · intro id _ hid
      cases (Assoc.get?_erase_self peer a.loops).symm.trans hid
    · exact fun x hx => Assoc.get?_erase_of_ne hx _
  peers x id hx := by
    have hpeer : x ≠ peer := by
      rintro rfl
      cases (Assoc.get?_erase_self x a.loops).symm.trans hx
    have hold : Assoc.get? x a.loops = some id := (Assoc.get?_erase_of_ne hpeer _).symm.trans hx
    exact ⟨(h.peers x id hold).1, fun beat' hbeat' => h.peer_cancelLoop hold hbeat'⟩

theorem InStep.heed (h : a.InStep) (heard : Heard) : (a.heed heard).InStep :=
  ⟨h.opened, h.loops, h.size, h.own, h.ascending, h.kept, h.peers⟩

theorem InStep.act (h : a.InStep) (hopen : ¬ v.Closes) (m : Moment) : (a.act m v).InStep := by
  by_cases hpeering : v.IsPeering
  · obtain ⟨b, heard, hact, rfl | ⟨peer, hadmits, rfl⟩ | ⟨peer, rfl⟩⟩ := a.peering_cases hpeering hopen m
    · exact hact ▸ h.heed heard
    · exact hact ▸ (h.track hadmits).heed heard
    · exact hact ▸ (h.disconnect peer).heed heard
  · have hown := row_act h.own m v
    rw [← a.address_act m v] at hown
    exact h.of_keeps (keeps_act hpeering a m) (addresses_act hpeering a m) (a.config_act m v) hown

theorem InStep.run (h : a.InStep) (hopen : ∀ u ∈ script, ¬ u.2.Closes) : (a.run script).InStep := by
  induction script using List.reverseRecOn with
  | nil => exact h
  | append_singleton script u ih =>
    rw [run_snoc]
    have hbefore := ih fun w hw => hopen w (List.mem_append_left _ hw)
    exact hbefore.act (hopen u (by simp)) u.1

/-- Each loop that is kept for a peer is there. -/
def Complete (a : Agent) : Prop :=
  ∀ x id, Assoc.get? x a.loops = some id → ∃ beat, Assoc.get? id a.heartbeats = some beat

theorem Complete.cancelLoop (h : a.Complete) {id : Nat} (hx : Assoc.get? x a.loops = some id)
    (loop : Option Nat) : ∃ beat, Assoc.get? id (Agent.cancelLoop loop a.heartbeats) = some beat := by
  obtain ⟨beat, hbeat⟩ := h x id hx
  exact ⟨_, (get?_cancelLoop loop a.heartbeats id).trans (congrArg _ hbeat)⟩

theorem Complete.track (h : a.Complete) (hstep : a.InStep) (peer : Address) :
    (a.track peer).value.Complete := by
  intro x id hx
  rw [heartbeats_track, Assoc.get?_append]
  by_cases hpeer : x = peer
  · subst hpeer
    cases (Assoc.get?_insert_self x a.nextLoop a.loops).symm.trans hx
    rw [hstep.get?_nextLoop]
    exact ⟨_, if_pos rfl⟩
  · have hold : Assoc.get? x a.loops = some id := (Assoc.get?_insert_of_ne hpeer _ _).symm.trans hx
    obtain ⟨beat, hbeat⟩ := h.cancelLoop hold (Assoc.get? peer a.loops)
    exact ⟨beat, by rw [hbeat]; rfl⟩

theorem Complete.disconnect (h : a.Complete) (peer : Address) :
    (a.disconnect peer).value.2.Complete := by
  intro x id hx
  have hpeer : x ≠ peer := by
    rintro rfl
    cases (Assoc.get?_erase_self x a.loops).symm.trans hx
  have hold : Assoc.get? x a.loops = some id := (Assoc.get?_erase_of_ne hpeer _).symm.trans hx
  exact h.cancelLoop hold _

theorem Complete.heed (h : a.Complete) (heard : Heard) : (a.heed heard).Complete := h

theorem Complete.act (h : a.Complete) (hstep : a.InStep) (hopen : ¬ v.Closes)
    (hfalls : ∀ id, ¬ a.Falls m v id) : (a.act m v).Complete := by
  by_cases hpeering : v.IsPeering
  · obtain ⟨b, heard, hact, rfl | ⟨peer, _, rfl⟩ | ⟨peer, rfl⟩⟩ := a.peering_cases hpeering hopen m
    · exact hact ▸ h.heed heard
    · exact hact ▸ (h.track hstep peer).heed heard
    · exact hact ▸ (h.disconnect peer).heed heard
  · have hkeeps := keeps_act hpeering a m
    intro x id hx
    rw [hkeeps.loops] at hx
    obtain ⟨beat, hbeat⟩ := h x id hx
    have hlive : beat.cancelled = false := by
      rw [(hstep.kept id beat hbeat).2, (hstep.peers x id hx).2 beat hbeat]
      exact hx
    exact hkeeps.lives id beat hbeat hlive (hfalls id)

/-- No loop ends by a crash. -/
def Unfallen (a : Agent) (script : Script) : Prop :=
  ∀ before u after, script = before ++ u :: after → ∀ id, ¬ (a.run before).Falls u.1 u.2 id

theorem Unfallen.of_snoc {u : Moment × Move} (h : a.Unfallen (script ++ [u])) :
    a.Unfallen script ∧ ∀ id, ¬ (a.run script).Falls u.1 u.2 id := by
  refine ⟨?_, h script u [] rfl⟩
  rintro before w after rfl
  exact h before w (after ++ [u]) (by simp)

theorem unfallen_of_forall (h : ∀ u ∈ script, ∀ loop, u.2 ≠ .task (.heartbeat loop)) :
    a.Unfallen script := by
  rintro before u after rfl id ⟨htask, _⟩
  exact h u (by simp) id htask

theorem InStep.complete_run (h : a.InStep) (hcomplete : a.Complete)
    (hopen : ∀ u ∈ script, ¬ u.2.Closes) (hfalls : a.Unfallen script) : (a.run script).Complete := by
  induction script using List.reverseRecOn with
  | nil => exact hcomplete
  | append_singleton script u ih =>
    rw [run_snoc]
    obtain ⟨hearlier, hlast⟩ := hfalls.of_snoc
    have hopened : ∀ w ∈ script, ¬ w.2.Closes := fun w hw => hopen w (List.mem_append_left _ hw)
    exact (ih hopened hearlier).act (h.run hopened) (hopen u (by simp)) hlast

/-- A loop for the peer that is not cancelled. -/
def Beats (a : Agent) (x : Address) (loop : Nat) : Prop :=
  ∃ beat, (loop, beat) ∈ a.heartbeats ∧ beat.peer = x ∧ beat.cancelled = false

theorem InStep.get?_of_beats (h : a.InStep) {loop : Nat} (hbeats : a.Beats x loop) :
    Assoc.get? x a.loops = some loop := by
  obtain ⟨beat, hmem, rfl, hlive⟩ := hbeats
  have hbeat := (Assoc.ascending_of_keys h.ascending).get?_of_mem hmem
  exact (h.kept loop beat hbeat).2.mp hlive

theorem InStep.isSome_iff (h : a.InStep) : (a.node.table.get? x).isSome ↔ (Assoc.get? x a.loops).isSome := by
  rw [PeerTable.get?_isSome_iff, Assoc.get?_isSome_iff, h.loops]

theorem InStep.beats_of_complete (h : a.InStep) (hcomplete : a.Complete)
    (hrow : (a.node.table.get? x).isSome) : ∃ loop, a.Beats x loop := by
  obtain ⟨loop, hloop⟩ := Option.isSome_iff_exists.mp (h.isSome_iff.mp hrow)
  obtain ⟨beat, hbeat⟩ := hcomplete x loop hloop
  have hpeer := (h.peers x loop hloop).2 beat hbeat
  refine ⟨loop, beat, Assoc.mem_of_get? hbeat, hpeer, ?_⟩
  rw [(h.kept loop beat hbeat).2, hpeer]
  exact hloop

theorem InStep.runningLoops_eq (h : a.InStep) (hcomplete : a.Complete) :
    a.runningLoops = a.node.table.size := by
  have hascending : Assoc.Ascending a.loops :=
    Assoc.ascending_of_keys (h.loops ▸ a.node.table.ascending.keys_pairwise)
  have hall : ∀ l ∈ a.loops, Assoc.contains l.2 a.heartbeats = true := by
    intro l hl
    obtain ⟨beat, hbeat⟩ := hcomplete l.1 l.2 (hascending.get?_of_mem hl)
    exact Option.isSome_of_eq_some hbeat
  rw [runningLoops, List.countP_eq_length.mpr hall, PeerTable.size_eq, ← h.loops]
  exact (List.length_map _).symm

/-- An agent that is not shut down never has more peers than the limit, nor itself for one. Of the loops
that are not cancelled each is for a peer with a row, one for each; and unless one has crashed, every peer
with a row has its loop. A connecting that is refused changes nothing, and of a known peer none is. -/
theorem peers_in_step (ha : a.Unconnected) (hopen : ∀ u ∈ script, ¬ u.2.Closes) :
    ((a.run script).node.table.size ≤ a.node.config.maxPeers ∧
      (a.run script).node.table.get? a.address = none) ∧
    (∀ x loop, (a.run script).Beats x loop → ((a.run script).node.table.get? x).isSome ∧
      ∀ other, (a.run script).Beats x other → other = loop) ∧
    (a.Unfallen script → (a.run script).runningLoops = (a.run script).node.table.size ∧
      ∀ x, ((a.run script).node.table.get? x).isSome → ∃ loop, (a.run script).Beats x loop) ∧
    (∀ x e, ((a.run script).connect x).value.1 = .error e →
      ((a.run script).connect x).value.2 = a.run script) ∧
    ∀ x, ((a.run script).node.table.get? x).isSome → ((a.run script).connect x).value.1 = .ok () := by
  have hstep := ha.inStep.run hopen
  have hconfig := a.config_run script
  have haddress : (a.run script).address = a.address := congrArg Signer.address (a.signer_run script)
  refine ⟨⟨hconfig ▸ hstep.size, haddress ▸ hstep.own⟩, ?_, ?_, ?_, ?_⟩
  · intro x loop hbeats
    have hloop := hstep.get?_of_beats hbeats
    refine ⟨hstep.isSome_iff.mpr (Option.isSome_of_eq_some hloop), ?_⟩
    intro other hother
    exact Option.some.inj ((hstep.get?_of_beats hother).symm.trans hloop)
  · intro hfalls
    have hnone : a.Complete := by
      intro x id hx
      rw [ha.loops] at hx
      cases hx
    have hcomplete := ha.inStep.complete_run hnone hopen hfalls
    exact ⟨hstep.runningLoops_eq hcomplete, fun x hrow => hstep.beats_of_complete hcomplete hrow⟩
  · intro x e herror
    by_cases hadmits : (a.run script).Admits x
    · rw [connect_of_admits hadmits] at herror
      cases herror
    · exact (connect_of_not_admits hadmits).2
  · intro x hrow
    have hother : x ≠ (a.run script).address := by
      rintro rfl
      rw [hstep.own] at hrow
      cases hrow
    rw [connect_of_admits ⟨hother, Or.inl hrow⟩]

end Agent

namespace TwoPlaces

open TwoFaced

def agent : Agent := .fresh (.plain "a") plainVerifier { maxPeers := 2 } {} (.ofSeed 1) .logging
  ⟨.ofSeed 2, {}⟩

/-- A place gets free and is taken again, and then a peer is connected anew and another one refused. -/
def script : Script := [
  (moment 0, .connect "b"),
  (moment 0, .connect "c"),
  (moment 0, .disconnect "b"),
  (moment 0, .connect "d"),
  (moment 0, .connect "c"),
  (moment 0, .connect "e")]

theorem agent_unconnected : agent.Unconnected := Agent.fresh_unconnected _ _ _ _ _ _ _

theorem script_open : ∀ u ∈ script, ¬ u.2.Closes := by
  simp [script, Move.Closes]

theorem script_unfallen : agent.Unfallen script :=
  Agent.unfallen_of_forall (by simp [script])

/-- The peer that was connected twice has one loop and may be connected again, a third one is refused. -/
theorem full_in_step :
    (agent.run script).node.table.size ≤ 2 ∧ (agent.run script).runningLoops = 2 ∧
    (∃ loop, (agent.run script).Beats "c" loop ∧ ∀ other, (agent.run script).Beats "c" other → other = loop) ∧
    ((agent.run script).connect "e").value.2 = agent.run script ∧
    ((agent.run script).connect "c").value.1 = .ok () := by
  obtain ⟨⟨hsize, _⟩, hone, hall, hrefused, hknown⟩ := Agent.peers_in_step agent_unconnected script_open
  obtain ⟨hrunning, hbeats⟩ := hall script_unfallen
  have hrow : ((agent.run script).node.table.get? "c").isSome := by decide +kernel
  have hfull : (agent.run script).node.table.size = 2 := by decide +kernel
  obtain ⟨loop, hloop⟩ := hbeats "c" hrow
  refine ⟨hsize, hrunning.trans hfull, ⟨loop, hloop, (hone "c" loop hloop).2⟩, ?_, hknown "c" hrow⟩
  exact hrefused "e" (.peerLimit 2) (by decide +kernel)

end TwoPlaces

end Adjudication
