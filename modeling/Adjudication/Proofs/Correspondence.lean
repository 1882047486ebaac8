import Adjudication.Proofs.Agreement
import Adjudication.Proofs.FillMoves
import Adjudication.Proofs.KeyInWork

namespace Adjudication

theorem Heartbeat.step_gains {delivered : EntryKind → RoundKey → Address → SignedEntry → Prop}
    (b : Heartbeat) (n : Node) (m : Moment) : n.Gains delivered (b.step n m).value.2 := by
  have woken : n.Gains delivered (b.wake n m).2 := by
    unfold wake
    split
    · exact n.attest_gains m.clock
    · exact .of_caches rfl
  have absorbed : ∀ landing, n.Gains delivered (b.absorb n m landing).value := by
    intro landing
    cases landing with
    | crashed => exact .of_caches rfl
    | timedOut => exact .of_caches rfl
    | answered reply =>
      unfold absorb
      dsimp only
      split
      · exact .of_caches rfl
      · next a _ =>
        have observed : n.Gains delivered _ := n.observe_gains m b.peer a
        simp only [Noted.value_bind]
        split
        · exact observed
        · exact observed
  unfold step
  split
  · exact .of_caches rfl
  · split
    · exact .of_caches rfl
    · have absorbed := absorbed ‹_›
      rw [Noted.value_bind]
      split
      · exact absorbed
      · exact absorbed
    · exact .of_caches rfl
    · exact woken
    · exact woken

namespace Agent

variable {a : Agent} {m : Moment} {v : Move} {kind : EntryKind} {k : RoundKey} {x : Address}
  {e : SignedEntry}

/-- An entry that a round of the agent makes for it. -/
def Makes (a : Agent) (kind : EntryKind) (k : RoundKey) (x : Address) (e : SignedEntry) : Prop :=
  x = a.address ∧ ∃ id r, a.round? id = some r ∧ a.node.Makes r.contribution kind k e

/-- An entry that a move delivers: the offer of a call, or an answer that a fill takes up. -/
def Delivered (a : Agent) (v : Move) (kind : EntryKind) (k : RoundKey) (x : Address)
    (e : SignedEntry) : Prop :=
  match v with
  | .call _ (.gossip other request) =>
    other = kind ∧ request.key = k ∧ request.offered = some ⟨x, e⟩
  | .task (.fill id) => ∃ f, a.fill? id = some f ∧ f.Landed kind k x e
  | _ => False

theorem node_act_fill (a : Agent) (m : Moment) (id : Nat) :
    (a.act m (.task (.fill id))).node = (a.toExchanger.stepFill id m).value.node := by
  unfold act step
  dsimp only
  split
  · exact Exchanger.crashFill_node _ _
  · rfl

theorem node_act_heartbeat (a : Agent) (m : Moment) (loop : Nat) :
    (a.act m (.task (.heartbeat loop))).node = (a.stepOwn m (.heartbeat loop)).value.node := by
  unfold act step
  dsimp only
  split
  · rfl
  · rfl

theorem caches_driven (a : Agent) (now : Nat) (d : Driver AppState) :
    (a.driven now d).node.caches = a.node.caches := by
  obtain ⟨b, appState, hdrives, hdriven⟩ := a.driven_drives now d
  rw [hdriven]
  cases hdrives with
  | stand position => rfl
  | drop round position =>
    have hcaches := congrArg Node.caches (a.dropRound_node round)
    exact hcaches
  | start position plan => rfl

theorem caches_connect (a : Agent) (peer : Address) :
    (a.after (a.connect peer)).node.caches = a.node.caches := by
  obtain ⟨table, heartbeats, loops, nextLoop, hconnect⟩ := a.exists_connect peer
  have hcaches := congrArg (fun b => b.node.caches) hconnect
  exact hcaches

theorem stepFill_gains (a : Agent) (m : Moment) (id : Nat) :
    a.node.Gains (a.Delivered (.task (.fill id))) (a.toExchanger.stepFill id m).value.node := by
  unfold Exchanger.stepFill
  split
  · exact .of_caches rfl
  · next f hf =>
    have hgains := (f.step_asked_gains a.node m).2
    intro kind k x e held
    have hheld : ((f.step a.node m).value.2.cache kind).Holds k x e := by simpa using held
    rcases hgains kind k x e hheld with hold | hlanded
    · exact Or.inl hold
    · exact Or.inr ⟨f, hf, hlanded⟩

/-- What an agent may gain by a move: what a round of its own makes, and what the move delivers. -/
def Gained (a : Agent) (v : Move) (kind : EntryKind) (k : RoundKey) (x : Address) (e : SignedEntry) :
    Prop :=
  a.Makes kind k x e ∨ a.Delivered v kind k x e

theorem round_gains (a : Agent) (m : Moment) (id : Nat) :
    a.node.Gains (a.Gained (.task (.round id))) (a.act m (.task (.round id))).node := by
  cases hr : a.round? id with
  | none => exact .of_caches (congrArg Node.caches (act_of_round?_eq_none hr))
  | some r =>
    intro kind k x e held
    have turned := turned_act (m := m) hr
    have hturn := r.step_turn a.toExchanger m
    rw [turned.node] at held
    rcases hturn.holds_cases held with hold | ⟨hx, hmade⟩
    · exact Or.inl hold
    · exact Or.inr (Or.inl ⟨hx, id, r, hr, hmade⟩)

theorem task_gains (a : Agent) (m : Moment) (task : Task) :
    a.node.Gains (a.Gained (.task task)) (a.act m (.task task)).node := by
  cases task with
  | fill id =>
    rw [node_act_fill]
    exact (stepFill_gains a m id).mono Or.inr
  | heartbeat loop =>
    rw [node_act_heartbeat]
    unfold stepOwn
    dsimp only
    split
    · exact .of_caches rfl
    · next b _ => exact b.step_gains a.node m
  | round id => exact a.round_gains m id
  | request fill peer => exact .of_caches rfl
  | probe loop => exact .of_caches rfl

theorem act_gains (a : Agent) (m : Moment) (v : Move) :
    a.node.Gains (a.Gained v) (a.act m v).node := by
  cases v with
  | task task => exact a.task_gains m task
  | drive d => exact .of_caches (a.caches_driven m.now d)
  | call caller request =>
    refine a.node.answer_gains m caller ?_
    rintro other request rfl ⟨address, entry⟩ ho
    exact Or.inr ⟨rfl, rfl, ho⟩
  | carried fill peer transit =>
    exact .of_caches (congrArg Node.caches (Exchanger.setTransit_node _ _ _ _))
  | connect peer => exact .of_caches (a.caches_connect peer)
  | drop round => exact .of_caches (congrArg Node.caches (a.dropRound_node round))
  | cancelFill fill keep =>
    refine .of_caches (congrArg Node.caches ?_)
    cases keep with
    | true => exact Exchanger.cancelFill_node _ _
    | false => exact Exchanger.releaseFill_node _ _
  | _ => exact .of_caches rfl

theorem holds_of_receive {caller : Address} {request : GossipRequest} {found : AddressedEntry}
    (h : (a.receive m caller (.gossip kind request)).2.1 = some (.gossip (.entry found))) :
    ((a.act m (.call caller (.gossip kind request))).node.cache kind).Holds request.key found.address
      found.entry := by
  unfold receive at h
  dsimp only at h
  split at h
  next => cases h
  next => exact Node.holds_of_answer (Option.some.inj h)

end Agent

/-- A call of an agent: the task that makes it, and what is asked of whom. -/
structure Call where
  agent : Nat
  task : Task
  caller : Address
  receiver : Address
  request : Request
deriving DecidableEq

structure Answer where
  caller : Address
  receiver : Address
  request : Request
  response : Response
deriving DecidableEq

/-- The calls of an agent that now depart: requests of its fills, and probes of its heartbeat loops. -/
def Agent.departures (a : Agent) (agent : Nat) : List Call :=
  ((Assoc.keys a.fills).flatMap fun id =>
    ((a.fill? id).toList.flatMap Fill.flights).filterMap fun flight =>
      match flight.transit with
      | .departing (.gossip kind request) =>
        some ⟨agent, .request id flight.peer, a.address, flight.peer, .gossip kind request⟩
      | _ => none) ++
  a.heartbeats.filterMap fun b =>
    match b.2.stage with
    | .probing (.departing (.roundState attestation)) =>
      some ⟨agent, .probe b.1, a.address, b.2.peer, .roundState attestation⟩
    | _ => none

/-- A cluster with what its agents have said to one another so far. -/
structure Correspondence where
  agents : Cluster
  calls : List Call := []
  answers : List Answer := []

namespace Correspondence

/-- The answer that a stroke gives, if it is a call and is answered. -/
def answer? (w : Correspondence) (s : Stroke) : Option Answer :=
  match s.move with
  | .call caller request => do
    let a ← w.agents[s.agent]?
    let response ← (a.receive s.moment caller request).2.1
    return ⟨caller, a.address, request, response⟩
  | _ => none

def act (w : Correspondence) (s : Stroke) : Correspondence :=
  let agents := w.agents.act s
  { agents
    calls := (agents[s.agent]?).toList.flatMap (·.departures s.agent) ++ w.calls
    answers := (w.answer? s).toList ++ w.answers }

def run (w : Correspondence) (strokes : List Stroke) : Correspondence := strokes.foldl act w

/-- What may become of a call on its way: it travels, it fails, or an answer lands that was given
to it. -/
def Brings (w : Correspondence) (agent : Nat) (task : Task) : Transit → Prop
  | .departing _ => False
  | .landed (.answered (.ok response)) => ∃ call ∈ w.calls, call.agent = agent ∧ call.task = task ∧
      ⟨call.caller, call.receiver, call.request, response⟩ ∈ w.answers
  | _ => True

/-- An agent is only called as other agents have called it, and only hears what they have answered. -/
def Fair (w : Correspondence) (s : Stroke) : Prop :=
  match s.move with
  | .call caller request => ∀ a ∈ w.agents[s.agent]?, ∃ call ∈ w.calls,
      call.caller = caller ∧ call.receiver = a.address ∧ call.request = request
  | .carried fill peer transit => w.Brings s.agent (.request fill peer) transit
  | .probed loop transit => w.Brings s.agent (.probe loop) transit
  | _ => True

/-- All strokes are fair: calls and answers may be late or lost, but none is made up. -/
def Honest : Correspondence → List Stroke → Prop
  | _, [] => True
  | w, s :: strokes => w.Fair s ∧ (w.act s).Honest strokes

instance (w : Correspondence) (agent : Nat) (task : Task) (transit : Transit) :
    Decidable (w.Brings agent task transit) := by
  unfold Brings
  split <;> infer_instance

instance (w : Correspondence) (s : Stroke) : Decidable (w.Fair s) := by
  unfold Fair
  split <;> infer_instance

instance decidableHonest : ∀ (w : Correspondence) (strokes : List Stroke),
    Decidable (w.Honest strokes)
  | _, [] => .isTrue trivial
  | w, s :: strokes =>
    have := decidableHonest (w.act s) strokes
    inferInstanceAs (Decidable (_ ∧ _))

end Correspondence

/-- The fill offers only entries that are known, and what has landed for it is known. -/
structure Fill.Truthful (known : EntryKind → RoundKey → Address → SignedEntry → Prop) (f : Fill) :
    Prop where
  sent : ∀ peer kind request,
    (⟨peer, .departing (.gossip kind request)⟩ : Flight) ∈ f.flights →
      kind = f.kind ∧ request.key = f.key ∧ ∀ o ∈ request.offered, known kind request.key o.address o.entry
  landed : ∀ {kind k x e}, f.Landed kind k x e → known kind k x e

section

variable {known : EntryKind → RoundKey → Address → SignedEntry → Prop} {m : Moment} {n : Node}
  {id : Nat} {f f' : Fill} {v : Move}

theorem Fill.Truthful.of_flights (h : f.Truthful known) (hkind : f'.kind = f.kind)
    (hkey : f'.key = f.key) (hflights : ∀ flight ∈ f'.flights, flight ∈ f.flights) :
    f'.Truthful known where
  sent peer kind request hmem := by
    rw [hkind, hkey]
    exact h.sent peer kind request (hflights _ hmem)
  landed hlanded := by
    obtain ⟨rfl, rfl, peer, hmem⟩ := hlanded
    exact h.landed ⟨hkind.symm, hkey.symm, peer, hflights _ hmem⟩

theorem Fill.Truthful.asked (h : f.Truthful known) (hasked : f.Asked n f')
    (hheld : ∀ {kind k x e}, (n.cache kind).Holds k x e → known kind k x e) :
    f'.Truthful known where
  sent peer kind request hmem := by
    rw [hasked.kind, hasked.key]
    rcases hasked.flights _ hmem with hold | ⟨missing, offered, htransit, hoffered⟩
    · exact h.sent peer kind request hold
    · cases htransit
      refine ⟨rfl, rfl, ?_⟩
      intro o ho
      obtain ⟨haddress, hget⟩ := hoffered o ho
      rw [haddress]
      exact hheld (Cache.holds_of_get? hget)
  landed hlanded := by
    obtain ⟨rfl, rfl, peer, hmem⟩ := hlanded
    rcases hasked.flights _ hmem with hold | ⟨missing, offered, htransit, _⟩
    · exact h.landed ⟨hasked.kind.symm, hasked.key.symm, peer, hold⟩
    · cases htransit

theorem Fill.Truthful.moved (h : f.Truthful known) (hmoved : f.Moved m n id v f')
    (hheld : ∀ {kind k x e}, (n.cache kind).Holds k x e → known kind k x e)
    (hnews : ∀ peer transit, v = .carried id peer transit →
      (∀ request, transit ≠ .departing request) ∧
        ∀ found, transit = .landed (.answered (.ok (.gossip (.entry found)))) →
          known f.kind f.key found.address found.entry) :
    f'.Truthful known := by
  obtain ⟨hasked, hgains⟩ := f.step_asked_gains n m
  have hstepped : (f.step n m).value.1.Truthful known := by
    refine h.asked hasked ?_
    intro kind k x e held
    rcases hgains kind k x e held with hold | hlanded
    · exact hheld hold
    · exact h.landed hlanded
  -- a step takes up what has landed before it asks anew, so what it offers is held or has landed
  cases hmoved with
  | marked => exact h.of_flights rfl rfl fun _ hmem => hmem
  | stepped => exact hstepped
  | crashed =>
    refine hstepped.of_flights rfl rfl ?_
    intro flight hmem
    cases hmem
  | carried peer transit =>
    obtain ⟨hdeparting, hfound⟩ := hnews peer transit rfl
    constructor
    · intro receiver kind request hmem
      obtain ⟨flight, hflight, heq⟩ := List.mem_map.mp hmem
      split at heq
      next => exact absurd (congrArg Flight.transit heq) (hdeparting _)
      next => exact h.sent receiver kind request (heq ▸ hflight)
    · rintro kind k x e ⟨rfl, rfl, receiver, hmem⟩
      obtain ⟨flight, hflight, heq⟩ := List.mem_map.mp hmem
      split at heq
      next => exact hfound ⟨x, e⟩ (congrArg Flight.transit heq)
      next => exact h.landed ⟨rfl, rfl, receiver, heq ▸ hflight⟩

/-- All that an agent holds, offers and has been answered is known. -/
structure Agent.Truthful (known : EntryKind → RoundKey → Address → SignedEntry → Prop) (a : Agent) :
    Prop where
  held : ∀ {kind k x e}, (a.node.cache kind).Holds k x e → known kind k x e
  fills : ∀ {id f}, a.fill? id = some f → id < a.nextFill ∧ f.Truthful known

/-- The number is, or was, that of a fill of this kind and key; so an answer to a request of that fill
cannot land on another. -/
def Agent.Numbers (a : Agent) (id : Nat) (kind : EntryKind) (key : RoundKey) : Prop :=
  id < a.nextFill ∧ ∀ f, a.fill? id = some f → f.kind = kind ∧ f.key = key

theorem Agent.Numbers.act {a : Agent} {kind : EntryKind} {key : RoundKey} (h : a.Numbers id kind key)
    (m : Moment) (v : Move) : (a.act m v).Numbers id kind key := by
  obtain ⟨hlt, hround⟩ := h
  refine ⟨Nat.lt_of_lt_of_le hlt (a.nextFill_le_act m v), ?_⟩
  intro f' hf'
  rcases fill_act hf' with ⟨f, hf, hmoved⟩ | ⟨hle, _⟩
  · obtain ⟨hkind, hkey⟩ := hround f hf
    obtain ⟨hkind', hkey'⟩ := hmoved.round_eq
    exact ⟨hkind'.trans hkind, hkey'.trans hkey⟩
  · omega

theorem Agent.Truthful.act {a : Agent} (h : a.Truthful known)
    (hmade : ∀ {kind k x e}, a.Makes kind k x e → ((a.act m v).node.cache kind).Holds k x e →
      known kind k x e)
    (hdelivered : ∀ {kind k x e}, a.Delivered v kind k x e → known kind k x e)
    (hnews : ∀ id f, a.fill? id = some f → ∀ peer transit, v = .carried id peer transit →
      (∀ request, transit ≠ .departing request) ∧
        ∀ found, transit = .landed (.answered (.ok (.gossip (.entry found)))) →
          known f.kind f.key found.address found.entry) :
    (a.act m v).Truthful known where
  held {kind k x e} held := by
    rcases a.act_gains m v kind k x e held with hold | hmakes | hdelivers
    · exact h.held hold
    · exact hmade hmakes held
    · exact hdelivered hdelivers
  fills {id f'} hf' := by
    rcases fill_act hf' with ⟨f, hf, hmoved⟩ | ⟨_, hlt, hfresh⟩
    · obtain ⟨hlt, htruthful⟩ := h.fills hf
      refine ⟨Nat.lt_of_lt_of_le hlt (a.nextFill_le_act m v), ?_⟩
      exact htruthful.moved hmoved h.held (hnews id f hf)
    · refine ⟨hlt, ?_⟩
      obtain ⟨kind, key, targets, cancelled, held, rfl⟩ := hfresh
      constructor
      · intro peer kind request hmem
        cases hmem
      · rintro kind k x e ⟨_, _, peer, hmem⟩
        cases hmem

end

namespace Correspondence

variable {known : EntryKind → RoundKey → Address → SignedEntry → Prop} {w : Correspondence}
  {s : Stroke}

/-- A request of a fill is for the entries of the fill, and offers what is known. -/
def RequestKnown (known : EntryKind → RoundKey → Address → SignedEntry → Prop) (agents : Cluster)
    (call : Call) : Prop :=
  match call.task, call.request with
  | .request id _, .gossip kind request =>
    (∀ o ∈ request.offered, known kind request.key o.address o.entry) ∧
      ∀ a, agents[call.agent]? = some a → a.Numbers id kind request.key
  | .probe _, .roundState _ => True
  | _, _ => False

/-- All that agents hold and have said to one another is known. -/
structure Truthful (known : EntryKind → RoundKey → Address → SignedEntry → Prop)
    (w : Correspondence) : Prop where
  agents : ∀ (i : Nat) (a : Agent), w.agents[i]? = some a → a.Truthful known
  calls : ∀ call ∈ w.calls, RequestKnown known w.agents call
  answers : ∀ answer ∈ w.answers, ∀ kind request found,
    answer.request = .gossip kind request → answer.response = .gossip (.entry found) →
      known kind request.key found.address found.entry

theorem mem_departures {a : Agent} {i : Nat} {call : Call} (h : call ∈ a.departures i) :
    call.agent = i ∧ ((∃ id f peer kind request, a.fill? id = some f ∧
      (⟨peer, .departing (.gossip kind request)⟩ : Flight) ∈ f.flights ∧
      call.task = .request id peer ∧ call.request = .gossip kind request) ∨
    ∃ loop attestation, call.task = .probe loop ∧ call.request = .roundState attestation) := by
  rcases List.mem_append.mp h with hfill | hloop
  · obtain ⟨id, _, hid⟩ := List.mem_flatMap.mp hfill
    obtain ⟨flight, hflight, hcall⟩ := List.mem_filterMap.mp hid
    obtain ⟨f, hf, hmem⟩ := List.mem_flatMap.mp hflight
    have hfill? : a.fill? id = some f := Option.mem_toList.mp hf
    split at hcall
    next kind request htransit =>
      cases hcall
      refine ⟨rfl, Or.inl ⟨id, f, flight.peer, kind, request, hfill?, ?_, rfl, rfl⟩⟩
      rw [← htransit]
      exact hmem
    next => cases hcall
  · obtain ⟨b, _, hcall⟩ := List.mem_filterMap.mp hloop
    split at hcall
    next attestation _ =>
      cases hcall
      exact ⟨rfl, Or.inr ⟨b.1, attestation, rfl, rfl⟩⟩
    next => cases hcall

theorem requestKnown_of_departures {a : Agent} {i : Nat} {call : Call}
    {agents : Cluster} (h : a.Truthful known) (ha : agents[i]? = some a)
    (hcall : call ∈ a.departures i) : RequestKnown known agents call := by
  obtain ⟨rfl, ⟨id, f, peer, kind, request, hf, hmem, htask, hrequest⟩ |
    ⟨loop, attestation, htask, hrequest⟩⟩ := mem_departures hcall
  · obtain ⟨hlt, htruthful⟩ := h.fills hf
    obtain ⟨rfl, hkey, hoffered⟩ := htruthful.sent peer kind request hmem
    unfold RequestKnown
    rw [htask, hrequest]
    refine ⟨hoffered, ?_⟩
    intro a' ha'
    cases ha.symm.trans ha'
    refine ⟨hlt, ?_⟩
    intro f' hf'
    cases hf.symm.trans hf'
    exact ⟨rfl, hkey.symm⟩
  · unfold RequestKnown
    rw [htask, hrequest]
    trivial

theorem getElem?_act (agents : Cluster) (s : Stroke) (i : Nat) : (agents.act s)[i]? =
    if s.agent = i then agents[i]?.map (fun a => a.act s.moment s.move) else agents[i]? := by
  unfold Cluster.act
  rw [List.getElem?_modify]
  split
  · rfl
  · simp

/-- What an agent hears of its call is an answer to the call, and so is known. -/
theorem Truthful.brings {i id : Nat} {peer : Address} {transit : Transit} {a : Agent} {f : Fill}
    (h : w.Truthful known) (hbrings : w.Brings i (.request id peer) transit)
    (ha : w.agents[i]? = some a) (hf : a.fill? id = some f) :
    (∀ request, transit ≠ .departing request) ∧
      ∀ found, transit = .landed (.answered (.ok (.gossip (.entry found)))) →
        known f.kind f.key found.address found.entry := by
  constructor
  · rintro request rfl
    exact hbrings
  · rintro found rfl
    obtain ⟨call, hcall, rfl, htask, hanswer⟩ := hbrings
    have hknown := h.calls call hcall
    unfold RequestKnown at hknown
    rw [htask] at hknown
    cases hrequest : call.request with
    | roundState attestation =>
      rw [hrequest] at hknown
      exact hknown.elim
    | gossip kind request =>
      rw [hrequest] at hknown
      obtain ⟨_, hround⟩ := (hknown.2 a ha)
      obtain ⟨rfl, hkey⟩ := hround f hf
      rw [hkey]
      exact h.answers _ hanswer f.kind request found hrequest rfl

theorem Truthful.offers {caller : Address} {kind : EntryKind} {request : GossipRequest} {a : Agent}
    (h : w.Truthful known) (hmove : s.move = .call caller (.gossip kind request))
    (hfair : w.Fair s) (ha : w.agents[s.agent]? = some a) :
    ∀ o ∈ request.offered, known kind request.key o.address o.entry := by
  unfold Fair at hfair
  rw [hmove] at hfair
  obtain ⟨call, hcall, _, _, hrequest⟩ := hfair a ha
  have hknown := h.calls call hcall
  unfold RequestKnown at hknown
  split at hknown
  next _ _ _ _ _ hgossip =>
    cases hgossip.symm.trans hrequest
    exact hknown.1
  next _ _ _ hprobe => cases hprobe.symm.trans hrequest
  next => exact hknown.elim

/-- What the rounds of its agent make by the stroke is known. -/
def MakesKnown (known : EntryKind → RoundKey → Address → SignedEntry → Prop) (w : Correspondence)
    (s : Stroke) : Prop :=
  ∀ a, w.agents[s.agent]? = some a → ∀ kind k x e, a.Makes kind k x e →
    ((a.act s.moment s.move).node.cache kind).Holds k x e → known kind k x e

/-- What the agent of a fair stroke holds, offers and has been answered after it is known, if what its
own rounds make is. -/
theorem Truthful.agent_act {a : Agent} (h : w.Truthful known) (hfair : w.Fair s)
    (hmade : w.MakesKnown known s) (ha : w.agents[s.agent]? = some a) :
    (a.act s.moment s.move).Truthful known := by
  have hagent := h.agents s.agent a ha
  refine hagent.act ?_ ?_ ?_
  · intro kind k x e hmakes held
    exact hmade a ha kind k x e hmakes held
  · intro kind k x e hdelivered
    unfold Agent.Delivered at hdelivered
    split at hdelivered
    next caller other request hmove =>
      obtain ⟨rfl, rfl, hoffered⟩ := hdelivered
      exact h.offers hmove hfair ha ⟨x, e⟩ hoffered
    next id hmove =>
      obtain ⟨f, hf, hlanded⟩ := hdelivered
      exact (hagent.fills hf).2.landed hlanded
    next => exact hdelivered.elim
  · intro id f hf peer transit hmove
    unfold Fair at hfair
    rw [hmove] at hfair
    exact h.brings hfair ha hf

theorem RequestKnown.act {agents : Cluster} {call : Call} (h : RequestKnown known agents call)
    (s : Stroke) : RequestKnown known (agents.act s) call := by
  unfold RequestKnown at h ⊢
  split at h
  next id peer kind request htask hrequest =>
    obtain ⟨hoffered, hnumbers⟩ := h
    refine ⟨hoffered, ?_⟩
    intro a' ha'
    rw [getElem?_act] at ha'
    split at ha'
    · -- the fill may have ended and been forgotten by the stroke, but its number is not given anew
      obtain ⟨a, ha, rfl⟩ := Option.map_eq_some_iff.mp ha'
      exact (hnumbers a ha).act s.moment s.move
    · exact hnumbers a' ha'
  next => trivial
  next => exact h.elim

/-- What an agent answers a fair call with, it holds after the call, and so is known. -/
theorem Truthful.answered {answer : Answer} {kind : EntryKind} {request : GossipRequest}
    {found : AddressedEntry} (h : w.Truthful known) (hfair : w.Fair s)
    (hmade : w.MakesKnown known s)
    (hanswer : w.answer? s = some answer) (hrequest : answer.request = .gossip kind request)
    (hresponse : answer.response = .gossip (.entry found)) :
    known kind request.key found.address found.entry := by
  unfold answer? at hanswer
  split at hanswer
  next caller asked hmove =>
    obtain ⟨a, ha, hrest⟩ := Option.bind_eq_some_iff.mp hanswer
    obtain ⟨response, hreceived, heq⟩ := Option.bind_eq_some_iff.mp hrest
    cases heq
    cases hrequest
    cases hresponse
    have hafter := h.agent_act hfair hmade ha
    rw [hmove] at hafter
    exact hafter.held (Agent.holds_of_receive hreceived)
  next => cases hanswer

theorem Truthful.act (h : w.Truthful known) (hfair : w.Fair s)
    (hmade : w.MakesKnown known s) :
    (w.act s).Truthful known where
  agents i a' ha' := by
    rw [Correspondence.act, getElem?_act] at ha'
    split at ha'
    next hi =>
      subst i
      obtain ⟨a, ha, rfl⟩ := Option.map_eq_some_iff.mp ha'
      exact h.agent_act hfair hmade ha
    next => exact h.agents i a' ha'
  calls call hcall := by
    rcases List.mem_append.mp hcall with hnew | hold
    · obtain ⟨a', ha', hdeparts⟩ := List.mem_flatMap.mp hnew
      have hget : (w.agents.act s)[s.agent]? = some a' := Option.mem_toList.mp ha'
      have hafter := hget
      rw [getElem?_act, if_pos rfl] at hafter
      obtain ⟨a, ha, rfl⟩ := Option.map_eq_some_iff.mp hafter
      exact requestKnown_of_departures (h.agent_act hfair hmade ha) hget hdeparts
    · exact (h.calls call hold).act s
  answers answer hanswer kind request found hrequest hresponse := by
    rcases List.mem_append.mp hanswer with hnew | hold
    · exact h.answered hfair hmade (Option.mem_toList.mp hnew) hrequest hresponse
    · exact h.answers answer hold kind request found hrequest hresponse

end Correspondence

end Adjudication
