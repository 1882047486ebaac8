import Adjudication.Proofs.WireFrames
import Adjudication.Schedule
import Mathlib.Data.List.Induction

namespace Adjudication

namespace Network

/-- What can be done to a network. -/
inductive Edit (σ : Type)
  | register (address : Address) (service : σ)
  | unregister (address : Address)
  | drop (service : σ)
  | partition (a b : Address)
  | heal (a b : Address)
  | isolate (address : Address)
  | healAll
  | setLatency (latency : Nat)

variable {σ : Type}

def edit (net : Network σ) : Edit σ → Network σ
  | .register address service => net.register address service
  | .unregister address => net.unregister address
  | .drop service => net.drop service
  | .partition a b => net.partition a b
  | .heal a b => net.heal a b
  | .isolate address => net.isolate address
  | .healAll => net.healAll
  | .setLatency latency => { net with latency }

/-- The network that an empty one has become by some edits. -/
def edited (edits : List (Edit σ)) : Network σ := edits.foldl edit {}

/-- The service that the latest edit of an address put there; the latest edit comes first. -/
def holder (a : Address) : List (Edit σ) → Option σ
  | [] => none
  | .register address service :: earlier => if a = address then some service else holder a earlier
  | .unregister address :: earlier => if a = address then none else holder a earlier
  | _ :: earlier => holder a earlier

/-- The same link, from either end. -/
def SameLink (a b c d : Address) : Prop := (a = c ∧ b = d) ∨ (a = d ∧ b = c)

/-- The latest edit that bears on the link cut it; the latest edit comes first. -/
def Severed (a b : Address) : List (Edit σ) → Prop
  | [] => False
  | .partition c d :: earlier => SameLink a b c d ∨ Severed a b earlier
  | .heal c d :: earlier => ¬ SameLink a b c d ∧ Severed a b earlier
  | .isolate c :: earlier =>
    (∃ d, d ≠ c ∧ (holder d earlier).isSome ∧ SameLink a b c d) ∨ Severed a b earlier
  | .healAll :: _ => False
  | _ :: earlier => Severed a b earlier

theorem sameLink_comm {a b c d : Address} : SameLink a b c d ↔ SameLink b a c d := by
  unfold SameLink
  constructor <;> rintro (⟨rfl, rfl⟩ | ⟨rfl, rfl⟩) <;> simp

theorem severed_comm {a b : Address} (edits : List (Edit σ)) :
    Severed a b edits ↔ Severed b a edits := by
  induction edits with
  | nil => rfl
  | cons e edits ih => cases e <;> simp only [Severed, sameLink_comm (a := a), ih]

variable (net : Network σ)

theorem edited_concat (edits : List (Edit σ)) (e : Edit σ) :
    edited (edits ++ [e]) = (edited edits).edit e := by
  simp [edited]

theorem mem_cuts_partition {a b c d : Address} :
    (a, b) ∈ (net.partition c d).cuts ↔ SameLink a b c d ∨ (a, b) ∈ net.cuts := by
  simp [partition, SameLink, or_assoc]

theorem mem_cuts_heal {a b c d : Address} :
    (a, b) ∈ (net.heal c d).cuts ↔ ¬ SameLink a b c d ∧ (a, b) ∈ net.cuts := by
  simp only [heal, SameLink, List.mem_filter, decide_eq_true_eq, ne_eq, Prod.mk.injEq, not_or, and_comm]

theorem foldl_partition (c : Address) (others : List Address) {a b : Address} :
    (a, b) ∈ (others.foldl (fun net other => net.partition c other) net).cuts ↔
      (∃ d ∈ others, SameLink a b c d) ∨ (a, b) ∈ net.cuts := by
  induction others generalizing net with
  | nil => simp
  | cons other others ih =>
    rw [List.foldl_cons, ih, mem_cuts_partition]
    simp [or_assoc, or_left_comm]

theorem mem_cuts_isolate {a b c : Address} :
    (a, b) ∈ (net.isolate c).cuts ↔
      (∃ d, d ≠ c ∧ (Assoc.get? d net.services).isSome ∧ SameLink a b c d) ∨ (a, b) ∈ net.cuts := by
  simp only [isolate, foldl_partition, List.mem_filter, decide_eq_true_eq, Assoc.get?_isSome_iff]
  refine or_congr_left (exists_congr fun d => ?_)
  rw [and_comm (a := d ∈ _), and_assoc]

@[simp] theorem foldl_partition_services (c : Address) (others : List Address) :
    (others.foldl (fun net other => net.partition c other) net).services = net.services := by
  induction others generalizing net with
  | nil => rfl
  | cons other others ih =>
    rw [List.foldl_cons, ih]
    rfl

@[simp] theorem foldl_partition_gone (c : Address) (others : List Address) :
    (others.foldl (fun net other => net.partition c other) net).gone = net.gone := by
  induction others generalizing net with
  | nil => rfl
  | cons other others ih =>
    rw [List.foldl_cons, ih]
    rfl

theorem get?_services_edited (edits : List (Edit σ)) (a : Address) :
    Assoc.get? a (edited edits).services = holder a edits.reverse := by
  induction edits using List.reverseRecOn with
  | nil => rfl
  | append_singleton edits e ih =>
    rw [edited_concat, List.reverse_concat]
    cases e with
    | register address service =>
      simp only [edit, register, holder]
      split
      next h => rw [h, Assoc.get?_insert_self]
      next h => rw [Assoc.get?_insert_of_ne h, ih]
    | unregister address =>
      simp only [edit, unregister, holder]
      split
      next h => rw [h, Assoc.get?_erase_self]
      next h => rw [Assoc.get?_erase_of_ne h, ih]
    | isolate c => simpa [edit, isolate, holder] using ih
    | drop | partition | heal | healAll | setLatency => exact ih

theorem mem_gone_edited (edits : List (Edit σ)) (service : σ) :
    service ∈ (edited edits).gone ↔ Edit.drop service ∈ edits := by
  induction edits using List.reverseRecOn with
  | nil => simp [edited]
  | append_singleton edits e ih =>
    rw [edited_concat, List.mem_append, List.mem_singleton, ← ih]
    cases e with
    | drop s => simp [edit, drop, or_comm]
    | isolate c => simp [edit, isolate]
    | register | unregister | partition | heal | healAll | setLatency =>
      simp [edit, register, unregister, partition, heal, healAll]

/-- A link is cut if and only if the latest edit that bears on it cut it. -/
theorem isCut_edited (edits : List (Edit σ)) (a b : Address) :
    (edited edits).isCut a b ↔ Severed a b edits.reverse := by
  unfold isCut
  rw [decide_eq_true_iff]
  induction edits using List.reverseRecOn with
  | nil => simp [edited, Severed]
  | append_singleton edits e ih =>
    rw [edited_concat, List.reverse_concat]
    cases e with
    | partition c d => simp only [edit, mem_cuts_partition, Severed, ih]
    | heal c d => simp only [edit, mem_cuts_heal, Severed, ih]
    | isolate c => simp only [edit, mem_cuts_isolate, Severed, ih, get?_services_edited]
    | healAll => simp [edit, healAll, Severed]
    | register | unregister | drop | setLatency => exact ih

theorem isCut_edited_comm (edits : List (Edit σ)) (a b : Address) :
    (edited edits).isCut a b = (edited edits).isCut b a := by
  rw [Bool.eq_iff_iff, isCut_edited, isCut_edited, severed_comm]

variable [DecidableEq σ]

theorem route_eq_ok_iff {a b : Address} {service : σ} :
    net.route a b = .ok service ↔
      net.isCut a b = false ∧ Assoc.get? b net.services = some service ∧ service ∉ net.gone := by
  unfold route
  split
  next hcut => simp [hcut]
  next hcut =>
    simp only [hcut, true_and]
    split
    next found hfound =>
      rw [hfound]
      split
      next hgone =>
        constructor
        · rintro ⟨⟩
        · rintro ⟨⟨⟩, halive⟩
          exact absurd hgone halive
      next halive =>
        constructor
        · rintro ⟨⟩
          exact ⟨rfl, halive⟩
        · rintro ⟨⟨⟩, _⟩
          rfl
    next hfound => simp [hfound]

theorem route_eq_error {a b : Address} (h : ∀ service, net.route a b ≠ .ok service) :
    net.route a b = .error (.unreachable b) := by
  unfold route at h ⊢
  split
  next => rfl
  next hcut =>
    rw [if_neg hcut] at h
    split
    next service hfound =>
      rw [hfound] at h
      split
      next => rfl
      next halive => exact absurd (if_neg halive) (h service)
    next => rfl

end Network

/-- What a request asks for. -/
def Request.Answer : Request → Type
  | .roundState _ => Attestation
  | .gossip .. => GossipReply

/-- The response that an answer, or what stood against one, is sent as. -/
def Request.respond : (q : Request) → Except RpcError q.Answer → Response
  | .roundState _, .ok a => .roundState a
  | .gossip .., .ok reply => .gossip reply
  | .roundState _, .error reason | .gossip .., .error reason => .failure reason

/-- What the caller of a request takes a response for. -/
def Request.read : (q : Request) → Response → Except RpcError q.Answer
  | .roundState _ => Response.attestation
  | .gossip .. => Response.gossipReply

theorem Request.read_respond (q : Request) (result : Except RpcError q.Answer) :
    q.read (q.respond result) = result := by
  cases q <;> cases result <;> rfl

/-- A service answers callers from a state that it may change; if it crashes, there is no result. -/
abbrev Service (ω : Type) := Address → (q : Request) → ω → Option (Except RpcError q.Answer) × ω

def Service.handle {ω : Type} (service : Service ω) (caller : Address) (q : Request) (state : ω) :
    Option Response × ω :=
  let (result, state) := service caller q state
  (result.map q.respond, state)

/-- A message that arrives as it is sent, if anything arrives. -/
def Wire.FitsFrame {α : Type} (c : Codec α) (fits : α → Prop) (a : α) : Prop :=
  fits a ∧ (littleEndian 2 Limits.wireVersion ++ c.encode a).length ≤ Limits.maxFrameBytes

namespace Network

variable {σ ω : Type} [DecidableEq σ]

/-- A call whose frame is delivered by the network: the network that there is at that time. -/
def call (net : Network σ) (handle : σ → Address → Request → ω → Option Response × ω)
    (a b : Address) (q : Request) (state : ω) : Landing × ω :=
  match Wire.toFrame Wire.request q with
  | .error e => (.answered (.error e), state)
  | .ok frame => net.deliver handle a b frame state

/-- The result of a call for its caller; none if the service crashed. -/
def request (net : Network σ) (serve : σ → Service ω) (a b : Address) (q : Request) (state : ω) :
    Option (Except RpcError q.Answer) × ω :=
  match net.call (fun service => (serve service).handle) a b q state with
  | (.answered reply, state) => (some (reply >>= q.read), state)
  | (.timedOut, state) | (.crashed, state) => (none, state)

theorem toFrame_of_fitsFrame {α : Type} {c : Wire.Codec α} {fits : α → Prop} {a : α}
    (h : Wire.FitsFrame c fits a) :
    Wire.toFrame c a = .ok (littleEndian 2 Limits.wireVersion ++ c.encode a) :=
  Wire.toFrame_eq_ok_iff.mpr ⟨rfl, h.2⟩

/-- What arrives of a message that was put into a frame and taken out again. -/
theorem frame_roundTrip {α : Type} {c : Wire.Codec α} {fits : α → Prop} (hc : c.Exact fits) {a : α}
    (h : Wire.FitsFrame c fits a) : Wire.toFrame c a >>= Wire.ofFrame c = .ok a := by
  have hframe := toFrame_of_fitsFrame h
  rw [hframe]
  exact hc.ofFrame_toFrame hframe h.1

variable {net : Network σ} {handle : σ → Address → Request → ω → Option Response × ω}
  {a b : Address} {q : Request} {state : ω}

theorem deliver_eq_handle {service : σ} {frame : Bytes} (hroute : net.route a b = .ok service)
    (hframe : Wire.toFrame Wire.request q = .ok frame) (hq : q.Fits)
    (hresponse : ∀ p ∈ (handle service a q state).1, Wire.FitsFrame Wire.response Response.Fits p) :
    net.deliver handle a b frame state =
      ((handle service a q state).1.elim .crashed fun p => .answered (.ok p),
        (handle service a q state).2) := by
  unfold deliver
  rw [hroute, Wire.request_exact.ofFrame_toFrame hframe hq]
  dsimp only
  split
  next state' hhandle => rw [hhandle]; rfl
  next p state' hhandle =>
    rw [hhandle] at hresponse ⊢
    rw [frame_roundTrip Wire.response_exact (hresponse p rfl)]
    rfl

theorem call_eq_handle {service : σ} (hroute : net.route a b = .ok service)
    (hq : Wire.FitsFrame Wire.request Request.Fits q)
    (hresponse : ∀ p ∈ (handle service a q state).1, Wire.FitsFrame Wire.response Response.Fits p) :
    net.call handle a b q state =
      ((handle service a q state).1.elim .crashed fun p => .answered (.ok p),
        (handle service a q state).2) := by
  have hframe := toFrame_of_fitsFrame hq
  unfold call
  rw [hframe]
  exact deliver_eq_handle hroute hframe hq.1 hresponse

/-- A call that does not get to a service is answered with an error, and nothing has changed. -/
theorem call_of_no_service
    (h : (∃ e, Wire.toFrame Wire.request q = .error e) ∨ ∀ service, net.route a b ≠ .ok service) :
    ∃ e, net.call handle a b q state = (.answered (.error e), state) := by
  unfold call
  split
  next e _ => exact ⟨e, rfl⟩
  next frame hframe =>
    have hroute : net.route a b = .error (.unreachable b) := by
      rcases h with ⟨e, he⟩ | h
      · rw [hframe] at he
        cases he
      · exact route_eq_error net h
    refine ⟨.unreachable b, ?_⟩
    unfold deliver
    rw [hroute]

theorem request_eq_service {serve : σ → Service ω} {service : σ} (hroute : net.route a b = .ok service)
    (hq : Wire.FitsFrame Wire.request Request.Fits q)
    (hresult : ∀ result ∈ (serve service a q state).1,
      Wire.FitsFrame Wire.response Response.Fits (q.respond result)) :
    net.request serve a b q state = serve service a q state := by
  have hresponse : ∀ p ∈ ((serve service).handle a q state).1,
      Wire.FitsFrame Wire.response Response.Fits p := by
    intro p hp
    obtain ⟨result, hresultMem, rfl⟩ := Option.map_eq_some_iff.mp hp
    exact hresult result hresultMem
  unfold request
  rw [call_eq_handle hroute hq hresponse]
  unfold Service.handle
  obtain ⟨result, state'⟩ := serve service a q state
  cases result with
  | none => rfl
  | some result =>
    have hread : (Except.ok (q.respond result) >>= q.read) = result := q.read_respond result
    exact congrArg (fun result => (some result, state')) hread

theorem request_of_no_service {serve : σ → Service ω}
    (h : (∃ e, Wire.toFrame Wire.request q = .error e) ∨ ∀ service, net.route a b ≠ .ok service) :
    ∃ e, net.request serve a b q state = (some (.error e), state) := by
  obtain ⟨e, he⟩ : ∃ e, net.call (fun service => (serve service).handle) a b q state =
      (.answered (.error e), state) := call_of_no_service h
  refine ⟨e, ?_⟩
  unfold request
  rw [he]
  rfl

theorem toFrame_error_of_large {α : Type} {c : Wire.Codec α} {a : α}
    (h : Limits.maxFrameBytes < (littleEndian 2 Limits.wireVersion ++ c.encode a).length) :
    ∃ e, Wire.toFrame c a = .error e :=
  ⟨_, if_pos h⟩

theorem route_edited_eq_ok_iff {edits : List (Edit σ)} {service : σ} :
    (edited edits).route a b = .ok service ↔
      ¬ Severed a b edits.reverse ∧ holder b edits.reverse = some service ∧
        Edit.drop service ∉ edits := by
  rw [route_eq_ok_iff, get?_services_edited, mem_gone_edited, ← isCut_edited, Bool.not_eq_true]

/-- Whatever was done to a network, a call over it gives its caller what the service at the receiver
gives when asked directly, and changes what that changes, if the link is whole, the service is there,
and request and response each fit a frame. If the request does not, the link is cut or there is no such
service, then the call gives an error, and no service was asked. Links are cut in both directions. -/
theorem request_transparent (edits : List (Edit σ)) (serve : σ → Service ω) (a b : Address) :
    (edited edits).isCut a b = (edited edits).isCut b a ∧
    ∀ (q : Request) (state : ω),
      (∀ service, ¬ Severed a b edits.reverse → holder b edits.reverse = some service →
        Edit.drop service ∉ edits → Wire.FitsFrame Wire.request Request.Fits q →
        (∀ result ∈ (serve service a q state).1,
          Wire.FitsFrame Wire.response Response.Fits (q.respond result)) →
        (edited edits).request serve a b q state = serve service a q state) ∧
      (Limits.maxFrameBytes < (littleEndian 2 Limits.wireVersion ++ Wire.request.encode q).length ∨
        Severed a b edits.reverse ∨
        (∀ service, holder b edits.reverse = some service → Edit.drop service ∈ edits) →
        ∃ e, (edited edits).request serve a b q state = (some (.error e), state)) := by
  refine ⟨isCut_edited_comm edits a b, fun q state => ⟨?_, ?_⟩⟩
  · intro service hwhole hholder halive hq hresult
    exact request_eq_service (route_edited_eq_ok_iff.mpr ⟨hwhole, hholder, halive⟩) hq hresult
  · intro h
    refine request_of_no_service ?_
    rcases h with hlarge | hcut | hgone
    · exact .inl (toFrame_error_of_large hlarge)
    · exact .inr fun service hroute => (route_edited_eq_ok_iff.mp hroute).1 hcut
    · refine .inr fun service hroute => ?_
      obtain ⟨_, hholder, halive⟩ := route_edited_eq_ok_iff.mp hroute
      exact halive (hgone service hholder)

/-- A service that sends heartbeats back, refuses to gossip, and counts its calls. -/
def echo : Service Nat
  | _, .roundState a, count => (some (.ok a), count + 1)
  | _, .gossip .., count => (some (.error (.rejected "no hashes here")), count + 1)

def mended : List (Edit Nat) := [.register "b" 0, .partition "a" "b", .heal "b" "a"]

def hashRequest : Request := .gossip .hash ⟨⟨1, 0⟩, ["x"], none⟩

theorem mended_link_refuses :
    (edited mended).request (fun _ => echo) "a" "b" hashRequest 4 =
        (some (.error (.rejected "no hashes here")), 5) ∧
      ∃ e, (edited mended).request (fun _ => echo) "b" "a" hashRequest 4 = (some (.error e), 4) := by
  refine ⟨?_, ?_⟩
  · have hwhole : ¬ Severed "a" "b" mended.reverse := by simp [mended, Severed, SameLink]
    have hsmall : Wire.FitsFrame Wire.request Request.Fits hashRequest := by
      refine ⟨⟨⟨by decide, by decide⟩, ⟨by decide, ?_⟩, by simp⟩, by decide +kernel⟩
      intro address haddress
      obtain rfl := List.mem_singleton.mp haddress
      show (utf8 "x").length < wordCount 8
      decide
    refine ((request_transparent mended (fun _ => echo) "a" "b").2 hashRequest 4).1 0 hwhole rfl
      (by simp [mended]) hsmall ?_
    rintro result ⟨⟩
    exact ⟨show (utf8 "no hashes here").length < wordCount 8 by decide +kernel, by decide +kernel⟩
  · refine ((request_transparent mended (fun _ => echo) "b" "a").2 hashRequest 4).2 (.inr (.inr ?_))
    rintro service ⟨⟩

end Network

namespace World

/-- The world when a call that departs now arrives. -/
def onArrival (w : World) : World :=
  if w.network.latency = 0 then w else w.advance (w.now + w.network.latency)

theorem call_eq_deliver (w : World) (a b : Address) {q : Request} {frame : Bytes}
    (hframe : Wire.toFrame Wire.request q = .ok frame) :
    w.call a b q = w.onArrival.deliver a b frame := by
  by_cases hlatency : w.network.latency = 0
  · have hcarry : w.carry a b 0 (.departing q) =
        (.landed (w.deliver a b frame).1, (w.deliver a b frame).2) := by
      simp only [carry, hframe, if_pos hlatency]
    simp only [call, hcarry, onArrival, if_pos hlatency]
  · have hcarry : w.carry a b 0 (.departing q) =
        (.travelling frame (w.now + w.network.latency) (w.now + 0), w) := by
      simp only [carry, hframe, if_neg hlatency]
    simp only [call, hcarry, onArrival, if_neg hlatency]

/-- A call to an agent or a scripted peer is answered as by the callee itself when the call arrives. -/
theorem call_eq_handle (w : World) {a b : Address} {q : Request} {service : Endpoint}
    (hroute : w.onArrival.network.route a b = .ok service)
    (hq : Wire.FitsFrame Wire.request Request.Fits q)
    (hresponse : ∀ p ∈ (w.onArrival.handle service a q).1,
      Wire.FitsFrame Wire.response Response.Fits p) :
    (w.call a b q).1 =
        (w.onArrival.handle service a q).1.elim .crashed (fun p => .answered (.ok p)) ∧
      (w.call a b q).2.agents = (w.onArrival.handle service a q).2.agents ∧
      (w.call a b q).2.scripts = (w.onArrival.handle service a q).2.scripts := by
  have hframe := Network.toFrame_of_fitsFrame hq
  have hlogged : ∀ size,
      (w.onArrival.handleFrame size b service a q).1 = (w.onArrival.handle service a q).1 ∧
      (w.onArrival.handleFrame size b service a q).2.agents =
        (w.onArrival.handle service a q).2.agents ∧
      (w.onArrival.handleFrame size b service a q).2.scripts =
        (w.onArrival.handle service a q).2.scripts := by
    intro size
    unfold handleFrame
    obtain ⟨_ | p, w'⟩ := w.onArrival.handle service a q <;> exact ⟨rfl, rfl, rfl⟩
  rw [call_eq_deliver w a b hframe]
  unfold deliver
  rw [Network.deliver_eq_handle hroute hframe hq.1 ((hlogged _).1 ▸ hresponse)]
  dsimp only
  rw [(hlogged _).1]
  exact ⟨rfl, (hlogged _).2⟩

end World

end Adjudication
