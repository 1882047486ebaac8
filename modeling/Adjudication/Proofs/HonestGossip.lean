import Adjudication.Proofs.ActiveEntries
import Adjudication.Proofs.FillRequests

namespace Adjudication

namespace Fill

variable {m : Moment} {n n' : Node} {id : Nat} {f f' : Fill} {v : Move} {x : Address} {peer : Address}

/-- The address is a target, and has an entry or is waited for, if the fill has not ended. -/
def Covers (f : Fill) (n : Node) (x : Address) : Prop :=
  x ∈ f.targets ∧ (f.isEnded = true ∨ (n.cache f.kind).contains f.key x = true ∨
    ∃ missing wake, f.stage = .waiting missing wake ∧ x ∈ missing)

theorem Covers.of_kept (h : f.Covers n x)
    (hkept : (n.cache f.kind).contains f.key x = true → (n'.cache f.kind).contains f.key x = true) :
    f.Covers n' x :=
  ⟨h.1, h.2.imp_right fun hopen => hopen.imp_left hkept⟩

/-- A batch waits for all targets that have no entry. -/
theorem Batched.covers {now : Nat} (h : Batched now f n f' n') (hx : x ∈ f.targets) :
    f'.Covers n' x := by
  refine ⟨h.targets_eq ▸ hx, ?_⟩
  cases h with
  | finish stage entropy ends => exact Or.inl ends
  | ask missing entropy perm =>
    have hasked := f.askAll_asked { n with entropy } missing
    refine Or.inr ?_
    cases hc : (n.cache f.kind).contains f.key x with
    | true =>
      refine Or.inl ?_
      dsimp only
      rw [hasked.kind, hasked.key]
      exact hc
    | false =>
      have hmissing : x ∈ f.missing n := List.mem_filter.mpr ⟨hx, by simp [hc]⟩
      exact Or.inr ⟨missing, _, rfl, perm.mem_iff.mpr hmissing⟩

theorem Takes.covers (h : Takes m f n f' n') (hx : f.Covers n x)
    (hkept : (n.cache f.kind).contains f.key x = true → (n'.cache f.kind).contains f.key x = true) :
    f'.Covers n' x := by
  cases h with
  | nothing => exact hx
  | stop => exact ⟨hx.1, Or.inl rfl⟩
  | answer => exact hx.of_kept hkept

theorem Covers.step (h : f.Covers n x)
    (hkept : (n.cache f.kind).contains f.key x = true →
      ((f.step n m).value.2.cache f.kind).contains f.key x = true) :
    (f.step n m).value.1.Covers (f.step n m).value.2 x := by
  obtain ⟨f₁, n₁, htakes, hresult | hresult⟩ := f.step_cases n m
  · rw [hresult] at hkept ⊢
    exact htakes.covers h hkept
  · have hbatched := f₁.batch_batched n₁ m.now
    rw [hresult]
    exact hbatched.covers (htakes.targets_eq ▸ h.1)

theorem Covers.moved (h : f.Covers n x) (hmoved : f.Moved m n id v f')
    (hkept : (n.cache f.kind).contains f.key x = true → (n'.cache f.kind).contains f.key x = true)
    (hstep : v = .task (.fill id) → n' = (f.step n m).value.2) : f'.Covers n' x := by
  cases hmoved with
  | marked => exact h.of_kept hkept
  | stepped =>
    rw [hstep rfl] at hkept ⊢
    exact h.step hkept
  | crashed => exact ⟨f.step_targets n m ▸ h.1, Or.inl rfl⟩
  | carried => exact h.of_kept hkept

/-- A request on its way out asks for the address. -/
def Departs (f : Fill) (x : Address) : Prop :=
  ∃ flight ∈ f.flights, ∃ kind request, flight.transit = .departing (.gossip kind request) ∧
    x ∈ request.missing

/-- Addresses that are asked for anew are waited for. -/
theorem Departs.moved (h : f'.Departs x) (hmoved : f.Moved m n id v f') (hcalls : v.MakesNoCall) :
    f.Departs x ∨ f'.Covers n' x := by
  obtain ⟨flight, hflight, kind, request, hdeparting, hx⟩ := h
  cases hmoved with
  | marked => exact Or.inl ⟨flight, hflight, kind, request, hdeparting, hx⟩
  | stepped =>
    rcases f.step_among n m flight hflight with hold | ⟨missing, wake, hstage, htargets, hamong⟩
    · exact Or.inl ⟨flight, hold, kind, request, hdeparting, hx⟩
    · have hmissing := (hamong kind request hdeparting).2 x hx
      refine Or.inr ⟨?_, Or.inr (Or.inr ⟨missing, wake, hstage, hmissing⟩)⟩
      rw [f.step_targets n m]
      exact htargets x hmissing
  | crashed => cases hflight
  | carried receiver transit =>
    obtain ⟨old, hold, rfl⟩ := List.mem_map.mp hflight
    split at hdeparting
    · have htransit : transit = .departing (.gossip kind request) := hdeparting
      rw [htransit] at hcalls
      exact hcalls.elim
    · exact Or.inl ⟨old, hold, kind, request, hdeparting, hx⟩

theorem landed_of_moved {landing : Landing} (hmoved : f.Moved m n id v f')
    (h : (⟨peer, .landed landing⟩ : Flight) ∈ f'.flights) :
    (⟨peer, .landed landing⟩ : Flight) ∈ f.flights ∨ v = .carried id peer (.landed landing) := by
  cases hmoved with
  | marked => exact Or.inl h
  | stepped =>
    rcases (f.step_asked_gains n m).1.flights _ h with hold | ⟨missing, offered, htransit, _⟩
    · exact Or.inl hold
    · cases htransit
  | crashed => cases h
  | carried receiver transit =>
    obtain ⟨old, hold, heq⟩ := List.mem_map.mp h
    split at heq
    next hpeer =>
      cases heq
      exact Or.inr (by rw [hpeer])
    next => exact Or.inl (heq ▸ hold)

/-- What has been asked for is covered, and what has landed of the peer has been asked for and passes
the check. -/
structure Expects (verifier : Verifier) (members : Members) (peer : Address) (asked : Address → Prop)
    (n : Node) (f : Fill) : Prop where
  covered : ∀ x, asked x → f.Covers n x
  landed : ∀ found : AddressedEntry,
    (⟨peer, .landed (.answered (.ok (.gossip (.entry found))))⟩ : Flight) ∈ f.flights →
      asked found.address ∧
        entryOffence? verifier members f.kind f.key found.address found.entry = none

theorem Expects.unaccused {asked : Address → Prop} (h : f.Expects n.verifier m.members peer asked n)
    (hkind : (n.cache f.kind).kind = f.kind) (offence : Offence) :
    (peer, offence) ∉ accusations (f.step n m).notices := by
  intro haccused
  obtain ⟨missing, wake, landing, hstage, hflight, habsorbed⟩ := f.mem_accusations_step n haccused
  obtain ⟨_, found, rfl, hcases⟩ := f.mem_accusations_absorb n habsorbed
  obtain ⟨hasked, hpasses⟩ := h.landed found hflight
  rcases hcases with ⟨_, hoffence⟩ | ⟨hmissing, hlacks⟩
  · rw [hkind] at hoffence
    cases hpasses.symm.trans hoffence
  · obtain ⟨_, hended | hcontains | ⟨missing', wake', hwaiting, hwaited⟩⟩ := h.covered _ hasked
    · rw [isEnded, hstage] at hended
      cases hended
    · cases hlacks.symm.trans hcontains
    · cases hstage.symm.trans hwaiting
      exact hmissing hwaited

end Fill

namespace Node

variable {m : Moment} {n : Node} {kind : EntryKind} {request : GossipRequest} {found : AddressedEntry}

theorem mem_missing_of_serve {members : Members} {caller : Address}
    (h : (n.serve members caller kind request).value.1 = .ok (.entry found)) :
    found.address ∈ request.missing := by
  have present : ∀ {c : Cache}, c.firstPresent request.key request.missing = some found →
      found.address ∈ request.missing := by
    intro c hfirst
    obtain ⟨address, hmem, haddress⟩ := List.exists_of_findSome?_eq_some hfirst
    obtain ⟨entry, _, rfl⟩ := Option.map_eq_some_iff.mp haddress
    exact hmem
  unfold serve at h
  split at h
  next => cases h
  next =>
    split at h
    · simp only [Noted.value_bind, Noted.value_pure] at h
      split at h
      next hpresent =>
        cases h
        exact present hpresent
      next => cases h
    · simp only [Noted.value_bind] at h
      split at h
      next hpresent =>
        cases h
        exact present hpresent
      next => cases h

theorem mem_missing_of_answer {caller : Address}
    (h : (n.answer m caller (.gossip kind request)).value.1 = .gossip (.entry found)) :
    found.address ∈ request.missing := by
  unfold answer at h
  simp only [Noted.value_bind] at h
  cases hr : (n.serve m.members caller kind request).value.1 with
  | ok reply =>
    rw [hr] at h
    cases h
    exact mem_missing_of_serve hr
  | error e =>
    rw [hr] at h
    cases h

end Node

namespace Agent

variable {a b : Agent} {roster : List Address} {m : Moment} {v : Move} {past script rest : Script}
  {id : Nat} {f f₀ : Fill} {kind : EntryKind} {request : GossipRequest} {found : AddressedEntry}
  {x caller : Address}

/-- At some point of the run the fill has this request to the peer on its way out. -/
def Requests (a : Agent) (script : Script) (id : Nat) (peer : Address) (kind : EntryKind)
    (request : GossipRequest) : Prop :=
  ∃ before after f, script = before ++ after ∧ (a.run before).fill? id = some f ∧
    (⟨peer, .departing (.gossip kind request)⟩ : Flight) ∈ f.flights

/-- At some point of the run the fill asks for the address. -/
def AsksFor (a : Agent) (script : Script) (id : Nat) (x : Address) : Prop :=
  ∃ before after f, script = before ++ after ∧ (a.run before).fill? id = some f ∧ f.Departs x

theorem AsksFor.append (h : a.AsksFor script id x) (rest : Script) :
    a.AsksFor (script ++ rest) id x := by
  obtain ⟨before, after, f, rfl, hf, hx⟩ := h
  exact ⟨before, after ++ rest, f, List.append_assoc _ _ _, hf, hx⟩

theorem asksFor_of_departs (hf : (a.run script).fill? id = some f) (h : f.Departs x) :
    a.AsksFor script id x :=
  ⟨script, [], f, (List.append_nil _).symm, hf, h⟩

theorem asksFor_snoc {w : Moment × Move} (h : a.AsksFor (script ++ [w]) id x) :
    a.AsksFor script id x ∨ ∃ f, (a.run (script ++ [w])).fill? id = some f ∧ f.Departs x := by
  obtain ⟨before, after, f, hsplit, hf, hx⟩ := h
  rcases List.eq_nil_or_concat after with rfl | ⟨after', u, rfl⟩
  · rw [List.append_nil] at hsplit
    rw [hsplit]
    exact Or.inr ⟨f, hf, hx⟩
  · rw [List.concat_eq_append, ← List.append_assoc] at hsplit
    obtain ⟨hscript, _⟩ := List.append_inj' hsplit rfl
    exact Or.inl ⟨before, after', f, hscript, hf, hx⟩

theorem Requests.asksFor {peer : Address} (h : a.Requests script id peer kind request)
    (hx : x ∈ request.missing) : a.AsksFor script id x := by
  obtain ⟨before, after, f, hsplit, hf, hflight⟩ := h
  exact ⟨before, after, f, hsplit, hf, _, hflight, kind, request, rfl, hx⟩

/-- After some upright run the agent answers the request with this entry. -/
def Serves (roster : List Address) (b : Agent) (caller : Address) (kind : EntryKind)
    (request : GossipRequest) (found : AddressedEntry) : Prop :=
  ∃ script m, b.Upright roster script ∧ m.members = .ofList roster ∧
    ((b.run script).receive m caller (.gossip kind request)).2.1 = some (.gossip (.entry found))

theorem mem_missing_of_receive
    (h : (a.receive m caller (.gossip kind request)).2.1 = some (.gossip (.entry found))) :
    found.address ∈ request.missing := by
  unfold receive at h
  dsimp only at h
  split at h
  next => cases h
  next => exact Node.mem_missing_of_answer (Option.some.inj h)

theorem Upright.call (h : a.Upright roster script) (hm : m.members = .ofList roster)
    (caller : Address) (r : Request) : a.Upright roster (script ++ [(m, .call caller r)]) where
  blank := h.blank
  member := h.member
  accepted := h.accepted
  members v hv := by
    rcases List.mem_append.mp hv with hold | hnew
    · exact h.members v hold
    · rw [List.mem_singleton.mp hnew]
      exact hm
  signed v hv := by
    rcases List.mem_append.mp hv with hold | hnew
    · exact h.signed v hold
    · rw [List.mem_singleton.mp hnew]
      trivial
  small := by
    refine h.small.snoc ?_
    rw [run_snoc]
    exact fun r hr => h.small.last r hr

/-- Upright agents answer with entries that were asked for and that pass the check. -/
theorem Serves.passes (h : b.Serves roster caller kind request found) :
    found.address ∈ request.missing ∧
      entryOffence? b.node.verifier (.ofList roster) kind request.key found.address found.entry =
        none := by
  obtain ⟨script, m, hupright, hm, hanswer⟩ := h
  have held := holds_of_receive hanswer
  rw [← run_snoc] at held
  exact ⟨mem_missing_of_receive hanswer, (hupright.call hm caller _).passes held⟩

/-- An upright agent, whose phases only rounds have begun, runs a fill under a key for as long as that
is active. -/
structure Pursues (roster : List Address) (a : Agent) (past script : Script) (id : Nat) (f₀ : Fill) :
    Prop where
  upright : a.Upright roster (past ++ script)
  fills : a.fills = []
  calls : ∀ v ∈ past ++ script, v.2.MakesNoCall
  onward : a.Onward past
  started : (a.run past).fill? id = some f₀
  fresh : f₀.Fresh
  active : Through (fun s => s.node.activeKey = f₀.key) (a.run past) script

/-- All entries that land for the fill as answers of `b` are answers of `b` to requests of the fill. -/
def AnsweredBy (roster : List Address) (b a : Agent) (script : Script) (id : Nat) : Prop :=
  ∀ before m found after,
    script = before ++
      (m, .carried id b.address (.landed (.answered (.ok (.gossip (.entry found)))))) :: after →
    ∃ kind request, a.Requests before id b.address kind request ∧
      b.Serves roster a.address kind request found

theorem Pursues.of_append (h : a.Pursues roster past (script ++ rest) id f₀) :
    a.Pursues roster past script id f₀ := by
  have happend := List.append_assoc past script rest
  refine ⟨?_, h.fills, ?_, h.onward, h.started, h.fresh, (through_append h.active).1⟩
  · exact (happend ▸ h.upright).of_append
  · exact fun v hv => h.calls v (happend ▸ List.mem_append_left _ hv)

theorem AnsweredBy.of_append (h : AnsweredBy roster b a (script ++ rest) id) :
    AnsweredBy roster b a script id := by
  rintro before m found after rfl
  exact h before m found (after ++ rest) (by simp)

theorem Pursues.proper (h : a.Pursues roster past script id f₀) :
    ∀ other f, ((a.run past).run script).fill? other = some f →
      other < ((a.run past).run script).nextFill ∧
        f.Proper a.node.verifier (.ofList roster) a.address := by
  rw [← run_append]
  exact h.upright.proper h.fills h.calls

theorem Pursues.numbers (h : a.Pursues roster past script id f₀) :
    ((a.run past).run script).Numbers id f₀.kind f₀.key := by
  induction script using List.reverseRecOn with
  | nil =>
    refine ⟨(h.proper id f₀ h.started).1, fun f hf => ?_⟩
    cases h.started.symm.trans hf
    exact ⟨rfl, rfl⟩
  | append_singleton script v ih =>
    rw [run_snoc]
    exact (ih h.of_append).act v.1 v.2

theorem Pursues.spared (h : a.Pursues roster past script id f₀) : ((a.run past).run script).Spared :=
  (h.upright.blank.spared.run h.onward).run (onward_of_through h.active)

theorem Pursues.round_of_requests {peer : Address} (h : a.Pursues roster past script id f₀)
    (hrequests : (a.run past).Requests script id peer kind request) :
    kind = f₀.kind ∧ request.key = f₀.key := by
  obtain ⟨before, after, f, rfl, hf, hflight⟩ := hrequests
  obtain ⟨_, hproper⟩ := h.of_append.proper id f hf
  obtain ⟨hkind, hkey⟩ := h.of_append.numbers.2 f hf
  obtain ⟨r, heq, hr, _⟩ := hproper _ hflight _ rfl
  cases heq
  exact ⟨hkind, hr.trans hkey⟩

/-- Whatever lands of an upright agent is expected. -/
theorem Pursues.expects (h : a.Pursues roster past script id f₀)
    (hverifier : b.node.verifier = a.node.verifier)
    (hanswered : AnsweredBy roster b (a.run past) script id) :
    ∀ f, ((a.run past).run script).fill? id = some f →
      f.Expects a.node.verifier (.ofList roster) b.address ((a.run past).AsksFor script id)
        ((a.run past).run script).node := by
  induction script using List.reverseRecOn with
  | nil =>
    intro f hf
    obtain ⟨kind, key, targets, cancelled, held, rfl⟩ := h.fresh
    cases h.started.symm.trans hf
    refine ⟨?_, fun _ hmem => absurd hmem List.not_mem_nil⟩
    rintro x ⟨before, after, g, hsplit, hg, flight, hflight, _⟩
    obtain ⟨rfl, rfl⟩ := List.append_eq_nil_iff.mp hsplit.symm
    cases h.started.symm.trans hg
    cases hflight
  | append_singleton script v ih =>
    obtain ⟨m, v⟩ := v
    have hbefore := h.of_append
    have hv : v.MakesNoCall := h.calls (m, v) (by simp)
    intro f' hf'
    rw [run_snoc] at hf' ⊢
    rcases fill_act hf' with ⟨f, hf, hmoved⟩ | ⟨hle, _⟩
    · have hexpects := ih hbefore hanswered.of_append f hf
      obtain ⟨hkind, hkey⟩ := hbefore.numbers.2 f hf
      have hlast := h.active.last
      rw [run_snoc] at hlast
      have hcovers : ∀ {x}, f.Covers ((a.run past).run script).node x →
          f'.Covers (((a.run past).run script).act m v).node x := by
        intro x hx
        refine hx.moved hmoved ?_ (by rintro rfl; exact node_act_of_fill hf)
        exact hbefore.spared.contains_act (hbefore.active.last.trans hkey.symm) (hlast.trans hkey.symm)
      refine ⟨?_, ?_⟩
      · intro x hx
        rcases asksFor_snoc hx with hold | ⟨g, hg, hdeparts⟩
        · exact hcovers (hexpects.covered x hold)
        · rw [run_snoc] at hg
          cases hf'.symm.trans hg
          rcases hdeparts.moved hmoved hv with hdeparted | hnew
          · exact hcovers (hexpects.covered x (asksFor_of_departs hf hdeparted))
          · exact hnew
      · intro found hflight
        obtain ⟨hkind', hkey'⟩ := hmoved.round_eq
        rcases Fill.landed_of_moved hmoved hflight with hold | rfl
        · obtain ⟨hasked, hpasses⟩ := hexpects.landed found hold
          rw [hkind', hkey']
          exact ⟨hasked.append _, hpasses⟩
        · obtain ⟨kind, request, hrequests, hserves⟩ := hanswered script m found [] rfl
          obtain ⟨hmissing, hpasses⟩ := hserves.passes
          obtain ⟨rfl, hround⟩ := hbefore.round_of_requests hrequests
          refine ⟨(hrequests.asksFor hmissing).append _, ?_⟩
          rw [hkind', hkind, hkey', hkey, ← hround, ← hverifier]
          exact hpasses
    · exact absurd hbefore.numbers.1 (Nat.not_lt.mpr hle)

/-- An agent notices in a step of a fill what the fill does. -/
theorem notices_fill (a : Agent) (m : Moment) (id : Nat) :
    a.notices m (.task (.fill id)) =
      match a.fill? id with
      | none => []
      | some f => (f.step a.node m).notices := by
  unfold notices stepOwn
  simp only [Noted.notices_bind, Noted.notices_pure, List.append_nil]
  unfold Exchanger.stepFill
  cases a.fill? id with
  | none => rfl
  | some f => simp

/-- Upright agents are never accused over gossip. While a fill runs under the active key, no request that
departs from its agent is held against that by any node with the same members, and no step of the fill
accuses an upright agent whose answers are the only entries that have landed in its name. -/
theorem gossip_unaccused (h : a.Pursues roster past script id f₀)
    (hverifier : b.node.verifier = a.node.verifier)
    (hanswered : AnsweredBy roster b (a.run past) script id) :
    (∀ other f flight request, ((a.run past).run script).fill? other = some f → flight ∈ f.flights →
      flight.transit = .departing request →
      ∀ (n : Node) (m : Moment), n.verifier = a.node.verifier → m.members = .ofList roster →
        (∀ kind, (n.cache kind).kind = kind) →
        accusations (n.answer m a.address request).notices = []) ∧
    ∀ (m : Moment) (offence : Offence), m.members = .ofList roster →
      (b.address, offence) ∉
        accusations (((a.run past).run script).notices m (.task (.fill id))) := by
  constructor
  · intro other f flight request hf hflight hdeparting n m hn hm hkinds
    obtain ⟨r, rfl, _, hproper⟩ := (h.proper other f hf).2 flight hflight request hdeparting
    rw [← hn, ← hm] at hproper
    exact Node.accusations_answer_proper hproper (hkinds f.kind)
  · intro m offence hm
    rw [notices_fill]
    split
    next => exact List.not_mem_nil
    next f hf =>
      have hexpects := h.expects hverifier hanswered f hf
      have hnode : ((a.run past).run script).node.verifier = a.node.verifier := by
        rw [← run_append]
        exact (sound_run h.upright.blank.sound _).verifier
      have hkind := h.upright.blank.cache_kind (past ++ script) f.kind
      rw [run_append] at hkind
      rw [← hnode, ← hm] at hexpects
      exact hexpects.unaccused hkind offence

end Agent

namespace LateAnswer

open TwoFaced

def roster : List Address := ["a", "b", "p"]

/-- Two peers report that they are in the first phase. -/
def reported : Script := opening "a" ++ [
  (moment 0, .connect "b"),
  (moment 0, .call "b" (.roundState (.sign (.plain "b") {} 0 8)))]

/-- The node enters the phase. -/
def started : Script := reported ++ [(moment 0, .task (.round 0))]

def contribution : AddressedEntry := .plain .contribution ⟨1, 0⟩ "p" "p"

/-- The fill asks both peers. One of them offers its contribution, so that the next batch does not wait
for it. -/
def asked : Script := [
  (moment 0, .task (.fill 0)),
  (moment 0, .call "p" (.gossip .contribution ⟨⟨1, 0⟩, [], some contribution⟩)),
  (moment 100, .task (.fill 0))]

/-- Only then its answer to the first batch lands, with the contribution. -/
def landed : Script := asked ++
  [(moment 100, .carried 0 "p" (.landed (.answered (.ok (.gossip (.entry contribution))))))]

def contributing : Script := [
  (moment 0, .start ⟨0, .initial, "p", 5000⟩ ((Signer.plain "p").sign (contributionMessage "p")) 0),
  (moment 0, .task (.round 0))]

/-- A request of the node, with its own contribution. -/
def asking (missing : List Address) : GossipRequest :=
  ⟨⟨1, 0⟩, missing, some (.plain .contribution ⟨1, 0⟩ "a" "a")⟩

theorem started_fresh : ∃ f₀, ((Agent.plain "a").run started).fill? 0 = some f₀ ∧ f₀.Fresh ∧
    f₀.key = ⟨1, 0⟩ := by
  have hkey : (((Agent.plain "a").run started).fill? 0).map Fill.key = some ⟨1, 0⟩ := by
    decide +kernel
  have hnone : (((Agent.plain "a").run reported).fill? 0).isNone = true := by decide +kernel
  obtain ⟨f₀, hf₀, hround⟩ := Option.map_eq_some_iff.mp hkey
  refine ⟨f₀, hf₀, ?_, hround⟩
  rw [started, Agent.run_snoc] at hf₀
  rcases Agent.fill_act hf₀ with ⟨f, hf, _⟩ | ⟨_, _, hfresh⟩
  · rw [hf] at hnone
    cases hnone
  · exact hfresh

theorem pursues {f₀ : Fill} (hstarted : ((Agent.plain "a").run started).fill? 0 = some f₀)
    (hfresh : f₀.Fresh) (hkey : f₀.key = ⟨1, 0⟩) :
    (Agent.plain "a").Pursues roster started landed 0 f₀ where
  upright := {
    blank := Agent.plain_blank "a"
    member := by decide
    accepted := plain_accepted "a"
    members := by decide +kernel
    signed := by decide +kernel
    small := by decide +kernel }
  fills := rfl
  calls := by decide +kernel
  onward := by decide +kernel
  started := hstarted
  fresh := hfresh
  active := by
    rw [hkey]
    decide +kernel

theorem upright_p : (Agent.plain "p").Upright roster contributing where
  blank := Agent.plain_blank "p"
  member := by decide
  accepted := plain_accepted "p"
  members := by decide +kernel
  signed := by decide +kernel
  small := by decide +kernel

/-- The first batch asks the peer for its contribution, among others. -/
theorem requests_p : ((Agent.plain "a").run started).Requests asked 0 "p" .contribution
    (asking ["b", "p"]) := by
  have hdeparts : (⟨0, .request 0 "p", "a", "p", .gossip .contribution (asking ["b", "p"])⟩ : Call) ∈
      (((Agent.plain "a").run started).run (asked.take 1)).departures 0 := by decide +kernel
  obtain ⟨_, ⟨id, f, peer, kind, request, hf, hflight, htask, hrequest⟩ | ⟨_, _, htask, _⟩⟩ :=
    Correspondence.mem_departures hdeparts
  · cases htask
    cases hrequest
    exact ⟨asked.take 1, asked.drop 1, f, rfl, hf, hflight⟩
  · cases htask

theorem answeredBy_p : Agent.AnsweredBy roster (Agent.plain "p") ((Agent.plain "a").run started) landed
    0 := by
  have hserves : (Agent.plain "p").Serves roster "a" .contribution (asking ["b", "p"]) contribution :=
    ⟨contributing, moment 0, upright_p, rfl, by decide +kernel⟩
  have quiet : ∀ v ∈ asked, ∀ fill peer transit, v.2 ≠ .carried fill peer transit := by
    simp [asked]
  intro before m found after hsplit
  rcases List.eq_nil_or_concat after with rfl | ⟨after', u, rfl⟩
  · obtain ⟨rfl, hlast⟩ := List.append_inj' hsplit rfl
    cases hlast
    refine ⟨.contribution, asking ["b", "p"], requests_p, ?_⟩
    have haddress : ((Agent.plain "a").run started).address = "a" :=
      congrArg Signer.address (Agent.signer_run _ started)
    rw [haddress]
    exact hserves
  · rw [List.concat_eq_append, ← List.cons_append, ← List.append_assoc] at hsplit
    obtain ⟨hasked, _⟩ := List.append_inj' hsplit rfl
    exact absurd rfl (quiet _ (hasked ▸ List.mem_append_right _ List.mem_cons_self) _ _ _)

/-- The node does not accuse the peer whose answer comes late, and no one the node for what it asks. -/
theorem late_answer_unaccused :
    (∃ f₀, (Agent.plain "a").Pursues roster started landed 0 f₀) ∧
    Agent.AnsweredBy roster (Agent.plain "p") ((Agent.plain "a").run started) landed 0 ∧
    (((((Agent.plain "a").run started).run landed).fill? 0).any fun f =>
      match f.stage with | .waiting missing _ => missing = ["b"] | _ => false) = true ∧
    accusations ((Agent.plain "b").node.answer (moment 100) "a"
      (.gossip .contribution (asking ["p", "b"]))).notices = [] ∧
    ∀ offence, ("p", offence) ∉ accusations
      ((((Agent.plain "a").run started).run landed).notices (moment 100) (.task (.fill 0))) := by
  obtain ⟨f₀, hstarted, hfresh, hkey⟩ := started_fresh
  have hpursues := pursues hstarted hfresh hkey
  have hverifier : (Agent.plain "p").node.verifier = (Agent.plain "a").node.verifier := rfl
  obtain ⟨hrequests, hanswers⟩ := Agent.gossip_unaccused hpursues hverifier answeredBy_p
  have hdeparts : (⟨0, .request 0 "b", "a", "b", .gossip .contribution (asking ["p", "b"])⟩ : Call) ∈
      (((Agent.plain "a").run started).run landed).departures 0 := by decide +kernel
  refine ⟨⟨f₀, hpursues⟩, answeredBy_p, by decide +kernel, ?_, fun offence => hanswers _ offence rfl⟩
  obtain ⟨_, ⟨id, f, peer, kind, request, hf, hflight, htask, hrequest⟩ | ⟨_, _, htask, _⟩⟩ :=
    Correspondence.mem_departures hdeparts
  · have hkinds : ∀ kind, ((Agent.plain "b").node.cache kind).kind = kind := by
      intro kind
      cases kind <;> rfl
    cases hrequest
    exact hrequests id f _ _ hf hflight rfl _ _ rfl rfl hkinds
  · cases htask

end LateAnswer

end Adjudication
