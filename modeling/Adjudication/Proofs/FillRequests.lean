import Adjudication.Proofs.Accusations
import Adjudication.Proofs.Correspondence
import Adjudication.Proofs.UprightAgents

namespace Adjudication

theorem length_rotatedSlice_le (missing : List Address) (index count : Nat) :
    (rotatedSlice missing index count).length ≤ Limits.maxMissing :=
  List.length_take_le _ _

theorem mem_of_mem_rotatedSlice {x : Address} {missing : List Address} {index count : Nat}
    (h : x ∈ rotatedSlice missing index count) : x ∈ missing := by
  rcases List.mem_append.mp (List.mem_of_mem_take h) with hdrop | htake
  · exact List.mem_of_mem_drop hdrop
  · exact List.mem_of_mem_take htake

/-- If the flight departs with a request, that asks only for missing addresses, and not for too many. -/
def Flight.AsksAmong (missing : List Address) (flight : Flight) : Prop :=
  ∀ kind request, flight.transit = .departing (.gossip kind request) →
    request.missing.length ≤ Limits.maxMissing ∧ ∀ x ∈ request.missing, x ∈ missing

namespace Fill

variable {m : Moment} {f f' : Fill} {n n' : Node} {missing : List Address}

theorem askAll_induction {P : Fill → Prop} (missing : List Address)
    (hask : ∀ f count index peer, P f → P (f.ask n missing count index peer)) (h : P f) :
    P (f.askAll n missing) := by
  have hfold : ∀ (peers : List (Address × Nat)) (count : Nat) (f : Fill), P f →
      P (peers.foldl (fun f p => f.ask n missing count p.2 p.1) f) := by
    intro peers count
    induction peers with
    | nil => exact fun _ h => h
    | cons p peers ih => exact fun f h => ih _ (hask f count p.2 p.1 h)
  exact hfold _ _ f h

theorem askAll_targets (f : Fill) (n : Node) (missing : List Address) :
    (f.askAll n missing).targets = f.targets := by
  refine askAll_induction (P := fun g => g.targets = f.targets) missing ?_ rfl
  intro g count index peer h
  unfold ask
  split
  · exact h
  · exact h

theorem askAll_among (f : Fill) (n : Node) (missing : List Address) :
    ∀ flight ∈ (f.askAll n missing).flights, flight ∈ f.flights ∨ flight.AsksAmong missing := by
  refine askAll_induction (P := fun g => ∀ flight ∈ g.flights,
    flight ∈ f.flights ∨ flight.AsksAmong missing) missing ?_ (fun _ h => Or.inl h)
  intro g count index peer h flight hflight
  unfold ask at hflight
  split at hflight
  next => exact h flight hflight
  next =>
    rcases List.mem_append.mp hflight with hold | hnew
    · exact h flight hold
    · refine Or.inr ?_
      intro kind request htransit
      rw [List.mem_singleton.mp hnew] at htransit
      cases htransit
      exact ⟨length_rotatedSlice_le _ _ _, fun x hx => mem_of_mem_rotatedSlice hx⟩

theorem Takes.flights_subset (h : Takes m f n f' n') : ∀ flight ∈ f'.flights, flight ∈ f.flights := by
  cases h with
  | nothing => exact fun _ hmem => hmem
  | stop => exact fun _ hmem => absurd hmem List.not_mem_nil
  | answer missing wake peer landing was landed => exact fun _ hmem => (List.mem_filter.mp hmem).1

theorem Takes.targets_eq (h : Takes m f n f' n') : f'.targets = f.targets := by
  cases h <;> rfl

theorem Batched.targets_eq {now : Nat} (h : Batched now f n f' n') : f'.targets = f.targets := by
  cases h with
  | finish => rfl
  | ask missing entropy perm => exact f.askAll_targets _ missing

theorem step_targets (f : Fill) (n : Node) (m : Moment) :
    (f.step n m).value.1.targets = f.targets := by
  obtain ⟨f₁, n₁, htakes, hresult | hresult⟩ := f.step_cases n m
  · rw [hresult]
    exact htakes.targets_eq
  · have hbatched := f₁.batch_batched n₁ m.now
    rw [hresult, hbatched.targets_eq, htakes.targets_eq]

theorem Batched.among {now : Nat} (h : Batched now f n f' n') :
    ∀ flight ∈ f'.flights, flight ∈ f.flights ∨ ∃ missing wake,
      f'.stage = .waiting missing wake ∧ (∀ x ∈ missing, x ∈ f.targets) ∧
        flight.AsksAmong missing := by
  cases h with
  | finish => exact fun _ hmem => absurd hmem List.not_mem_nil
  | ask missing entropy perm =>
    intro flight hflight
    rcases f.askAll_among _ missing flight hflight with hold | hnew
    · exact Or.inl hold
    · refine Or.inr ⟨missing, _, rfl, ?_, hnew⟩
      exact fun x hx => (List.mem_filter.mp (perm.mem_iff.mp hx)).1

/-- What a step adds to the flights asks among the targets that the fill now waits for. -/
theorem step_among (f : Fill) (n : Node) (m : Moment) :
    ∀ flight ∈ (f.step n m).value.1.flights, flight ∈ f.flights ∨ ∃ missing wake,
      (f.step n m).value.1.stage = .waiting missing wake ∧ (∀ x ∈ missing, x ∈ f.targets) ∧
        flight.AsksAmong missing := by
  obtain ⟨f₁, n₁, htakes, hresult | hresult⟩ := f.step_cases n m
  · rw [hresult]
    exact fun flight hflight => Or.inl (htakes.flights_subset flight hflight)
  · have hbatched := f₁.batch_batched n₁ m.now
    rw [hresult]
    intro flight hflight
    rcases hbatched.among flight hflight with hold | ⟨missing, wake, hstage, htargets, hnew⟩
    · exact Or.inl (htakes.flights_subset flight hold)
    · exact Or.inr ⟨missing, wake, hstage, htakes.targets_eq ▸ htargets, hnew⟩

end Fill

/-- The request asks for no more than it may, and offers at most an entry of the sender that passes the
check. -/
structure GossipRequest.Proper (verifier : Verifier) (members : Members) (sender : Address)
    (kind : EntryKind) (request : GossipRequest) : Prop where
  short : request.missing.length ≤ Limits.maxMissing
  offered : ∀ o ∈ request.offered, o.address = sender ∧
    entryOffence? verifier members kind request.key o.address o.entry = none

theorem Node.accusations_answer_proper {m : Moment} {n : Node} {kind : EntryKind} {caller : Address}
    {request : GossipRequest} (h : request.Proper n.verifier m.members caller kind)
    (hkind : (n.cache kind).kind = kind) :
    accusations (n.answer m caller (.gossip kind request)).notices = [] := by
  rw [accusations_answer_gossip, accusations_serve, if_neg (Nat.not_lt.mpr h.short)]
  cases ho : request.offered with
  | none => rfl
  | some o =>
    obtain ⟨haddress, hpasses⟩ := h.offered o ho
    dsimp only
    rw [accusations_takeOffer, if_neg (not_not.mpr haddress), accusations_consider, hkind, hpasses]
    split
    · split <;> rfl
    · rfl

/-- All requests that depart for the fill are proper, and for its kind and key. -/
def Fill.Proper (verifier : Verifier) (members : Members) (sender : Address) (f : Fill) : Prop :=
  ∀ flight ∈ f.flights, ∀ request, flight.transit = .departing request →
    ∃ r : GossipRequest, request = .gossip f.kind r ∧ r.key = f.key ∧
      r.Proper verifier members sender f.kind

/-- A call departs only as the task makes it: no news of it says so. -/
def Move.MakesNoCall : Move → Prop
  | .carried _ _ (.departing _) => False
  | _ => True

instance (v : Move) : Decidable v.MakesNoCall := by
  unfold Move.MakesNoCall
  split <;> infer_instance

namespace Fill

variable {verifier : Verifier} {members : Members} {m : Moment} {n : Node} {id : Nat} {f f' : Fill}
  {v : Move} {sender : Address}

theorem Proper.step (h : f.Proper verifier members sender)
    (hsender : (f.step n m).value.2.address = sender)
    (hheld : ∀ {e}, ((f.step n m).value.2.cache f.kind).get? f.key sender = some e →
      entryOffence? verifier members f.kind f.key sender e = none) :
    (f.step n m).value.1.Proper verifier members sender := by
  have hasked := (f.step_asked_gains n m).1
  intro flight hflight request hdeparting
  rw [hasked.kind, hasked.key]
  rcases hasked.flights flight hflight with hold | ⟨missing, offered, htransit, hoffered⟩
  · exact h flight hold request hdeparting
  · rcases f.step_among n m flight hflight with hold | ⟨_, _, _, _, hamong⟩
    · exact h flight hold request hdeparting
    · cases hdeparting.symm.trans htransit
      refine ⟨_, rfl, rfl, (hamong _ _ htransit).1, ?_⟩
      intro o ho
      obtain ⟨haddress, hget⟩ := hoffered o ho
      rw [hsender] at haddress hget
      rw [haddress]
      exact ⟨rfl, hheld hget⟩

theorem Proper.moved (h : f.Proper verifier members sender) (hmoved : f.Moved m n id v f')
    (hcalls : v.MakesNoCall)
    (hstep : v = .task (.fill id) → (f.step n m).value.1.Proper verifier members sender) :
    f'.Proper verifier members sender := by
  cases hmoved with
  | marked => exact h
  | stepped => exact hstep rfl
  | crashed => exact fun _ hmem => absurd hmem List.not_mem_nil
  | carried peer transit =>
    intro flight hflight request hdeparting
    obtain ⟨old, hold, rfl⟩ := List.mem_map.mp hflight
    split at hdeparting
    · have htransit : transit = .departing request := hdeparting
      rw [htransit] at hcalls
      exact hcalls.elim
    · exact h old hold request hdeparting

end Fill

namespace Agent

variable {a : Agent} {m : Moment} {id : Nat} {f : Fill} {roster : List Address} {script : Script}

theorem node_act_of_fill (hf : a.fill? id = some f) :
    (a.act m (.task (.fill id))).node = (f.step a.node m).value.2 := by
  rw [node_act_fill, Exchanger.stepFill, hf]
  simp

/-- The requests of an upright agent are proper. -/
theorem Upright.proper (h : a.Upright roster script) (hfills : a.fills = [])
    (hcalls : ∀ v ∈ script, v.2.MakesNoCall) : ∀ id f, (a.run script).fill? id = some f →
      id < (a.run script).nextFill ∧ f.Proper a.node.verifier (.ofList roster) a.address := by
  induction script using List.reverseRecOn with
  | nil =>
    intro id f hf
    rw [run_nil, Exchanger.fill?, hfills] at hf
    cases hf
  | append_singleton script v ih =>
    obtain ⟨m, v⟩ := v
    have hbefore := ih h.of_append fun w hw => hcalls w (List.mem_append_left _ hw)
    have hv : v.MakesNoCall := hcalls (m, v) (by simp)
    intro id f' hf'
    rw [run_snoc] at hf' ⊢
    rcases fill_act hf' with ⟨f, hf, hmoved⟩ | ⟨_, hlt, kind, key, targets, _, _, rfl⟩
    · obtain ⟨hlt, hproper⟩ := hbefore id f hf
      refine ⟨Nat.lt_of_lt_of_le hlt (nextFill_le_act _ m v), hproper.moved hmoved hv ?_⟩
      rintro rfl
      have hnode : ((a.run (script ++ [(m, .task (.fill id))])).node) =
          (f.step (a.run script).node m).value.2 := by
        rw [run_snoc]
        exact node_act_of_fill hf
      have haddress : (a.run (script ++ [(m, .task (.fill id))])).node.address = a.address :=
        congrArg Signer.address (signer_run a _)
      refine hproper.step (hnode ▸ haddress) fun {e} hget => ?_
      rw [← hnode] at hget
      exact h.passes (Cache.holds_of_get? hget)
    · exact ⟨hlt, fun _ hmem => absurd hmem List.not_mem_nil⟩

end Agent

end Adjudication
