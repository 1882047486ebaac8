import Adjudication.Proofs.Correspondence
import Mathlib.Data.List.Nodup

namespace Adjudication

namespace Correspondence

variable {known : EntryKind → RoundKey → Address → SignedEntry → Prop} {w : Correspondence}

theorem run_agents (w : Correspondence) (strokes : List Stroke) :
    (w.run strokes).agents = w.agents.run strokes := by
  induction strokes generalizing w with
  | nil => rfl
  | cons s strokes ih => exact ih (w.act s)

theorem Truthful.run {strokes : List Stroke} (h : w.Truthful known) (hhonest : w.Honest strokes)
    (hmade : ∀ before s after, strokes = before ++ s :: after →
      (w.run before).MakesKnown known s) :
    (w.run strokes).Truthful known := by
  induction strokes generalizing w with
  | nil => exact h
  | cons s strokes ih =>
    obtain ⟨hfair, hrest⟩ := hhonest
    have hfirst := h.act hfair (hmade [] s strokes rfl)
    refine ih hfirst hrest ?_
    intro before s' after hstrokes
    exact hmade (s :: before) s' after (congrArg (s :: ·) hstrokes)

def opened (agents : Cluster) : Correspondence := { agents }

end Correspondence

/-- Agents at different addresses that nothing has happened to. -/
structure Cluster.Fresh (c : Cluster) : Prop where
  blank : ∀ a ∈ c, a.Blank
  fills : ∀ a ∈ c, a.fills = []
  distinct : (c.map Agent.address).Nodup

theorem Cluster.Fresh.truthful {c : Cluster} (h : c.Fresh)
    (known : EntryKind → RoundKey → Address → SignedEntry → Prop) :
    (Correspondence.opened c).Truthful known where
  agents i a ha := by
    have hmem : a ∈ c := List.mem_of_getElem? ha
    constructor
    · rintro kind k x e ⟨r, hr, _⟩
      rw [Node.cache, (h.blank a hmem).caches] at hr
      cases kind <;> exact absurd hr List.not_mem_nil
    · intro id f hf
      rw [Exchanger.fill?, h.fills a hmem] at hf
      cases hf
  calls call hcall := absurd hcall List.not_mem_nil
  answers answer hanswer := absurd hanswer List.not_mem_nil

/-- Where the probe that a loop waits for is. -/
def Heartbeat.transit? (b : Heartbeat) : Option Transit :=
  match b.stage with
  | .probing transit => some transit
  | _ => none

open Correspondence

namespace Cluster

variable {c : Cluster} {strokes : List Stroke} {kind : EntryKind} {key : RoundKey} {x : Address}
  {e e' : SignedEntry} {a b : Agent} {members : Members}

/-- At some time of the run an agent has held the entry for itself. -/
def Owned (c : Cluster) (strokes : List Stroke) (kind : EntryKind) (key : RoundKey) (x : Address)
    (e : SignedEntry) : Prop :=
  ∃ p ∈ strokes.inits, ∃ a ∈ c.run p, a.address = x ∧ (a.node.cache kind).Holds key x e

/-- An agent has held the entry for itself; if it is a digest, the agent at the address has signed it. -/
structure Originated (c : Cluster) (strokes : List Stroke) (kind : EntryKind) (key : RoundKey)
    (x : Address) (e : SignedEntry) : Prop where
  owned : c.Owned strokes kind key x e
  signed : kind = .hash → ∀ a ∈ c, a.address = x →
    e.signature = a.node.signer.sign (hashMessage key e.value)

theorem getElem?_run_snoc {s : Stroke} (h : (c.run strokes)[s.agent]? = some a) :
    (c.run (strokes ++ [s]))[s.agent]? = some (a.act s.moment s.move) := by
  have hrun : c.run (strokes ++ [s]) = (c.run strokes).act s := by
    rw [run, List.foldl_append]
    rfl
  rw [hrun, Correspondence.getElem?_act, if_pos rfl, h]
  rfl

theorem exists_origin (h : a ∈ c.run strokes) :
    ∃ a₀ ∈ c, a.address = a₀.address ∧ a.node.signer = a₀.node.signer := by
  obtain ⟨i, hi⟩ := List.getElem?_of_mem h
  rw [getElem?_run] at hi
  obtain ⟨a₀, ha₀, rfl⟩ := Option.map_eq_some_iff.mp hi
  have hsigner : (a₀.run (script i strokes)).node.signer = a₀.node.signer := a₀.signer_run _
  refine ⟨a₀, List.mem_of_getElem? ha₀, ?_, hsigner⟩
  rw [Agent.address, Agent.address, Node.address, Node.address, hsigner]

/-- What a round makes, its agent holds for itself right after. -/
theorem originated_of_makes {before after : List Stroke} {s : Stroke} (hfresh : c.Fresh)
    (ha : (c.run before)[s.agent]? = some a) (hmakes : a.Makes kind key x e)
    (held : ((a.act s.moment s.move).node.cache kind).Holds key x e) :
    c.Originated (before ++ s :: after) kind key x e := by
  obtain ⟨hx, id, r, _, hmade⟩ := hmakes
  have hafter := getElem?_run_snoc ha
  constructor
  · refine ⟨before ++ [s], ?_, _, List.mem_of_getElem? hafter, ?_, held⟩
    · refine (List.mem_inits _ _).mpr ⟨after, ?_⟩
      rw [List.append_assoc]
      rfl
    · rw [hx, Agent.address, Agent.address, Node.address, Node.address, a.signer_act]
  · rintro rfl b hb hbx
    obtain ⟨a₀, ha₀, haddress, hsigner⟩ := exists_origin (List.mem_of_getElem? ha)
    have hsame : a₀ = b := by
      refine List.inj_on_of_nodup_map hfresh.distinct ha₀ hb ?_
      rw [hbx, hx, haddress]
    have hsignature : e.signature = a.node.signer.sign (hashMessage key e.value) := hmade
    rw [hsignature, hsigner, hsame]

/-- In an honest run an entry is held for an agent only if the agent has held it for itself. -/
theorem originated_of_holds (hfresh : c.Fresh) (hhonest : (opened c).Honest strokes)
    (ha : a ∈ c.run strokes) (held : (a.node.cache kind).Holds key x e) :
    c.Originated strokes kind key x e := by
  have htruthful := (hfresh.truthful (c.Originated strokes)).run hhonest ?_
  · obtain ⟨i, hi⟩ := List.getElem?_of_mem ha
    refine (htruthful.agents i a ?_).held held
    rw [run_agents]
    exact hi
  · rintro before s after rfl b hb kind k x e hmakes held
    rw [run_agents] at hb
    exact originated_of_makes hfresh hb hmakes held

/-- What one agent holds for another that this one does not hold for itself now, it has held before. -/
theorem eq_or_replaced (hfresh : c.Fresh) (hhonest : (opened c).Honest strokes)
    (ha : a ∈ c.run strokes) (hb : b ∈ c.run strokes)
    (he : a.node.caches.hashes.get? key b.address = some e)
    (he' : b.node.caches.hashes.get? key b.address = some e') :
    e = e' ∨ e.value ≠ e'.value ∧ c.Owned strokes .hash key b.address e := by
  have held : (a.node.cache .hash).Holds key b.address e := Cache.holds_of_get? he
  have held' : (b.node.cache .hash).Holds key b.address e' := Cache.holds_of_get? he'
  obtain ⟨howned, hsigned⟩ := originated_of_holds hfresh hhonest ha held
  obtain ⟨_, hsigned'⟩ := originated_of_holds hfresh hhonest hb held'
  by_cases hvalue : e.value = e'.value
  · obtain ⟨b₀, hb₀, haddress, _⟩ := exists_origin hb
    have hsignature : e.signature = e'.signature := by
      rw [hsigned rfl b₀ hb₀ haddress.symm, hsigned' rfl b₀ hb₀ haddress.symm, hvalue]
    cases e
    cases e'
    cases hvalue
    cases hsignature
    exact Or.inl rfl
  · exact Or.inr ⟨hvalue, howned⟩

/-- Nothing is under way that could change what is held under the key: all requests have landed, the
agents' fills for digests of the key have ended, and no member's digest is missing to any agent. -/
def Quiescent (c : Cluster) (members : Members) (key : RoundKey) : Prop :=
  ∀ a ∈ c,
    (∀ f ∈ a.fills, ∀ flight ∈ f.2.flights, flight.transit.landing?.isSome = true) ∧
    (∀ b ∈ a.heartbeats, ∀ transit ∈ b.2.transit?, transit.landing?.isSome = true) ∧
    (∀ f ∈ a.fills, f.2.kind = .hash → f.2.key = key → f.2.isEnded = true) ∧
    ∀ x ∈ members.addresses, a.node.caches.hashes.contains key x = true

/-- All agents hold the digests that those at the members' addresses hold for themselves. -/
def Current (c : Cluster) (members : Members) (key : RoundKey) : Prop :=
  ∀ a ∈ c, ∀ b ∈ c, b.address ∈ members.addresses →
    a.node.caches.hashes.get? key b.address = b.node.caches.hashes.get? key b.address

instance (c : Cluster) (members : Members) (key : RoundKey) : Decidable (c.Quiescent members key) :=
  inferInstanceAs (Decidable (∀ a ∈ c, _))

instance (c : Cluster) (members : Members) (key : RoundKey) : Decidable (c.Current members key) :=
  inferInstanceAs (Decidable (∀ a ∈ c, _))

theorem Quiescent.exists_digest (h : c.Quiescent members key) (ha : a ∈ c)
    (hx : x ∈ members.addresses) : ∃ e, a.node.caches.hashes.get? key x = some e := by
  obtain ⟨_, _, _, hcomplete⟩ := h a ha
  exact Option.isSome_iff_exists.mp (hcomplete x hx)

/-- Once nothing is under way an agent holds a digest for every member, and it is the one that the
member stands by or another that the member has held for itself before. -/
theorem current_or_replaced (hfresh : c.Fresh) (hhonest : (opened c).Honest strokes)
    (hquiet : (c.run strokes).Quiescent members key) (ha : a ∈ c.run strokes)
    (hb : b ∈ c.run strokes) (hmember : b.address ∈ members.addresses) :
    ∃ e e', a.node.caches.hashes.get? key b.address = some e ∧
      b.node.caches.hashes.get? key b.address = some e' ∧
      (e = e' ∨ e.value ≠ e'.value ∧ c.Owned strokes .hash key b.address e) := by
  obtain ⟨e, he⟩ := hquiet.exists_digest ha hmember
  obtain ⟨e', he'⟩ := hquiet.exists_digest hb hmember
  exact ⟨e, e', he, he', eq_or_replaced hfresh hhonest ha hb he he'⟩

/-- Where no agent has ever held two digests for itself, all hold those that the members stand by. -/
theorem current_of_kept (hfresh : c.Fresh) (hhonest : (opened c).Honest strokes)
    (hquiet : (c.run strokes).Quiescent members key)
    (hkept : ∀ x e e', c.Owned strokes .hash key x e → c.Owned strokes .hash key x e' →
      e.value = e'.value) : (c.run strokes).Current members key := by
  intro a ha b hb hmember
  obtain ⟨e, he⟩ := hquiet.exists_digest ha hmember
  obtain ⟨e', he'⟩ := hquiet.exists_digest hb hmember
  rcases eq_or_replaced hfresh hhonest ha hb he he' with rfl | ⟨hvalue, howned⟩
  · rw [he, he']
  · have howned' : c.Owned strokes .hash key b.address e' :=
      ⟨strokes, (List.mem_inits _ _).mpr (List.prefix_refl _), b, hb, rfl, Cache.holds_of_get? he'⟩
    exact absurd (hkept _ _ _ howned howned') hvalue

end Cluster

namespace Retry

open Rerun

/-- Something done in the course of a run: a move of an agent's own, or a call that is answered at once
or lost. -/
abbrev Errand := Correspondence → List Stroke

def own (i now : Nat) (move : Move) : Errand := fun _ => [⟨i, moment now, move⟩]

def land (call : Call) (now : Nat) (landing : Landing) : List Stroke :=
  match call.task with
  | .request fill peer => [⟨call.agent, moment now, .carried fill peer (.landed landing)⟩]
  | .probe loop => [⟨call.agent, moment now, .probed loop (.landed landing)⟩]
  | _ => []

def departing? (w : Correspondence) (i : Nat) (receiver : Address) : Option Call :=
  ((w.agents[i]?).toList.flatMap (·.departures i)).find? fun call => call.receiver = receiver

def deliver (i now : Nat) (receiver : Address) : Errand := fun w =>
  (departing? w i receiver).toList.flatMap fun call =>
    let asked : Stroke := ⟨w.agents.findIdx fun a => a.address = receiver, moment now,
      .call call.caller call.request⟩
    asked :: (w.answer? asked).toList.flatMap fun answer =>
      land call now (.answered (.ok answer.response))

def lose (i now : Nat) (receiver : Address) : Errand := fun w =>
  (departing? w i receiver).toList.flatMap fun call => land call now .timedOut

def play : Correspondence → List Errand → List Stroke
  | _, [] => []
  | w, errand :: errands => errand w ++ play (w.run (errand w)) errands

def beat (i loop : Nat) : Errand := own i 0 (.task (.heartbeat loop))

def fill (i now id : Nat) : Errand := own i now (.task (.fill id))

def turn (i now id : Nat) : Errand := own i now (.task (.round id))

def start (i now : Nat) (x : Address) : Errand :=
  own i now (.start ⟨0, .initial, x, 5000⟩ ((Signer.plain x).sign (contributionMessage x)) now)

def errands : List Errand := [
  own 0 0 (.connect "b"), own 0 0 (.connect "c"), own 1 0 (.connect "a"), own 1 0 (.connect "c"),
  own 2 0 (.connect "a"), own 2 0 (.connect "b"),
  beat 0 0, deliver 0 0 "b", beat 0 0, beat 0 1, deliver 0 0 "c", beat 0 1,
  beat 1 1, deliver 1 0 "c", beat 1 1,
  -- the first, alone
  start 0 0 "a", turn 0 0 0, fill 0 0 0, lose 0 1000 "b", lose 0 1000 "c",
  fill 0 1000 0, fill 0 1000 0, turn 0 30000 0, fill 0 30000 0, turn 0 30000 0,
  -- the second, with the first until it commits
  start 1 30000 "b", turn 1 30000 0, fill 1 30000 0, deliver 1 30000 "a", fill 1 30000 0,
  turn 1 30000 0, fill 1 30000 0, turn 1 30000 0,
  fill 1 30000 1, lose 1 31000 "a", lose 1 31000 "c", turn 1 31000 0, fill 1 31000 1, turn 1 31000 0,
  -- the first again, with the second
  start 0 40000 "a", turn 0 40000 1, fill 0 40000 1, turn 0 40000 1,
  fill 0 40000 2, deliver 0 40000 "b", fill 0 40000 2, turn 0 40000 1, fill 0 40000 2, turn 0 40000 1,
  -- the third, with both
  start 2 50000 "c", turn 2 50000 0, fill 2 50000 0, deliver 2 50000 "a", deliver 2 50000 "b",
  fill 2 50000 0, fill 2 50000 0, turn 2 50000 0, turn 2 50000 0,
  fill 2 50000 1, deliver 2 50000 "a", deliver 2 50000 "b",
  fill 2 50000 1, fill 2 50000 1, turn 2 50000 0, turn 2 50000 0,
  -- the second again
  start 1 60000 "b", turn 1 60000 1, fill 1 60000 2, turn 1 60000 1, fill 1 60000 3, turn 1 60000 1]

def strokes : List Stroke := play (opened trio) errands

theorem trio_fresh : trio.Fresh where
  blank := trio_blank
  fills := by simp [trio, Agent.plain, Agent.fresh]
  distinct := by decide

def digestOfSecond (a : Agent) : Option String :=
  (a.node.caches.hashes.get? ⟨1, 0⟩ "b").map SignedEntry.value

theorem strokes_outcome : (∀ s ∈ strokes, s.moment.members = .ofList ["a", "b", "c"]) ∧
    (opened trio).Honest strokes ∧
    (trio.run strokes).Quiescent (.ofList ["a", "b", "c"]) ⟨1, 0⟩ ∧
    (trio.run strokes).map (fun a => (a.address, digestOfSecond a)) =
      [("a", some digestOfTwo), ("b", some digestOfAll), ("c", some digestOfTwo)] := by
  decide +kernel

theorem exists_holder {x : Address} {digest : String}
    (h : (x, some digest) ∈
      [("a", some digestOfTwo), ("b", some digestOfAll), ("c", some digestOfTwo)]) :
    ∃ a ∈ trio.run strokes, a.address = x ∧ digestOfSecond a = some digest := by
  obtain ⟨_, _, _, hdigests⟩ := strokes_outcome
  rw [← hdigests] at h
  obtain ⟨a, ha, heq⟩ := List.mem_map.mp h
  obtain ⟨haddress, hdigest⟩ := Prod.mk.inj heq
  exact ⟨a, ha, haddress, hdigest⟩

theorem exists_second :
    ∃ b ∈ trio.run strokes, b.address = "b" ∧ digestOfSecond b = some digestOfAll :=
  exists_holder (by simp)

theorem exists_third :
    ∃ a ∈ trio.run strokes, a.address = "c" ∧ digestOfSecond a = some digestOfTwo :=
  exists_holder (by simp)

/-- Honest agents with one membership come to rest with a digest that its member has replaced. -/
theorem retry_not_current : trio.Fresh ∧
    (∀ s ∈ strokes, s.moment.members = .ofList ["a", "b", "c"]) ∧ (opened trio).Honest strokes ∧
    (trio.run strokes).Quiescent (.ofList ["a", "b", "c"]) ⟨1, 0⟩ ∧
    ¬ (trio.run strokes).Current (.ofList ["a", "b", "c"]) ⟨1, 0⟩ := by
  obtain ⟨hmembers, hhonest, hquiet, _⟩ := strokes_outcome
  refine ⟨trio_fresh, hmembers, hhonest, hquiet, ?_⟩
  intro current
  obtain ⟨a, ha, _, hheld⟩ := exists_third
  obtain ⟨b, hb, haddress, hown⟩ := exists_second
  have hmember : b.address ∈ (Members.ofList ["a", "b", "c"]).addresses := by
    rw [haddress]
    decide
  have hsame := current a ha b hb hmember
  rw [haddress] at hsame
  unfold digestOfSecond at hheld hown
  rw [hsame, hown] at hheld
  exact absurd hheld (by decide)

/-- The digest that the others hold for the second agent is one that it has held for itself. -/
theorem retry_replaced : ∃ e, e.value = digestOfTwo ∧ trio.Owned strokes .hash ⟨1, 0⟩ "b" e := by
  obtain ⟨_, hhonest, hquiet, _⟩ := strokes_outcome
  obtain ⟨a, ha, _, hheld⟩ := exists_third
  obtain ⟨b, hb, haddress, hown⟩ := exists_second
  have hmember : b.address ∈ (Members.ofList ["a", "b", "c"]).addresses := by
    rw [haddress]
    decide
  obtain ⟨e, e', he, he', hcases⟩ := Cluster.current_or_replaced trio_fresh hhonest hquiet ha
    hb hmember
  rw [haddress] at he he' hcases
  unfold digestOfSecond at hheld hown
  rw [he] at hheld
  rw [he'] at hown
  have hvalue : e.value = digestOfTwo := Option.some.inj hheld
  have hvalue' : e'.value = digestOfAll := Option.some.inj hown
  rcases hcases with rfl | ⟨_, howned⟩
  · exact absurd (hvalue.symm.trans hvalue') (by decide)
  · exact ⟨e, hvalue, howned⟩

end Retry

end Adjudication
