import Adjudication.Proofs.Accountability
import Mathlib.Data.List.Infix

namespace Adjudication

abbrev Cluster := List Agent

structure Stroke where
  agent : Nat
  moment : Moment
  move : Move

def Goal.digest? : Goal → Option String
  | .collection => none
  | .tally c => some c.digest

/-- Some round of the agent tallies for the digest. -/
def Agent.standsBy (a : Agent) (key : RoundKey) (digest : String) : Bool :=
  a.rounds.any fun r => r.2.key = key && r.2.goal?.bind Goal.digest? = some digest

namespace Cluster

def act (c : Cluster) (s : Stroke) : Cluster := c.modify s.agent fun a => a.act s.moment s.move

def run (c : Cluster) (strokes : List Stroke) : Cluster := strokes.foldl act c

/-- An agent's own part of the strokes. -/
def script (i : Nat) (strokes : List Stroke) : Script :=
  strokes.filterMap fun s => if s.agent = i then some (s.moment, s.move) else none

def StoodBy (c : Cluster) (strokes : List Stroke) (x : Address) (key : RoundKey) (digest : String) :
    Prop :=
  ∃ p ∈ strokes.inits, ∃ a ∈ c.run p, a.address = x ∧ a.standsBy key digest = true

instance (c : Cluster) (strokes : List Stroke) (x : Address) (key : RoundKey) (digest : String) :
    Decidable (c.StoodBy strokes x key digest) :=
  inferInstanceAs (Decidable (∃ p ∈ strokes.inits, _))

/-- No signature is forged: who has signed a digest that an agent holds has stood by it before. -/
def Unforged (c : Cluster) (strokes : List Stroke) : Prop :=
  ∀ p ∈ strokes.inits, ∀ a ∈ c.run p, ∀ r ∈ a.node.caches.hashes.rounds, ∀ e ∈ r.2,
    a.node.verifier e.1 (hashMessage r.1 e.2.value) e.2.signature = true →
      c.StoodBy p e.1 r.1 e.2.value

instance (c : Cluster) (strokes : List Stroke) : Decidable (c.Unforged strokes) :=
  inferInstanceAs (Decidable (∀ p ∈ strokes.inits, _))

def Returned (c : Cluster) (strokes : List Stroke) (i id : Nat) (outcome : RoundOutcome) : Prop :=
  ∃ p ∈ strokes.inits, ∃ a ∈ (c.run p)[i]?, a.outcome? id = some outcome

def Agrees (c : Cluster) (strokes : List Stroke) (key : RoundKey) : Prop :=
  ∀ i j id id' entries entries' digest digest',
    c.Returned strokes i id (.finalized key entries digest) →
    c.Returned strokes j id' (.finalized key entries' digest') →
    entries = entries' ∧ digest = digest'

variable {c : Cluster} {strokes : List Stroke} {i id : Nat} {key : RoundKey} {x : Address}
  {digest : String} {entries : List (Address × String)}

@[simp] theorem run_nil (c : Cluster) : c.run [] = c := rfl

theorem getElem?_run (agents : Cluster) (strokes : List Stroke) (i : Nat) :
    (agents.run strokes)[i]? = agents[i]?.map fun a => a.run (script i strokes) := by
  induction strokes generalizing agents with
  | nil => simp [run, script]
  | cons s strokes ih =>
    have hrun : agents.run (s :: strokes) = (agents.act s).run strokes := rfl
    rw [hrun, ih, act]
    by_cases hs : s.agent = i
    · subst hs
      simp [script, Function.comp_def]
    · simp [hs, script]

/-- A part of an agent's script comes from a part of the strokes. -/
theorem exists_prefix_script {first rest : Script} (h : script i strokes = first ++ rest) :
    ∃ p, p <+: strokes ∧ script i p = first := by
  obtain ⟨p, q, rfl, hp, _⟩ := List.filterMap_eq_append_iff.mp h
  exact ⟨p, List.prefix_append p q, hp⟩

theorem exists_stroke {v : Moment × Move} (h : v ∈ script i strokes) :
    ∃ s ∈ strokes, s.moment = v.1 ∧ s.move = v.2 := by
  obtain ⟨s, hs, hv⟩ := List.mem_filterMap.mp h
  split at hv
  · cases hv
    exact ⟨s, hs, rfl, rfl⟩
  · cases hv

theorem StoodBy.mono {p : List Stroke} (hp : p <+: strokes) (h : c.StoodBy p x key digest) :
    c.StoodBy strokes x key digest := by
  obtain ⟨q, hq, ha⟩ := h
  have hqp := (List.mem_inits _ _).mp hq
  exact ⟨q, (List.mem_inits _ _).mpr (hqp.trans hp), ha⟩

end Cluster

theorem Agent.standsBy_of_tallying {a : Agent} {id : Nat} {key : RoundKey} {c : Commitment}
    (h : a.InRound id (RoundRun.Tallying key c)) : a.standsBy key c.digest = true := by
  obtain ⟨r, hr, hkey, hgoal⟩ := h
  refine List.any_eq_true.mpr ⟨(id, r), Assoc.mem_of_get? hr, ?_⟩
  simp [hkey, hgoal, Goal.digest?]

namespace Cluster

variable {c : Cluster} {strokes : List Stroke} {i j id id' : Nat} {key : RoundKey} {x : Address}
  {digest digest' : String} {entries entries' : List (Address × String)} {xs : List Address}

/-- A finalized result has the digest of its entries, and a majority of the members has stood by it. -/
theorem stood_majority (hblank : ∀ a ∈ c, a.Blank)
    (hmembers : ∀ s ∈ strokes, s.moment.members = .ofList xs) (hunforged : c.Unforged strokes)
    (h : c.Returned strokes i id (.finalized key entries digest)) :
    digest = canonicalDigest entries ∧ majority (Members.ofList xs).addresses.length ≤
      (Members.ofList xs).addresses.countP fun x => decide (c.StoodBy strokes x key digest) := by
  obtain ⟨p, hp, a, ha, hout⟩ := h
  have hp := (List.mem_inits _ _).mp hp
  rw [getElem?_run] at ha
  obtain ⟨a₀, ha₀, rfl⟩ := Option.map_eq_some_iff.mp ha
  have hblank₀ := hblank a₀ (List.mem_of_getElem? ha₀)
  refine ⟨Agent.digest_of_finalized (hblank₀.unbegun id) hout, ?_⟩
  obtain ⟨m, s, decides⟩ := Agent.exists_decides (hblank₀.unbegun id) hout
  have hsound := decides.sound hblank₀
  have hmajority := decides.majority_agrees
  obtain ⟨before, after, hscript, hs⟩ := decides.step
  obtain ⟨commitment, rfl, r, hr, agreed⟩ := decides.agreed
  -- the agent after the look is one of the cluster
  rw [List.append_cons] at hscript
  obtain ⟨q, hq, hlook⟩ := exists_prefix_script hscript
  have hs' : (c.run q)[i]? = some s := by
    rw [getElem?_run, ha₀, hlook, hs, Option.map_some, Agent.run_append]
    rfl
  have hm : m.members = .ofList xs := by
    have hstep : (m, .task (.round id)) ∈ script i p := by simp [hscript]
    obtain ⟨stroke, hstroke, hmoment, _⟩ := exists_stroke hstep
    exact (congrArg Moment.members hmoment).symm.trans (hmembers stroke (hp.subset hstroke))
  have hown : s.standsBy key commitment.digest = true :=
    Agent.standsBy_of_tallying ⟨r, hr, agreed.tallying⟩
  rw [hm] at hmajority
  refine Nat.le_trans hmajority (List.countP_mono_left ?_)
  intro x _ hx
  have hinits : q ∈ strokes.inits := (List.mem_inits _ _).mpr (hq.trans hp)
  have hmem : s ∈ c.run q := List.mem_of_getElem? hs'
  cases he : s.node.caches.hashes.get? key x with
  | none => simp [he] at hx
  | some e =>
    have hvalue : e.value = commitment.digest := by simpa [he] using hx
    have hheld := Cache.holds_of_get? he
    refine decide_eq_true ?_
    rcases hsound.vouched hheld with verifies | ⟨rfl, _⟩
    · obtain ⟨entries, hentries, rfl, hxe⟩ := hheld
      rw [← hsound.verifier] at verifies
      rw [← hvalue]
      exact (hunforged q hinits s hmem entries hentries (x, e) hxe verifies).mono (hq.trans hp)
    · exact ⟨q, hinits, s, hmem, hsound.address, hown⟩

/-- Finalized results for a key agree, unless two sets have one digest or enough members have stood by
two. -/
theorem finalized_eq_or_turned (hblank : ∀ a ∈ c, a.Blank)
    (hmembers : ∀ s ∈ strokes, s.moment.members = .ofList xs) (hunforged : c.Unforged strokes)
    (h : c.Returned strokes i id (.finalized key entries digest))
    (h' : c.Returned strokes j id' (.finalized key entries' digest')) :
    (entries = entries' ∧ digest = digest') ∨
    (entries ≠ entries' ∧ canonicalDigest entries = canonicalDigest entries') ∨
    (digest ≠ digest' ∧ ∃ turned : List Address, turned.Nodup ∧
      1 ≤ 2 * majority (Members.ofList xs).size - (Members.ofList xs).size ∧
      2 * majority (Members.ofList xs).size - (Members.ofList xs).size ≤ turned.length ∧
      ∀ x ∈ turned, x ∈ (Members.ofList xs).addresses ∧ c.StoodBy strokes x key digest ∧
        c.StoodBy strokes x key digest') := by
  obtain ⟨hdigest, hmajority⟩ := stood_majority hblank hmembers hunforged h
  obtain ⟨hdigest', hmajority'⟩ := stood_majority hblank hmembers hunforged h'
  by_cases hd : digest = digest'
  · by_cases he : entries = entries'
    · exact Or.inl ⟨he, hd⟩
    · refine Or.inr (Or.inl ⟨he, ?_⟩)
      rw [← hdigest, ← hdigest', hd]
  · refine Or.inr (Or.inr ⟨hd, (Members.ofList xs).addresses.filter fun x =>
      decide (c.StoodBy strokes x key digest) && decide (c.StoodBy strokes x key digest'), ?_, ?_, ?_,
      ?_⟩)
    · exact (Members.ofList xs).nodup.sublist List.filter_sublist
    · exact one_le_two_majority_sub _
    · rw [← List.countP_eq_length_filter]
      exact majorities_overlap hmajority hmajority'
    · intro x hx
      obtain ⟨hmem, hboth⟩ := List.mem_filter.mp hx
      rw [Bool.and_eq_true] at hboth
      exact ⟨hmem, of_decide_eq_true hboth.1, of_decide_eq_true hboth.2⟩

end Cluster

namespace Rerun

def moment (now : Nat) : Moment := ⟨now, now, .ofList ["a", "b", "c"], 0⟩

def trio : Cluster := [.plain "a", .plain "b", .plain "c"]

def meet (i : Nat) (peer : Address) : List Stroke := [
  ⟨i, moment 0, .connect peer⟩,
  ⟨i, moment 0, .call peer (.roundState (.sign (.plain peer) {} 0 7))⟩]

def start (i now : Nat) (x : Address) : Stroke :=
  ⟨i, moment now, .start ⟨0, .initial, x, 5000⟩ ((Signer.plain x).sign (contributionMessage x)) now⟩

def turn (i now id : Nat) : Stroke := ⟨i, moment now, .task (.round id)⟩

/-- A peer offers its own entry for the round. -/
def offer (i now : Nat) (kind : EntryKind) (peer : Address) (value : String) : Stroke :=
  ⟨i, moment now, .call peer (.gossip kind ⟨⟨1, 0⟩, [], some (.plain kind ⟨1, 0⟩ peer value)⟩)⟩

def digestOfTwo : String := "7ab20160e516cb6badb976c9e7c494239ffc643384d497ec0cafab39745c46c9"

def digestOfAll : String := "54ad31c7ee5aff2a333e2726a7fe19ce515172beb486b76476445870f74358e1"

def strokes : List Stroke :=
  meet 0 "b" ++ meet 0 "c" ++ meet 1 "a" ++ meet 2 "a" ++ meet 2 "b" ++ [
    start 0 0 "a", start 1 0 "b", turn 0 0 0, turn 1 0 0,
    offer 0 0 .contribution "b" "b", offer 1 0 .contribution "a" "a",
    turn 0 0 0, turn 0 0 0, turn 1 0 0, turn 1 0 0,
    offer 1 0 .hash "a" digestOfTwo, turn 1 0 0, turn 1 0 0, turn 1 10000 0,
    turn 0 10000 0, turn 0 10000 0,
    offer 2 10000 .contribution "a" "a", offer 2 10000 .contribution "b" "b",
    start 2 10000 "c", turn 2 10000 0, turn 2 10000 0,
    offer 0 10000 .contribution "c" "c", start 0 10000 "a", turn 0 10000 1, turn 0 10000 1,
    offer 0 10000 .hash "c" digestOfAll, turn 0 10000 1, turn 0 10000 1, turn 0 20000 1]

theorem trio_blank : ∀ a ∈ trio, a.Blank := by
  simp [trio, Agent.plain_blank]

theorem strokes_members : ∀ s ∈ strokes, s.moment.members = .ofList ["a", "b", "c"] := by
  simp [strokes, meet, start, turn, offer, moment]

theorem strokes_unforged : trio.Unforged strokes := by
  decide +kernel

theorem returned_of_outcome? {i id : Nat} {outcome : RoundOutcome}
    (h : (trio.run strokes)[i]?.bind (·.outcome? id) = some outcome) :
    trio.Returned strokes i id outcome := by
  obtain ⟨a, ha, hout⟩ := Option.bind_eq_some_iff.mp h
  exact ⟨strokes, (List.mem_inits _ _).mpr (List.prefix_refl _), a, ha, hout⟩

theorem second_returned :
    trio.Returned strokes 1 0 (.finalized ⟨1, 0⟩ [("a", "a"), ("b", "b")] digestOfTwo) :=
  returned_of_outcome? (by decide +kernel)

theorem first_returned : trio.Returned strokes 0 1
    (.finalized ⟨1, 0⟩ [("a", "a"), ("b", "b"), ("c", "c")] digestOfAll) :=
  returned_of_outcome? (by decide +kernel)

/-- A round that is run again need not agree with what others have finalized before. -/
theorem rerun_disagrees : (∀ a ∈ trio, a.Blank) ∧
    (∀ s ∈ strokes, s.moment.members = .ofList ["a", "b", "c"]) ∧ trio.Unforged strokes ∧
    ¬ trio.Agrees strokes ⟨1, 0⟩ := by
  refine ⟨trio_blank, strokes_members, strokes_unforged, ?_⟩
  intro agrees
  obtain ⟨hentries, _⟩ := agrees _ _ _ _ _ _ _ _ second_returned first_returned
  exact absurd hentries (by decide)

/-- In this run some member has stood by both digests. -/
theorem rerun_turned : ∃ x ∈ ["a", "b", "c"],
    trio.StoodBy strokes x ⟨1, 0⟩ digestOfTwo ∧ trio.StoodBy strokes x ⟨1, 0⟩ digestOfAll := by
  have hcases := Cluster.finalized_eq_or_turned trio_blank strokes_members strokes_unforged second_returned
    first_returned
  rcases hcases with ⟨heq, _⟩ | ⟨_, hcollision⟩ | ⟨_, turned, _, hone, hlength, hstood⟩
  · exact absurd heq (by decide)
  · have hdiffer : canonicalDigest [("a", "a"), ("b", "b")] ≠
        canonicalDigest [("a", "a"), ("b", "b"), ("c", "c")] := by decide +kernel
    exact absurd hcollision hdiffer
  · obtain ⟨x, hx⟩ := List.exists_mem_of_length_pos (Nat.lt_of_lt_of_le hone hlength)
    obtain ⟨hmember, hfirst, hsecond⟩ := hstood x hx
    have hmembers : (Members.ofList ["a", "b", "c"]).addresses = ["a", "b", "c"] := by decide
    exact ⟨x, hmembers ▸ hmember, hfirst, hsecond⟩

end Rerun

end Adjudication
