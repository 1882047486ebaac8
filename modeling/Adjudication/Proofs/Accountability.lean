import Adjudication.Proofs.Quorums
import Adjudication.Proofs.RoundHistory
import Adjudication.Proofs.Vouching

namespace Adjudication

/-- The node holds an entry of the address for the digest, with a signature that verifies. -/
def Node.HoldsSigned (n : Node) (key : RoundKey) (digest : String) (x : Address) : Bool :=
  (n.caches.hashes.get? key x).any fun e =>
    e.value = digest && n.verifier x (hashMessage key digest) e.signature

def Signer.Accepted (s : Signer) (verify : Verifier) : Prop :=
  ∀ message, verify s.address message (s.sign message) = true

/-- Members for whom one node holds a signed entry for one digest, and the other for the other; no fewer
than two majorities of the members share at least. -/
def SignedTwice (members : Members) (key : RoundKey) (digesta digestb : String) (na nb : Node) : Prop :=
  ∃ twice : List Address, twice.Nodup ∧ (∀ x ∈ twice, x ∈ members.addresses) ∧
    1 ≤ 2 * majority members.size - members.size ∧
    2 * majority members.size - members.size ≤ twice.length ∧
    ∀ x ∈ twice, na.HoldsSigned key digesta x = true ∧ nb.HoldsSigned key digestb x = true

namespace Agent

/-- The look by which a round decides on a digest, and the agent after it: the caches are then still
those that the look has seen, and a majority of the members agrees. -/
structure Decides (a : Agent) (script : Script) (id : Nat) (key : RoundKey) (digest : String)
    (m : Moment) (s : Agent) : Prop where
  step : ∃ before after, script = before ++ (m, .task (.round id)) :: after ∧
    s = (a.run before).act m (.task (.round id))
  agreed : ∃ c, Commitment.digest c = digest ∧ s.InRound id (RoundRun.Agreed key c)

variable {a b s : Agent} {script : Script} {id : Nat} {key : RoundKey} {digest : String} {m : Moment}
  {entries : List (Address × String)}

theorem exists_decides (hstart : a.Unbegun id)
    (h : (a.run script).outcome? id = some (.finalized key entries digest)) :
    ∃ m s, a.Decides script id key digest m s := by
  obtain ⟨toAgree, _, rest, c, rfl, _, rfl, agreed, _⟩ :=
    exists_conclusion hstart (inRound_closed_of_outcome? h)
  obtain ⟨before, m, after, rfl, agreeing⟩ := exists_agreement hstart agreed
  exact ⟨m, _, ⟨before, _, List.append_assoc _ _ _, rfl⟩, c, rfl, agreeing.first⟩

theorem Decides.majority_agrees (h : a.Decides script id key digest m s) :
    majority m.members.size ≤ m.members.addresses.countP fun x =>
      (s.node.caches.hashes.get? key x).any (·.value = digest) := by
  obtain ⟨before, after, _, rfl⟩ := h.step
  obtain ⟨c, rfl, agreed⟩ := h.agreed
  rw [← Node.tally_agreeing]
  exact (agreement_seen agreed).2

theorem Decides.sound (h : a.Decides script id key digest m s) (ha : a.Blank) :
    s.node.Sound a.node.signer a.node.verifier := by
  obtain ⟨before, after, _, rfl⟩ := h.step
  exact sound_act (sound_run ha.sound before) m _

/-- The majority that decides has signed for the digest, as far as the node can check. -/
theorem Decides.signed_majority (h : a.Decides script id key digest m s) (ha : a.Blank)
    (hsign : a.node.signer.Accepted a.node.verifier) :
    majority m.members.size ≤
      m.members.addresses.countP fun x => s.node.HoldsSigned key digest x := by
  have sound := h.sound ha
  refine Nat.le_trans h.majority_agrees (List.countP_mono_left ?_)
  intro x _ hx
  unfold Node.HoldsSigned
  cases he : s.node.caches.hashes.get? key x with
  | none => simp [he] at hx
  | some e =>
    have hvalue : e.value = digest := by simpa [he] using hx
    have vouched := sound.vouched (Cache.holds_of_get? he)
    unfold Vouched at vouched
    rw [hvalue] at vouched
    have verifies : a.node.verifier x (hashMessage key digest) e.signature = true := by
      rcases vouched with verifies | ⟨rfl, hsig⟩
      · exact verifies
      · rw [hsig]
        exact hsign _
    simp [hvalue, sound.verifier, verifies]

/-- Two nodes that finalize a key with different digests, while they count the same members, prove with
what they hold that members have signed for both. -/
theorem finalized_eq_or_signedTwice (ha : a.Blank) (hb : b.Blank)
    (hverifier : b.node.verifier = a.node.verifier)
    (hsigna : a.node.signer.Accepted a.node.verifier)
    (hsignb : b.node.signer.Accepted a.node.verifier)
    {scripta scriptb : Script} {i j : Nat} {entriesa entriesb : List (Address × String)}
    {digesta digestb : String}
    (houta : (a.run scripta).outcome? i = some (.finalized key entriesa digesta))
    (houtb : (b.run scriptb).outcome? j = some (.finalized key entriesb digestb)) :
    (∃ m s, a.Decides scripta i key digesta m s) ∧ (∃ m s, b.Decides scriptb j key digestb m s) ∧
      ∀ ma sa mb sb, a.Decides scripta i key digesta ma sa → b.Decides scriptb j key digestb mb sb →
        mb.members = ma.members →
        digesta = digestb ∨ SignedTwice ma.members key digesta digestb sa.node sb.node := by
  refine ⟨exists_decides (ha.unbegun i) houta, exists_decides (hb.unbegun j) houtb, ?_⟩
  intro ma sa mb sb decidesa decidesb hmembers
  have signeda := decidesa.signed_majority ha hsigna
  have signedb := decidesb.signed_majority hb (hverifier ▸ hsignb)
  rw [hmembers] at signedb
  refine Or.inr ⟨ma.members.addresses.filter fun x =>
    sa.node.HoldsSigned key digesta x && sb.node.HoldsSigned key digestb x, ?_, ?_, ?_, ?_, ?_⟩
  · exact ma.members.nodup.sublist List.filter_sublist
  · exact fun x hx => (List.mem_filter.mp hx).1
  · exact one_le_two_majority_sub _
  · rw [← List.countP_eq_length_filter]
    exact majorities_overlap signeda signedb
  · intro x hx
    simpa using (List.mem_filter.mp hx).2

end Agent

/-- A signer that puts its address before a checksum of the message. -/
def Signer.plain (address : Address) : Signer :=
  ⟨address, fun message =>
    address ++ ":" ++ toString (message.foldl (fun sum b => (31 * sum + b.toNat) % 65521) 1)⟩

def plainVerifier : Verifier := fun x message signature => signature = (Signer.plain x).sign message

theorem plain_accepted (x : Address) : (Signer.plain x).Accepted plainVerifier :=
  fun _ => decide_eq_true rfl

def Agent.plain (x : Address) : Agent :=
  .fresh (.plain x) plainVerifier {} {} (.ofSeed 1) .logging ⟨.ofSeed 2, {}⟩

theorem Agent.plain_blank (x : Address) : (Agent.plain x).Blank := fresh_blank _ _ _ _ _ _ _

def AddressedEntry.plain (kind : EntryKind) (key : RoundKey) (x : Address) (value : String) :
    AddressedEntry :=
  ⟨x, value, (Signer.plain x).sign (kind.message key value)⟩

namespace TwoFaced

def moment (now : Nat) : Moment := ⟨now, now, .ofList ["a", "b", "p"], 0⟩

/-- The peer reports that it is in the first phase, and the node starts a round there. -/
def opening (x : Address) : Script := [
  (moment 0, .connect "p"),
  (moment 0, .call "p" (.roundState (.sign (.plain "p") {} 0 7))),
  (moment 0, .start ⟨0, .initial, x, 5000⟩ ((Signer.plain x).sign (contributionMessage x)) 0)]

/-- The peer offers a contribution and then the digest of the two, and a majority of three is made. -/
def round (digest : String) : Script := [
  (moment 0, .task (.round 0)),
  (moment 0, .call "p" (.gossip .contribution ⟨⟨1, 0⟩, [], some (.plain .contribution ⟨1, 0⟩ "p" "p")⟩)),
  (moment 0, .task (.round 0)),
  (moment 0, .task (.round 0)),
  (moment 0, .call "p" (.gossip .hash ⟨⟨1, 0⟩, [], some (.plain .hash ⟨1, 0⟩ "p" digest)⟩)),
  (moment 0, .task (.round 0)),
  (moment 0, .task (.round 0)),
  (moment 10000, .task (.round 0))]

def digestA : String := "3bf55187675a35bb1ae76be67e15139dbb298879e7e02d80b4de4800ca6ffd1a"

def digestB : String := "ae714be8700d1540d3a074d4acce906abf72df9f6f4f8ea47c09309e1a059bea"

theorem outcome_a : ((Agent.plain "a").run (opening "a" ++ round digestA)).outcome? 0 =
    some (.finalized ⟨1, 0⟩ [("a", "a"), ("p", "p")] digestA) := by
  decide +kernel

theorem outcome_b : ((Agent.plain "b").run (opening "b" ++ round digestB)).outcome? 0 =
    some (.finalized ⟨1, 0⟩ [("b", "b"), ("p", "p")] digestB) := by
  decide +kernel

theorem decides_members {a s : Agent} {x digest : String} {m : Moment}
    (h : a.Decides (opening x ++ round digest) 0 ⟨1, 0⟩ digest m s) :
    m.members = .ofList ["a", "b", "p"] := by
  obtain ⟨before, after, hscript, _⟩ := h.step
  have hmem : (m, .task (.round 0)) ∈ opening x ++ round digest := by
    rw [hscript]
    exact List.mem_append_right _ List.mem_cons_self
  have hall : ∀ v ∈ opening x ++ round digest, v.1.members = .ofList ["a", "b", "p"] := by
    simp [opening, round, moment]
  exact hall _ hmem

/-- The peer makes both nodes finalize with it, and is found out. -/
theorem peer_signedTwice : digestA ≠ digestB ∧
    ∃ ma sa mb sb, (Agent.plain "a").Decides (opening "a" ++ round digestA) 0 ⟨1, 0⟩ digestA ma sa ∧
      (Agent.plain "b").Decides (opening "b" ++ round digestB) 0 ⟨1, 0⟩ digestB mb sb ∧
      SignedTwice (.ofList ["a", "b", "p"]) ⟨1, 0⟩ digestA digestB sa.node sb.node := by
  have differ : digestA ≠ digestB := by decide
  obtain ⟨⟨ma, sa, decidesa⟩, ⟨mb, sb, decidesb⟩, h⟩ :=
    Agent.finalized_eq_or_signedTwice (Agent.plain_blank "a") (Agent.plain_blank "b") rfl
      (plain_accepted "a") (plain_accepted "b") outcome_a outcome_b
  have hma := decides_members decidesa
  have hmb := decides_members decidesb
  rcases h ma sa mb sb decidesa decidesb (hmb.trans hma.symm) with heq | twice
  · exact absurd heq differ
  · exact ⟨differ, ma, sa, mb, sb, decidesa, decidesb, hma ▸ twice⟩

end TwoFaced

end Adjudication
