import Adjudication.Proofs.Accountability
import Adjudication.Proofs.KeyInWork

namespace Adjudication

/-- The round looks for entries of a kind, or has just seen enough of them. -/
def RoundRun.Seeks (kind : EntryKind) (r : RoundRun) : Prop :=
  ∃ goal, r.goal? = some goal ∧ goal.kind = kind

open RoundRun (Seeks)

namespace Agent

variable {a : Agent} {id : Nat} {script rest : Script}

/-- No step of the round looks for entries of a kind. -/
def Quiet (id : Nat) (kind : EntryKind) : Agent → Script → Prop
  | _, [] => True
  | a, v :: script =>
    (v.2 = .task (.round id) → ¬ (a.act v.1 v.2).InRound id (Seeks kind)) ∧
      Quiet id kind (a.act v.1 v.2) script

/-- The last look of a round for entries of a kind, and the agent after it. -/
def LastLook (a : Agent) (script : Script) (id : Nat) (kind : EntryKind) (m : Moment) (s : Agent) :
    Prop :=
  s.InRound id (Seeks kind) ∧ ∃ before after, script = before ++ (m, .task (.round id)) :: after ∧
    s = (a.run before).act m (.task (.round id)) ∧ Quiet id kind s after

variable {kind : EntryKind} {p : RoundRun → Prop}

theorem quiet_append :
    Quiet id kind a (script ++ rest) ↔ Quiet id kind a script ∧ Quiet id kind (a.run script) rest := by
  induction script generalizing a with
  | nil => exact ⟨fun h => ⟨trivial, h⟩, fun h => h.2⟩
  | cons v script ih =>
    constructor
    · rintro ⟨hv, h⟩
      exact ⟨⟨hv, (ih.mp h).1⟩, (ih.mp h).2⟩
    · rintro ⟨⟨hv, h⟩, hrest⟩
      exact ⟨hv, ih.mpr ⟨h, hrest⟩⟩

theorem not_seeks_of_inRound (hp : ∀ r, p r → ¬ Seeks kind r) (h : a.InRound id p) :
    ¬ a.InRound id (Seeks kind) := by
  obtain ⟨r, hr, hpr⟩ := h
  rintro ⟨r', hr', seeks⟩
  cases hr.symm.trans hr'
  exact hp r hpr seeks

/-- While a round is in a stage that does not seek a kind, it does not look for it. -/
theorem quiet_of_through (hp : ∀ r, p r → ¬ Seeks kind r) (h : Through (InRound id p) a script) :
    Quiet id kind a script := by
  induction script generalizing a with
  | nil => trivial
  | cons v script ih =>
    exact ⟨fun _ => not_seeks_of_inRound hp h.2.first, ih h.2⟩

/-- A stage that every step leaves sees no look while it lasts. -/
theorem quiet_of_leaving (hp : ∀ r, p r → r.stage ≠ .scheduled)
    (hleave : ∀ m r n r' n', RoundRun.Turn m r n r' n' → p r → ¬ p r')
    (h : Through (InRound id p) a script) : Quiet id kind a script := by
  induction script generalizing a with
  | nil => trivial
  | cons v script ih =>
    refine ⟨?_, ih h.2⟩
    intro hv
    have hafter := h.2.first
    rw [hv] at hafter
    obtain ⟨r, r', hr, _, hpr', hturn⟩ := turn_of_inRound hp hafter
    obtain ⟨r₀, hr₀, hpr₀⟩ := h.first
    cases hr.symm.trans hr₀
    exact absurd hpr' (hleave _ _ _ _ _ hturn hpr₀)

end Agent

open Agent

instance (own : Signer) (verify : Verifier) (key : RoundKey) (x : Address) (e : SignedEntry) :
    Decidable (Vouched own verify key x e) :=
  inferInstanceAs (Decidable (_ ∨ _))

/-- The members whose entry is exactly this digest, made by the node or with a signature that
verifies. -/
def Node.standingBy (n : Node) (members : Members) (key : RoundKey) (digest : String) : List Address :=
  members.addresses.filter fun x => (n.caches.hashes.get? key x).any fun e =>
    e.value = digest && Vouched n.signer n.verifier key x e

/-- What a finalized set rests on, in the run of a round from its start. -/
structure Founded (a : Agent) (script : Script) (id : Nat) (key : RoundKey)
    (entries : List (Address × String)) (digest : String) : Prop where
  ascending : entries.Pairwise fun x y => x.1 < y.1
  own : ∃ value, (a.address, value) ∈ entries
  canonical : digest = canonicalDigest entries
  /-- When the round last looked, a majority had contributed, and all of that is in the set. -/
  gathered : ∃ m s, LastLook a script id .contribution m s ∧ m.members.addresses.Nodup ∧
    majority m.members.size ≤
      m.members.addresses.countP (s.node.caches.contributions.contains key) ∧
    ∀ x e, s.node.caches.contributions.get? key x = some e → (x, e.value) ∈ entries
  /-- When the round last looked, a majority stood by the digest. -/
  agreed : ∃ m s, LastLook a script id .hash m s ∧ m.members.addresses.Nodup ∧
    majority m.members.size ≤ (s.node.standingBy m.members key digest).length

namespace Agent

variable {a : Agent} {id : Nat} {script past : Script} {key : RoundKey} {c : Commitment}
  {entries : List (Address × String)} {digest : String}

theorem not_seeks_of_tally {kind : EntryKind} {r : RoundRun} (h : r.goal? = some (.tally c))
    (hkind : kind ≠ .hash) : ¬ Seeks kind r := by
  rintro ⟨goal, hgoal, rfl⟩
  cases h.symm.trans hgoal
  exact hkind rfl

theorem not_seeks_of_closed {kind : EntryKind} {r : RoundRun}
    (h : RoundRun.Closed key entries digest r) : ¬ Seeks kind r := by
  rintro ⟨goal, hgoal, _⟩
  unfold RoundRun.Closed RoundRun.result? at h
  unfold RoundRun.goal? at hgoal
  split at h
  next hs => simp [hs] at hgoal
  next hs => simp [hs] at hgoal
  next => cases h

/-- After the look that decides, a round that finalizes looks no more. -/
theorem exists_last_tally (hstart : a.Unbegun id)
    (h : (a.run script).InRound id (RoundRun.Closed key entries digest)) :
    ∃ before m after c, script = before ++ (m, .task (.round id)) :: after ∧
      Commitment.values c = entries ∧ c.digest = digest ∧
      ((a.run before).act m (.task (.round id))).InRound id (RoundRun.Agreed key c) ∧
      ∀ kind, Quiet id kind ((a.run before).act m (.task (.round id))) after := by
  obtain ⟨toConclude, m₃, closed, c, rfl, hvalues, hdigest, agreed, hclosed⟩ :=
    exists_conclusion hstart h
  obtain ⟨before, m, agreeing, rfl, hagreeing⟩ := exists_agreement hstart agreed
  refine ⟨before, m, agreeing ++ (m₃, .task (.round id)) :: closed, c, by simp, hvalues, hdigest,
    hagreeing.first, ?_⟩
  intro kind
  have hrun : a.run (before ++ (m, .task (.round id)) :: agreeing) =
      ((a.run before).act m (.task (.round id))).run agreeing := run_append _ _ _
  rw [hrun] at hclosed
  refine quiet_append.mpr ⟨?_, ?_, ?_⟩
  · refine quiet_of_leaving (fun _ h => RoundRun.ne_scheduled_of_goal? h.2.1) ?_ hagreeing
    intro m r n r' n' hturn before after
    cases (hturn.goal?_of_agreed before).symm.trans after.2.1
  · exact fun _ => not_seeks_of_inRound (fun _ => not_seeks_of_closed) hclosed.first
  · exact quiet_of_through (fun _ => not_seeks_of_closed) hclosed

/-- Before a tally there was a last look for contributions, and then the commitment to them. -/
theorem exists_last_collection (hstart : a.Unbegun id)
    (h : (a.run script).InRound id (RoundRun.Tallying key c)) :
    ∃ before m between m' after, script =
        before ++ (m, .task (.round id)) :: (between ++ (m', .task (.round id)) :: after) ∧
      majority m.members.size ≤ m.members.addresses.countP (fun member =>
        ((a.run before).act m (.task (.round id))).node.caches.contributions.contains key member) ∧
      ((a.run before).act m (.task (.round id))).InRound id (RoundRun.Gathered key .collection) ∧
      c = .ofEntries ((((a.run before).act m (.task (.round id))).run
        between).node.caches.contributions.entries key) ∧
      Quiet id .contribution ((a.run before).act m (.task (.round id)))
        (between ++ (m', .task (.round id)) :: after) := by
  obtain ⟨toCommit, m', tallying, r, goal, rfl, hr, gathered, hc, htallying⟩ :=
    exists_commitment hstart h
  obtain ⟨rfl, before, m, between, rfl, hcount, hgathered⟩ :=
    exists_gathering hstart ⟨r, hr, gathered⟩
  have hrun : a.run (before ++ (m, .task (.round id)) :: between) =
      ((a.run before).act m (.task (.round id))).run between := run_append _ _ _
  rw [hrun] at hc htallying
  rw [RoundRun.collected, gathered.1] at hc
  refine ⟨before, m, between, m', tallying, by simp, hcount, hgathered.first, hc, ?_⟩
  have hseeks : ∀ r, RoundRun.Tallying key c r → ¬ Seeks .contribution r :=
    fun _ h => not_seeks_of_tally h.2 (by decide)
  refine quiet_append.mpr ⟨?_, ?_, ?_⟩
  · refine quiet_of_leaving (fun _ h => RoundRun.ne_scheduled_of_goal? h.2.1) ?_ hgathered
    intro m r n r' n' hturn before after
    exact hturn.goal?_of_gathered before after.2.1
  · exact fun _ => not_seeks_of_inRound hseeks htallying.first
  · exact quiet_of_through hseeks htallying

/-- What a round tallies for has all contributions that its last look for them has seen, and its own. -/
theorem exists_kept_collection {own : Signer} {verify : Verifier} {phase : Nat}
    (hsound : a.node.Sound own verify) (hstart : a.Unbegun id) (hphased : Phased id phase a)
    (hund : Undisturbed id a script) (h : (a.run script).InRound id (RoundRun.Tallying key c))
    (hend : (a.run script).node.heightMoved key = false) :
    ∃ before m after, script = before ++ (m, .task (.round id)) :: after ∧
      majority m.members.size ≤ m.members.addresses.countP (fun member =>
        ((a.run before).act m (.task (.round id))).node.caches.contributions.contains key member) ∧
      ((a.run before).act m (.task (.round id))).InRound id (RoundRun.Gathered key .collection) ∧
      Quiet id .contribution ((a.run before).act m (.task (.round id))) after ∧
      (c.entries.Pairwise fun x y => x.1 < y.1) ∧ (∃ e, (own.address, e) ∈ c.entries) ∧
      ∀ x e, ((a.run before).act m (.task (.round id))).node.caches.contributions.get? key x =
        some e → (x, e) ∈ c.entries := by
  obtain ⟨before, m, between, m', tallying, hscript, hcount, gathered, rfl, quiet⟩ :=
    exists_last_collection hstart h
  have hlook : (a.run (before ++ [(m, .task (.round id))])).InRound id
      (RoundRun.Collecting key) := by
    obtain ⟨r, hr, hkey, hgoal, _⟩ := gathered
    exact ⟨r, by rw [run_snoc]; exact hr, hkey, hgoal⟩
  obtain ⟨toEnter, m₀, collecting, r₀, ready, hbefore, hr₀, hkey, hnode⟩ :=
    exists_entering hstart hlook
  -- the path from the entering of the phase to the end
  have hpath : script = (toEnter ++ [(m₀, .task (.round id))]) ++
      (collecting ++ (between ++ (m', .task (.round id)) :: tallying)) := by
    rw [hscript, List.append_cons before, hbefore]
    simp
  have hcollecting : ((a.run toEnter).act m₀ (.task (.round id))).run collecting =
      (a.run before).act m (.task (.round id)) := by
    rw [← run_snoc, ← run_append, ← run_snoc, hbefore]
    simp
  have hphase : r₀.phase = phase := (hphased.run toEnter).2 r₀ hr₀
  rw [hphase] at hkey
  have hphased' : Phased id key.phase ((a.run toEnter).act m₀ (.task (.round id))) := by
    rw [hkey]
    exact (hphased.run toEnter).act m₀ _
  rw [hpath, undisturbed_append, run_snoc] at hund
  rw [hpath, run_append, run_snoc] at hend
  have hactive : ((a.run toEnter).act m₀ (.task (.round id))).node.activeKey = key := by
    rw [hnode, RoundRun.entered_activeKey, hkey, hphase]
  have hheight : (((a.run toEnter).act m₀ (.task (.round id))).run
      (collecting ++ (between ++ (m', .task (.round id)) :: tallying))).node.position.height + 1 =
      key.height := by
    simpa [Node.heightMoved] using hend
  have hthrough := through_activeKey hphased' hund.2 hactive hheight
  obtain ⟨hbeforeLook, hafterLook⟩ := through_append hthrough
  rw [hcollecting] at hafterLook
  have hbetween := (through_append hafterLook).1
  -- what is held at either look is held when the round commits
  have hsound' : ((a.run before).act m (.task (.round id))).node.Sound own verify :=
    sound_act (sound_run hsound before) m _
  refine ⟨before, m, _, hscript, hcount, gathered, quiet, ?_, ?_, ?_⟩
  · exact Cache.entries_ascending _ key
  · obtain ⟨e, he⟩ := RoundRun.exists_own_entered r₀ { (a.run toEnter).node with ready }
    have howner : Node.address { (a.run toEnter).node with ready } = own.address :=
      (sound_run hsound toEnter).address
    rw [howner, ← hnode, hphase, ← hkey] at he
    have hheld := get?_contribution_run hbeforeLook he
    rw [hcollecting] at hheld
    exact ⟨e, Cache.mem_entries_of_get? (get?_contribution_run hbetween hheld)⟩
  · intro x e hx
    exact Cache.mem_entries_of_get? (get?_contribution_run hbetween hx)

/-- Those that a tally counts as agreeing stand by the digest. -/
theorem majority_standingBy {own : Signer} {verify : Verifier} {m : Moment}
    (hsound : (a.act m (.task (.round id))).node.Sound own verify)
    (h : (a.act m (.task (.round id))).InRound id (RoundRun.Agreed key c)) :
    majority m.members.size ≤
      ((a.act m (.task (.round id))).node.standingBy m.members key c.digest).length := by
  have hseen := (agreement_seen h).2
  rw [Node.tally_agreeing] at hseen
  refine Nat.le_trans hseen ?_
  unfold Node.standingBy
  rw [← List.countP_eq_length_filter]
  refine List.countP_mono_left ?_
  intro x _ hx
  cases he : (a.act m (.task (.round id))).node.caches.hashes.get? key x with
  | none => simp [he] at hx
  | some e =>
    have hvalue : e.value = c.digest := by simpa [he] using hx
    have hvouched := hsound.vouched (Cache.holds_of_get? he)
    rw [← hsound.signer, ← hsound.verifier] at hvouched
    simp [hvalue, hvouched]

/-- A round that nothing else disturbs finalizes only what majorities stand behind. -/
theorem founded_of_finalized (ha : a.Blank) {r : RoundRun}
    (hround : (a.run past).round? id = some r) (hstage : r.stage = .scheduled)
    (hund : Undisturbed id (a.run past) script)
    (hout : ((a.run past).run script).outcome? id = some (.finalized key entries digest)) :
    Founded (a.run past) script id key entries digest := by
  have hsound := sound_run ha.sound past
  have hstart : (a.run past).Unbegun id := by
    intro r' hr'
    cases hround.symm.trans hr'
    exact hstage
  have hphased : Phased id r.phase (a.run past) := by
    refine ⟨ha.numbered.run past id r hround, fun r' hr' => ?_⟩
    cases hround.symm.trans hr'
    rfl
  obtain ⟨before₂, m₂, after₂, c, hscript₂, rfl, rfl, agreed, quiet₂⟩ :=
    exists_last_tally hstart (inRound_closed_of_outcome? hout)
  have hrun₂ := run_snoc (a.run past) before₂ m₂ (.task (.round id))
  have hscript : script = (before₂ ++ [(m₂, .task (.round id))]) ++ after₂ := by simp [hscript₂]
  have htallying : ((a.run past).run (before₂ ++ [(m₂, .task (.round id))])).InRound id
      (RoundRun.Tallying key c) := by
    obtain ⟨r', hr', hkey, hgoal, _⟩ := agreed
    exact ⟨r', by rw [hrun₂]; exact hr', hkey, hgoal⟩
  have hund₂ : Undisturbed id (a.run past) (before₂ ++ [(m₂, .task (.round id))]) := by
    rw [hscript] at hund
    exact (undisturbed_append.mp hund).1
  have hmoved : ((a.run past).run (before₂ ++ [(m₂, .task (.round id))])).node.heightMoved key =
      false := by
    rw [hrun₂]
    exact (agreement_seen agreed).1
  obtain ⟨before₁, m₁, after₁, hscript₁, hcount, gathered, quiet₁, hascending, hown, hkept⟩ :=
    exists_kept_collection hsound hstart hphased hund₂ htallying hmoved
  refine ⟨?_, ?_, digest_of_tallying hstart htallying, ?_, ?_⟩
  · exact List.pairwise_map.mpr hascending
  · obtain ⟨e, he⟩ := hown
    have haddress : (a.run past).address = a.node.signer.address := hsound.address
    rw [haddress]
    exact ⟨e.value, List.mem_map_of_mem he⟩
  · refine ⟨m₁, _, ⟨?_, before₁, after₁ ++ after₂, ?_, rfl, ?_⟩, ?_, hcount, ?_⟩
    · obtain ⟨r', hr', _, hgoal, _⟩ := gathered
      exact ⟨r', hr', _, hgoal, rfl⟩
    · rw [hscript, hscript₁]
      simp
    · refine quiet_append.mpr ⟨quiet₁, ?_⟩
      rw [← run_snoc, ← run_append, List.append_assoc, List.singleton_append, ← hscript₁, hrun₂]
      exact quiet₂ .contribution
    · exact m₁.members.nodup
    · exact fun x e hx => List.mem_map_of_mem (hkept x e hx)
  · refine ⟨m₂, _, ⟨?_, before₂, after₂, hscript₂, rfl, quiet₂ .hash⟩, ?_, ?_⟩
    · obtain ⟨r', hr', _, hgoal, _⟩ := agreed
      exact ⟨r', hr', _, hgoal, rfl⟩
    · exact m₂.members.nodup
    · exact majority_standingBy (sound_act (sound_run hsound before₂) m₂ _) agreed

end Agent

theorem TwoFaced.round_founded : Founded ((Agent.plain "a").run (opening "a")) (round digestA) 0
    ⟨1, 0⟩ [("a", "a"), ("p", "p")] digestA := by
  have hround : ∃ r, ((Agent.plain "a").run (opening "a")).round? 0 = some r ∧
      r.stage = .scheduled := ⟨_, rfl, rfl⟩
  obtain ⟨r, hr, hstage⟩ := hround
  refine founded_of_finalized (Agent.plain_blank "a") hr hstage ?_ ?_
  · decide +kernel
  · rw [← Agent.run_append]
    exact outcome_a

end Adjudication
