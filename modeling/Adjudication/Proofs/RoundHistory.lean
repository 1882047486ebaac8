import Adjudication.Proofs.Conduct
import Mathlib.Data.List.Induction

namespace Adjudication

def Goal.kind : Goal → EntryKind
  | .collection => .contribution
  | .tally _ => .hash

namespace RoundRun

/-- What the round waits for, or has just finished waiting for. -/
def goal? (r : RoundRun) : Option Goal :=
  match r.stage with
  | .polling goal .. | .leaving goal .. => some goal
  | _ => none

def verdict? (r : RoundRun) : Option Verdict :=
  match r.stage with
  | .leaving _ _ verdict => some verdict
  | _ => none

def Collecting (key : RoundKey) (r : RoundRun) : Prop := r.key = key ∧ r.goal? = some .collection

/-- Has seen enough entries for a goal to commit. -/
def Gathered (key : RoundKey) (goal : Goal) (r : RoundRun) : Prop :=
  r.key = key ∧ r.goal? = some goal ∧
    ∃ count need waited, r.verdict? = some (.collected count need waited)

def Tallying (key : RoundKey) (c : Commitment) (r : RoundRun) : Prop :=
  r.key = key ∧ r.goal? = some (.tally c)

def Agreed (key : RoundKey) (c : Commitment) (r : RoundRun) : Prop :=
  r.key = key ∧ r.goal? = some (.tally c) ∧ ∃ agreeing need, r.verdict? = some (.agreed agreeing need)

/-- What a round that has its majority finalizes, at once or once no one is behind. -/
def result? (r : RoundRun) : Option RoundOutcome :=
  match r.stage with
  | .catchingUp c .. => some (.finalized r.key c.values c.digest)
  | .ended (.finalized key entries digest) .. => some (.finalized key entries digest)
  | _ => none

/-- Has finalized a set under its digest, and waits for those behind or is done. -/
def Closed (key : RoundKey) (entries : List (Address × String)) (digest : String) (r : RoundRun) :
    Prop :=
  r.result? = some (.finalized key entries digest)

variable {m : Moment} {r r' : RoundRun} {n n' : Node} {key : RoundKey} {c : Commitment} {goal : Goal}
  {stage : RoundStage} {entries : List (Address × String)} {digest : String}

theorem Looked.eq_of_goal? {goal' : Goal} (h : Looked r n m goal stage)
    (hg : { r with stage }.goal? = some goal') : goal' = goal := by
  cases h with
  | pending => exact (Option.some.inj hg).symm
  | settled => exact (Option.some.inj hg).symm
  | deserted => cases hg

theorem Looked.settled_of_verdict? {verdict : Verdict} (h : Looked r n m goal stage)
    (hv : { r with stage }.verdict? = some verdict) :
    ∃ since, r.sight n m goal since = .settled verdict := by
  cases h with
  | pending => simp [verdict?] at hv
  | settled since fill v seen =>
    have hvv : v = verdict := by simpa [verdict?] using hv
    exact ⟨since, hvv ▸ seen⟩
  | deserted => simp [verdict?] at hv

theorem Looked.result?_eq_none (h : Looked r n m goal stage) : { r with stage }.result? = none := by
  cases h with
  | pending => rfl
  | settled => rfl
  | deserted => rfl

theorem Closing.goal?_eq_none (h : Closing r c stage) : { r with stage }.goal? = none := by
  cases h with
  | waiting => rfl
  | done => rfl

theorem Closing.result?_eq (h : Closing r c stage) :
    { r with stage }.result? = some (.finalized r.key c.values c.digest) := by
  cases h with
  | waiting => rfl
  | done => rfl

theorem pollTally_eq_agreed {timeout since agreeing need : Nat}
    (h : n.pollTally m key digest timeout since = .settled (.agreed agreeing need)) :
    n.heightMoved key = false ∧ majority m.members.size ≤ (n.tally m key digest).agreeing := by
  unfold Node.pollTally at h
  split at h
  next => cases h
  next hmoved =>
    split at h
    next => cases h
    next =>
      dsimp only at h
      split at h
      next hneed => exact ⟨by simpa using hmoved, hneed⟩
      next =>
        split at h
        next => cases h
        next =>
          split at h
          next => cases h
          next => split at h <;> cases h

theorem pollTally_ne_collected {timeout since count need waited : Nat} :
    n.pollTally m key digest timeout since ≠ .settled (.collected count need waited) := by
  unfold Node.pollTally
  dsimp only
  repeat' split
  all_goals simp

theorem pollCollection_eq_collected {kind : RoundKind} {since count need waited : Nat}
    (h : n.pollCollection m key kind since = .settled (.collected count need waited)) :
    majority m.members.size ≤
      m.members.addresses.countP fun member => n.caches.contributions.contains key member := by
  unfold Node.pollCollection at h
  split at h
  next => cases h
  next =>
    split at h
    next => cases h
    next =>
      dsimp only at h
      split at h
      next =>
        split at h
        next hneed => exact hneed
        next => cases h
      next => cases h

theorem Turn.phase_eq (t : Turn m r n r' n') : r'.phase = r.phase := by
  cases t <;> rfl

theorem Turn.of_closed (t : Turn m r n r' n') (h : Closed key entries digest r')
    (hne : ¬ Closed key entries digest r) :
    ∃ c, c.values = entries ∧ c.digest = digest ∧ Agreed key c r := by
  unfold Closed at h hne
  cases t with
  | enter ready stage starts looked =>
    rw [looked.result?_eq_none] at h
    cases h
  | look goal since fill wake watching stage was looked =>
    rw [looked.result?_eq_none] at h
    cases h
  | commit goal fill count need waited stage was looked =>
    rw [looked.result?_eq_none] at h
    cases h
  | conclude c fill agreeing need stage was closing =>
    rw [closing.result?_eq] at h
    cases h
    exact ⟨c, rfl, rfl, rfl, by simp [goal?, was], agreeing, need, by simp [verdict?, was]⟩
  | catchUp c deadline wake stage was closing =>
    rw [closing.result?_eq] at h
    exact absurd (by rw [← h]; simp [result?, was]) hne
  | giveUp => cases h
  | idle => exact absurd h hne

/-- A verdict is that of a look at the node as it then is. -/
theorem Turn.seen {verdict : Verdict} (t : Turn m r n r' n') (hgoal : r'.goal? = some goal)
    (hverdict : r'.verdict? = some verdict) :
    r' = r ∨ ∃ since, r'.sight n' m goal since = .settled verdict := by
  cases t with
  | enter ready stage starts looked =>
    rw [looked.eq_of_goal? hgoal]
    exact Or.inr (looked.settled_of_verdict? hverdict)
  | look goal' since fill wake watching stage was looked =>
    rw [looked.eq_of_goal? hgoal]
    exact Or.inr (looked.settled_of_verdict? hverdict)
  | commit goal' fill count need waited stage was looked =>
    rw [looked.eq_of_goal? hgoal]
    exact Or.inr (looked.settled_of_verdict? hverdict)
  | conclude c fill agreeing need stage was closing =>
    cases closing.goal?_eq_none.symm.trans hgoal
  | catchUp c deadline wake stage was closing =>
    cases closing.goal?_eq_none.symm.trans hgoal
  | giveUp => cases hgoal
  | idle => exact Or.inl rfl

/-- A round has its goal from before, or has just entered its phase, or has just committed. -/
theorem Turn.goal?_cases (t : Turn m r n r' n') (hgoal : r'.goal? = some goal) :
    (r'.key = r.key ∧ r.goal? = some goal) ∨
    (goal = .collection ∧ r'.key = ⟨n.position.height + 1, r.phase⟩ ∧
      ∃ ready, n' = r.entered { n with ready }) ∨
    (goal = .tally (r.collected n) ∧ r'.key = r.key ∧ ∃ before, Gathered r.key before r) := by
  cases t with
  | enter ready stage starts looked =>
    exact Or.inr (Or.inl ⟨looked.eq_of_goal? hgoal, rfl, ready, rfl⟩)
  | look goal' since fill wake watching stage was looked =>
    refine Or.inl ⟨rfl, ?_⟩
    rw [looked.eq_of_goal? hgoal]
    simp [goal?, was]
  | commit goal' fill count need waited stage was looked =>
    have gathered : Gathered r.key goal' r :=
      ⟨rfl, by simp [goal?, was], count, need, waited, by simp [verdict?, was]⟩
    exact Or.inr (Or.inr ⟨looked.eq_of_goal? hgoal, rfl, goal', gathered⟩)
  | conclude c fill agreeing need stage was closing =>
    cases closing.goal?_eq_none.symm.trans hgoal
  | catchUp c deadline wake stage was closing =>
    cases closing.goal?_eq_none.symm.trans hgoal
  | giveUp => cases hgoal
  | idle => exact Or.inl ⟨rfl, hgoal⟩

/-- A majority agrees when a look at the tally says so, and the height has not moved then. -/
theorem Turn.of_agreed (t : Turn m r n r' n') (h : Agreed key c r') (hne : ¬ Agreed key c r) :
    n'.heightMoved key = false ∧ majority m.members.size ≤ (n'.tally m key c.digest).agreeing := by
  obtain ⟨hkey, hgoal, agreeing, need, hverdict⟩ := h
  rcases t.seen hgoal hverdict with heq | ⟨since, hseen⟩
  · subst heq
    exact absurd ⟨hkey, hgoal, agreeing, need, hverdict⟩ hne
  · exact hkey ▸ pollTally_eq_agreed hseen

theorem Turn.of_tallying (t : Turn m r n r' n') (h : Tallying key c r') (hne : ¬ Tallying key c r) :
    c = r.collected n ∧ ∃ goal, Gathered key goal r := by
  obtain ⟨hkey, hgoal⟩ := h
  rcases t.goal?_cases hgoal with ⟨hsame, hbefore⟩ | ⟨hcollection, _⟩ | ⟨htally, hsame, hgathered⟩
  · exact absurd ⟨hsame.symm.trans hkey, hbefore⟩ hne
  · cases hcollection
  · cases htally
    rw [← hsame, hkey] at hgathered
    exact ⟨rfl, hgathered⟩

theorem Turn.of_gathered (t : Turn m r n r' n') (h : Gathered key goal r')
    (hne : ¬ Gathered key goal r) :
    goal = .collection ∧ majority m.members.size ≤
      m.members.addresses.countP fun member => n'.caches.contributions.contains key member := by
  obtain ⟨hkey, hgoal, count, need, waited, hverdict⟩ := h
  rcases t.seen hgoal hverdict with heq | ⟨since, hseen⟩
  · subst heq
    exact absurd ⟨hkey, hgoal, count, need, waited, hverdict⟩ hne
  · cases goal with
    | collection => exact ⟨rfl, hkey ▸ pollCollection_eq_collected hseen⟩
    | tally c => exact absurd hseen pollTally_ne_collected

/-- A round collects under the key of the node's height and its own phase, which it has entered. -/
theorem Turn.of_collecting (t : Turn m r n r' n') (h : Collecting key r')
    (hne : ¬ Collecting key r) :
    key = ⟨n.position.height + 1, r.phase⟩ ∧ ∃ ready, n' = r.entered { n with ready } := by
  obtain ⟨hkey, hgoal⟩ := h
  rcases t.goal?_cases hgoal with ⟨hsame, hbefore⟩ | ⟨_, hnew, hentered⟩ | ⟨htally, _⟩
  · exact absurd ⟨hsame.symm.trans hkey, hbefore⟩ hne
  · exact ⟨hkey.symm.trans hnew, hentered⟩
  · cases htally

theorem stage_of_verdict? {verdict : Verdict} (hg : r.goal? = some goal)
    (hv : r.verdict? = some verdict) : ∃ fill, r.stage = .leaving goal fill verdict := by
  unfold goal? at hg
  unfold verdict? at hv
  split at hv
  next goal' fill verdict' hs =>
    rw [hs] at hg
    cases hg
    cases hv
    exact ⟨fill, hs⟩
  next => cases hv

theorem Turn.goal?_of_agreed (t : Turn m r n r' n') (h : Agreed key c r) : r'.goal? = none := by
  obtain ⟨_, hgoal, agreeing, need, hverdict⟩ := h
  obtain ⟨fill, hs⟩ := stage_of_verdict? hgoal hverdict
  cases t with
  | enter ready stage starts looked =>
    rw [hs] at starts
    exact starts.elim
  | look goal since fill wake watching stage was looked => cases hs.symm.trans was
  | commit goal fill count need waited stage was looked => cases hs.symm.trans was
  | conclude c' fill agreeing' need' stage was closing => exact closing.goal?_eq_none
  | catchUp c' deadline wake stage was closing => cases hs.symm.trans was
  | giveUp => rfl
  | idle was =>
    rcases was with ⟨outcome, time, ready, hw⟩ | ⟨fill', agreeing', need', hw⟩
    · cases hs.symm.trans hw
    · cases hs.symm.trans hw

theorem Turn.goal?_of_gathered (t : Turn m r n r' n') (h : Gathered key goal r) :
    r'.goal? ≠ some .collection := by
  obtain ⟨_, hgoal, count, need, waited, hverdict⟩ := h
  obtain ⟨fill, hs⟩ := stage_of_verdict? hgoal hverdict
  cases t with
  | enter ready stage starts looked =>
    rw [hs] at starts
    exact starts.elim
  | look goal since fill wake watching stage was looked => cases hs.symm.trans was
  | commit goal fill count need waited stage was looked =>
    intro hcollection
    cases looked.eq_of_goal? hcollection
  | conclude c' fill agreeing' need' stage was closing => cases hs.symm.trans was
  | catchUp c' deadline wake stage was closing => cases hs.symm.trans was
  | giveUp => simp [goal?]
  | idle was =>
    rcases was with ⟨outcome, time, ready, hw⟩ | ⟨fill', agreeing', need', hw⟩
    · cases hs.symm.trans hw
    · cases hs.symm.trans hw

theorem Agreed.tallying (h : Agreed key c r) : Tallying key c r := ⟨h.1, h.2.1⟩

theorem ne_scheduled_of_goal? (h : r.goal? = some goal) : r.stage ≠ .scheduled := by
  intro hs
  simp [goal?, hs] at h

theorem Closed.ne_scheduled (h : Closed key entries digest r) : r.stage ≠ .scheduled := by
  intro hs
  simp [Closed, result?, hs] at h

theorem closed_of_outcome? (h : r.outcome? = some (.finalized key entries digest)) :
    Closed key entries digest r := by
  unfold outcome? at h
  split at h
  next outcome time ready hs =>
    cases h
    simp [Closed, result?, hs]
  next => cases h

end RoundRun

open RoundRun

namespace Agent

variable {a : Agent} {id : Nat} {script : Script} {P : Agent → Prop} {p : RoundRun → Prop}

def InRound (id : Nat) (p : RoundRun → Prop) (a : Agent) : Prop := ∃ r, a.round? id = some r ∧ p r

/-- A round that has not taken a step. -/
def Unbegun (a : Agent) (id : Nat) : Prop := ∀ r, a.round? id = some r → r.stage = .scheduled

theorem Blank.unbegun (h : a.Blank) (id : Nat) : a.Unbegun id := by
  intro r hr
  rw [round?, h.rounds] at hr
  cases hr

/-- A property of all states of a run, the first and the last included. -/
def Through (P : Agent → Prop) : Agent → Script → Prop
  | a, [] => P a
  | a, v :: script => P a ∧ Through P (a.act v.1 v.2) script

instance decidableThrough [DecidablePred P] : ∀ (a : Agent) (script : Script),
    Decidable (Through P a script)
  | a, [] => inferInstanceAs (Decidable (P a))
  | a, v :: script =>
    have := decidableThrough (a.act v.1 v.2) script
    inferInstanceAs (Decidable (_ ∧ _))

theorem Through.first (h : Through P a script) : P a := by
  cases script with
  | nil => exact h
  | cons v script => exact h.1

theorem Through.last (h : Through P a script) : P (a.run script) := by
  induction script generalizing a with
  | nil => exact h
  | cons v script ih => exact ih h.2

theorem Through.snoc {v : Moment × Move} (h : Through P a script) (hv : P (a.run (script ++ [v]))) :
    Through P a (script ++ [v]) := by
  induction script generalizing a with
  | nil => exact ⟨h, hv⟩
  | cons u script ih => exact ⟨h.1, ih h.2 hv⟩

theorem through_append {rest : Script} (h : Through P a (script ++ rest)) :
    Through P a script ∧ Through P (a.run script) rest := by
  induction script generalizing a with
  | nil => exact ⟨h.first, h⟩
  | cons v script ih =>
    obtain ⟨hfirst, hrest⟩ := h
    exact ⟨⟨hfirst, (ih hrest).1⟩, (ih hrest).2⟩

/-- The last move by which a run came to have a property. -/
theorem exists_entry (h₀ : ¬ P a) (h : P (a.run script)) :
    ∃ before m v after, script = before ++ (m, v) :: after ∧ ¬ P (a.run before) ∧
      Through P ((a.run before).act m v) after := by
  induction script using List.reverseRecOn with
  | nil => exact absurd h h₀
  | append_singleton script v ih =>
    by_cases hp : P (a.run script)
    · obtain ⟨before, m, w, after, rfl, hbefore, hafter⟩ := ih hp
      refine ⟨before, m, w, after ++ [v], by simp, hbefore, hafter.snoc ?_⟩
      simpa [run_append] using h
    · refine ⟨script, v.1, v.2, [], rfl, hp, ?_⟩
      rwa [run_append] at h

theorem turned_of_entry {m : Moment} {v : Move} (hp : ∀ r, p r → r.stage ≠ .scheduled)
    (h₀ : ¬ a.InRound id p) (h : (a.act m v).InRound id p) :
    v = .task (.round id) ∧ ∃ r, Turned m a (a.act m v) id r := by
  obtain ⟨r', hr', hp'⟩ := h
  rcases act_cases a m v with ⟨other, r, rfl, turned⟩ | between
  · by_cases hid : id = other
    · subst id
      exact ⟨rfl, r, turned⟩
    · rw [turned.others id hid] at hr'
      exact absurd ⟨r', hr', hp'⟩ h₀
  · rcases between.rounds id with hsame | hnone | ⟨_, _, r, hr, hs⟩
    · rw [hsame] at hr'
      exact absurd ⟨r', hr', hp'⟩ h₀
    · rw [hnone] at hr'
      cases hr'
    · rw [hr] at hr'
      cases hr'
      exact absurd hs (hp r' hp')

theorem turn_of_inRound {m : Moment} (hp : ∀ r, p r → r.stage ≠ .scheduled)
    (h : (a.act m (.task (.round id))).InRound id p) :
    ∃ r r', a.round? id = some r ∧ (a.act m (.task (.round id))).round? id = some r' ∧ p r' ∧
      Turn m r a.node r' (a.act m (.task (.round id))).node := by
  have hturned : ∃ r, Turned m a (a.act m (.task (.round id))) id r := by
    by_cases h₀ : a.InRound id p
    · obtain ⟨r, hr, _⟩ := h₀
      exact ⟨r, turned_act hr⟩
    · exact (turned_of_entry hp h₀ h).2
  obtain ⟨r, turned⟩ := hturned
  obtain ⟨r', hr', hpr'⟩ := h
  have hturn := r.step_turn a.toExchanger m
  rw [← turned.node, Option.some.inj (turned.after.symm.trans hr')] at hturn
  exact ⟨r, r', turned.before, hr', hpr', hturn⟩

/-- The last step by which a round came into a stage, with what it was before. -/
theorem exists_turn_into (hp : ∀ r, p r → r.stage ≠ .scheduled) (hstart : a.Unbegun id)
    (h : (a.run script).InRound id p) :
    ∃ before m after r r', script = before ++ (m, .task (.round id)) :: after ∧
      (a.run before).round? id = some r ∧ ¬ p r ∧ p r' ∧
      Turn m r (a.run before).node r' ((a.run before).act m (.task (.round id))).node ∧
      Through (InRound id p) ((a.run before).act m (.task (.round id))) after := by
  have h₀ : ¬ a.InRound id p := by
    rintro ⟨r, hr, hpr⟩
    exact hp r hpr (hstart r hr)
  obtain ⟨before, m, v, after, hscript, hbefore, hafter⟩ := exists_entry h₀ h
  obtain ⟨rfl, _⟩ := turned_of_entry hp hbefore hafter.first
  obtain ⟨r, r', hr, _, hpr', hturn⟩ := turn_of_inRound hp hafter.first
  exact ⟨before, m, after, r, r', hscript, hr, fun hpr => hbefore ⟨r, hr, hpr⟩, hpr', hturn, hafter⟩

variable {key : RoundKey} {c : Commitment} {goal : Goal} {entries : List (Address × String)}
  {digest : String}

theorem inRound_closed_of_outcome? (h : a.outcome? id = some (.finalized key entries digest)) :
    a.InRound id (Closed key entries digest) := by
  obtain ⟨r, hr, ho⟩ := Option.bind_eq_some_iff.mp h
  exact ⟨r, hr, closed_of_outcome? ho⟩

theorem exists_conclusion (hstart : a.Unbegun id)
    (h : (a.run script).InRound id (Closed key entries digest)) :
    ∃ before m after c, script = before ++ (m, .task (.round id)) :: after ∧
      Commitment.values c = entries ∧ c.digest = digest ∧ (a.run before).InRound id (Agreed key c) ∧
      Through (InRound id (Closed key entries digest))
        ((a.run before).act m (.task (.round id))) after := by
  obtain ⟨before, m, after, r, r', hscript, hr, hne, hr', hturn, hafter⟩ :=
    exists_turn_into (fun _ => Closed.ne_scheduled) hstart h
  obtain ⟨c, hvalues, hdigest, agreed⟩ := hturn.of_closed hr' hne
  exact ⟨before, m, after, c, hscript, hvalues, hdigest, ⟨r, hr, agreed⟩, hafter⟩

theorem exists_agreement (hstart : a.Unbegun id) (h : (a.run script).InRound id (Agreed key c)) :
    ∃ before m after, script = before ++ (m, .task (.round id)) :: after ∧
      Through (InRound id (Agreed key c)) ((a.run before).act m (.task (.round id))) after := by
  obtain ⟨before, m, after, r, r', hscript, hr, hne, hr', hturn, hafter⟩ :=
    exists_turn_into (fun _ h => ne_scheduled_of_goal? h.2.1) hstart h
  exact ⟨before, m, after, hscript, hafter⟩

/-- A step after which a round has seen a majority agree is the look that has seen it. -/
theorem agreement_seen {m : Moment} (h : (a.act m (.task (.round id))).InRound id (Agreed key c)) :
    (a.act m (.task (.round id))).node.heightMoved key = false ∧
      majority m.members.size ≤
        ((a.act m (.task (.round id))).node.tally m key c.digest).agreeing := by
  obtain ⟨r, r', _, _, hr', hturn⟩ := turn_of_inRound (fun _ h => ne_scheduled_of_goal? h.2.1) h
  refine hturn.of_agreed hr' ?_
  intro agreed
  cases (hturn.goal?_of_agreed agreed).symm.trans hr'.2.1

theorem exists_commitment (hstart : a.Unbegun id) (h : (a.run script).InRound id (Tallying key c)) :
    ∃ before m after r goal, script = before ++ (m, .task (.round id)) :: after ∧
      (a.run before).round? id = some r ∧ Gathered key goal r ∧
      c = r.collected (a.run before).node ∧
      Through (InRound id (Tallying key c)) ((a.run before).act m (.task (.round id))) after := by
  obtain ⟨before, m, after, r, r', hscript, hr, hne, hr', hturn, hafter⟩ :=
    exists_turn_into (fun _ h => ne_scheduled_of_goal? h.2) hstart h
  obtain ⟨hc, goal, gathered⟩ := hturn.of_tallying hr' hne
  exact ⟨before, m, after, r, goal, hscript, hr, gathered, hc, hafter⟩

theorem exists_gathering (hstart : a.Unbegun id)
    (h : (a.run script).InRound id (Gathered key goal)) :
    goal = .collection ∧ ∃ before m after, script = before ++ (m, .task (.round id)) :: after ∧
      majority m.members.size ≤ m.members.addresses.countP (fun member =>
        ((a.run before).act m (.task (.round id))).node.caches.contributions.contains key member) ∧
      Through (InRound id (Gathered key goal)) ((a.run before).act m (.task (.round id))) after := by
  obtain ⟨before, m, after, r, r', hscript, hr, hne, hr', hturn, hafter⟩ :=
    exists_turn_into (fun _ h => ne_scheduled_of_goal? h.2.1) hstart h
  obtain ⟨hgoal, hcount⟩ := hturn.of_gathered hr' hne
  exact ⟨hgoal, before, m, after, hscript, hcount, hafter⟩

theorem exists_entering (hstart : a.Unbegun id) (h : (a.run script).InRound id (Collecting key)) :
    ∃ before m after r ready, script = before ++ (m, .task (.round id)) :: after ∧
      (a.run before).round? id = some r ∧
      key = ⟨(a.run before).node.position.height + 1, r.phase⟩ ∧
      ((a.run before).act m (.task (.round id))).node =
        r.entered { (a.run before).node with ready } := by
  obtain ⟨before, m, after, r, r', hscript, hr, hne, hr', hturn, _⟩ :=
    exists_turn_into (fun _ h => ne_scheduled_of_goal? h.2) hstart h
  obtain ⟨hkey, ready, hnode⟩ := hturn.of_collecting hr' hne
  exact ⟨before, m, after, r, ready, hscript, hr, hkey, hnode⟩

theorem digest_of_tallying (hstart : a.Unbegun id)
    (h : (a.run script).InRound id (Tallying key c)) : c.digest = canonicalDigest c.values := by
  obtain ⟨_, _, _, r, _, _, _, _, rfl, _⟩ := exists_commitment hstart h
  rfl

theorem digest_of_finalized (hstart : a.Unbegun id)
    (h : (a.run script).outcome? id = some (.finalized key entries digest)) :
    digest = canonicalDigest entries := by
  obtain ⟨before, _, _, c, _, rfl, rfl, ⟨r, hr, agreed⟩, _⟩ :=
    exists_conclusion hstart (inRound_closed_of_outcome? h)
  exact digest_of_tallying hstart ⟨r, hr, agreed.tallying⟩

end Agent

end Adjudication
