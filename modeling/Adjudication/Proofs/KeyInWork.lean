import Adjudication.Proofs.RoundHistory

namespace Adjudication

namespace Node

variable {m : Moment} {n n' : Node} {kind : EntryKind} {key : RoundKey} {x : Address}
  {e : SignedEntry}

theorem PeerStep.position_eq (s : PeerStep m n n') : n'.position = n.position := by
  cases s with
  | entry peer kind key address entry => cases kind <;> rfl
  | report => rfl
  | other => rfl

theorem PeerRun.position_eq (s : PeerRun m n n') : n'.position = n.position := by
  induction s with
  | refl => rfl
  | tail _ last ih => rw [last.position_eq, ih]

theorem PeerRun.activeKey_eq (s : PeerRun m n n') : n'.activeKey = n.activeKey := by
  rw [activeKey, s.position_eq, activeKey]

/-- Peers cannot make a node lose what it has under a retained key. -/
theorem PeerStep.get?_of_inRetention (s : PeerStep m n n') (hr : key.InRetention n.activeKey)
    (h : (n.cache kind).get? key x = some e) : (n'.cache kind).get? key x = some e := by
  cases s with
  | entry peer other key' address entry =>
    by_cases hkind : kind = other
    · subst other
      rw [cache_consider_self]
      exact Cache.get?_consider_of_some hr.inAdmission h
    · rw [cache_consider_of_ne hkind]
      exact h
  | report peer phase finalized => exact Caches.get?_prunePeer_of_inRetention hr h
  | other => exact h

theorem PeerRun.get?_of_inRetention (s : PeerRun m n n') (hr : key.InRetention n.activeKey)
    (h : (n.cache kind).get? key x = some e) : (n'.cache kind).get? key x = some e := by
  induction s with
  | refl => exact h
  | tail init last ih =>
    have hactive := PeerRun.activeKey_eq init
    exact last.get?_of_inRetention (hactive ▸ hr) ih

end Node

namespace RoundRun

variable {m : Moment} {n n' : Node} {key : RoundKey} {x : Address} {e : SignedEntry}
  {r r' : RoundRun}

theorem entered_activeKey (r : RoundRun) (n : Node) :
    (r.entered n).activeKey = ⟨n.position.height + 1, r.phase⟩ := rfl

/-- The contributions of a node that has entered a phase: what the sweep left, and its own. -/
theorem entered_contributions (r : RoundRun) (n : Node) :
    (r.entered n).caches.contributions =
      ((n.caches.contributions.sweep ⟨n.position.height + 1, r.phase⟩).value.2.insert
        ⟨n.position.height + 1, r.phase⟩ n.address r.contribution).value.2 := rfl

theorem sweep_protected (c : Cache) (active : RoundKey) :
    (c.sweep active).value.2.Protected active :=
  ⟨active, rfl, Or.inl (Or.inl rfl)⟩

theorem exists_own_entered (r : RoundRun) (n : Node) :
    ∃ e, (r.entered n).caches.contributions.get? ⟨n.position.height + 1, r.phase⟩ n.address =
      some e := by
  rw [entered_contributions]
  exact Cache.exists_get?_insert (sweep_protected _ _) _ _

theorem Turn.get?_contribution (t : Turn m r n r' n') (hk : n'.activeKey = key)
    (h : n.caches.contributions.get? key x = some e) :
    n'.caches.contributions.get? key x = some e := by
  cases t with
  | enter ready stage starts looked =>
    rw [entered_activeKey] at hk
    subst key
    rw [entered_contributions]
    refine Cache.get?_insert_of_some (sweep_protected _ _) (Cache.get?_sweep_of_some ?_ h)
    exact RoundKey.InRetention.not_behind (Or.inl rfl)
  | look => exact h
  | commit => exact h
  | conclude => exact h
  | catchUp => exact h
  | giveUp => exact h
  | idle => exact h

theorem finalizePhase_activeKey (p : Position) (height phase : Nat) :
    (p.finalizePhase height phase).value.2.activeKey = p.activeKey := by
  unfold Position.finalizePhase
  split
  · rfl
  · rfl

/-- A turn leaves the active key, or makes it that of the round's phase at the same height. -/
theorem Turn.activeKey_cases (t : Turn m r n r' n') :
    n'.activeKey = n.activeKey ∨ n'.activeKey = ⟨n.position.height + 1, r.phase⟩ := by
  cases t with
  | enter ready stage starts looked => exact Or.inr (entered_activeKey _ _)
  | look => exact Or.inl rfl
  | commit => exact Or.inl rfl
  | conclude => exact Or.inl (finalizePhase_activeKey _ _ _)
  | catchUp => exact Or.inl rfl
  | giveUp => exact Or.inl rfl
  | idle => exact Or.inl rfl

end RoundRun

/-- Whether a move is a step of the round. -/
def Move.isStep (id : Nat) : Move → Bool
  | .task (.round other) => other = id
  | _ => false

theorem Move.eq_of_isStep {id : Nat} {v : Move} (h : v.isStep id = true) : v = .task (.round id) := by
  unfold Move.isStep at h
  split at h
  · rw [of_decide_eq_true h]
  · cases h

namespace Agent

/-- The active key is the same, or the height has been raised. -/
def Steady (a b : Agent) : Prop :=
  b.node.activeKey = a.node.activeKey ∨ a.node.position.height < b.node.position.height

instance (a b : Agent) : Decidable (Steady a b) := inferInstanceAs (Decidable (_ ∨ _))

/-- Nothing but the round itself enters another phase while it runs; heights may be raised. -/
def Undisturbed (id : Nat) : Agent → Script → Prop
  | _, [] => True
  | a, v :: script =>
    (v.2.isStep id = true ∨ Steady a (a.act v.1 v.2)) ∧ Undisturbed id (a.act v.1 v.2) script

instance decidableUndisturbed (id : Nat) : ∀ (a : Agent) (script : Script),
    Decidable (Undisturbed id a script)
  | _, [] => .isTrue trivial
  | a, v :: script =>
    have := decidableUndisturbed id (a.act v.1 v.2) script
    inferInstanceAs (Decidable (_ ∧ _))

/-- The round has a number that is not given again, and this phase. -/
def Phased (id phase : Nat) (a : Agent) : Prop :=
  id < a.nextRound ∧ ∀ r, a.round? id = some r → r.phase = phase

/-- Rounds are numbered below the next number. -/
def Numbered (a : Agent) : Prop := ∀ id r, a.round? id = some r → id < a.nextRound

variable {a b : Agent} {m : Moment} {v : Move} {id phase : Nat} {script rest : Script}
  {key : RoundKey} {x : Address} {e : SignedEntry}

theorem undisturbed_append :
    Undisturbed id a (script ++ rest) ↔ Undisturbed id a script ∧ Undisturbed id (a.run script) rest := by
  induction script generalizing a with
  | nil => exact ⟨fun h => ⟨trivial, h⟩, fun h => h.2⟩
  | cons v script ih =>
    constructor
    · rintro ⟨hv, h⟩
      exact ⟨⟨hv, (ih.mp h).1⟩, (ih.mp h).2⟩
    · rintro ⟨⟨hv, h⟩, hrest⟩
      exact ⟨hv, ih.mpr ⟨h, hrest⟩⟩

theorem Numbered.act (h : a.Numbered) (m : Moment) (v : Move) : (a.act m v).Numbered := by
  intro id r hr
  rcases act_cases a m v with ⟨other, r₀, _, turned⟩ | between
  · rw [turned.nextRound]
    by_cases hid : id = other
    · subst id
      exact h other r₀ turned.before
    · rw [turned.others id hid] at hr
      exact h id r hr
  · rcases between.rounds id with hsame | hnone | ⟨_, hlt, _⟩
    · rw [hsame] at hr
      exact Nat.lt_of_lt_of_le (h id r hr) between.nextRound
    · rw [hnone] at hr
      cases hr
    · exact hlt

theorem Numbered.run (h : a.Numbered) (script : Script) : (a.run script).Numbered := by
  induction script generalizing a with
  | nil => exact h
  | cons v script ih => exact ih (h.act v.1 v.2)

theorem Blank.numbered (h : a.Blank) : a.Numbered := by
  intro id r hr
  rw [round?, h.rounds] at hr
  cases hr

theorem Phased.act (h : Phased id phase a) (m : Moment) (v : Move) : Phased id phase (a.act m v) := by
  obtain ⟨hlt, hphase⟩ := h
  rcases act_cases a m v with ⟨other, r₀, _, turned⟩ | between
  · refine ⟨turned.nextRound ▸ hlt, fun r hr => ?_⟩
    by_cases hid : id = other
    · subst id
      cases turned.after.symm.trans hr
      have hturn := r₀.step_turn a.toExchanger m
      rw [hturn.phase_eq]
      exact hphase r₀ turned.before
    · rw [turned.others id hid] at hr
      exact hphase r hr
  · refine ⟨Nat.lt_of_lt_of_le hlt between.nextRound, fun r hr => ?_⟩
    rcases between.rounds id with hsame | hnone | ⟨hle, _⟩
    · rw [hsame] at hr
      exact hphase r hr
    · rw [hnone] at hr
      cases hr
    · omega

theorem Phased.run (h : Phased id phase a) (script : Script) : Phased id phase (a.run script) := by
  induction script generalizing a with
  | nil => exact h
  | cons v script ih => exact ih (h.act v.1 v.2)

theorem act_of_round?_eq_none (h : a.round? id = none) :
    (a.act m (.task (.round id))).node = a.node := by
  unfold act step
  simp only [stepOwn, h]
  rfl

/-- The round's own steps leave the height, and its key if that is active. -/
theorem step_position (h : Phased id phase a) :
    (a.act m (.task (.round id))).node.position.height = a.node.position.height ∧
      ((a.act m (.task (.round id))).node.activeKey = a.node.activeKey ∨
        (a.act m (.task (.round id))).node.activeKey = ⟨a.node.position.height + 1, phase⟩) := by
  cases hr : a.round? id with
  | none =>
    rw [act_of_round?_eq_none hr]
    exact ⟨rfl, Or.inl rfl⟩
  | some r =>
    have turned := turned_act (m := m) hr
    have hturn := turned.turn
    have hcases := hturn.activeKey_cases
    rw [h.2 r hr] at hcases
    refine ⟨?_, hcases⟩
    rcases hcases with hkey | hkey
    · exact Nat.succ.inj (congrArg RoundKey.height hkey)
    · exact Nat.succ.inj (congrArg RoundKey.height hkey)

/-- A move of an undisturbed round keeps its key active, or raises the height. -/
theorem act_position (h : Phased id phase a) (hv : v.isStep id = true ∨ Steady a (a.act m v)) :
    a.node.position.height < (a.act m v).node.position.height ∨
      (a.act m v).node.position.height = a.node.position.height ∧
        ((a.act m v).node.activeKey = a.node.activeKey ∨
          (a.act m v).node.activeKey = ⟨a.node.position.height + 1, phase⟩) := by
  rcases hv with hstep | hkey | hraised
  · rw [Move.eq_of_isStep hstep]
    exact Or.inr (step_position h)
  · exact Or.inr ⟨Nat.succ.inj (congrArg RoundKey.height hkey), Or.inl hkey⟩
  · exact Or.inl hraised

theorem height_le_run (h : Phased id phase a) (hund : Undisturbed id a script) :
    a.node.position.height ≤ (a.run script).node.position.height := by
  induction script generalizing a with
  | nil => exact Nat.le_refl _
  | cons v script ih =>
    have hrest := ih (h.act v.1 v.2) hund.2
    rw [run_cons]
    rcases act_position h hund.1 with hlt | ⟨heq, _⟩
    · omega
    · omega

/-- If the height has not moved at the end, the key has been active all the time. -/
theorem through_activeKey (h : Phased id key.phase a) (hund : Undisturbed id a script)
    (hkey : a.node.activeKey = key) (hend : (a.run script).node.position.height + 1 = key.height) :
    Through (fun s => s.node.activeKey = key) a script := by
  induction script generalizing a with
  | nil => exact hkey
  | cons v script ih =>
    have hphased := h.act v.1 v.2
    have hheight : a.node.position.height + 1 = key.height := congrArg RoundKey.height hkey
    have hrest := height_le_run hphased hund.2
    rw [run_cons] at hend
    refine ⟨hkey, ih hphased hund.2 ?_ hend⟩
    rcases act_position h hund.1 with hlt | ⟨_, hsame | hown⟩
    · omega
    · exact hsame.trans hkey
    · rw [hown, hheight]

theorem get?_contribution_act (hk : a.node.activeKey = key)
    (hk' : (a.act m v).node.activeKey = key)
    (h : a.node.caches.contributions.get? key x = some e) :
    (a.act m v).node.caches.contributions.get? key x = some e := by
  rcases act_cases a m v with ⟨_, r, _, turned⟩ | between
  · have hturn := turned.turn
    exact hturn.get?_contribution hk' h
  · obtain ⟨n, position, hrun, hn⟩ := between.node
    have hretained : key.InRetention a.node.activeKey := Or.inl hk.symm
    have hheld : (a.node.cache .contribution).get? key x = some e := h
    rw [hn]
    exact hrun.get?_of_inRetention hretained hheld

/-- Nothing is lost under a key that is active all the time. -/
theorem get?_contribution_run (hkey : Through (fun s => s.node.activeKey = key) a script)
    (h : a.node.caches.contributions.get? key x = some e) :
    (a.run script).node.caches.contributions.get? key x = some e := by
  induction script generalizing a with
  | nil => exact h
  | cons v script ih => exact ih hkey.2 (get?_contribution_act hkey.1 hkey.2.first h)

end Agent

end Adjudication
