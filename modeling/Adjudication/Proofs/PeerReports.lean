import Adjudication.Proofs.Accountability

namespace Adjudication

section

variable {c : Caches} {kind : EntryKind} {active key : RoundKey} {row : PeerRow} {e : SignedEntry}
  {address : Address} {phase : Nat} {finalized : Bool}

theorem Caches.get?_prunePeer (hadmitted : key.InAdmission active)
    (h : (c.of kind).get? key address = some e) :
    ((c.prunePeer active address phase finalized).value.2.of kind).get? key address =
      if kind.Stale key active phase finalized then none else some e := by
  have hprotected : ∀ d : Cache, (d.setActive active).Protected key :=
    fun d => Cache.protected_of_setActive (c := d) hadmitted
  rw [Caches.prunePeer_of]
  split
  · next hstale =>
    have hmem : key ∈ ((c.of kind).keysContaining address).filter
        fun key => kind.Stale key active phase finalized :=
      List.mem_filter.mpr ⟨Cache.mem_keysContaining_of_get? h, decide_eq_true hstale⟩
    exact Cache.get?_evict_of_lacks (hprotected _) (Cache.lacks_removeAll hmem h)
  · next hstale =>
    refine Cache.get?_evict_of_some (hprotected _) (Cache.get?_removeAll_of_some ?_ h)
    intro hmem
    exact hstale (of_decide_eq_true (List.mem_filter.mp hmem).2)

theorem RoundKey.not_inRetention_next (active : RoundKey) :
    ¬ InRetention ⟨active.height, active.phase + 1⟩ active := by
  rintro (heq | ⟨_, heq⟩ | heq)
  · have hphase : active.phase + 1 = active.phase := congrArg RoundKey.phase heq
    omega
  · have hphase : active.phase + 1 = active.phase - 1 := congrArg RoundKey.phase heq
    omega
  · have hheight : active.height = active.height + 1 := congrArg RoundKey.height heq
    omega

/-- Under the phase after the active one, all is stale but of a peer that reports that phase. -/
theorem stale_next_iff (hgreatest : kind = .hash → finalized = false → phase < Limits.maxPhase) :
    kind.Stale ⟨active.height, active.phase + 1⟩ active phase finalized ↔
      phase ≠ active.phase + 1 := by
  have hout := RoundKey.not_inRetention_next active
  constructor
  · rintro hstale rfl
    cases kind with
    | contribution => exact hstale.2.1 rfl
    | hash =>
      rcases hstale.2 with ⟨hne, _⟩ | hrule
      · exact hne rfl
      · cases finalized with
        | true => exact Nat.lt_irrefl _ hrule
        | false =>
          have hlt := hgreatest rfl rfl
          have heq : active.phase + 1 = min (active.phase + 1 + 1) Limits.maxPhase := hrule
          omega
  · intro hne
    have hphases : active.phase + 1 ≠ phase ∧ active.phase + 1 ≠ active.phase := by omega
    cases kind with
    | contribution => exact ⟨hout, hphases⟩
    | hash => exact ⟨hout, Or.inl hphases⟩

/-- What a peer may publish by its report is stale by that report only if it is in the phase after the
active one, while the report is of the active phase. -/
theorem stale_iff_of_mayPublish (hadmitted : key.InAdmission active) (hmay : row.MayPublish key)
    (hgreatest : kind = .hash → row.finalized = false → row.phase < Limits.maxPhase) :
    kind.Stale key active row.phase row.finalized ↔
      key = ⟨active.height, active.phase + 1⟩ ∧ row.phase = active.phase := by
  rcases hadmitted with hretained | rfl
  · have hne : key ≠ ⟨active.height, active.phase + 1⟩ := by
      rintro rfl
      exact RoundKey.not_inRetention_next active hretained
    simp [not_stale_of_inRetention hretained, hne]
  · rw [stale_next_iff hgreatest]
    obtain ⟨_, hkey | ⟨_, hkey | hkey⟩⟩ := hmay
    · have hphase : active.phase + 1 = row.phase := congrArg RoundKey.phase hkey
      constructor
      · intro hne
        exact absurd hphase.symm hne
      · rintro ⟨_, hsame⟩
        omega
    · have hphase : active.phase + 1 = phaseAfter row.phase := congrArg RoundKey.phase hkey
      have hsame : row.phase = active.phase := by
        unfold phaseAfter at hphase
        split at hphase <;> omega
      exact ⟨fun _ => ⟨rfl, hsame⟩, fun _ => by omega⟩
    · have hphase : active.phase + 1 = 0 := congrArg RoundKey.phase hkey
      omega

/-- A report prunes nothing that its peer may publish by it, but what it may publish under the phase
after the active one when it reports the active phase as finalized. -/
theorem Caches.get?_prunePeer_of_mayPublish (hadmitted : key.InAdmission active)
    (hmay : row.MayPublish key)
    (hgreatest : kind = .hash → row.finalized = false → row.phase < Limits.maxPhase)
    (h : (c.of kind).get? key row.address = some e) :
    ((c.prunePeer active row.address row.phase row.finalized).value.2.of kind).get? key row.address =
      if key = ⟨active.height, active.phase + 1⟩ ∧ row.phase = active.phase then none
      else some e := by
  have hstale := stale_iff_of_mayPublish hadmitted hmay hgreatest
  rw [get?_prunePeer hadmitted h]
  exact ite_cond_congr (propext hstale)

end

namespace EarlyStart

def moment : Moment := ⟨0, 0, .ofList ["a", "p"], 0⟩

def key : RoundKey := ⟨1, 1⟩

/-- The peer reports the first phase as finalized, and the node takes up what it offers for the next. -/
def script : Script := [
  (moment, .connect "p"),
  (moment, .call "p" (.roundState (.sign (.plain "p") { status := .finalized } 0 7))),
  (moment, .call "p" (.gossip .contribution ⟨key, [], some (.plain .contribution key "p" "next")⟩)),
  (moment, .call "p" (.gossip .hash ⟨key, [], some (.plain .hash key "p" "digest")⟩))]

def node : Node := ((Agent.plain "a").run script).node

def row : PeerRow := ⟨"p", 0, 0, true, some 0⟩

/-- What the report allowed the peer to publish, the same report removes. -/
theorem report_removes_next_phase : node.table.get? "p" = some row ∧ key.InAdmission node.activeKey ∧
    row.MayPublish key ∧
    node.caches.contributions.get? key "p" =
      some (AddressedEntry.plain .contribution key "p" "next").entry ∧
    node.caches.hashes.get? key "p" = some (AddressedEntry.plain .hash key "p" "digest").entry ∧
    (node.caches.prunePeer node.activeKey "p" row.phase
      row.finalized).value.2.contributions.get? key "p" = none ∧
    (node.caches.prunePeer node.activeKey "p" row.phase
      row.finalized).value.2.hashes.get? key "p" = none := by
  decide +kernel

def begun : PeerRow := ⟨"p", 0, 1, false, some 0⟩

/-- A report of the phase that the entry is for leaves it. -/
theorem report_leaves_own_phase : key.InAdmission node.activeKey ∧ begun.MayPublish key ∧
    ((node.caches.prunePeer node.activeKey begun.address begun.phase
      begun.finalized).value.2.of .hash).get? key begun.address =
      some (AddressedEntry.plain .hash key "p" "digest").entry := by
  have hadmitted : key.InAdmission node.activeKey := by decide +kernel
  have hmay : begun.MayPublish key := by decide
  have hheld : (node.caches.of .hash).get? key begun.address =
      some (AddressedEntry.plain .hash key "p" "digest").entry := by decide +kernel
  have hphase : ¬ (key = ⟨node.activeKey.height, node.activeKey.phase + 1⟩ ∧
      begun.phase = node.activeKey.phase) := by decide +kernel
  have hkept := Caches.get?_prunePeer_of_mayPublish hadmitted hmay (fun _ _ => by decide) hheld
  exact ⟨hadmitted, hmay, hkept.trans (if_neg hphase)⟩

end EarlyStart

end Adjudication
