import Adjudication.Proofs.FingerprintBinding
import Adjudication.Proofs.Retention

namespace Adjudication

namespace RoundRun

variable {m : Moment} {r r' : RoundRun} {n n' : Node} {kind : EntryKind} {k : RoundKey} {x : Address}
  {e : SignedEntry}

theorem standing_size (r : RoundRun) (n : Node) : (r.standing n).value.utf8ByteSize = 64 :=
  length_canonicalDigest _

/-- The only digest that a turn makes is the one that the round stands by. -/
theorem Turn.hash_cases (t : Turn m r n r' n') (held : n'.caches.hashes.Holds k x e) :
    n.caches.hashes.Holds k x e ∨ e = r.standing n := by
  cases t with
  | enter => exact Or.inl (held.of_sublist (Cache.sweep_rounds_sublist _ _))
  | commit =>
    rcases Cache.holds_of_insert held with hold | ⟨_, _, rfl⟩
    · exact Or.inl (Cache.holds_of_remove hold)
    · exact Or.inr rfl
  | look => exact Or.inl held
  | conclude => exact Or.inl held
  | catchUp => exact Or.inl held
  | giveUp => exact Or.inl held
  | idle => exact Or.inl held

theorem Turn.size_cases (t : Turn m r n r' n')
    (hown : r.contribution.value.utf8ByteSize ≤ Limits.maxEntryBytes)
    (held : (n'.cache kind).Holds k x e) :
    (n.cache kind).Holds k x e ∨ e.value.utf8ByteSize ≤ Limits.maxEntryBytes := by
  cases kind with
  | contribution =>
    rcases t.holds_cases held with hold | ⟨_, hmade⟩
    · exact Or.inl hold
    · have he : e = r.contribution := hmade
      exact Or.inr (he ▸ hown)
  | hash =>
    rcases t.hash_cases held with hold | rfl
    · exact Or.inl hold
    · refine Or.inr ?_
      rw [standing_size]
      decide

end RoundRun

namespace Agent

variable {a : Agent} {roster : List Address} {script rest : Script} {kind : EntryKind} {k : RoundKey}
  {x : Address} {e : SignedEntry}

/-- An agent that starts with nothing and is one of the fixed members. Its rounds contribute values that
are small enough, and those that its owner starts, values that it has signed. -/
structure Upright (roster : List Address) (a : Agent) (script : Script) : Prop where
  blank : a.Blank
  member : a.address ∈ roster
  accepted : a.node.signer.Accepted a.node.verifier
  members : ∀ v ∈ script, v.1.members = .ofList roster
  signed : ∀ v ∈ script, v.2.SelfSigned a.node.signer
  small : Through (fun s => ∀ r ∈ s.rounds,
    r.2.contribution.value.utf8ByteSize ≤ Limits.maxEntryBytes) a script

theorem Upright.of_append (h : a.Upright roster (script ++ rest)) : a.Upright roster script where
  blank := h.blank
  member := h.member
  accepted := h.accepted
  members v hv := h.members v (List.mem_append_left _ hv)
  signed v hv := h.signed v (List.mem_append_left _ hv)
  small := (through_append h.small).1

theorem Upright.size_le (h : a.Upright roster script)
    (held : ((a.run script).node.cache kind).Holds k x e) :
    e.value.utf8ByteSize ≤ Limits.maxEntryBytes := by
  induction script using List.reverseRecOn with
  | nil =>
    obtain ⟨r, hr, _⟩ := held
    rw [run_nil, Node.cache, h.blank.caches] at hr
    cases kind <;> exact absurd hr List.not_mem_nil
  | append_singleton script v ih =>
    obtain ⟨m, v⟩ := v
    have hbefore := ih h.of_append
    rw [run_snoc] at held
    rcases act_cases (a.run script) m v with ⟨id, r, _, turned⟩ | between
    · have hsmall := (through_append h.small).2.first _ (Assoc.mem_of_get? turned.before)
      rcases turned.turn.size_cases hsmall held with hold | hsize
      · exact hbefore hold
      · exact hsize
    · obtain ⟨n, position, hrun, hn⟩ := between.node
      rw [hn] at held
      rcases hrun.holds_cases held with hold | checked
      · exact hbefore hold
      · exact (Cache.entryOffence?_eq_none_iff.mp checked).1

/-- What an upright agent holds passes the check, whoever delivers it to whom. -/
theorem Upright.passes (h : a.Upright roster script)
    (held : ((a.run script).node.cache kind).Holds k x e) :
    entryOffence? a.node.verifier (.ofList roster) kind k x e = none := by
  obtain ⟨hsigned, hreceived⟩ := authentic_of_kind h.blank h.accepted h.signed held
  refine Cache.entryOffence?_eq_none_iff.mpr ⟨h.size_le held, Members.contains_of_mem ?_, hsigned⟩
  by_cases hown : x = a.address
  · rw [hown]
    exact Members.mem_ofList h.member
  · obtain ⟨before, m, v, after, rfl, _, _, hmember, _⟩ := hreceived hown
    rwa [h.members (m, v) (by simp)] at hmember

end Agent

end Adjudication
