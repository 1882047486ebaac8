import Adjudication.Proofs.AdmissionRulings
import Adjudication.Proofs.FillRequests
import Adjudication.Proofs.SignedStatements
import Adjudication.Proofs.WireFrames
import Mathlib.Algebra.Order.BigOperators.Group.List
import Mathlib.Data.String.Basic

namespace Adjudication

namespace Hex

def IsDigit (c : Char) : Prop := (digitValue? c).isSome

theorem utf8Size_of_isDigit {c : Char} (h : IsDigit c) : c.utf8Size = 1 := by
  have hbound : ∀ d : Char, c ≤ d → d.val ≤ 127 → c.utf8Size = 1 := by
    intro d hcd hd
    exact Char.utf8Size_eq_one_iff.mpr (UInt32.le_trans (Char.le_def.mp hcd) hd)
  unfold IsDigit digitValue? at h
  split at h
  next hdecimal => exact hbound '9' hdecimal.2 (by decide)
  next =>
    split at h
    next hlower => exact hbound 'f' hlower.2 (by decide)
    next =>
      split at h
      next hupper => exact hbound 'F' hupper.2 (by decide)
      next => cases h

theorem utf8ByteSize_of_digits {s : String} (h : ∀ c ∈ s.toList, IsDigit c) :
    s.utf8ByteSize = s.toList.length := by
  have hlist : ∀ cs : List Char, (∀ c ∈ cs, IsDigit c) → String.utf8Len cs = cs.length := by
    intro cs
    induction cs with
    | nil => exact fun _ => rfl
    | cons c cs ih =>
      intro hcs
      obtain ⟨hc, hrest⟩ := List.forall_mem_cons.mp hcs
      rw [String.utf8Len_cons, ih hrest, utf8Size_of_isDigit hc, List.length_cons]
  rw [← String.utf8Len_toList, hlist s.toList h]

theorem isDigit_of_decodeOnto {acc bs : Bytes} {cs : List Char} (h : decodeOnto acc cs = some bs) :
    ∀ c ∈ cs, IsDigit c := by
  fun_induction decodeOnto acc cs with
  | case1 => simp
  | case2 => cases h
  | case3 acc hi lo rest high low hlo hhi ih =>
    refine List.forall_mem_cons.mpr ⟨?_, List.forall_mem_cons.mpr ⟨?_, ih h⟩⟩
    · rw [IsDigit, hhi, Option.isSome_some]
    · rw [IsDigit, hlo, Option.isSome_some]
  | case4 => cases h

/-- A text that decodes takes two bytes for each byte it stands for. -/
theorem utf8ByteSize_of_decode {s : String} {bs : Bytes} (h : decode s = some bs) :
    s.utf8ByteSize = 2 * bs.length := by
  rw [utf8ByteSize_of_digits (isDigit_of_decodeOnto h), length_of_decode h]

end Hex

/-- The address is 64 hexadecimal digits. -/
def IsHexKey (address : Address) : Prop :=
  address.toList.length = 64 ∧ ∀ c ∈ address.toList, Hex.IsDigit c

theorem IsHexKey.utf8ByteSize {address : Address} (h : IsHexKey address) :
    address.utf8ByteSize = 64 := by
  rw [Hex.utf8ByteSize_of_digits h.2, h.1]

theorem Ed25519.Point.length_of_decode {bs : Bytes} {point : Ed25519.Point}
    (h : Ed25519.Point.decode? bs = some point) : bs.length = 32 := by
  unfold Ed25519.Point.decode? at h
  split at h
  next => cases h
  next hlength => exact Decidable.not_not.mp hlength

theorem utf8ByteSize_of_decodeAddress {address : Address} {bytes : Bytes} {point : Ed25519.Point}
    (h : decodeAddress address = .ok (bytes, point)) : address.utf8ByteSize = 64 := by
  unfold decodeAddress at h
  split at h
  next => cases h
  next bytes' hbytes =>
    split at h
    next => cases h
    next point' hpoint =>
      rw [Hex.utf8ByteSize_of_decode hbytes, Ed25519.Point.length_of_decode hpoint]

theorem utf8ByteSize_of_decodeSignature {signature : Signature} {bytes : Bytes}
    (h : decodeSignature signature = .ok bytes) : signature.utf8ByteSize = 128 := by
  unfold decodeSignature at h
  split at h
  next => cases h
  next bytes' hbytes =>
    split at h
    next hlength => rw [Hex.utf8ByteSize_of_decode hbytes, hlength]
    next => cases h

namespace Wire

namespace Codec

variable {α β : Type} {c : Codec α} {d : Codec β} {fits : α → Prop} {fits' : β → Prop} {m n : Nat}

/-- What fits takes at most so many bytes. -/
def AtMost (c : Codec α) (fits : α → Prop) (bound : Nat) : Prop :=
  ∀ a, fits a → (c.encode a).length ≤ bound

theorem word_atMost (width : Nat) : (word width).AtMost (fun _ => True) width :=
  fun n _ => Nat.le_of_eq (length_littleEndian width n)

theorem text_atMost (size : Nat) : text.AtMost (fun s => s.utf8ByteSize ≤ size) (8 + size) := by
  intro s hs
  have hlength : (utf8 s).length = s.utf8ByteSize := rfl
  simp only [text, List.length_append, length_littleEndian, hlength]
  omega

theorem AtMost.option (h : c.AtMost fits m) : c.option.AtMost (fun o => ∀ a ∈ o, fits a) (1 + m) := by
  intro o ho
  cases o with
  | none =>
    simp only [Codec.option, length_littleEndian]
    omega
  | some a =>
    have ha := h a (ho a rfl)
    simp only [Codec.option, List.length_append, length_littleEndian]
    omega

theorem AtMost.list (h : c.AtMost fits m) (count : Nat) :
    c.list.AtMost (fun xs => xs.length ≤ count ∧ ∀ a ∈ xs, fits a) (8 + count * m) := by
  rintro xs ⟨hcount, hxs⟩
  have hsizes : ∀ size ∈ xs.map (fun a => (c.encode a).length), size ≤ m := by
    intro size hsize
    obtain ⟨a, ha, rfl⟩ := List.mem_map.mp hsize
    exact h a (hxs a ha)
  have hsum := List.sum_le_card_nsmul _ m hsizes
  rw [List.length_map, Nat.nsmul_eq_mul, ← List.length_flatMap] at hsum
  have hmax : xs.length * m ≤ count * m := Nat.mul_le_mul_right m hcount
  simp only [Codec.list, List.length_append, length_littleEndian]
  omega

theorem AtMost.pair (h : c.AtMost fits m) (h' : d.AtMost fits' n) :
    (c.pair d).AtMost (fun x => fits x.1 ∧ fits' x.2) (m + n) := by
  rintro x ⟨ha, hb⟩
  rw [Codec.pair, List.length_append]
  exact Nat.add_le_add (h x.1 ha) (h' x.2 hb)

theorem AtMost.via (h : c.AtMost fits m) (toα : β → α) (ofα : α → β) :
    (c.via toα ofα).AtMost (fun b => fits (toα b)) m :=
  fun b hb => h (toα b) hb

end Codec

/-- A frame has two bytes for its version before the message. -/
theorem exists_frame {α : Type} {c : Codec α} {a : α}
    (h : 2 + (c.encode a).length ≤ Limits.maxFrameBytes) : ∃ frame, toFrame c a = .ok frame := by
  refine ⟨_, toFrame_eq_ok_iff.mpr ⟨rfl, ?_⟩⟩
  rwa [List.length_append, length_littleEndian]

end Wire

/-- The texts are no longer than an address, an entry's value and a signature may be. -/
def AddressedEntry.Modest (e : AddressedEntry) : Prop :=
  e.address.utf8ByteSize ≤ 64 ∧ e.entry.value.utf8ByteSize ≤ Limits.maxEntryBytes ∧
    e.entry.signature.utf8ByteSize ≤ 128

/-- Only as many addresses as a request may ask for, and an entry that is modest if there is one. -/
structure GossipRequest.Modest (r : GossipRequest) : Prop where
  count : r.missing.length ≤ Limits.maxMissing
  missing : ∀ x ∈ r.missing, x.utf8ByteSize ≤ 64
  offered : ∀ o ∈ r.offered, o.Modest

namespace Wire

open Codec

theorem addressedEntry_atMost : addressedEntry.AtMost AddressedEntry.Modest 65752 :=
  ((text_atMost 64).pair
    (((text_atMost Limits.maxEntryBytes).pair (text_atMost 128)).via _ _)).via _ _

theorem gossipRequest_atMost : gossipRequest.AtMost GossipRequest.Modest 84205 := by
  intro r hr
  have hkey : roundKey.AtMost (fun _ => True ∧ True) 12 :=
    ((word_atMost 8).pair (word_atMost 4)).via _ _
  have hmissing := (text_atMost 64).list Limits.maxMissing
  have hparts := hkey.pair (hmissing.pair addressedEntry_atMost.option)
  exact hparts (r.key, r.missing, r.offered) ⟨⟨trivial, trivial⟩, ⟨hr.count, hr.missing⟩, hr.offered⟩

theorem exists_replyFrame {found : AddressedEntry} (h : found.Modest) :
    ∃ frame, toFrame response (.gossip (.entry found)) = .ok frame := by
  have hsize := addressedEntry_atMost found h
  refine exists_frame ?_
  simp only [response, gossipReply, List.length_append, length_littleEndian, Limits.maxFrameBytes]
  omega

theorem exists_requestFrame {r : GossipRequest} (h : r.Modest) (kind : EntryKind) :
    ∃ frame, toFrame request (.gossip kind r) = .ok frame := by
  have hsize := gossipRequest_atMost r h
  refine exists_frame ?_
  cases kind <;>
    simp only [request, List.length_append, length_littleEndian, Limits.maxFrameBytes] <;> omega

end Wire

/-- What a signature that verifies says of the lengths of the texts. -/
theorem modest_of_verifies {address : Address} {entry : SignedEntry} {message : Bytes}
    (hvalue : entry.value.utf8ByteSize ≤ Limits.maxEntryBytes)
    (hverifies : ed25519Verifier address message entry.signature = true) :
    (AddressedEntry.mk address entry).Modest := by
  obtain ⟨_, _, _, haddress, hsignature, _⟩ := ed25519Verifier_eq_true_iff.mp hverifies
  exact ⟨Nat.le_of_eq (utf8ByteSize_of_decodeAddress haddress), hvalue,
    Nat.le_of_eq (utf8ByteSize_of_decodeSignature hsignature)⟩

/-- What is inserted, or would be if it were not there, has passed the check. -/
theorem Cache.passes_of_consider {c : Cache} {verifier : Verifier} {members : Members}
    {active key : RoundKey} {peer address : Address} {entry : SignedEntry} {admitted : Admitted}
    (h : (c.consider verifier members active peer key address entry).value.1 = .ok admitted)
    (hadmitted : admitted = .inserted ∨ admitted = .duplicate) :
    entryOffence? verifier members c.kind key address entry = none := by
  have hin : key.InAdmission active := by
    by_contra hout
    by_cases hb : key.Behind active
    · rw [consider_of_behind c verifier members peer address entry hb] at h
      cases h
      simp at hadmitted
    · have hlt := RoundKey.lt_of_not_inAdmission hb hout
      rw [consider_of_ahead c verifier members peer address entry hlt hout] at h
      cases h
      simp at hadmitted
  cases hcheck : entryOffence? verifier members c.kind key address entry with
  | none => rfl
  | some offence =>
    rw [consider_of_offence peer hin hcheck] at h
    cases h

namespace Fill

/-- What the fill asks the peer at place `index` of `count` for, and offers it. -/
def requestTo (f : Fill) (n : Node) (missing : List Address) (count index : Nat) (peer : Address) :
    GossipRequest :=
  ⟨f.key, rotatedSlice missing index count, f.offer? n peer⟩

variable {f : Fill} {n : Node} {missing : List Address} {count index : Nat} {peer : Address}

theorem mem_flights_ask {flight : Flight}
    (h : flight ∈ (f.ask n missing count index peer).flights) : flight ∈ f.flights ∨
      flight = ⟨peer, .departing (.gossip f.kind (f.requestTo n missing count index peer))⟩ := by
  unfold ask at h
  split at h
  next => exact Or.inl h
  next => exact (List.mem_append.mp h).imp_right List.mem_singleton.mp

theorem offer?_eq_some {offered : AddressedEntry} (h : f.offer? n peer = some offered) :
    ∃ entry, (n.cache f.kind).get? f.key n.address = some entry ∧ offered = ⟨n.address, entry⟩ := by
  unfold offer? at h
  split at h
  next => cases h
  next =>
    obtain ⟨entry, hentry, rfl⟩ := Option.map_eq_some_iff.mp h
    exact ⟨entry, hentry, rfl⟩

/-- Whatever is missing, the slice of it is short enough. -/
theorem modest_requestTo (hmissing : ∀ x ∈ missing, IsHexKey x)
    (hlocal : ∀ entry, (n.cache f.kind).get? f.key n.address = some entry →
      (AddressedEntry.mk n.address entry).Modest) :
    (f.requestTo n missing count index peer).Modest where
  count := length_rotatedSlice_le missing index count
  missing := fun x hx => Nat.le_of_eq (hmissing x (mem_of_mem_rotatedSlice hx)).utf8ByteSize
  offered := by
    intro offered hoffered
    obtain ⟨entry, hentry, rfl⟩ := offer?_eq_some hoffered
    exact hlocal entry hentry

end Fill

theorem Node.exists_reply {n : Node} {request : GossipRequest}
    (h : request.missing.length ≤ Limits.maxMissing) (members : Members) (caller : Address)
    (kind : EntryKind) : ∃ reply, (n.serve members caller kind request).value.1 = .ok reply := by
  unfold serve
  rw [if_neg (Nat.not_lt.mpr h)]
  split
  · simp only [Noted.value_bind, Noted.value_pure]
    split
    · exact ⟨_, rfl⟩
    · exact ⟨_, rfl⟩
  · simp only [Noted.value_bind]
    split
    · exact ⟨_, rfl⟩
    · exact ⟨_, rfl⟩

/-- Among members with keys for addresses, what is admitted fits the frame of the reply that serves it,
and what a fill asks a peer for fits the frame of a request, and is not refused. -/
theorem fits_frames {members : Members} (hmembers : ∀ x ∈ members.addresses, IsHexKey x) :
    (∀ (c : Cache) (active key : RoundKey) (peer address : Address) (entry : SignedEntry)
        (admitted : Admitted),
      (c.consider ed25519Verifier members active peer key address entry).value.1 = .ok admitted →
      admitted = .inserted ∨ admitted = .duplicate →
      ∃ frame, Wire.toFrame Wire.response (.gossip (.entry ⟨address, entry⟩)) = .ok frame) ∧
    ∀ (f : Fill) (n : Node) (missing : List Address) (count index : Nat) (peer : Address),
      (∀ x ∈ missing, x ∈ members.addresses) →
      (∀ entry, (n.cache f.kind).get? f.key n.address = some entry →
        entry.value.utf8ByteSize ≤ Limits.maxEntryBytes ∧
          ed25519Verifier n.address (f.kind.message f.key entry.value) entry.signature = true) →
      let request := f.requestTo n missing count index peer
      (∀ flight ∈ (f.ask n missing count index peer).flights, flight ∈ f.flights ∨
        flight = ⟨peer, .departing (.gossip f.kind request)⟩) ∧
      (∃ frame, Wire.toFrame Wire.request (.gossip f.kind request) = .ok frame) ∧
      ∀ (server : Node) (members : Members) (caller : Address),
        ∃ reply, (server.serve members caller f.kind request).value.1 = .ok reply := by
  constructor
  · intro c active key peer address entry admitted hconsider hadmitted
    obtain ⟨hvalue, _, hverifies⟩ :=
      Cache.entryOffence?_eq_none_iff.mp (Cache.passes_of_consider hconsider hadmitted)
    exact Wire.exists_replyFrame (modest_of_verifies hvalue hverifies)
  · intro f n missing count index peer hmissing hlocal request
    have hmodest : request.Modest := by
      refine Fill.modest_requestTo (fun x hx => hmembers x (hmissing x hx)) ?_
      intro entry hentry
      obtain ⟨hvalue, hverifies⟩ := hlocal entry hentry
      exact modest_of_verifies hvalue hverifies
    exact ⟨fun flight hflight => Fill.mem_flights_ask hflight, Wire.exists_requestFrame hmodest f.kind,
      fun server members caller => Node.exists_reply hmodest.count members caller f.kind⟩

namespace NeutralKey

def entry : SignedEntry := ⟨"x", signature⟩

/-- A node of this key that has published its entry. -/
def publisher : Node :=
  let created := Node.create ⟨address, fun _ => signature⟩ ed25519Verifier {} {} (.ofSeed 1)
  (created.value.publish .contribution ⟨1, 0⟩ entry).value

def fill : Fill := { kind := .contribution, key := ⟨1, 0⟩, targets := ["b"] }

theorem inserted : ((Cache.empty .contribution 4).consider ed25519Verifier (.ofList [address]) ⟨1, 0⟩ "b"
    ⟨1, 0⟩ address entry).value.1 = .ok .inserted := by
  have hmember : (Members.ofList [address]).contains address = true :=
    Members.contains_of_mem (Members.mem_ofList List.mem_cons_self)
  have hsound : entryOffence? ed25519Verifier (.ofList [address]) .contribution ⟨1, 0⟩ address entry =
      none :=
    Cache.entryOffence?_eq_none_iff.mpr ⟨by decide, hmember, verifies_contribution⟩
  have hin : RoundKey.InAdmission ⟨1, 0⟩ ⟨1, 0⟩ := by decide
  rw [Cache.consider_of_sound (c := .empty .contribution 4) "b" hin hsound]
  rfl

theorem isHexKey : ∀ x ∈ (Members.ofList [address]).addresses, IsHexKey x := by
  have hdigits : (address.toList.all fun c => (Hex.digitValue? c).isSome) = true := by decide +kernel
  have hlength : address.toList.length = 64 := by decide +kernel
  intro x hx
  obtain rfl := List.mem_singleton.mp hx
  exact ⟨hlength, List.all_eq_true.mp hdigits⟩

theorem publisher_entry (found : SignedEntry)
    (h : (publisher.cache fill.kind).get? fill.key publisher.address = some found) :
    found.value.utf8ByteSize ≤ Limits.maxEntryBytes ∧
      ed25519Verifier publisher.address (fill.kind.message fill.key found.value) found.signature =
        true := by
  have haddress : publisher.address = address := by decide +kernel
  have hheld : (publisher.cache fill.kind).get? fill.key address = some entry := by decide +kernel
  rw [haddress] at h ⊢
  obtain rfl := Option.some.inj (hheld.symm.trans h)
  exact ⟨by decide, verifies_contribution⟩

theorem neutral_fits_frames :
    (∃ frame, Wire.toFrame Wire.response (.gossip (.entry ⟨address, entry⟩)) = .ok frame) ∧
      ∃ frame, Wire.toFrame Wire.request
        (.gossip .contribution (fill.requestTo publisher [address] 2 1 "b")) = .ok frame := by
  have hfits := fits_frames isHexKey
  have hserved := hfits.1 _ _ _ _ _ _ _ inserted (Or.inl rfl)
  have hasked := hfits.2 fill publisher [address] 2 1 "b" (fun _ hx => hx) publisher_entry
  exact ⟨hserved, hasked.2.1⟩

end NeutralKey

end Adjudication
