import Adjudication.Proofs.WireCodecs
import Adjudication.Wire.Frame

namespace Adjudication

open Wire Codec

def RoundKey.Fits (k : RoundKey) : Prop := k.height < wordCount 8 ∧ k.phase < wordCount 4

def SignedEntry.Fits (e : SignedEntry) : Prop := FitsText e.value ∧ FitsText e.signature

def AddressedEntry.Fits (e : AddressedEntry) : Prop := FitsText e.address ∧ e.entry.Fits

def GossipRequest.Fits (r : GossipRequest) : Prop :=
  r.key.Fits ∧ (r.missing.length < wordCount 8 ∧ ∀ a ∈ r.missing, FitsText a) ∧ ∀ o ∈ r.offered, o.Fits

def StateSummary.Fits (s : StateSummary) : Prop := s.height < wordCount 8 ∧ s.phase < wordCount 4

structure Attestation.Fits (a : Attestation) : Prop where
  address : FitsText a.address
  height : a.height < wordCount 8
  phase : a.phase < wordCount 4
  timestamp : FitsInt64 a.timestamp
  nonce : a.nonce < wordCount 8
  signature : FitsText a.signature

def GossipReply.Fits : GossipReply → Prop
  | .entry found => found.Fits
  | .state summary => summary.Fits

def RpcError.Fits : RpcError → Prop
  | .timeout => True
  | .frameTooLarge size limit => size < wordCount 8 ∧ limit < wordCount 8
  | .unreachable text | .codec text | .malformed text | .rejected text => FitsText text

def Request.Fits : Request → Prop
  | .roundState a => a.Fits
  | .gossip _ r => r.Fits

def Response.Fits : Response → Prop
  | .roundState a => a.Fits
  | .gossip reply => reply.Fits
  | .failure reason => reason.Fits

namespace Wire

theorem roundKey_exact : roundKey.Exact RoundKey.Fits :=
  ((word_exact 8).pair (word_exact 4)).via (fun _ => rfl) fun _ => rfl

theorem signedEntry_exact : signedEntry.Exact SignedEntry.Fits :=
  (text_exact.pair text_exact).via (fun _ => rfl) fun _ => rfl

theorem addressedEntry_exact : addressedEntry.Exact AddressedEntry.Fits :=
  (text_exact.pair signedEntry_exact).via (fun _ => rfl) fun _ => rfl

theorem gossipRequest_exact : gossipRequest.Exact GossipRequest.Fits :=
  (roundKey_exact.pair (text_exact.list.pair addressedEntry_exact.option)).via (fun _ => rfl)
    fun _ => rfl

theorem Codec.Exact.of_iff {α : Type} {c : Codec α} {fits fits' : α → Prop} (h : c.Exact fits)
    (hfits : ∀ a, fits a ↔ fits' a) : c.Exact fits' := by
  intro bs a rest
  rw [h bs a rest, hfits]

theorem stateSummary_exact : stateSummary.Exact StateSummary.Fits := by
  have parts : stateSummary.Exact fun s => s.height < wordCount 8 ∧ s.phase < wordCount 4 ∧ True :=
    ((word_exact 8).pair ((word_exact 4).pair flag_exact)).via (fun _ => rfl) fun _ => rfl
  exact parts.of_iff fun s => by simp [StateSummary.Fits]

theorem attestation_exact : attestation.Exact Attestation.Fits := by
  have parts : attestation.Exact fun a => FitsText a.address ∧ a.height < wordCount 8 ∧
      a.phase < wordCount 4 ∧ True ∧ FitsInt64 a.timestamp ∧ a.nonce < wordCount 8 ∧
        FitsText a.signature :=
    (text_exact.pair ((word_exact 8).pair ((word_exact 4).pair
      (flag_exact.pair (int64_exact.pair ((word_exact 8).pair text_exact)))))).via
        (fun _ => rfl) fun _ => rfl
  refine parts.of_iff fun a => ⟨?_, ?_⟩
  · rintro ⟨address, height, phase, _, timestamp, nonce, signature⟩
    exact ⟨address, height, phase, timestamp, nonce, signature⟩
  · rintro ⟨address, height, phase, timestamp, nonce, signature⟩
    exact ⟨address, height, phase, trivial, timestamp, nonce, signature⟩

variable {α β : Type} {c : Codec α} {fits : α → Prop}

theorem decodeVariant_eq_ok_iff {count : Nat} {content : Nat → Option (Decoder α)} {bs rest : Bytes}
    {a : α} : decodeVariant count content bs = .ok (a, rest) ↔
      ∃ n decode behind, n < wordCount 4 ∧ content n = some decode ∧ bs = littleEndian 4 n ++ behind ∧
        decode behind = .ok (a, rest) := by
  simp only [decodeVariant, bind_eq_ok_iff, Prod.exists, word_exact 4 _ _ _]
  constructor
  · rintro ⟨n, behind, ⟨hn, rfl⟩, hread⟩
    split at hread
    next decode hcontent => exact ⟨n, decode, behind, hn, hcontent, rfl, hread⟩
    next => cases hread
  · rintro ⟨n, decode, behind, hn, hcontent, rfl, hread⟩
    refine ⟨n, behind, ⟨hn, rfl⟩, ?_⟩
    rw [hcontent]
    exact hread

theorem Codec.Exact.mapDecode_eq_ok_iff (h : c.Exact fits) {f : α → β} {bs rest : Bytes} {b : β} :
    c.mapDecode f bs = .ok (b, rest) ↔ ∃ a, fits a ∧ b = f a ∧ bs = c.encode a ++ rest := by
  simp only [Codec.mapDecode, bind_eq_ok_iff, Prod.exists, h _ _ _, pure_eq_ok_iff, Prod.mk.injEq]
  constructor
  · rintro ⟨a, _, ⟨ha, rfl⟩, rfl, rfl⟩
    exact ⟨a, ha, rfl, rfl⟩
  · rintro ⟨a, ha, rfl, rfl⟩
    exact ⟨a, rest, ⟨ha, rfl⟩, rfl, rfl⟩

/-- What is read as a variant with content. -/
theorem Codec.Exact.of_variant (h : c.Exact fits) {f : α → β} {decode : Decoder β} {behind rest : Bytes}
    {b : β} (hcontent : some (c.mapDecode f) = some decode) (hread : decode behind = .ok (b, rest)) :
    ∃ a, fits a ∧ b = f a ∧ behind = c.encode a ++ rest := by
  cases hcontent
  exact h.mapDecode_eq_ok_iff.mp hread

/-- The bytes that a variant with content is written as. -/
theorem Codec.Exact.exists_variant (h : c.Exact fits) {n : Nat} {f : α → β} {a : α}
    {content : Nat → Option (Decoder β)} (hn : n < wordCount 4)
    (hcontent : content n = some (c.mapDecode f)) (ha : fits a) (rest : Bytes) :
    ∃ n' decode behind, n' < wordCount 4 ∧ content n' = some decode ∧
      littleEndian 4 n ++ c.encode a ++ rest = littleEndian 4 n' ++ behind ∧
      decode behind = .ok (f a, rest) :=
  ⟨n, _, _, hn, hcontent, List.append_assoc _ _ _, h.mapDecode_eq_ok_iff.mpr ⟨a, ha, rfl, rfl⟩⟩

theorem gossipReply_exact : gossipReply.Exact GossipReply.Fits := by
  intro bs reply rest
  simp only [gossipReply, decodeVariant_eq_ok_iff]
  constructor
  · rintro ⟨n, decode, behind, _, hcontent, rfl, hread⟩
    split at hcontent
    next =>
      obtain ⟨found, hfound, rfl, rfl⟩ := addressedEntry_exact.of_variant hcontent hread
      exact ⟨hfound, (List.append_assoc _ _ _).symm⟩
    next =>
      obtain ⟨summary, hsummary, rfl, rfl⟩ := stateSummary_exact.of_variant hcontent hread
      exact ⟨hsummary, (List.append_assoc _ _ _).symm⟩
    next => cases hcontent
  · rintro ⟨hfits, rfl⟩
    cases reply with
    | entry found => exact addressedEntry_exact.exists_variant (by decide) rfl hfits rest
    | state summary => exact stateSummary_exact.exists_variant (by decide) rfl hfits rest

theorem rpcError_exact : rpcError.Exact RpcError.Fits := by
  have sizes_exact := (word_exact 8).pair (word_exact 8)
  intro bs reason rest
  simp only [rpcError, decodeVariant_eq_ok_iff]
  constructor
  · rintro ⟨n, decode, behind, _, hcontent, rfl, hread⟩
    split at hcontent
    next =>
      cases hcontent
      cases hread
      exact ⟨trivial, rfl⟩
    next =>
      obtain ⟨address, haddress, rfl, rfl⟩ := text_exact.of_variant hcontent hread
      exact ⟨haddress, (List.append_assoc _ _ _).symm⟩
    next =>
      obtain ⟨sizes, hsizes, rfl, rfl⟩ := sizes_exact.of_variant hcontent hread
      exact ⟨hsizes, (List.append_assoc _ _ _).symm⟩
    next =>
      obtain ⟨reason, hreason, rfl, rfl⟩ := text_exact.of_variant hcontent hread
      exact ⟨hreason, (List.append_assoc _ _ _).symm⟩
    next =>
      obtain ⟨reason, hreason, rfl, rfl⟩ := text_exact.of_variant hcontent hread
      exact ⟨hreason, (List.append_assoc _ _ _).symm⟩
    next =>
      obtain ⟨reason, hreason, rfl, rfl⟩ := text_exact.of_variant hcontent hread
      exact ⟨hreason, (List.append_assoc _ _ _).symm⟩
    next => cases hcontent
  · rintro ⟨hfits, rfl⟩
    cases reason with
    | timeout => exact ⟨0, _, rest, by decide, rfl, rfl, rfl⟩
    | unreachable address => exact text_exact.exists_variant (by decide) rfl hfits rest
    | frameTooLarge size limit =>
      exact sizes_exact.exists_variant (n := 2) (f := fun p => RpcError.frameTooLarge p.1 p.2)
        (a := (size, limit)) (by decide) rfl hfits rest
    | codec reason => exact text_exact.exists_variant (by decide) rfl hfits rest
    | malformed reason => exact text_exact.exists_variant (by decide) rfl hfits rest
    | rejected reason => exact text_exact.exists_variant (by decide) rfl hfits rest

theorem request_exact : request.Exact Request.Fits := by
  intro bs q rest
  simp only [request, decodeVariant_eq_ok_iff]
  constructor
  · rintro ⟨n, decode, behind, _, hcontent, rfl, hread⟩
    split at hcontent
    next =>
      obtain ⟨a, ha, rfl, rfl⟩ := attestation_exact.of_variant hcontent hread
      exact ⟨ha, (List.append_assoc _ _ _).symm⟩
    next =>
      obtain ⟨r, hr, rfl, rfl⟩ := gossipRequest_exact.of_variant hcontent hread
      exact ⟨hr, (List.append_assoc _ _ _).symm⟩
    next =>
      obtain ⟨r, hr, rfl, rfl⟩ := gossipRequest_exact.of_variant hcontent hread
      exact ⟨hr, (List.append_assoc _ _ _).symm⟩
    next => cases hcontent
  · rintro ⟨hfits, rfl⟩
    cases q with
    | roundState a => exact attestation_exact.exists_variant (by decide) rfl hfits rest
    | gossip kind r =>
      cases kind with
      | contribution => exact gossipRequest_exact.exists_variant (by decide) rfl hfits rest
      | hash => exact gossipRequest_exact.exists_variant (by decide) rfl hfits rest

theorem response_exact : response.Exact Response.Fits := by
  intro bs p rest
  simp only [response, decodeVariant_eq_ok_iff]
  constructor
  · rintro ⟨n, decode, behind, _, hcontent, rfl, hread⟩
    split at hcontent
    next =>
      obtain ⟨a, ha, rfl, rfl⟩ := attestation_exact.of_variant hcontent hread
      exact ⟨ha, (List.append_assoc _ _ _).symm⟩
    next =>
      obtain ⟨reply, hreply, rfl, rfl⟩ := gossipReply_exact.of_variant hcontent hread
      exact ⟨hreply, (List.append_assoc _ _ _).symm⟩
    next =>
      obtain ⟨reason, hreason, rfl, rfl⟩ := rpcError_exact.of_variant hcontent hread
      exact ⟨hreason, (List.append_assoc _ _ _).symm⟩
    next => cases hcontent
  · rintro ⟨hfits, rfl⟩
    cases p with
    | roundState a => exact attestation_exact.exists_variant (by decide) rfl hfits rest
    | gossip reply => exact gossipReply_exact.exists_variant (by decide) rfl hfits rest
    | failure reason => exact rpcError_exact.exists_variant (by decide) rfl hfits rest

/-- A message as it travels: a version, then the message. -/
def FitsEnvelope (fits : α → Prop) (x : Nat × α) : Prop := x.1 < wordCount 2 ∧ fits x.2

theorem wireVersion_lt : Limits.wireVersion < wordCount 2 := by decide

/-- Frames are read only of the own version, and of messages only those that fit. -/
theorem Codec.Exact.ofFrame_eq_ok_iff (h : c.Exact fits) {bs : Bytes} {a : α} :
    ofFrame c bs = .ok a ↔
      fits a ∧ ∃ rest, bs = littleEndian 2 Limits.wireVersion ++ c.encode a ++ rest := by
  have henvelope := (word_exact 2).pair h
  unfold ofFrame
  constructor
  · intro hread
    split at hread
    next => cases hread
    next version a' rest hdecode =>
      obtain ⟨⟨_, ha⟩, rfl⟩ := (henvelope _ _ _).mp hdecode
      split at hread
      next hversion =>
        subst hversion
        cases hread
        exact ⟨ha, rest, rfl⟩
      next => cases hread
  · rintro ⟨ha, rest, rfl⟩
    have hdecode := henvelope.readsBack (Limits.wireVersion, a) ⟨wireVersion_lt, ha⟩ rest
    have hencode : ((word 2).pair c).encode (Limits.wireVersion, a) =
        littleEndian 2 Limits.wireVersion ++ c.encode a := rfl
    rw [← hencode, hdecode]
    simp

theorem toFrame_eq_ok_iff {a : α} {bytes : Bytes} :
    toFrame c a = .ok bytes ↔
      bytes = littleEndian 2 Limits.wireVersion ++ c.encode a ∧ bytes.length ≤ Limits.maxFrameBytes := by
  unfold toFrame
  dsimp only
  constructor
  · intro hframe
    split at hframe
    next => cases hframe
    next hsize =>
      cases hframe
      exact ⟨rfl, Nat.le_of_not_lt hsize⟩
  · rintro ⟨rfl, hsize⟩
    exact if_neg (Nat.not_lt.mpr hsize)

/-- What is sent in a frame is what is read from it. -/
theorem Codec.Exact.ofFrame_toFrame (h : c.Exact fits) {a : α} {bytes : Bytes}
    (hframe : toFrame c a = .ok bytes) (ha : fits a) : ofFrame c bytes = .ok a := by
  refine h.ofFrame_eq_ok_iff.mpr ⟨ha, [], ?_⟩
  rw [List.append_nil]
  exact (toFrame_eq_ok_iff.mp hframe).1

/-- Requests and responses are read from bytes, bare or behind a version, exactly if they fit and the
bytes begin with their encoding; a frame is read exactly if the version is the own one besides. -/
theorem frames_exact :
    (request.Exact Request.Fits ∧ response.Exact Response.Fits) ∧
    (((word 2).pair request).Exact (FitsEnvelope Request.Fits) ∧
      ((word 2).pair response).Exact (FitsEnvelope Response.Fits)) ∧
    (∀ bs q, ofFrame request bs = .ok q ↔
      q.Fits ∧ ∃ rest, bs = littleEndian 2 Limits.wireVersion ++ request.encode q ++ rest) ∧
    ∀ bs p, ofFrame response bs = .ok p ↔
      p.Fits ∧ ∃ rest, bs = littleEndian 2 Limits.wireVersion ++ response.encode p ++ rest :=
  ⟨⟨request_exact, response_exact⟩,
    ⟨(word_exact 2).pair request_exact, (word_exact 2).pair response_exact⟩,
    fun _ _ => request_exact.ofFrame_eq_ok_iff, fun _ _ => response_exact.ofFrame_eq_ok_iff⟩

end Wire

end Adjudication
