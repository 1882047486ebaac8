import Adjudication.Wire.Codec
import Mathlib.Tactic.Basic

namespace Adjudication.Wire

theorem bind_eq_ok_iff {ε α β : Type} {x : Except ε α} {f : α → Except ε β} {b : β} :
    x >>= f = .ok b ↔ ∃ a, x = .ok a ∧ f a = .ok b := by
  cases x with
  | error e =>
    constructor
    · rintro ⟨⟩
    · rintro ⟨_, ⟨⟩, _⟩
  | ok a =>
    constructor
    · exact fun h => ⟨a, rfl, h⟩
    · rintro ⟨_, ⟨⟩, h⟩
      exact h

theorem pure_eq_ok_iff {ε α : Type} {a b : α} : (pure a : Except ε α) = .ok b ↔ a = b :=
  ⟨fun h => Except.ok.inj h, congrArg Except.ok⟩

namespace Codec

variable {α β : Type} {c : Codec α} {d : Codec β} {fits : α → Prop} {fits' : β → Prop}

/-- The decoder accepts what the encoder writes for values that fit, whatever follows, and no more. -/
def Exact (c : Codec α) (fits : α → Prop) : Prop :=
  ∀ bs a rest, c.decode bs = .ok (a, rest) ↔ fits a ∧ bs = c.encode a ++ rest

theorem Exact.readsBack (h : c.Exact fits) : c.ReadsBack fits :=
  fun a ha rest => (h _ a rest).mpr ⟨ha, rfl⟩

theorem Exact.canonical (h : c.Exact fits) : c.Canonical :=
  fun bs a rest hread => ((h bs a rest).mp hread).2

theorem takeBytes_eq_ok_iff {n : Nat} {bs taken rest : Bytes} :
    takeBytes n bs = .ok (taken, rest) ↔ taken.length = n ∧ bs = taken ++ rest := by
  unfold takeBytes
  dsimp only
  constructor
  · intro h
    split at h
    next hlength =>
      cases h
      exact ⟨hlength, (List.take_append_drop n bs).symm⟩
    next => cases h
  · rintro ⟨rfl, rfl⟩
    simp

theorem word_exact (width : Nat) : (word width).Exact (· < wordCount width) := by
  intro bs n rest
  simp only [word, bind_eq_ok_iff, Prod.exists, takeBytes_eq_ok_iff, pure_eq_ok_iff, Prod.mk.injEq]
  constructor
  · rintro ⟨taken, _, ⟨rfl, rfl⟩, rfl, rfl⟩
    exact ⟨ofLittleEndian_lt taken, by rw [littleEndian_ofLittleEndian]⟩
  · rintro ⟨hn, rfl⟩
    refine ⟨littleEndian width n, rest, ⟨length_littleEndian width n, rfl⟩, ?_, rfl⟩
    rw [ofLittleEndian_littleEndian, Nat.mod_eq_of_lt hn]

theorem ofLittleEndianInt64_littleEndianInt64 {n : Int} (hn : FitsInt64 n) :
    ofLittleEndianInt64 (littleEndianInt64 n) = n := by
  have hwrap : signedWord ((n % UInt64.size).toNat : Int) = n := by
    unfold FitsInt64 UInt64.size at hn
    unfold signedWord UInt64.size
    rw [Int.bmod_def]
    omega
  have hlt : (n % UInt64.size).toNat < wordCount 8 := by
    simp only [wordCount, UInt64.size]
    omega
  rwa [← Nat.mod_eq_of_lt hlt, ← ofLittleEndian_littleEndian] at hwrap

theorem littleEndianInt64_ofLittleEndianInt64 {bs : Bytes} (hbs : bs.length = 8) :
    littleEndianInt64 (ofLittleEndianInt64 bs) = bs := by
  have hlt := ofLittleEndian_lt bs
  have hwrite := littleEndian_ofLittleEndian bs
  rw [hbs] at hlt hwrite
  have hsame : (ofLittleEndianInt64 bs % UInt64.size).toNat = ofLittleEndian bs := by
    unfold ofLittleEndianInt64 signedWord
    rw [Int.bmod_emod]
    simp only [wordCount, UInt64.size] at hlt ⊢
    omega
  rw [littleEndianInt64, hsame, hwrite]

theorem int64_exact : int64.Exact FitsInt64 := by
  intro bs n rest
  simp only [int64, bind_eq_ok_iff, Prod.exists, takeBytes_eq_ok_iff, pure_eq_ok_iff, Prod.mk.injEq]
  constructor
  · rintro ⟨taken, _, ⟨hlength, rfl⟩, rfl, rfl⟩
    exact ⟨fitsInt64_signedWord _, by rw [littleEndianInt64_ofLittleEndianInt64 hlength]⟩
  · rintro ⟨hn, rfl⟩
    exact ⟨littleEndianInt64 n, rest, ⟨length_littleEndian _ _, rfl⟩,
      ofLittleEndianInt64_littleEndianInt64 hn, rfl⟩

theorem flag_exact : flag.Exact fun _ => True := by
  intro bs b rest
  simp only [flag, bind_eq_ok_iff, Prod.exists, word_exact 1 _ _ _, true_and]
  constructor
  · rintro ⟨n, _, ⟨_, rfl⟩, h⟩
    split at h
    next =>
      cases h
      rfl
    next =>
      cases h
      rfl
    next => cases h
  · rintro rfl
    refine ⟨b.toNat, rest, ⟨?_, rfl⟩, ?_⟩
    · cases b <;> decide
    · cases b <;> rfl

/-- A text fits if eight bytes hold its length. -/
def FitsText (s : String) : Prop := (utf8 s).length < wordCount 8

theorem fromUTF8?_eq_some_iff {bytes : Bytes} {s : String} :
    String.fromUTF8? ⟨bytes.toArray⟩ = some s ↔ bytes = utf8 s := by
  unfold String.fromUTF8?
  constructor
  · intro h
    split at h
    next =>
      cases h
      rfl
    next => cases h
  · rintro rfl
    have hvalid : (ByteArray.mk (utf8 s).toArray) = s.toByteArray := rfl
    rw [hvalid, dif_pos s.isValidUTF8]
    rfl

theorem text_exact : text.Exact FitsText := by
  intro bs s rest
  simp only [text, bind_eq_ok_iff, Prod.exists, word_exact 8 _ _ _, takeBytes_eq_ok_iff]
  constructor
  · rintro ⟨_, _, ⟨hsize, rfl⟩, taken, _, ⟨rfl, rfl⟩, h⟩
    split at h
    next hread =>
      cases h
      rw [fromUTF8?_eq_some_iff] at hread
      subst hread
      exact ⟨hsize, by rw [List.append_assoc]; rfl⟩
    next => cases h
  · rintro ⟨hs, rfl⟩
    refine ⟨_, _, ⟨hs, List.append_assoc _ _ _⟩, utf8 s, rest, ⟨rfl, rfl⟩, ?_⟩
    rw [fromUTF8?_eq_some_iff.mpr rfl]
    rfl

theorem Exact.option (h : c.Exact fits) : c.option.Exact fun o => ∀ a ∈ o, fits a := by
  intro bs o rest
  simp only [Codec.option, bind_eq_ok_iff, Prod.exists, word_exact 1 _ _ _]
  constructor
  · rintro ⟨n, _, ⟨_, rfl⟩, hread⟩
    split at hread
    next =>
      cases hread
      exact ⟨by simp, rfl⟩
    next =>
      simp only [bind_eq_ok_iff, Prod.exists, h _ _ _, pure_eq_ok_iff, Prod.mk.injEq] at hread
      obtain ⟨a, _, ⟨ha, rfl⟩, rfl, rfl⟩ := hread
      refine ⟨fun _ hmem => ?_, (List.append_assoc _ _ _).symm⟩
      cases hmem
      exact ha
    next => cases hread
  · rintro ⟨ho, rfl⟩
    cases o with
    | none => exact ⟨0, rest, ⟨by decide, rfl⟩, rfl⟩
    | some a =>
      refine ⟨1, c.encode a ++ rest, ⟨by decide, List.append_assoc _ _ _⟩, ?_⟩
      have hread := h.readsBack a (ho a rfl) rest
      simp only [bind_eq_ok_iff, Prod.exists, hread, pure_eq_ok_iff]
      exact ⟨a, rest, rfl, rfl⟩

theorem Exact.pair (h : c.Exact fits) (h' : d.Exact fits') :
    (c.pair d).Exact fun x => fits x.1 ∧ fits' x.2 := by
  rintro bs ⟨a, b⟩ rest
  simp only [Codec.pair, bind_eq_ok_iff, Prod.exists, h _ _ _, h' _ _ _, pure_eq_ok_iff,
    Prod.mk.injEq]
  constructor
  · rintro ⟨_, _, ⟨ha, rfl⟩, _, _, ⟨hb, rfl⟩, ⟨rfl, rfl⟩, rfl⟩
    exact ⟨⟨ha, hb⟩, (List.append_assoc _ _ _).symm⟩
  · rintro ⟨⟨ha, hb⟩, rfl⟩
    exact ⟨a, _, ⟨ha, List.append_assoc _ _ _⟩, b, rest, ⟨hb, rfl⟩, ⟨rfl, rfl⟩, rfl⟩

/-- Renaming values keeps exactness if it loses nothing in either direction. -/
theorem Exact.via (h : c.Exact fits) {toα : β → α} {ofα : α → β} (hto : ∀ a, toα (ofα a) = a)
    (hof : ∀ b, ofα (toα b) = b) : (c.via toα ofα).Exact fun b => fits (toα b) := by
  intro bs b rest
  simp only [Codec.via, bind_eq_ok_iff, Prod.exists, h _ _ _, pure_eq_ok_iff, Prod.mk.injEq]
  constructor
  · rintro ⟨a, _, ⟨ha, rfl⟩, rfl, rfl⟩
    rw [hto]
    exact ⟨ha, rfl⟩
  · rintro ⟨hb, rfl⟩
    exact ⟨toα b, rest, ⟨hb, rfl⟩, hof b, rfl⟩

theorem Exact.decodeOnto_eq_ok_iff (h : c.Exact fits) (count : Nat) (acc : List α) (bs : Bytes)
    (xs : List α) (rest : Bytes) :
    c.decodeOnto count acc bs = .ok (xs, rest) ↔
      ∃ ys, ys.length = count ∧ (∀ a ∈ ys, fits a) ∧ xs = acc.reverse ++ ys ∧
        bs = ys.flatMap c.encode ++ rest := by
  induction count generalizing acc bs with
  | zero =>
    unfold decodeOnto
    constructor
    · rintro ⟨⟩
      exact ⟨[], rfl, by simp, (List.append_nil _).symm, rfl⟩
    · rintro ⟨ys, hlength, _, rfl, rfl⟩
      rw [List.length_eq_zero_iff.mp hlength, List.append_nil]
      rfl
  | succ count ih =>
    unfold decodeOnto
    constructor
    · intro hread
      split at hread
      next => cases hread
      next a mid hfirst =>
        obtain ⟨ha, rfl⟩ := (h _ _ _).mp hfirst
        obtain ⟨ys, rfl, hys, rfl, rfl⟩ := (ih _ _).mp hread
        refine ⟨a :: ys, rfl, ?_, by simp, by simp⟩
        rintro b (_ | ⟨_, hmem⟩)
        · exact ha
        · exact hys b hmem
    · rintro ⟨ys, hlength, hys, rfl, rfl⟩
      cases ys with
      | nil => cases hlength
      | cons a ys =>
        have hfirst := h.readsBack a (hys a List.mem_cons_self) (ys.flatMap c.encode ++ rest)
        rw [List.flatMap_cons, List.append_assoc, hfirst]
        refine (ih _ _).mpr ⟨ys, Nat.succ.inj hlength, ?_, by simp, rfl⟩
        exact fun b hmem => hys b (List.mem_cons_of_mem a hmem)

theorem Exact.list (h : c.Exact fits) :
    c.list.Exact fun xs => xs.length < wordCount 8 ∧ ∀ a ∈ xs, fits a := by
  intro bs xs rest
  simp only [Codec.list, bind_eq_ok_iff, Prod.exists, word_exact 8 _ _ _, h.decodeOnto_eq_ok_iff]
  constructor
  · rintro ⟨_, _, ⟨hcount, rfl⟩, ys, rfl, hys, rfl, rfl⟩
    exact ⟨⟨hcount, hys⟩, (List.append_assoc _ _ _).symm⟩
  · rintro ⟨⟨hcount, hxs⟩, rfl⟩
    exact ⟨xs.length, _, ⟨hcount, List.append_assoc _ _ _⟩, xs, rfl, hxs, rfl, rfl⟩

end Codec

end Adjudication.Wire
