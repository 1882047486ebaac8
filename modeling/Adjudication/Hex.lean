import Adjudication.Bytes

namespace Adjudication.Hex

def digit (n : Nat) : Char :=
  if n < 10 then Char.ofNat (48 + n) else Char.ofNat (87 + n)

def digitValue? (c : Char) : Option Nat :=
  if '0' ≤ c ∧ c ≤ '9' then some (c.toNat - 48)
  else if 'a' ≤ c ∧ c ≤ 'f' then some (c.toNat - 87)
  else if 'A' ≤ c ∧ c ≤ 'F' then some (c.toNat - 55)
  else none

def encodeChars (bs : Bytes) : List Char :=
  bs.flatMap fun b => [digit (b.toNat / 16), digit (b.toNat % 16)]

def encode (bs : Bytes) : String := String.ofList (encodeChars bs)

/-- Decodes pairs of digits onto the bytes read so far, the last of them first. -/
def decodeOnto (acc : Bytes) : List Char → Option Bytes
  | [] => some acc.reverse
  | [_] => none
  | hi :: lo :: rest =>
    match digitValue? hi, digitValue? lo with
    | some h, some l => decodeOnto (UInt8.ofNat (16 * h + l) :: acc) rest
    | _, _ => none

def decode (s : String) : Option Bytes := decodeOnto [] s.toList

theorem digitValue?_digit : ∀ n, n < 16 → digitValue? (digit n) = some n := by decide

theorem decodeOnto_encodeChars (acc bs : Bytes) :
    decodeOnto acc (encodeChars bs) = some (acc.reverse ++ bs) := by
  induction bs generalizing acc with
  | nil => simp [encodeChars, decodeOnto]
  | cons b bs ih =>
    have hb := b.toNat_lt
    have hhi := digitValue?_digit (b.toNat / 16) (by omega)
    have hlo := digitValue?_digit (b.toNat % 16) (by omega)
    have hval : UInt8.ofNat (16 * (b.toNat / 16) + b.toNat % 16) = b := by
      rw [Nat.div_add_mod]
      exact UInt8.ofNat_toNat
    have hrest := ih (b :: acc)
    simp only [encodeChars] at hrest
    simp only [encodeChars, List.flatMap_cons, List.cons_append, List.nil_append, decodeOnto, hhi,
      hlo, hval, hrest, List.reverse_cons, List.append_assoc]

theorem decode_encode (bs : Bytes) : decode (encode bs) = some bs := by
  simp [decode, encode, decodeOnto_encodeChars]

theorem encode_inj {bs bs' : Bytes} : encode bs = encode bs' ↔ bs = bs' := by
  constructor
  · intro h
    have hread := congrArg decode h
    rw [decode_encode, decode_encode] at hread
    exact Option.some.inj hread
  · rintro rfl
    rfl

theorem length_of_decodeOnto {acc : Bytes} {cs : List Char} {bs : Bytes}
    (h : decodeOnto acc cs = some bs) : cs.length + 2 * acc.length = 2 * bs.length := by
  fun_induction decodeOnto acc cs with
  | case1 acc =>
    have hbs : acc.reverse = bs := by simpa using h
    simp [← hbs]
  | case2 => simp at h
  | case3 acc hi lo rest _ _ _ _ ih =>
    have := ih h
    simp only [List.length_cons] at this ⊢
    omega
  | case4 => simp at h

theorem length_of_decode {s : String} {bs : Bytes} (h : decode s = some bs) :
    s.toList.length = 2 * bs.length := by
  simpa using length_of_decodeOnto h

end Adjudication.Hex
