namespace Adjudication.Decimal

/-- A positive number `mantissa * 2 ^ (exponent - bias)`, scaled so that the exponent is natural. -/
structure Binary where
  mantissa : Nat
  exponent : Nat
  /-- Whether the neighbour below is only half as far away as the one above. -/
  atBoundary : Bool

def bias : Nat := 1074

/-- Reads the sixty-four bits of a positive finite number. -/
def Binary.ofBits (bits : Nat) : Binary :=
  let fraction := bits % Nat.pow 2 52
  let exponent := bits / Nat.pow 2 52 % Nat.pow 2 11
  if exponent = 0 then ⟨fraction, 0, false⟩
  else ⟨Nat.pow 2 52 + fraction, exponent - 1, fraction = 0 && 1 < exponent⟩

/-- The three numbers, low midpoint, value and high midpoint, over a common denominator. -/
def Binary.interval (b : Binary) : Nat × Nat × Nat × Nat :=
  let unit := Nat.pow 2 b.exponent
  let low := if b.atBoundary then (4 * b.mantissa - 1) * unit else (4 * b.mantissa - 2) * unit
  (low, 4 * b.mantissa * unit, (4 * b.mantissa + 2) * unit, 4 * Nat.pow 2 bias)

/-- Whether `digits / 10 ^ places` lies between the midpoints; they count if the mantissa is even. -/
def Binary.holds (b : Binary) (digits places : Nat) : Bool :=
  let (low, _, high, denominator) := b.interval
  let x := digits * denominator
  let scale := Nat.pow 10 places
  if b.mantissa % 2 = 0 then low * scale ≤ x && x ≤ high * scale
  else low * scale < x && x < high * scale

/-- The decimals with so many places next to the number, the nearer one first. -/
def Binary.candidates (b : Binary) (places : Nat) : List Nat :=
  let (_, value, _, denominator) := b.interval
  let below := value * Nat.pow 10 places / denominator
  let rest := value * Nat.pow 10 places % denominator
  if 2 * rest ≤ denominator then [below, below + 1] else [below + 1, below]

/-- The first count of places from `places` on with a decimal that reads back. -/
def Binary.search (b : Binary) : Nat → Nat → Nat × Nat
  | 0, places => (0, places)
  | fuel + 1, places =>
    match (b.candidates places).find? fun d => b.holds d places with
    | some digits => (digits, places)
    | none => b.search fuel (places + 1)

/-- Among whole numbers, the one with the most zeros at its end that reads back. -/
def Binary.roundedWhole (b : Binary) (digits : Nat) : Nat → Nat
  | 0 => digits
  | zeros + 1 =>
    let scale := Nat.pow 10 (zeros + 1)
    let below := digits / scale * scale
    let nearFirst := if 2 * (digits - below) ≤ scale then [below, below + scale] else [below + scale, below]
    match nearFirst.find? fun d => 0 < d && b.holds d 0 with
    | some d => d
    | none => b.roundedWhole digits zeros

/-- The digits of `digits / 10 ^ places`, with a point if there are places. -/
def positional (digits places : Nat) : String :=
  let whole := digits / Nat.pow 10 places
  if places = 0 then toString whole
  else
    let fraction := (Nat.toDigits 10 (digits % Nat.pow 10 places))
    toString whole ++ "." ++ String.ofList (List.replicate (places - fraction.length) '0' ++ fraction)

/-- The shortest text of a finite number that is not negative, never with an exponent. -/
def shortest (x : Float) : String :=
  let bits := x.toBits.toNat % Nat.pow 2 63
  if bits = 0 then "0"
  else
    let b := Binary.ofBits bits
    let (digits, places) := b.search 1100 0
    if places = 0 then toString (b.roundedWhole digits 309) else positional digits places

end Adjudication.Decimal
