namespace Adjudication.Json

inductive Token
  | openBrace
  | closeBrace
  | openBracket
  | closeBracket
  | comma
  | colon
  | word
  /-- A string, with its value if it has one. -/
  | text (value : Option String)
  /-- A number, with its value if it is written in digits alone. -/
  | number (value : Option Nat)
deriving DecidableEq

/-- What has been read of a string: its characters backwards, and half of a pair that waits for the
other half. -/
structure Partial where
  characters : List Char := []
  high : Option Nat := none
  broken : Bool := false
deriving DecidableEq

namespace Partial

/-- The string so far, where a half that waits has become a lone one. -/
def alone (p : Partial) : Partial := { p with high := none, broken := p.broken || p.high.isSome }

def push (p : Partial) (c : Char) : Partial :=
  let p := p.alone
  { p with characters := c :: p.characters }

/-- Adds an escaped unit of sixteen bits. -/
def pushUnit (p : Partial) (unit : Nat) : Partial :=
  match p.high with
  | some high =>
    if 0xdc00 ≤ unit ∧ unit < 0xe000 then
      let c := Char.ofNat (0x10000 + (high - 0xd800) * 0x400 + (unit - 0xdc00))
      { p with characters := c :: p.characters, high := none }
    else { p.alone with broken := true }
  | none =>
    if 0xd800 ≤ unit ∧ unit < 0xdc00 then { p with high := some unit }
    else if 0xdc00 ≤ unit ∧ unit < 0xe000 then { p with broken := true }
    else { p with characters := Char.ofNat unit :: p.characters }

def toToken (p : Partial) : Token :=
  let p := p.alone
  .text (if p.broken then none else some (String.ofList p.characters.reverse))

end Partial

/-- How far a number has been read. -/
inductive NumberPart
  | sign
  | zero
  | whole
  | point
  | fraction
  | exponent
  | exponentSign
  | exponentDigits
deriving DecidableEq

/-- Whether a number may end there. -/
def NumberPart.complete : NumberPart → Bool
  | zero | whole | fraction | exponentDigits => true
  | sign | point | exponent | exponentSign => false

def NumberPart.next (part : NumberPart) (c : Char) : Option NumberPart :=
  match part with
  | sign => if c = '0' then some zero else if c.isDigit then some whole else none
  | zero => if c = '.' then some point else if c = 'e' ∨ c = 'E' then some exponent else none
  | whole =>
    if c.isDigit then some whole
    else if c = '.' then some point
    else if c = 'e' ∨ c = 'E' then some exponent
    else none
  | point | fraction =>
    if c.isDigit then some fraction
    else if part = fraction ∧ (c = 'e' ∨ c = 'E') then some exponent
    else none
  | exponent =>
    if c = '+' ∨ c = '-' then some exponentSign else if c.isDigit then some exponentDigits else none
  | exponentSign | exponentDigits => if c.isDigit then some exponentDigits else none

inductive State
  | between
  | string (p : Partial)
  | escape (p : Partial)
  /-- In the digits of an escaped unit, `count` of which are still to come. -/
  | unit (p : Partial) (value count : Nat)
  | number (part : NumberPart) (value : Option Nat)
  | word (rest : List Char)

def isBlank (c : Char) : Bool := c = ' ' || c = '\t' || c = '\n' || c = '\r'

def hexDigit? (c : Char) : Option Nat :=
  if c.isDigit then some (c.toNat - '0'.toNat)
  else if 'a' ≤ c ∧ c ≤ 'f' then some (c.toNat - 'a'.toNat + 10)
  else if 'A' ≤ c ∧ c ≤ 'F' then some (c.toNat - 'A'.toNat + 10)
  else none

def escaped? (c : Char) : Option Char :=
  match c with
  | '"' => some '"'
  | '\\' => some '\\'
  | '/' => some '/'
  | 'b' => some (Char.ofNat 8)
  | 'f' => some (Char.ofNat 12)
  | 'n' => some '\n'
  | 'r' => some '\r'
  | 't' => some '\t'
  | _ => none

def startNumber (c : Char) : State :=
  if c = '-' then .number .sign none
  else if c = '0' then .number .zero (some 0)
  else .number .whole (some (c.toNat - '0'.toNat))

/-- Reads a character between tokens. -/
def start (c : Char) : Option (State × List Token) :=
  if isBlank c then some (.between, [])
  else if c = Char.ofNat 0x7b then some (.between, [.openBrace])
  else if c = Char.ofNat 0x7d then some (.between, [.closeBrace])
  else if c = '[' then some (.between, [.openBracket])
  else if c = ']' then some (.between, [.closeBracket])
  else if c = ',' then some (.between, [.comma])
  else if c = ':' then some (.between, [.colon])
  else if c = '"' then some (.string {}, [])
  else if c = '-' ∨ c.isDigit then some (startNumber c, [])
  else if c = 't' then some (.word ['r', 'u', 'e'], [])
  else if c = 'f' then some (.word ['a', 'l', 's', 'e'], [])
  else if c = 'n' then some (.word ['u', 'l', 'l'], [])
  else none

/-- Reads a character, and says which tokens end with it. -/
def step (state : State) (c : Char) : Option (State × List Token) :=
  match state with
  | .between => start c
  | .string p =>
    if c = '"' then some (.between, [p.toToken])
    else if c = '\\' then some (.escape p, [])
    else if c.toNat < 32 then none
    else some (.string (p.push c), [])
  | .escape p =>
    if c = 'u' then some (.unit p 0 4, [])
    else (escaped? c).map fun d => (.string (p.push d), [])
  | .unit p value count =>
    (hexDigit? c).map fun d =>
      let value := 16 * value + d
      if count ≤ 1 then (.string (p.pushUnit value), []) else (.unit p value (count - 1), [])
  | .number part value =>
    match part.next c with
    | some next =>
      let value := if next = .whole then value.map fun v => 10 * v + (c.toNat - '0'.toNat) else none
      some (.number next value, [])
    | none =>
      if part.complete then (start c).map fun (state, tokens) => (state, .number value :: tokens)
      else none
  | .word rest =>
    match rest with
    | [] => none
    | d :: rest =>
      if c ≠ d then none
      else if rest.isEmpty then some (.between, [.word])
      else some (.word rest, [])

/-- The tokens of a text; `read` holds those before it, backwards. -/
def tokensFrom : State → List Token → List Char → Option (List Token)
  | state, read, [] =>
    match state with
    | .between => some read.reverse
    | .number part value => if part.complete then some (.number value :: read).reverse else none
    | _ => none
  | state, read, c :: rest =>
    match step state c with
    | none => none
    | some (state, tokens) => tokensFrom state (tokens.reverse ++ read) rest

def tokens (text : String) : Option (List Token) := tokensFrom .between [] text.toList

end Adjudication.Json
