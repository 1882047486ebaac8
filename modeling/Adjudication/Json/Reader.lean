import Adjudication.Json.Token

namespace Adjudication.Json

/-- A record is read from an object, whose unknown fields are skipped and whose known ones may come once
each, or from a list of its fields in order. Fields that do not come keep the values they had. -/
abbrev Reader (α : Type) := List Token → Option (α × List Token)

/-- Where the skipping of a value stands. -/
inductive Skip
  | value
  | valueOrEnd
  | key
  | keyOrEnd
  | colon
  | after

/-- Skips one value of any depth; `stack` holds the containers that are open, `true` for an object. -/
def skipFrom : Skip → List Bool → Reader Unit
  | _, _, [] => none
  | state, stack, token :: rest =>
    let close (stack : List Bool) : Option (Unit × List Token) :=
      if stack.isEmpty then some ((), rest) else skipFrom .after stack rest
    match state, token, stack with
    | .value, .openBrace, _ | .valueOrEnd, .openBrace, _ => skipFrom .keyOrEnd (true :: stack) rest
    | .value, .openBracket, _ | .valueOrEnd, .openBracket, _ =>
      skipFrom .valueOrEnd (false :: stack) rest
    | .value, .word, _ | .value, .text _, _ | .value, .number _, _
    | .valueOrEnd, .word, _ | .valueOrEnd, .text _, _ | .valueOrEnd, .number _, _ => close stack
    | .valueOrEnd, .closeBracket, false :: outer => close outer
    | .key, .text _, _ | .keyOrEnd, .text _, _ => skipFrom .colon stack rest
    | .keyOrEnd, .closeBrace, true :: outer => close outer
    | .colon, .colon, _ => skipFrom .value stack rest
    | .after, .comma, true :: _ => skipFrom .key stack rest
    | .after, .comma, false :: _ => skipFrom .value stack rest
    | .after, .closeBrace, true :: outer => close outer
    | .after, .closeBracket, false :: outer => close outer
    | _, _, _ => none

def skip : Reader Unit := skipFrom .value []

/-- A number of sixty-four bits. -/
def natural : Reader Nat
  | .number (some n) :: rest => if n < UInt64.size then some (n, rest) else none
  | _ => none

/-- A field of a record: its name, and how it is read into the record. -/
structure Field (α : Type) where
  name : String
  read : α → Reader α

def Field.of {α β : Type} (name : String) (get : α → β) (set : α → β → α) (reader : β → Reader β) :
    Field α where
  name := name
  read a tokens := (reader (get a) tokens).map fun (b, rest) => (set a b, rest)

/-- Reads what follows the start of an object or one of its commas; `fuel` bounds the fields. -/
def fieldsByName {α : Type} (fields : List (Field α)) : Nat → List String → α → Reader α
  | 0, _, _, _ => none
  | fuel + 1, seen, a, .text (some name) :: .colon :: rest =>
    let value : Option (α × List String × List Token) :=
      match fields.find? fun f => f.name = name with
      | none => (skip rest).map fun (_, rest) => (a, seen, rest)
      | some f =>
        if name ∈ seen then none
        else (f.read a rest).map fun (a, rest) => (a, name :: seen, rest)
    match value with
    | some (a, seen, .comma :: rest) => fieldsByName fields fuel seen a rest
    | some (a, _, .closeBrace :: rest) => some (a, rest)
    | _ => none
  | _ + 1, _, _, _ => none

/-- Reads what follows the start of a list or one of its commas. -/
def fieldsInOrder {α : Type} : List (Field α) → α → Reader α
  | [], _, _ => none
  | f :: fields, a, tokens =>
    match f.read a tokens with
    | some (a, .comma :: rest) => fieldsInOrder fields a rest
    | some (a, .closeBracket :: rest) => some (a, rest)
    | _ => none

def record {α : Type} (fields : List (Field α)) (a : α) : Reader α
  | .openBrace :: .closeBrace :: rest => some (a, rest)
  | .openBrace :: rest => fieldsByName fields rest.length [] a rest
  | .openBracket :: .closeBracket :: rest => some (a, rest)
  | .openBracket :: rest => fieldsInOrder fields a rest
  | _ => none

/-- Reads a text that holds one value and nothing else. -/
def readText {α : Type} (reader : Reader α) (text : String) : Option α :=
  match (tokens text).bind reader with
  | some (a, []) => some a
  | _ => none

end Adjudication.Json
