import Adjudication.Event
import Adjudication.Json.Value

namespace Adjudication

def FieldValue.toJson : FieldValue → JsonValue
  | text s => .text s
  | number n => .natural n
  | flag b => .flag b

namespace Event

def jsonFields (e : Event) : List (String × JsonValue) :=
  ("message", .text e.message) :: e.fields.map fun f => (f.1, f.2.toJson)

def toJson (e : Event) : JsonValue :=
  .object [("level", .text e.level.label), ("fields", .object e.jsonFields), ("target", .text e.target)]

def toLine (e : Event) : String :=
  let fields := e.fields.map fun f => " " ++ f.1 ++ "=" ++ f.2.render
  e.level.label ++ " " ++ e.target ++ ": " ++ e.message ++ String.join fields

end Event

end Adjudication
