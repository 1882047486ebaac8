import Adjudication.Event

namespace Adjudication

/-- How much passes: nothing, or the events as severe as a level. -/
abbrev Verbosity := Option Level

/-- Reads a level by its name in either case, or by its rank. -/
def Verbosity.ofText? (s : String) : Option Verbosity :=
  match (s.map Char.toLower) with
  | "off" | "0" => some none
  | "" | "error" | "1" => some (some .error)
  | "warn" | "2" => some (some .warn)
  | "info" | "3" => some (some .info)
  | "debug" | "4" => some (some .debug)
  | "trace" | "5" => some (some .trace)
  | _ => none

/-- Of the directives whose target begins an event's target the longest one decides, and of equal ones
the last. -/
structure LogDirective where
  /-- Events whose target begins so; all of them if it is empty. -/
  target : String
  verbosity : Verbosity

abbrev LogFilter := List LogDirective

namespace LogDirective

def begins (c : Char) : Bool := c.isAlphanum || c = '-' || c = ':' || c = '_' || 127 < c.toNat

/-- Reads a directive; a target alone lets everything pass. -/
def ofText? (text : List Char) : Option LogDirective :=
  match text with
  | [] => some ⟨"", some .trace⟩
  | c :: _ =>
    if !begins c then none
    else
      let head := String.ofList (text.takeWhile (· != '='))
      match text.dropWhile (· != '=') with
      | [] =>
        match Verbosity.ofText? head with
        | some verbosity => some ⟨"", verbosity⟩
        | none => some ⟨head, some .trace⟩
      | _ :: level =>
        if level.isEmpty then some ⟨head, some .trace⟩
        else (Verbosity.ofText? (String.ofList level)).map fun verbosity => ⟨head, verbosity⟩

end LogDirective

namespace LogFilter

def isSpace (c : Char) : Bool := c.isWhitespace

def trim (s : List Char) : List Char :=
  ((s.dropWhile isSpace).reverse.dropWhile isSpace).reverse

/-- Reads directives between commas; without any, only errors pass. -/
def ofText? (text : String) : Option LogFilter := do
  let parts := (text.splitOn ",").filter (!·.isEmpty)
  let directives ← parts.mapM fun part => LogDirective.ofText? (trim part.toList)
  return if directives.isEmpty then [⟨"", some .error⟩] else directives

/-- The directive that decides on a target. -/
def deciding? (filter : LogFilter) (target : String) : Option LogDirective :=
  filter.foldl (fun best d =>
    if d.target.isPrefixOf target && best.all fun (b : LogDirective) => b.target.length ≤ d.target.length
    then some d else best) none

def passes (filter : LogFilter) (e : Event) : Bool :=
  ((filter.deciding? e.target).bind LogDirective.verbosity).any fun level => e.passes level

end LogFilter

inductive LogFormat
  | pretty
  | json
deriving DecidableEq

def LogFormat.label : LogFormat → String
  | pretty => "Pretty"
  | json => "Json"

/-- Only the name of the JSON format, in either case, selects it. -/
def LogFormat.ofText (s : String) : LogFormat :=
  if s.map Char.toLower = "json" then json else pretty

end Adjudication
