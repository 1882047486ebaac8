import Adjudication.Limits

namespace Adjudication.CommandLine

structure RunOptions where
  config : Option String := none
  adjudicators : Nat := 4
  apiPort : Nat := Limits.apiPort
  metricsPort : Nat := Limits.metricsPort
  adjudicatorKey : Option String := none
  logFormat : String := "pretty"
deriving DecidableEq

inductive Command
  | run (options : RunOptions)
  | init (dataDir : String)
  | version
deriving DecidableEq

/-- Why words are no command: some ask for a text instead, the others are faults. -/
inductive Refusal
  | helpRequested
  /-- Of the program, or of one of its commands. -/
  | versionRequested (command : Option String)
  | commandMissing
  | commandUnknown
  | argumentUnknown
  | valueMissing
  | valueInvalid
  | valueUnneeded
  | optionRepeated
deriving DecidableEq

def Refusal.label : Refusal → String
  | helpRequested => "DisplayHelp"
  | versionRequested _ => "DisplayVersion"
  | commandMissing => "DisplayHelpOnMissingArgumentOrSubcommand"
  | commandUnknown => "InvalidSubcommand"
  | argumentUnknown => "UnknownArgument"
  | valueMissing => "InvalidValue"
  | valueInvalid => "ValueValidation"
  | valueUnneeded => "TooManyValues"
  | optionRepeated => "ArgumentConflict"

def ofDigits (s : List Char) : Option Nat :=
  if s.isEmpty || !s.all Char.isDigit then none
  else some (s.foldl (fun n c => 10 * n + (c.toNat - '0'.toNat)) 0)

/-- A count: digits, with a plus sign or none. -/
def count? (s : String) : Option Nat :=
  let digits := match s.toList with | '+' :: rest => rest | rest => rest
  (ofDigits digits).filter (· < UInt64.size)

/-- A port: digits with either sign or none, where only zero may be negative. -/
def port? (s : String) : Option Nat :=
  match s.toList with
  | '-' :: rest => (ofDigits rest).filter (· = 0)
  | '+' :: rest => (ofDigits rest).filter (· < UInt16.size)
  | rest => (ofDigits rest).filter (· < UInt16.size)

inductive ValueKind
  | path
  | count
  | port
  | text
deriving DecidableEq

/-- What is wrong with a value. -/
def ValueKind.refuse (kind : ValueKind) (value : String) : Option Refusal :=
  match kind with
  | path => if value.isEmpty then some .valueMissing else none
  | count => if (count? value).isNone then some .valueInvalid else none
  | port => if (port? value).isNone then some .valueInvalid else none
  | text => none

structure OptionSpec where
  name : String
  short : Option Char
  environmentName : String
  kind : ValueKind
deriving DecidableEq

def runSpecs : List OptionSpec := [
  ⟨"config", some 'c', "ARBITER_CONFIG", .path⟩,
  ⟨"adjudicators", some 'n', "ARBITER_ADJUDICATORS", .count⟩,
  ⟨"api-port", none, "ARBITER_API_PORT", .port⟩,
  ⟨"metrics-port", none, "ARBITER_METRICS_PORT", .port⟩,
  ⟨"adjudicator-key", none, "ARBITER_ADJUDICATOR_KEY", .text⟩,
  ⟨"log-format", none, "ARBITER_LOG_FORMAT", .text⟩]

def initSpecs : List OptionSpec := [⟨"data-dir", some 'd', "ARBITER_DATA_DIR", .path⟩]

/-- The options of each command. -/
def commands : List (String × List OptionSpec) :=
  [("run", runSpecs), ("init", initSpecs), ("version", [])]

inductive Word
  /-- Two dashes alone: no word behind them is an option. -/
  | escape
  | long (name : List Char) (value : Option (List Char))
  | short (letters : List Char)
  | plain

def Word.of (word : String) : Word :=
  match word.toList with
  | ['-', '-'] => escape
  | '-' :: '-' :: rest =>
    match rest.dropWhile (· != '=') with
    | [] => long rest none
    | _ :: value => long (rest.takeWhile (· != '=')) (some value)
  | ['-'] => plain
  | '-' :: letters => short letters
  | _ => plain

/-- What has been read of a command's words. -/
structure Progress where
  command : Option String
  values : List (String × String) := []
  /-- The option read last, and its value once that has come; nothing has been checked of it. -/
  open? : Option (OptionSpec × Option String) := none
  awaiting : Bool := false
  escaped : Bool := false

def Progress.accept (p : Progress) (spec : OptionSpec) (value : String) : Except Refusal Progress :=
  if p.values.any (·.1 = spec.name) then .error .optionRepeated
  else
    match spec.kind.refuse value with
    | some refusal => .error refusal
    | none => .ok { p with values := (spec.name, value) :: p.values }

/-- Checks the option read last. -/
def Progress.settle (p : Progress) : Except Refusal Progress :=
  match p.open? with
  | none => .ok p
  | some (_, none) => .error .valueMissing
  | some (spec, some value) => { p with open? := none, awaiting := false }.accept spec value

/-- Begins an option, whose value may be attached to it. -/
def Progress.begin (p : Progress) (spec : OptionSpec) (value : Option (List Char)) :
    Except Refusal Progress := do
  let p ← p.settle
  match value with
  | some v => p.accept spec (String.ofList v)
  | none => return { p with open? := some (spec, none), awaiting := true }

/-- Answers an option that asks for a text, once the option before it has been checked. -/
def Progress.ask (p : Progress) (refusal : Refusal) : Except Refusal Progress := do
  let _ ← p.settle
  throw refusal

def Progress.long (p : Progress) (specs : List OptionSpec) (name : List Char)
    (value : Option (List Char)) : Except Refusal Progress :=
  let name := String.ofList name
  match specs.find? fun s => s.name = name with
  | some spec => p.begin spec value
  | none =>
    if name = "help" ∨ name = "version" then
      if value.isSome then throw .valueUnneeded
      else p.ask (if name = "help" then .helpRequested else .versionRequested p.command)
    else throw .argumentUnknown

def Progress.short (p : Progress) (specs : List OptionSpec) (letters : List Char) :
    Except Refusal Progress :=
  match letters with
  | [] => .ok p
  | c :: rest =>
    match specs.find? fun s => s.short = some c with
    | some spec =>
      match rest with
      | [] => p.begin spec none
      | '=' :: value => p.begin spec (some value)
      | value => p.begin spec (some value)
    | none =>
      if c = 'h' then p.ask .helpRequested
      else if c = 'V' then p.ask (.versionRequested p.command)
      else throw .argumentUnknown

/-- Reads one word behind a command. -/
def Progress.read (specs : List OptionSpec) (p : Progress) (word : String) : Except Refusal Progress :=
  if p.escaped then throw .argumentUnknown
  else
    match Word.of word with
    | .escape => .ok { p with escaped := true }
    | .long name value => p.long specs name value
    | .short letters => p.short specs letters
    | .plain =>
      match p.open?, p.awaiting with
      | some (spec, _), true => .ok { p with open? := some (spec, some word), awaiting := false }
      | _, _ => throw .argumentUnknown

/-- Takes the options that were not given from the environment. -/
def Progress.consult (environment : List (String × String)) (specs : List OptionSpec) (p : Progress) :
    Except Refusal Progress :=
  specs.foldlM (fun p spec =>
    if p.values.any (·.1 = spec.name) then .ok p
    else
      match environment.lookup spec.environmentName with
      | none => .ok p
      | some value => p.accept spec value) p

def Progress.value? (p : Progress) (name : String) : Option String := p.values.lookup name

def RunOptions.of (p : Progress) : RunOptions :=
  let defaults : RunOptions := {}
  { config := p.value? "config"
    adjudicators := ((p.value? "adjudicators").bind count?).getD defaults.adjudicators
    apiPort := ((p.value? "api-port").bind port?).getD defaults.apiPort
    metricsPort := ((p.value? "metrics-port").bind port?).getD defaults.metricsPort
    adjudicatorKey := p.value? "adjudicator-key"
    logFormat := (p.value? "log-format").getD defaults.logFormat }

/-- Reads the words behind a command. -/
def readOptions (environment : List (String × String)) (command : String) (specs : List OptionSpec)
    (words : List String) : Except Refusal Progress := do
  let p ← words.foldlM (Progress.read specs) { command := some command }
  (← p.settle).consult environment specs

/-- A request for help names a command, or nothing. -/
def readHelp : List String → Refusal
  | [] => .helpRequested
  | [name] =>
    if name = "help" ∨ (commands.lookup name).isSome then .helpRequested else .commandUnknown
  | _ => .commandUnknown

/-- A plain word where no command can stand. -/
def misplaced (word : String) : Refusal :=
  if word = "help" ∨ (commands.lookup word).isSome then .argumentUnknown else .commandUnknown

/-- Reads a whole command line. -/
def parse (environment : List (String × String)) : List String → Except Refusal Command
  | [] => .error .commandMissing
  | word :: words =>
    match Word.of word with
    | .escape => .error (match words with | [] => .commandMissing | next :: _ => misplaced next)
    | .long name value => do
      let _ ← { command := none : Progress }.long [] name value
      throw .argumentUnknown
    | .short letters => do
      let _ ← { command := none : Progress }.short [] letters
      throw .argumentUnknown
    | .plain =>
      if word = "help" then .error (readHelp words)
      else
        match commands.lookup word with
        | none => .error .commandUnknown
        | some specs => do
          let p ← readOptions environment word specs words
          match word with
          | "run" => return .run (.of p)
          | "init" => return .init ((p.value? "data-dir").getD ".arbiter")
          | _ => return .version

end Adjudication.CommandLine
