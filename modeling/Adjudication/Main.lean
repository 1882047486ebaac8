import Adjudication.LogLine
import Adjudication.Program

namespace Adjudication.Program

def attempt (action : IO Unit) : IO Bool := do
  try
    action
    return true
  catch _ => return false

/-- Reads the environment, as far as the program asks for it. -/
def readEnvironment : IO (List (String × String)) := do
  let specs := CommandLine.commands.flatMap (·.2)
  let names := "RUST_LOG" :: specs.map CommandLine.OptionSpec.environmentName
  names.filterMapM fun name => do
    return (← IO.getEnv name).map fun value => (name, value)

def processHost (arguments : List String) (environment : List (String × String)) : Host IO where
  arguments := arguments
  environment := environment
  readText path := do
    try
      return some (← IO.FS.readFile path)
    catch _ => return none
  createFolders path := attempt (IO.FS.createDirAll path)
  writeSecret path text := attempt do
    IO.FS.writeFile path text
    IO.setAccessRights path { user := { read := true, write := true } }
  print line := IO.println line
  log format e := IO.eprintln (match format with | .json => e.toJson.render | .pretty => e.toLine)
  randomBytes n := do return (← IO.getRandomBytes n.toUSize).data.toList

/-- How long the process rests between two looks at the clock, in milliseconds. -/
def rest : UInt32 := 5

/-- Runs a world along with the clock; `start` is when its time began. -/
partial def serve (host : Host IO) (logger : Logger) (start : Nat) (w : World) : IO Unit := do
  let clock ← IO.monoMsNow
  let w := { w with clock := (clock : Int) }.advance (clock - start)
  w.events.forM fun e => host.tell logger e
  IO.sleep rest
  serve host logger start { w with journal := [] }

def runProcess (arguments : List String) : IO UInt32 := do
  let host := processHost arguments (← readEnvironment)
  let ending ← execute host
  match ending with
  | .failed reason => IO.eprintln ("Error: " ++ reason.message)
  | .refused refusal => IO.eprintln refusal.label
  | .serving logger w => serve host logger (← IO.monoMsNow) w
  | .done => pure ()
  return UInt32.ofNat ending.exitCode

end Adjudication.Program

def main (arguments : List String) : IO UInt32 := Adjudication.Program.runProcess arguments
