import Adjudication.Entropy
import Adjudication.FileTree
import Adjudication.Program

namespace Adjudication

structure Machine where
  files : FileTree
  entropy : Entropy
  /-- The lines printed, latest first. -/
  printed : List String := []
  /-- The events logged, latest first, each in its format. -/
  logged : List (LogFormat × Event) := []

namespace Machine

/-- Writes a file and creates the folders that it lies in. -/
def place (t : FileTree) (path text : String) : FileTree :=
  let folders := "/".intercalate ("." :: (FileTree.names path).dropLast)
  let t := (t.createFolders (folders ++ "/")).getD t
  (t.writeText path text FileTree.sharedMode).getD t

/-- A machine whose working folder holds some files. -/
def ofFiles (files : List (String × String)) : Machine :=
  let bare : FileTree := {
    items := [(["work"], .folder), (["tmp"], .folder), (["dev"], .folder),
      (["dev", "null"], .file "" FileTree.sharedMode)]
    workingFolder := ["work"] }
  { files := files.foldl (fun t file => place t file.1 file.2) bare, entropy := .ofSeed 1 }

/-- Replaces the files, if there is a new tree. -/
def keep (files : Option FileTree) : StateM Machine Bool := do
  match files with
  | none => return false
  | some files =>
    modify fun s => { s with files }
    return true

def host (arguments : List String) (environment : List (String × String)) :
    Program.Host (StateM Machine) where
  arguments := arguments
  environment := environment
  readText path := do return ((← get).files.readText path).map (·.1)
  createFolders path := do keep ((← get).files.createFolders path)
  writeSecret path text := do keep ((← get).files.writeText path text FileTree.secretMode)
  print line := modify fun s => { s with printed := line :: s.printed }
  log format e := modify fun s => { s with logged := (format, e) :: s.logged }
  randomBytes n := modifyGet fun s =>
    let (bytes, entropy) := s.entropy.bytes n
    (bytes, { s with entropy })

/-- Runs the program. -/
def run (s : Machine) (arguments : List String) (environment : List (String × String)) :
    Program.Ending × Machine :=
  (Program.execute (host arguments environment)).run s

def lines (s : Machine) : List String := s.printed.reverse

/-- The events logged as JSON. -/
def jsonEvents (s : Machine) : List Event :=
  s.logged.reverse.filterMap fun (format, e) => if format = .json then some e else none

/-- The address that the program has printed. -/
def printedAddress? (s : Machine) : Option Address :=
  s.lines.findSome? fun line =>
    if Program.addressLabel.toList.isPrefixOf line.toList then
      some (String.ofList (line.toList.drop Program.addressLabel.length))
    else none

end Machine

end Adjudication
