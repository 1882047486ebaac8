import Adjudication.CommandLine
import Adjudication.ConfigText
import Adjudication.Devnet
import Adjudication.LogFilter
import Adjudication.Schedule

namespace Adjudication.Program

def name : String := "arbiter-node"

def version : String := "0.1.0"

def keyFile : String := "adjudicator.key"

def addressLabel : String := "  Address        : "

/-- What the program needs of its surroundings. -/
structure Host (m : Type → Type) where
  arguments : List String
  environment : List (String × String)
  readText : String → m (Option String)
  createFolders : String → m Bool
  /-- Writes a file that only its owner may read. -/
  writeSecret : String → String → m Bool
  print : String → m Unit
  log : LogFormat → Event → m Unit
  randomBytes : Nat → m Bytes

/-- Why a command failed. -/
inductive Failure
  | noAdjudicators
  | configUnreadable (path : String)
  | configMalformed (path : String)
  | invalidKey
  | notConnected (reason : NodeError)
  | folderNotCreated (path : String)
  | keyNotWritten (path : String)
deriving DecidableEq

def Failure.message : Failure → String
  | .noAdjudicators => "need at least one adjudicator"
  | .configUnreadable path => s!"failed to read config file {path}"
  | .configMalformed path => s!"failed to parse config file {path}"
  | .invalidKey => "invalid adjudicator key"
  | .notConnected reason => reason.message
  | .folderNotCreated path => s!"failed to create data directory: {path}"
  | .keyNotWritten path => s!"failed to write adjudicator key to {path}"

structure Logger where
  format : LogFormat
  filter : LogFilter

def runDirectives : String := "arbiter_node=info,arbiter_protocol=info,tower_http=debug"
def initDirectives : String := "arbiter_node=info"

/-- The directives of the environment, if they can be read, or else those of the command. -/
def Logger.of (environment : List (String × String)) (directives : String) (format : LogFormat) :
    Logger :=
  let filter :=
    ((environment.lookup "RUST_LOG").bind LogFilter.ofText?).orElse fun _ => LogFilter.ofText? directives
  ⟨format, filter.getD []⟩

/-- How the program ends, or goes on. -/
inductive Ending
  | done
  | refused (refusal : CommandLine.Refusal)
  | failed (reason : Failure)
  /-- The network runs until the program is stopped. -/
  | serving (logger : Logger) (world : World)

/-- A faulty command line counts as graver than a command that failed. -/
def Ending.exitCode : Ending → Nat
  | .done | .serving .. | .refused .helpRequested | .refused (.versionRequested _) => 0
  | .refused _ => 2
  | .failed _ => 1

variable {m : Type → Type} [Monad m]

def Host.tell (host : Host m) (logger : Logger) (e : Event) : m Unit :=
  if logger.filter.passes e then host.log logger.format e else pure ()

def Host.startLogging (host : Host m) (directives : String) (format : LogFormat) : m Logger := do
  let logger := Logger.of host.environment directives format
  host.tell logger (.loggingStarted format.label)
  return logger

def loadConfig (host : Host m) : Option String → ExceptT Failure m NodeConfig
  | none => return {}
  | some path => do
    match ← host.readText path with
    | none => throw (.configUnreadable path)
    | some text =>
      match NodeConfig.ofJson? text with
      | none => throw (.configMalformed path)
      | some config => return config

def generateKeys (host : Host m) : Nat → m (List Keypair)
  | 0 => return []
  | n + 1 => do
    let key := Keypair.ofSeed (← host.randomBytes 32)
    return key :: (← generateKeys host n)

/-- A given key is the first adjudicator's; the others get new ones. -/
def makeKeys (host : Host m) (given : Option String) (count : Nat) : ExceptT Failure m (List Keypair) :=
  match given with
  | none => liftM (generateKeys host count)
  | some text =>
    match Keypair.ofHex (trimBlank text) with
    | .error _ => throw .invalidKey
    | .ok key => do return key :: (← liftM (generateKeys host (count - 1)))

/-- Adjudicators on one network that are all connected, each with a driver; and what stood against the
connections. -/
def devnet (keys : List Keypair) (config : NodeConfig) : List NodeError × World :=
  let w : World := { clock := 0, members := .ofList (keys.map Keypair.address), threshold := .trace }
  let w := keys.foldl (fun w key =>
    (w.addAgent key.signer ed25519Verifier config {} .logging).join w.agents.length key.address) w
  let (errors, w) := w.connectMesh
  (errors, keys.zipIdx.foldl (fun w (key, i) =>
    (w.startDriver i (Devnet.application key.address) false).2) w)

def run (host : Host m) (options : CommandLine.RunOptions) : ExceptT Failure m Ending := do
  let logger ← host.startLogging runDirectives (.ofText options.logFormat)
  if options.adjudicators = 0 then throw .noAdjudicators
  let config ← loadConfig host options.config
  host.tell logger (.programStarting options.adjudicators options.apiPort options.metricsPort)
  let keys ← makeKeys host options.adjudicatorKey options.adjudicators
  let (errors, world) := devnet keys config
  world.events.forM fun e => host.tell logger e
  match errors with
  | e :: _ => throw (.notConnected e)
  | [] => return .serving logger { world with journal := [] }

/-- The path of a file in a folder. -/
def pathIn (folder file : String) : String :=
  if folder.endsWith "/" then folder ++ file else folder ++ "/" ++ file

def init (host : Host m) (dataDir : String) : ExceptT Failure m Ending := do
  let logger ← host.startLogging initDirectives .pretty
  unless ← host.createFolders dataDir do throw (.folderNotCreated dataDir)
  let key := Keypair.ofSeed (← host.randomBytes 32)
  let path := pathIn dataDir keyFile
  unless ← host.writeSecret path key.secretHex do throw (.keyNotWritten path)
  host.tell logger (.keyGenerated key.address path)
  host.print "Adjudicator initialized successfully."
  host.print s!"  Data directory : {dataDir}"
  host.print s!"  Key file       : {path}"
  host.print (addressLabel ++ key.address)
  return .done

def printVersion (host : Host m) : m Ending := do
  host.print s!"{name} {version}"
  host.print s!"protocol     {Limits.protocolVersion}"
  host.print "rustc        unknown"
  return .done

/-- The line for a request of the version, of the program or of one of its commands. -/
def versionLine (command : Option String) : String :=
  match command with
  | none => name ++ " " ++ version
  | some command => name ++ "-" ++ command ++ " " ++ version

def perform (host : Host m) : CommandLine.Command → ExceptT Failure m Ending
  | .run options => run host options
  | .init dataDir => init host dataDir
  | .version => liftM (printVersion host)

/-- Reads the command line, and does what it says. -/
def execute (host : Host m) : m Ending := do
  match CommandLine.parse host.environment host.arguments with
  | .error refusal =>
    match refusal with
    | .versionRequested command => host.print (versionLine command)
    | _ => pure ()
    return .refused refusal
  | .ok command =>
    match ← (perform host command).run with
    | .ok ending => return ending
    | .error reason => return .failed reason

end Adjudication.Program
