import StorageClient.Startup.Arguments
import StorageClient.Startup.Disk

/-!
Everything before the first frame: the arguments, the settings and the log file.
-/

namespace StorageClient

structure Environment where
  home : Option Text := none
  configHome : Option Text := none
  stateHome : Option Text := none
  temporary : Option Text := none
deriving DecidableEq, Repr

inductive ConfigError where
  | read (path : Text) (cause : ReadError)
  | parse (path : Text)
deriving DecidableEq, Repr

def ConfigError.message : ConfigError → Text
  | read path _ => "read config file ".toList ++ path ++ " failed".toList
  | parse path => "parse config file ".toList ++ path ++ " failed".toList

/-- The message with its cause, where the cause has a text of its own. -/
def ConfigError.report : ConfigError → Text
  | read path cause => (read path cause).message ++ ": ".toList ++ cause.message
  | parse path => (parse path).message

inductive LogError where
  | createDirectory (path : Text) (cause : OsError)
  | alreadyLogging
deriving DecidableEq, Repr

def LogError.message : LogError → Text
  | createDirectory path _ => "create log directory ".toList ++ path ++ " failed".toList
  | alreadyLogging => "initialize tracing subscriber failed".toList

def LogError.report : LogError → Text
  | createDirectory path cause => (createDirectory path cause).message ++ ": ".toList ++ cause.message
  | alreadyLogging => alreadyLogging.message

namespace Environment

def configFile? (env : Environment) : Option Text := do
  let dir ← env.configHome.or (env.home.map (FileName.join · ".config".toList))
  return FileName.join (FileName.join dir "fileverse".toList) "config.toml".toList

def logDirectory (env : Environment) : Text :=
  match env.stateHome with
  | some dir => FileName.join (FileName.join dir "fileverse".toList) "logs".toList
  | none =>
    FileName.join (env.home.getD (env.temporary.getD "/tmp".toList))
      ".local/state/fileverse/logs".toList

end Environment

/-- Why the program stops before its first frame: its exit status and what it prints. -/
structure Stop where
  status : Nat
  output : Text := []
  error : Text := []
deriving DecidableEq, Repr

namespace Startup
variable {m : Type → Type} [Monad m]

def configOf (disk : Disk m) (path : Text) : m (Except ConfigError Config) := do
  match ← disk.read path with
  | .error e => return .error (.read path e)
  | .ok t =>
    match Config.read? t with
    | some c => return .ok c
    | none => return .error (.parse path)

/-- The settings of the file that the arguments name, otherwise of the user's file if there is one,
otherwise those that are built in. -/
def loadConfig (disk : Disk m) (env : Environment) (explicit : Option Text) :
    m (Except ConfigError Config) := do
  match explicit, env.configFile? with
  | some path, _ => configOf disk path
  | none, some path => if ← disk.isFile path then configOf disk path else return .ok {}
  | none, none => return .ok {}

/-- Makes the log file and gives its name. Only one log can be kept at a time. -/
def startLog (disk : Disk m) (env : Environment) (settings : LogSettings) (alreadyLogging : Bool) :
    ExceptT Fault m (Except LogError Text) := do
  let dir := settings.directory.getD env.logDirectory
  match ← disk.makeDirs dir with
  | .error e => return .error (.createDirectory dir e)
  | .ok () =>
    let file := FileName.join dir "fileverse.log".toList
    match ← disk.append file with
    | .error _ => throw .noLogFile
    | .ok () => return if alreadyLogging then .error .alreadyLogging else .ok file

/-- A fault ends the program without a word. -/
def crash : Stop := { status := 101 }

def stopOf : Usage → Stop
  | .help => ⟨0, Arguments.help, []⟩
  | .version => ⟨0, Arguments.version, []⟩
  | .error e => ⟨2, [], "error: ".toList ++ e.message⟩

def prepare (disk : Disk m) (env : Environment) (args : List Text) : m (Except Stop Config) := do
  match Arguments.read args with
  | .error u => return .error (stopOf u)
  | .ok o =>
    match ← loadConfig disk env o.config with
    | .error e => return .error ⟨1, [], "load configuration failed: ".toList ++ e.report⟩
    | .ok c =>
      let c := c.override ⟨o.host, o.port, o.logFilter⟩
      match ← startLog disk env c.log false with
      | .error _ => return .error crash
      | .ok (.error e) => return .error ⟨1, [], "initialize logging failed: ".toList ++ e.report⟩
      | .ok (.ok _) => return .ok c

def runFailure (why : Text) : Text := "run app failed: ".toList ++ why

end Startup

end StorageClient
