import LiteMonitor.Config.Checklist
import LiteMonitor.Config.Parameters
import LiteMonitor.Control.Throwing

/-!
# The configuration loader

`ConfigsLoader` and the calls it makes on the file and on its nodes.  An error is logged before a
function returns `false`, so the failure of a function is the line that it has logged.

* `ConfigFiles N` : the file system and `YAML::Node`.
* `loadConfigs`, `validateConfigs`, `initConfigs` : the member functions.
-/

namespace LiteMonitor

/-- What the loader asks about files and nodes.  `N` is the type of the nodes, and the exceptions
are given by their `what()`. -/
structure ConfigFiles (N : Type) where
  /-- `access(path, F_OK) == 0`. -/
  access : StdString → Bool
  /-- `YAML::LoadFile`. -/
  LoadFile : StdString → Except String N
  /-- `node[key]`. -/
  subscript : N → String → Except String N
  /-- `node` as a condition. -/
  isDefined : N → Bool
  /-- `node.as<T>()`. -/
  as : (k : Kind) → N → Except String k.Ty

/-- What stands for `{}` in a line of the log. -/
inductive LogArg where
  | str (v : StdString)
  | int (v : Int32)
  | what (v : String)
  deriving DecidableEq

/-- The value of a field in a line of the log. -/
def Kind.logArg : (k : Kind) → k.Ty → LogArg
  | .str, v => .str v
  | .int, v => .int v

/-- A line given to `spdlog::error`. -/
structure ErrorLine where
  format : String
  arg : Option LogArg
  deriving DecidableEq

/-- Code that changes the parameters, and returns `false` after an error. -/
abbrev Load := ExceptT ErrorLine (StateM Parameters)

/-- What `loadConfigs` logs when it has caught an exception. -/
def caught (what : String) : ErrorLine :=
  ⟨"[ConfigsLoader::loadConfigs] Failed to load config file: {}", some (.what what)⟩

/-- A call that may throw, inside of the `try` of `loadConfigs`. -/
def trying {α : Type} : Except String α → Load α
  | .ok a => pure a
  | .error what => throw (caught what)

namespace Section

/-- The key of the section. -/
def name : Section → String
  | .database => "database"
  | .retention => "retention"
  | .log => "log"
  | .http_server => "http_server"
  | .tcp_server => "tcp_server"

/-- What is logged when the section is not there. -/
def missing : Section → String
  | .database => "[ConfigsLoader::loadConfigs] Database config not found in config file"
  | .retention => "[ConfigsLoader::loadConfigs] Retention config not found in config file"
  | .log => "[ConfigsLoader::loadConfigs] Log config not found in config file"
  | .http_server => "[ConfigsLoader::loadConfigs] HTTP server config not found in config file"
  | .tcp_server => "[ConfigsLoader::loadConfigs] TCP server config not found in config file"

/-- The fields of the section, in the order in which they are loaded. -/
def fields : Section → List Field
  | .database => [.db_host, .db_port, .db_user, .db_password, .db_name]
  | .retention => [.history_retention_days, .trend_retention_days]
  | .log => [.log_dir, .log_level, .max_log_file_size, .max_log_file_num]
  | .http_server => [.http_host, .http_port]
  | .tcp_server => [.tcp_host, .tcp_port]

/-- The sections, in the order in which they are loaded. -/
def all : List Section := [.database, .retention, .log, .http_server, .tcp_server]

end Section

namespace ConfigFiles

variable {N : Type} (files : ConfigFiles N)

/-- `config[section][key]`. -/
def lookup (config : N) (path : Section × String) : Except String N := do
  files.subscript (← files.subscript config path.1.name) path.2

/-- `if (config[section][key]) field = config[section][key].as<T>();` -/
def loadField (config : N) (f : Field) : Load Unit := do
  if files.isDefined (← trying (files.lookup config f.path)) then
    let node ← trying (files.lookup config f.path)
    let v ← trying (files.as f.kind node)
    modify fun p => p.set f v

/-- One of the five parts of `loadConfigs`. -/
def loadSection (config : N) (s : Section) : Load Unit := do
  if !files.isDefined (← trying (files.subscript config s.name)) then
    throw ⟨s.missing, none⟩
  else
    s.fields.forM (files.loadField config)

def loadConfigs (config_file_path : StdString) : Load Unit := do
  let config ← trying (files.LoadFile config_file_path)
  Section.all.forM (files.loadSection config)

end ConfigFiles

namespace Field

/-- A check of one field, with the text that is logged.  The value is a part of the text if it has
a place there. -/
def check (f : Field) (text : String) (shown : Bool) : Check Parameters ErrorLine where
  bad p := f.invalid (p.get f)
  error p := ⟨text, if shown then some (f.kind.logArg (p.get f)) else none⟩
  repair p := f.fallback.elim p (p.set f)

end Field

/-- The check of both retention times. -/
def retentionCheck : Check Parameters ErrorLine where
  bad p := Field.invalid .history_retention_days p.retention_params.history_retention_days ||
    Field.invalid .trend_retention_days p.retention_params.trend_retention_days
  error _ := ⟨"[ConfigsLoader::validateConfigs] Invalid retention config", none⟩
  repair p := p

/-- The checks of `validateConfigs`, in their order. -/
def checks : List (Check Parameters ErrorLine) :=
  [Field.check .db_host "[ConfigsLoader::validateConfigs] Invalid host: {}" true,
    Field.check .db_port "[ConfigsLoader::validateConfigs] Invalid port: {}" true,
    Field.check .db_user "[ConfigsLoader::validateConfigs] Database user is empty" false,
    Field.check .db_password "[ConfigsLoader::validateConfigs] Database password is empty" false,
    Field.check .db_name "[ConfigsLoader::validateConfigs] Database name is empty" false,
    Field.check .log_dir "[ConfigsLoader::validateConfigs] Log directory is empty" false,
    Field.check .log_level "[ConfigsLoader::validateConfigs] Log level is empty" false,
    Field.check .max_log_file_size
      "[ConfigsLoader::validateConfigs] Invalid max log file size: {}" true,
    Field.check .max_log_file_num
      "[ConfigsLoader::validateConfigs] Invalid max log file num: {}" true,
    retentionCheck,
    Field.check .http_host "[ConfigsLoader::validateConfigs] HTTP server host is empty" false,
    Field.check .http_port "[ConfigsLoader::validateConfigs] Invalid HTTP server port: {}" true,
    Field.check .tcp_host "[ConfigsLoader::validateConfigs] TCP server host is empty" false,
    Field.check .tcp_port "[ConfigsLoader::validateConfigs] Invalid TCP server port: {}" true]

/-- The line that is logged if a value is not valid, and the parameters after the call. -/
def validateConfigs (p : Parameters) : Option ErrorLine × Parameters := Check.run checks p

/-- What `initConfigs` returns, the parameters after it, and what it has logged. -/
structure InitResult where
  ret : Bool
  params : Parameters
  log : List ErrorLine
  deriving DecidableEq

def ConfigFiles.initConfigs {N : Type} (files : ConfigFiles N) (config_file_path : StdString)
    (params : Parameters) : InitResult :=
  if files.access config_file_path = false then
    ⟨false, params,
      [⟨"[ConfigsLoader::initConfigs] Config file not found: {}", some (.str config_file_path)⟩]⟩
  else
    match Throwing.on (files.loadConfigs config_file_path) params with
    | (.error line, params) => ⟨false, params, [line]⟩
    | (.ok (), params) =>
      match validateConfigs params with
      | (some line, params) =>
        ⟨false, params, [line,
          ⟨"[ConfigsLoader::initConfigs] Invalid config file: {}", some (.str config_file_path)⟩]⟩
      | (none, params) => ⟨true, params, []⟩

end LiteMonitor
