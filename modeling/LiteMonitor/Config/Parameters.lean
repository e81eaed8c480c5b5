import LiteMonitor.Config.Form

/-!
# The parameters

`struct Parameters`, its fields, which values `ConfigsLoader::validateConfigs` takes for valid, and
what it puts in the place of the others.  A `std::string` is the list of its bytes.

* `Parameters` : the structure; `Field` : its fields, with their section and key in the file.
* `Parameters.get`, `Parameters.set` : read and assign a field; `Parameters.update` : assign all
  the fields that a value is given for.
* `Field.invalid` : the values that are not valid; `Field.fallback` : what replaces them.
-/

namespace LiteMonitor

/-- The bytes of a `std::string`. -/
abbrev StdString := List UInt8

/-- A string literal. -/
def stdString (s : String) : StdString := s.toUTF8.data.toList

structure DatabaseParams where
  host : StdString
  port : Int32
  user : StdString
  password : StdString
  db_name : StdString
  deriving DecidableEq

structure RetentionParams where
  history_retention_days : Int32
  trend_retention_days : Int32
  deriving DecidableEq

structure LogParams where
  log_dir : StdString
  max_log_file_size : Int32
  max_log_file_num : Int32
  log_level : StdString
  deriving DecidableEq

structure HTTPServerParams where
  host : StdString
  port : Int32
  deriving DecidableEq

structure TCPParams where
  host : StdString
  port : Int32
  deriving DecidableEq

structure Parameters where
  db_params : DatabaseParams
  retention_params : RetentionParams
  log_params : LogParams
  http_server_params : HTTPServerParams
  tcp_server_params : TCPParams
  deriving DecidableEq

/-- The types of the fields. -/
inductive Kind where
  | str
  | int
  deriving DecidableEq

/-- The values of a type. -/
abbrev Kind.Ty : Kind → Type
  | .str => StdString
  | .int => Int32

/-- The sections of the file. -/
inductive Section where
  | database
  | retention
  | log
  | http_server
  | tcp_server
  deriving DecidableEq

/-- The fields of the parameters. -/
inductive Field where
  | db_host
  | db_port
  | db_user
  | db_password
  | db_name
  | history_retention_days
  | trend_retention_days
  | log_dir
  | log_level
  | max_log_file_size
  | max_log_file_num
  | http_host
  | http_port
  | tcp_host
  | tcp_port
  deriving DecidableEq

namespace Field

def kind : Field → Kind
  | .db_host | .db_user | .db_password | .db_name | .log_dir | .log_level | .http_host
  | .tcp_host => .str
  | .db_port | .history_retention_days | .trend_retention_days | .max_log_file_size
  | .max_log_file_num | .http_port | .tcp_port => .int

abbrev Ty (f : Field) : Type := f.kind.Ty

/-- The section of the file that the field is read from, and its key there. -/
def path : Field → Section × String
  | .db_host => (.database, "host")
  | .db_port => (.database, "port")
  | .db_user => (.database, "username")
  | .db_password => (.database, "password")
  | .db_name => (.database, "database_name")
  | .history_retention_days => (.retention, "history_retention_days")
  | .trend_retention_days => (.retention, "trend_retention_days")
  | .log_dir => (.log, "log_dir")
  | .log_level => (.log, "log_level")
  | .max_log_file_size => (.log, "max_log_file_size")
  | .max_log_file_num => (.log, "max_log_file_num")
  | .http_host => (.http_server, "host")
  | .http_port => (.http_server, "port")
  | .tcp_host => (.tcp_server, "host")
  | .tcp_port => (.tcp_server, "port")

/-- The text is empty. -/
def emptyText (v : StdString) : Bool := v.isEmpty

/-- The number is no port. -/
def noPort (v : Int32) : Bool := v ≤ 0 || v > 65535

/-- The values that `validateConfigs` does not take. -/
def invalid : (f : Field) → f.Ty → Bool
  | .db_host => fun v => emptyText v || decide (v.length > 255)
  | .db_port => noPort
  | .db_user => emptyText
  | .db_password => emptyText
  | .db_name => emptyText
  | .history_retention_days => fun v : Int32 => decide (v < -1)
  | .trend_retention_days => fun v : Int32 => decide (v < -1)
  | .log_dir => emptyText
  | .log_level => emptyText
  | .max_log_file_size => fun v : Int32 => decide (v ≤ 0)
  | .max_log_file_num => fun v : Int32 => decide (v ≤ 0)
  | .http_host => emptyText
  | .http_port => noPort
  | .tcp_host => emptyText
  | .tcp_port => noPort

/-- What `validateConfigs` puts in the place of an invalid value. -/
def fallback : (f : Field) → Option f.Ty
  | .log_dir => some (stdString "./log")
  | .log_level => some (stdString "info")
  | .max_log_file_size => some (100 : Int32)
  | .max_log_file_num => some (10 : Int32)
  | .http_host => some (stdString "localhost")
  | .http_port => some (20317 : Int32)
  | .tcp_host => some (stdString "localhost")
  | .tcp_port => some (21210 : Int32)
  | .db_host | .db_port | .db_user | .db_password | .db_name | .history_retention_days
  | .trend_retention_days => none

/-- The value passes the check of its field. -/
def Valid (f : Field) (v : f.Ty) : Prop := f.invalid v = false

theorem not_valid_iff {f : Field} {v : f.Ty} : ¬ f.Valid v ↔ f.invalid v = true :=
  iff_of_eq (Bool.not_eq_false (f.invalid v))

/-- **Every fallback passes its own check.** -/
theorem fallback_valid {f : Field} {v : f.Ty} (h : f.fallback = some v) : f.Valid v := by
  cases f <;> first | (obtain rfl := Option.some.inj h; rfl) | cases h

theorem exists_valid (f : Field) : ∃ v, f.Valid v := by
  cases f with
  | db_port | history_retention_days | trend_retention_days | max_log_file_size
  | max_log_file_num | http_port | tcp_port => exact ⟨(1 : Int32), rfl⟩
  | _ => exact ⟨[0], rfl⟩

theorem exists_not_valid (f : Field) : ∃ v, ¬ f.Valid v := by
  simp only [not_valid_iff]
  cases f with
  | db_port | history_retention_days | trend_retention_days | max_log_file_size
  | max_log_file_num | http_port | tcp_port => exact ⟨(-2 : Int32), rfl⟩
  | _ => exact ⟨[], rfl⟩

end Field

namespace Parameters

/-- Read a field. -/
def get (p : Parameters) : (f : Field) → f.Ty
  | .db_host => p.db_params.host
  | .db_port => p.db_params.port
  | .db_user => p.db_params.user
  | .db_password => p.db_params.password
  | .db_name => p.db_params.db_name
  | .history_retention_days => p.retention_params.history_retention_days
  | .trend_retention_days => p.retention_params.trend_retention_days
  | .log_dir => p.log_params.log_dir
  | .log_level => p.log_params.log_level
  | .max_log_file_size => p.log_params.max_log_file_size
  | .max_log_file_num => p.log_params.max_log_file_num
  | .http_host => p.http_server_params.host
  | .http_port => p.http_server_params.port
  | .tcp_host => p.tcp_server_params.host
  | .tcp_port => p.tcp_server_params.port

/-- Assign a field. -/
def set (p : Parameters) : (f : Field) → f.Ty → Parameters
  | .db_host, v => { p with db_params.host := v }
  | .db_port, v => { p with db_params.port := v }
  | .db_user, v => { p with db_params.user := v }
  | .db_password, v => { p with db_params.password := v }
  | .db_name, v => { p with db_params.db_name := v }
  | .history_retention_days, v => { p with retention_params.history_retention_days := v }
  | .trend_retention_days, v => { p with retention_params.trend_retention_days := v }
  | .log_dir, v => { p with log_params.log_dir := v }
  | .log_level, v => { p with log_params.log_level := v }
  | .max_log_file_size, v => { p with log_params.max_log_file_size := v }
  | .max_log_file_num, v => { p with log_params.max_log_file_num := v }
  | .http_host, v => { p with http_server_params.host := v }
  | .http_port, v => { p with http_server_params.port := v }
  | .tcp_host, v => { p with tcp_server_params.host := v }
  | .tcp_port, v => { p with tcp_server_params.port := v }

/-- The parameters with these values. -/
def ofFields (v : (f : Field) → f.Ty) : Parameters where
  db_params := ⟨v .db_host, v .db_port, v .db_user, v .db_password, v .db_name⟩
  retention_params := ⟨v .history_retention_days, v .trend_retention_days⟩
  log_params := ⟨v .log_dir, v .max_log_file_size, v .max_log_file_num, v .log_level⟩
  http_server_params := ⟨v .http_host, v .http_port⟩
  tcp_server_params := ⟨v .tcp_host, v .tcp_port⟩

@[simp] theorem get_ofFields (v : (f : Field) → f.Ty) : (ofFields v).get = v := by
  funext f
  cases f <;> rfl

@[simp] theorem ofFields_get (p : Parameters) : ofFields p.get = p := rfl

theorem get_injective {p q : Parameters} (h : p.get = q.get) : p = q := by
  rw [← ofFields_get p, h, ofFields_get]

theorem get_set_self (p : Parameters) (f : Field) (v : f.Ty) : (p.set f v).get f = v := by
  cases f <;> rfl

theorem get_set_of_ne (p : Parameters) {f g : Field} (h : g ≠ f) (v : f.Ty) :
    (p.set f v).get g = p.get g := by
  cases f <;> cases g <;> first | rfl | exact absurd rfl h

/-- Assign all the fields that a value is given for. -/
def update (given : (f : Field) → Option f.Ty) (p : Parameters) : Parameters :=
  ofFields (Form.overlay given p.get)

variable {given : (f : Field) → Option f.Ty} {p : Parameters}

@[simp] theorem get_update : (p.update given).get = Form.overlay given p.get := get_ofFields _

theorem update_restrict_append (fs fs' : List Field) :
    (p.update (Form.restrict fs given)).update (Form.restrict fs' given) =
      p.update (Form.restrict (fs ++ fs') given) := by
  rw [update, get_update, Form.overlay_restrict_append, update]

theorem update_restrict_singleton (f : Field) :
    p.update (Form.restrict [f] given) = (given f).elim p (p.set f) := by
  apply get_injective
  funext g
  rw [get_update]
  by_cases hg : g = f
  · subst hg
    cases h : given g with
    | none => simp [Form.overlay, Form.restrict, h]
    | some v => simp [Form.overlay, Form.restrict, h, get_set_self]
  · cases h : given f with
    | none => simp [Form.overlay, Form.restrict, hg]
    | some v => simp [Form.overlay, Form.restrict, hg, get_set_of_ne]

theorem foldl_update {ι : Type} (l : List ι) (fs : ι → List Field) (p : Parameters) :
    l.foldl (fun p x => p.update (Form.restrict (fs x) given)) p =
      p.update (Form.restrict (l.flatMap fs) given) := by
  induction l generalizing p with
  | nil => rfl
  | cons x l ih => rw [List.foldl_cons, ih, update_restrict_append, List.flatMap_cons]

end Parameters

end LiteMonitor
