import Mathlib.Data.List.Basic
import Mathlib.Tactic.SplitIfs

/-!
# A connection to the database

`class DBConnection`.  The MySQL client library is outside of the repository: every call is
answered by the environment (`Net`) and recorded.

* `MysqlCall` : the calls; `MysqlCall.usesLibrary` : those that need the library.
* `DBConnection` : whether the object has a handle.
* `isConnected`, `connect`, `disconnect`, `execute`, `query` : the member functions, with the
  calls they make.
-/

namespace LiteMonitor

/-- The calls to the MySQL client library. -/
inductive MysqlCall where
  | mysql_library_init (ok : Bool)
  | mysql_library_end
  | mysql_init
  | mysql_real_connect
  | mysql_ping
  | mysql_query
  | mysql_store_result
  | mysql_close
  deriving DecidableEq

/-- The calls made for a connection. -/
def MysqlCall.usesLibrary : MysqlCall → Bool
  | .mysql_init | .mysql_real_connect | .mysql_ping | .mysql_query | .mysql_close => true
  | _ => false

/-- What the library answers during one operation: whether each of the calls succeeds. -/
structure Net where
  mysql_init : Bool
  mysql_real_connect : Bool
  mysql_ping : Bool
  mysql_query : Bool
  deriving DecidableEq

/-- `class DBConnection`: `mysql_` is not null. -/
structure DBConnection where
  mysql_ : Bool := false
  deriving DecidableEq

namespace DBConnection

variable (c : DBConnection) (n : Net)

/-- `DBConnection::isConnected`. -/
def isConnected : Bool × List MysqlCall :=
  if c.mysql_ then (n.mysql_ping, [.mysql_ping]) else (false, [])

/-- `DBConnection::connect`. -/
def connect : Bool × DBConnection × List MysqlCall :=
  let (up, calls) := c.isConnected n
  if up then (true, c, calls)
  else if !n.mysql_init then (false, { mysql_ := false }, calls ++ [.mysql_init])
  else if !n.mysql_real_connect then
    (false, { mysql_ := false }, calls ++ [.mysql_init, .mysql_real_connect, .mysql_close])
  else (true, { mysql_ := true }, calls ++ [.mysql_init, .mysql_real_connect])

/-- `DBConnection::disconnect`, which is also what the destructor does. -/
def disconnect : DBConnection × List MysqlCall :=
  if c.mysql_ then ({ mysql_ := false }, [.mysql_close]) else (c, [])

/-- `DBConnection::execute`. -/
def execute : Bool × List MysqlCall :=
  let (up, calls) := c.isConnected n
  if !up then (false, calls) else (n.mysql_query, calls ++ [.mysql_query])

/-- `DBConnection::query`: whether there is a result. -/
def query : Bool × List MysqlCall :=
  let (up, calls) := c.isConnected n
  if !up then (false, calls)
  else if !n.mysql_query then (false, calls ++ [.mysql_query])
  else (true, calls ++ [.mysql_query, .mysql_store_result])

/-- `connect` says whether the object has a handle, and a new object asks for one. -/
theorem connect_new :
    (connect {} n).2.1 = ⟨(connect {} n).1⟩ ∧ .mysql_init ∈ (connect {} n).2.2 := by
  unfold connect isConnected
  cases n.mysql_init <;> cases n.mysql_real_connect <;> simp

theorem mysql_of_isConnected (h : (c.isConnected n).1 = true) : c = ⟨true⟩ := by
  obtain ⟨up⟩ := c
  cases up with
  | true => rfl
  | false => cases h

/-! No connection ends the library. -/

theorem isConnected_noEnd : .mysql_library_end ∉ (c.isConnected n).2 := by
  unfold isConnected
  split_ifs <;> simp

theorem connect_noEnd : .mysql_library_end ∉ (c.connect n).2.2 := by
  have h := c.isConnected_noEnd n
  unfold connect
  dsimp only
  split_ifs <;> simpa using h

theorem disconnect_noEnd : .mysql_library_end ∉ c.disconnect.2 := by
  unfold disconnect
  split_ifs <;> simp

theorem execute_noEnd : .mysql_library_end ∉ (c.execute n).2 := by
  have h := c.isConnected_noEnd n
  unfold execute
  dsimp only
  split_ifs <;> simpa using h

theorem query_noEnd : .mysql_library_end ∉ (c.query n).2 := by
  have h := c.isConnected_noEnd n
  unfold query
  dsimp only
  split_ifs <;> simpa using h

end DBConnection

end LiteMonitor
