import LiteMonitor.Db.Connection
import LiteMonitor.LTS.Basic
import Mathlib.Data.Fintype.Basic

/-!
# The connection pool

`class DBConnectionPool`: the constructor connects, callers borrow a connection with
`getConnection` and give it back when the last `shared_ptr` goes, and the destructor waits for the
connections that are out.  A step is what a thread does between two points where the others can
interfere: the sections under `pool_mutex_`, the access to `shutting_down_` without it, and the
notifications.

* `Loc`, `DtorLoc` : where a caller stands, and the destructor.
* `State` : the members of the class, the connection objects, the threads, and the calls made.
* `construct`, `State.getConnection`, `State.giveBack`, `State.dtorStep` : the member functions.
* `lts` : the pool as a transition system; `step_move` : what a step can do.
-/

namespace LiteMonitor

namespace DBConnectionPool

/-- The address of a `DBConnection`. -/
abbrev Addr := ℕ

/-- How `getConnection` comes out without a connection. -/
inductive Refusal where
  | nullptr
  | runtime_error (what : String)
  deriving DecidableEq

/-- Where a caller stands; a thread with several connections is several callers. -/
inductive Loc where
  /-- Without a connection; how the last call came out. -/
  | outside (last : Option Refusal)
  /-- In `getConnection`, about to lock `pool_mutex_`. -/
  | enter
  /-- In `getConnection` with the lock; `again` after a wake-up, with whether it timed out. -/
  | check (again : Option Bool)
  /-- In the wait set of `cv_`. -/
  | blocked
  /-- Notified or timed out, about to lock again. -/
  | woken (timedOut : Bool)
  /-- With a connection. -/
  | holding (conn : Addr)
  /-- In the deleter, about to lock `pool_mutex_`. -/
  | relEnter (conn : Addr)
  /-- In the deleter with the lock. -/
  | relWork (conn : Addr)
  /-- The connection is back in the pool: about to unlock, -/
  | relUnlock
  /-- to notify `cv_`, -/
  | relNotify
  /-- to read `shutting_down_`, -/
  | relCheck
  /-- to notify `cv_exit_`. -/
  | relNotifyExit
  deriving DecidableEq

namespace Loc

/-- The connection a caller has. -/
def held : Loc → Option Addr
  | holding a | relEnter a | relWork a => some a
  | _ => none

/-- Where a caller that waits for the lock continues with it. -/
def locked : Loc → Option Loc
  | enter => some (check none)
  | woken timedOut => some (check (some timedOut))
  | relEnter a => some (relWork a)
  | _ => none

/-- A notification of `cv_`. -/
def notified : Loc → Loc
  | blocked => woken false
  | l => l

end Loc

/-- Where the destructor stands. -/
inductive DtorLoc where
  | notStarted
  /-- About to lock `pool_mutex_`. -/
  | enter
  /-- With the lock, about to set `shutting_down_`, -/
  | set
  /-- to unlock, -/
  | unlock
  /-- to notify `cv_`, -/
  | notifyAll
  /-- to lock again. -/
  | enterExit
  /-- With the lock, about to evaluate the predicate of the `wait`. -/
  | check
  /-- In the wait set of `cv_exit_`. -/
  | blocked
  | woken
  /-- Behind the wait, with the lock: closing the connections. -/
  | drain
  | unlockExit
  | finished
  deriving DecidableEq

namespace DtorLoc

/-- Where the destructor continues with the lock. -/
def locked : DtorLoc → Option DtorLoc
  | enter => some set
  | enterExit | woken => some check
  | _ => none

/-- A notification of `cv_exit_`. -/
def notified : DtorLoc → DtorLoc
  | blocked => woken
  | l => l

/-- The destructor has left its wait. -/
def drains : DtorLoc → Bool
  | drain | unlockExit | finished => true
  | _ => false

end DtorLoc

/-- Who owns `pool_mutex_`. -/
inductive Owner (ι : Type*) where
  | caller (i : ι)
  | dtor
  deriving DecidableEq

/-- The members of the class, the connection objects, the threads, and the calls made so far. -/
structure State (ι : Type*) where
  pool_ : List Addr
  pool_mutex_ : Option (Owner ι)
  shutting_down_ : Bool
  active_connections_ : ℤ
  /-- The `DBConnection` objects that are not deleted. -/
  heap : Addr → Option DBConnection
  caller : ι → Loc
  dtor : DtorLoc
  log : List MysqlCall

variable {ι : Type*}

/-- The pool before the loop of the constructor. -/
def State.empty : State ι where
  pool_ := []
  pool_mutex_ := none
  shutting_down_ := false
  active_connections_ := 0
  heap := fun _ => none
  caller := fun _ => .outside none
  dtor := .notStarted
  log := []

/-- One round of the loop of the constructor; `new` returns an unused address. -/
def State.addConnection (s : State ι) (x : Addr × Net) : Option (State ι) :=
  let (_, conn, opened) := DBConnection.connect {} x.2
  let (up, pinged) := conn.isConnected x.2
  if s.heap x.1 ≠ none then none
  else if up then some { s with
    pool_ := s.pool_ ++ [x.1]
    heap := Function.update s.heap x.1 (some conn)
    log := s.log ++ opened ++ pinged }
  else some { s with log := s.log ++ opened ++ pinged ++ conn.disconnect.2 }

/-- `DBConnectionPool::DBConnectionPool`, where the `pool_size` rounds of its loop get these
addresses and answers. -/
def construct (rounds : List (Addr × Net)) : Option (State ι) :=
  rounds.foldlM State.addConnection .empty

/-- The text of the exception of `getConnection`. -/
def timeoutError : String := "[DBConnectionPool::getConnection] wait for pool timeout"

namespace State

section Callers

variable [DecidableEq ι] (s : State ι) (i : ι)

/-- Caller `i` moves on. -/
def goto (l : Loc) : State ι := { s with caller := Function.update s.caller i l }

/-- `getConnection`, from the lock to the next release of it. -/
def getConnection (again : Option Bool) : State ι :=
  let out (why : Refusal) : State ι := { s.goto i (.outside (some why)) with pool_mutex_ := none }
  if again = none ∧ s.shutting_down_ = true then out .nullptr
  else match s.pool_ with
    -- the predicate of `wait_for` is false
    | [] =>
      if again = some true then out (.runtime_error timeoutError)
      else { s.goto i .blocked with pool_mutex_ := none }
    | conn :: q =>
      if s.shutting_down_ then out .nullptr
      else { s.goto i (.holding conn) with
        pool_ := q
        active_connections_ := s.active_connections_ + 1
        pool_mutex_ := none }

/-- The connection `conn` is pushed, and no longer counted. -/
def push (conn : Addr) : State ι := { s.goto i .relUnlock with
  pool_ := s.pool_ ++ [conn]
  active_connections_ := s.active_connections_ - 1 }

/-- The deleter, with the lock: a dead connection is replaced by a new one at `fresh`. -/
def giveBack (conn fresh : Addr) (n : Net) : Option (State ι) :=
  (s.heap conn).bind fun c =>
    let (up, pinged) := c.isConnected n
    if up then some { s.push i conn with log := s.log ++ pinged }
    else
      let heap := Function.update s.heap conn none
      let (_, c', opened) := DBConnection.connect {} n
      if heap fresh ≠ none then none
      else some { s.push i fresh with
        heap := Function.update heap fresh (some c')
        log := s.log ++ pinged ++ c.disconnect.2 ++ opened }

/-- A statement on the connection `conn`. -/
def use (calls : DBConnection → List MysqlCall) (conn : Addr) : Option (State ι) :=
  (s.heap conn).map fun c => { s with log := s.log ++ calls c }

end Callers

/-- One step of `~DBConnectionPool`. -/
def dtorStep (s : State ι) : Option (State ι) :=
  match s.dtor with
  | .notStarted => some { s with dtor := .enter }
  | .enter | .enterExit | .woken =>
    if s.pool_mutex_ = none then
      s.dtor.locked.map fun l => { s with pool_mutex_ := some .dtor, dtor := l }
    else none
  | .set => some { s with shutting_down_ := true, dtor := .unlock }
  | .unlock => some { s with pool_mutex_ := none, dtor := .notifyAll }
  | .notifyAll => some { s with caller := fun i => (s.caller i).notified, dtor := .enterExit }
  | .check =>
    if s.active_connections_ = 0 then some { s with dtor := .drain }
    else some { s with pool_mutex_ := none, dtor := .blocked }
  | .blocked => none
  | .drain => match s.pool_ with
    | [] => some { s with dtor := .unlockExit }
    | conn :: q => (s.heap conn).map fun c => { s with
        pool_ := q
        heap := Function.update s.heap conn none
        log := s.log ++ c.disconnect.2 }
  | .unlockExit => some { s with pool_mutex_ := none, dtor := .finished }
  | .finished => none

end State

/-- The steps, with the answers of the environment. -/
inductive Act (ι : Type*) where
  /-- Caller `i` calls `getConnection`. -/
  | call (i : ι)
  | lock (i : ι)
  /-- `getConnection` runs to the next release of the lock. -/
  | critical (i : ι)
  /-- The wait on `cv_` ends by itself, at the timeout or spuriously. -/
  | wake (i : ι) (timedOut : Bool)
  | execute (i : ι) (n : Net)
  | query (i : ι) (n : Net)
  /-- The last `shared_ptr` goes. -/
  | release (i : ι)
  | giveBack (i : ι) (fresh : Addr) (n : Net)
  | unlock (i : ι)
  /-- `cv_.notify_one()` picks `target` from the wait set, if there is one. -/
  | notifyOne (i : ι) (target : Option ι)
  | readFlag (i : ι)
  /-- `cv_exit_.notify_one()`. -/
  | notifyExit (i : ι)
  | dtor
  /-- The wait on `cv_exit_` ends by itself. -/
  | wakeDtor
  deriving DecidableEq

section Steps

variable [DecidableEq ι] [Fintype ι]

/-- One step of a caller. -/
def callerStep (s : State ι) : Act ι → Option (State ι)
  | .call i => match s.caller i with
    | .outside _ => some (s.goto i .enter)
    | _ => none
  | .lock i => match s.pool_mutex_, (s.caller i).locked with
    | none, some l => some { s.goto i l with pool_mutex_ := some (.caller i) }
    | _, _ => none
  | .critical i => match s.caller i with
    | .check again => some (s.getConnection i again)
    | _ => none
  | .wake i timedOut => match s.caller i with
    | .blocked => some (s.goto i (.woken timedOut))
    | _ => none
  | .execute i n => match s.caller i with
    | .holding conn => s.use (fun c => (c.execute n).2) conn
    | _ => none
  | .query i n => match s.caller i with
    | .holding conn => s.use (fun c => (c.query n).2) conn
    | _ => none
  | .release i => match s.caller i with
    | .holding conn => some (s.goto i (.relEnter conn))
    | _ => none
  | .giveBack i fresh n => match s.caller i with
    | .relWork conn => s.giveBack i conn fresh n
    | _ => none
  | .unlock i => match s.caller i with
    | .relUnlock => some { s.goto i .relNotify with pool_mutex_ := none }
    | _ => none
  | .notifyOne i target => match s.caller i with
    | .relNotify => match target with
      | some j =>
        if s.caller j = .blocked then some ((s.goto i .relCheck).goto j (.woken false)) else none
      | none => if ∀ j, s.caller j ≠ .blocked then some (s.goto i .relCheck) else none
    | _ => none
  | .readFlag i => match s.caller i with
    | .relCheck => some (s.goto i (if s.shutting_down_ then .relNotifyExit else .outside none))
    | _ => none
  | .notifyExit i => match s.caller i with
    | .relNotifyExit => some { s.goto i (.outside none) with dtor := s.dtor.notified }
    | _ => none
  | .dtor | .wakeDtor => none

/-- One step; after the destructor the members are gone. -/
def step (s : State ι) (a : Act ι) : Option (State ι) :=
  if s.dtor = .finished then none
  else match a with
    | .dtor => s.dtorStep
    | .wakeDtor => if s.dtor = .blocked then some { s with dtor := .woken } else none
    | a => callerStep s a

/-- The pool as a transition system. -/
def lts (ι : Type*) [DecidableEq ι] [Fintype ι] : LTS (State ι) (Act ι) := .ofFun step

end Steps

end DBConnectionPool

end LiteMonitor
