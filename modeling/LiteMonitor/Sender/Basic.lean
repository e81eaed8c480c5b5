import LiteMonitor.LTS.Basic
import LiteMonitor.Sender.Packet
import Mathlib.Data.Int.Notation
import Mathlib.Order.MinMax

/-!
# The sender

`class Sender`: producers call `enqueue`, one worker thread executes `run`, and `stop` shuts
the worker down.  A step is what a thread does between two points where the others can
interfere: the sections under `m_mutex`, the accesses to the atomics, and the calls that talk to
the network, whose results are chosen by the environment (`Reply`).

* `Options`, `Stats`, `Conn` : the configuration, the counters, and what the kernel knows about a
  socket, with the bytes that `send` has accepted on it.
* `Pc`, `StopPc`, `Enqueuing` : where the worker stands in `run`, the caller of `stop` in `stop`,
  and the caller of `enqueue` that has the lock in `enqueue`.
* `State` : the members of the class, the threads, the kernel, and a history.
* `State.enqueue`, `produce`, `tryReconnect`, `closeSocket`, `work`, `stop` : the member functions.
* `lts o dump` : the sender as a transition system.
-/

namespace LiteMonitor

namespace Sender

/-- `Sender::Options`.  `flushIntervalMs` is left to the environment with the clock. -/
structure Options where
  batchSize : ℕ := 100
  maxQueueSize : ℕ := 20000
  maxBackoffMs : ℤ := 8000

/-- The values of an `int`. -/
def FitsInt (n : ℤ) : Prop := -2 ^ 31 ≤ n ∧ n < 2 ^ 31

instance (n : ℤ) : Decidable (FitsInt n) := inferInstanceAs (Decidable (_ ∧ _))

/-- An item with the number of the `enqueue` call that brought it. -/
structure Item (J : Type*) where
  seq : ℕ
  val : J
  deriving DecidableEq

/-- `Sender::Stats`. -/
structure Stats where
  totalSent : UInt64 := 0
  totalDropped : UInt64 := 0
  reconnectCount : UInt64 := 0
  deriving DecidableEq

/-- A socket; `wire` are the bytes accepted by `send`. -/
structure Conn where
  fd : ℕ
  connected : Bool
  isOpen : Bool
  wire : List UInt8
  deriving DecidableEq

namespace Conn

/-- The socket is the open one with descriptor `fd`. -/
def is (fd : ℤ) (c : Conn) : Bool := c.isOpen && decide ((c.fd : ℤ) = fd)

/-- `close(fd)`. -/
def close (fd : ℤ) (c : Conn) : Conn := if c.is fd then { c with isOpen := false } else c

/-- The bytes `bs` are accepted on `fd`. -/
def write (fd : ℤ) (bs : List UInt8) (c : Conn) : Conn :=
  if c.is fd then { c with wire := c.wire ++ bs } else c

end Conn

/-- How `connectSocket` comes out: the call that fails, and the descriptor of the socket. -/
inductive Connect where
  | socketFails
  | inetPtonFails (fd : ℕ)
  | connectFails (fd : ℕ)
  | connected (fd : ℕ)
  deriving DecidableEq

/-- What `send` returns: a positive count, `0`, or `-1` with `EINTR` or another error. -/
inductive SendResult where
  | accepted (n : ℕ)
  | zero
  | eintr
  | error
  deriving DecidableEq

/-- What the environment contributes to a step of the worker. -/
inductive Reply where
  /-- Nothing. -/
  | go
  /-- The wait ends by itself, at the timeout or spuriously. -/
  | wake (timedOut : Bool)
  /-- Whether `flushIntervalMs` has passed since the last flush. -/
  | time (timeReached : Bool)
  | connect (c : Connect)
  | send (r : SendResult)
  deriving DecidableEq

/-- Where the worker stands in `run`. -/
inductive Pc (J : Type*) where
  /-- At the loop condition, about to read `m_running`. -/
  | test
  /-- `m_running` was false: about to read `m_queue.empty()`. -/
  | testQueue
  /-- About to lock `m_mutex`. -/
  | lock
  /-- In `wait_for` with the lock, about to evaluate the predicate. -/
  | pred
  /-- The predicate was false: about to block and to release the lock. -/
  | block
  | blocked
  /-- Notified or timed out, about to lock again. -/
  | woken (timedOut : Bool)
  /-- Behind `wait_for`, with the lock. -/
  | ready
  /-- The batch is taken and there is no socket. -/
  | connect (batch : List (Item J))
  | build (batch : List (Item J))
  /-- In `sendAll`. -/
  | sending (batch : List (Item J)) (packet : List UInt8) (total : ℕ)
  /-- `sendAll` has returned true. -/
  | count (batch : List (Item J))
  | rollback (batch : List (Item J)) (afterSend : Bool)
  /-- After a failed `send`, about to close the socket. -/
  | closing
  | reconnect
  | exited
  /-- An exception has left the thread: `std::terminate`. -/
  | terminated (batch : List (Item J))
  deriving DecidableEq

/-- Where the caller of `stop` stands. -/
inductive StopPc where
  | idle
  | notify
  | join
  | close
  deriving DecidableEq

/-- Where the caller of `enqueue(j)` that holds `m_mutex` stands. -/
inductive Enqueuing (J : Type*) where
  /-- The queue is full: about to pop its front. -/
  | pop (j : J)
  /-- About to count the item popped. -/
  | count (j : J)
  /-- About to push `j`, after it has popped an item or not. -/
  | push (popped : Bool) (j : J)
  /-- About to notify and to unlock. -/
  | notify
  deriving DecidableEq

/-- Who holds `m_mutex`. -/
inductive Holder (J : Type*) where
  | producer (e : Enqueuing J)
  | worker
  deriving DecidableEq

/-- The members of the class, the threads, the sockets, and the history. -/
structure State (J : Type*) where
  m_sockfd : ℤ
  m_queue : List (Item J)
  m_mutex : Option (Holder J)
  m_running : Bool
  m_currentBackoff : ℤ
  m_stats : Stats
  worker : Pc J
  /-- `m_worker.joinable()`. -/
  joinable : Bool
  stopper : StopPc
  conns : List Conn
  /-- The items of all `enqueue` calls, in lock order. -/
  enqueued : List (Item J)
  /-- The batches for which `sendAll` has returned true. -/
  sent : List (List (Item J))
  /-- The items popped by `enqueue`. -/
  dropped : List (Item J)
  /-- `m_queue.size()` when the last batch was taken, -/
  queuedAtTake : ℕ
  /-- and the `enqueue` calls since then, -/
  enqueuedSinceTake : ℕ
  /-- and those among them that popped an item. -/
  droppedSinceTake : ℕ
  deriving DecidableEq

variable {J : Type*}

/-- The sender after construction. -/
def init : State J where
  m_sockfd := -1
  m_queue := []
  m_mutex := none
  m_running := true
  m_currentBackoff := 500
  m_stats := {}
  worker := .test
  joinable := true
  stopper := .idle
  conns := []
  enqueued := []
  sent := []
  dropped := []
  queuedAtTake := 0
  enqueuedSinceTake := 0
  droppedSinceTake := 0

/-- A notification of `m_cv`; only the worker waits on it. -/
def Pc.notified : Pc J → Pc J
  | .blocked => .woken false
  | p => p

namespace State

variable (o : Options) (dump : J → Except JsonError (List Char)) (s : State J)

/-! ### `enqueue` -/

/-- `Sender::enqueue` takes the lock and looks at the size; nobody else changes the queue as long as
it has the lock.  `pop_front` is undefined on an empty queue: no call gets that far. -/
def enqueue (j : J) : Option (State J) :=
  if s.m_mutex = none then
    if s.m_queue.length ≥ o.maxQueueSize then
      if s.m_queue.isEmpty then none
      else some { s with m_mutex := some (.producer (.pop j)) }
    else some { s with m_mutex := some (.producer (.push false j)) }
  else none

/-- The item `x` popped off the queue. -/
def popped (x : Item J) (q : List (Item J)) (j : J) : State J := { s with
  m_queue := q
  m_mutex := some (.producer (.count j))
  dropped := s.dropped ++ [x]
  droppedSinceTake := s.droppedSinceTake + 1 }

/-- `m_queue.pop_front()`. -/
def popFront (j : J) : Option (State J) :=
  match s.m_queue with
  | [] => none
  | x :: q => some (s.popped x q j)

/-- `m_stats.totalDropped++`. -/
def countDrop (j : J) : State J := { s with
  m_stats.totalDropped := s.m_stats.totalDropped + 1
  m_mutex := some (.producer (.push true j)) }

/-- `m_queue.push_back(j)`. -/
def pushBack (j : J) : State J := { s with
  m_queue := s.m_queue ++ [⟨s.enqueued.length, j⟩]
  m_mutex := some (.producer .notify)
  enqueued := s.enqueued ++ [⟨s.enqueued.length, j⟩]
  enqueuedSinceTake := s.enqueuedSinceTake + 1 }

/-- `m_cv.notify_one()`, and the unlock. -/
def notifyOne : State J := { s with m_mutex := none, worker := s.worker.notified }

/-- One step of `Sender::enqueue` with the lock. -/
def produce : Option (State J) :=
  match s.m_mutex with
  | some (.producer (.pop j)) => s.popFront j
  | some (.producer (.count j)) => some (s.countDrop j)
  | some (.producer (.push _ j)) => some (s.pushBack j)
  | some (.producer .notify) => some s.notifyOne
  | _ => none

/-! ### The socket -/

/-- `Sender::closeSocket`. -/
def closeSocket : State J :=
  if s.m_sockfd ≥ 0 then
    { s with conns := s.conns.map (Conn.close s.m_sockfd), m_sockfd := -1 }
  else s

/-- `socket` returns `fd`. -/
def openSocket (fd : ℕ) (connected : Bool) : State J :=
  { s with m_sockfd := fd, conns := s.conns ++ [⟨fd, connected, true, []⟩] }

/-- A new descriptor is not in use. -/
def Fresh (fd : ℕ) : Prop := ∀ c ∈ s.conns, c.isOpen = true → c.fd ≠ fd

instance (fd : ℕ) : Decidable (s.Fresh fd) := List.decidableBAll _ _

/-- `Sender::connectSocket`. -/
def connectSocket : Connect → Option (Bool × State J)
  | .socketFails => some (false, { s with m_sockfd := -1 })
  | .inetPtonFails fd =>
    if s.Fresh fd then some (false, (s.openSocket fd false).closeSocket) else none
  | .connectFails fd =>
    if s.Fresh fd then some (false, (s.openSocket fd false).closeSocket) else none
  | .connected fd => if s.Fresh fd then some (true, s.openSocket fd true) else none

/-- What `tryReconnect` does after a failure: it counts, sleeps for `m_currentBackoff`
milliseconds, and doubles them. -/
def backOff : State J := { s with
  m_stats.reconnectCount := s.m_stats.reconnectCount + 1
  m_currentBackoff := min (s.m_currentBackoff * 2) o.maxBackoffMs }

/-- `Sender::tryReconnect`; when the product in it overflows, which is undefined, there is no
result. -/
def tryReconnect (c : Connect) : Option (Bool × State J) :=
  (s.connectSocket c).bind fun
    | (true, s') => some (true, s')
    | (false, s') =>
      if FitsInt (s'.m_currentBackoff * 2) then some (false, s'.backOff o) else none

/-- `send` can accept bytes on the current socket. -/
def canSend : Bool := s.conns.any fun c => c.is s.m_sockfd && c.connected

/-- The bytes `bs` are accepted on the current socket. -/
def write (bs : List UInt8) : State J :=
  { s with conns := s.conns.map (Conn.write s.m_sockfd bs) }

/-! ### `run` -/

/-- The batch is taken and the lock released; `m_sockfd` says whether to connect first. -/
def takeBatch : State J :=
  let count := min o.batchSize s.m_queue.length
  let batch := s.m_queue.take count
  { s with
    m_queue := s.m_queue.drop count
    m_mutex := none
    worker := if s.m_sockfd < 0 then .connect batch else .build batch
    queuedAtTake := s.m_queue.length
    enqueuedSinceTake := 0
    droppedSinceTake := 0 }

/-- One call of `send` in `sendAll`. -/
def sendStep (batch : List (Item J)) (packet : List UInt8) (total : ℕ) :
    SendResult → Option (State J)
  | .accepted n =>
    if 0 < n ∧ n ≤ packet.length - total ∧ s.canSend = true then
      some { s.write ((packet.drop total).take n) with
        worker := .sending batch packet (total + n) }
    else none
  | .eintr => some s
  | .zero => some { s with worker := .rollback batch true }
  | .error => some { s with worker := .rollback batch true }

/-- `Sender::rollback`, under the lock: the items are pushed to the front, the last one first. -/
def rollback (batch : List (Item J)) (afterSend : Bool) : State J := { s with
  m_queue := batch.reverse.foldl (fun q x => x :: q) s.m_queue
  worker := if afterSend then .closing else .test }

/-- One step of `Sender::run`. -/
def work (r : Reply) : Option (State J) :=
  match s.worker, r with
  -- `m_running || !m_queue.empty()` reads the queue without the lock
  | .test, .go => some { s with worker := if s.m_running then .lock else .testQueue }
  | .testQueue, .go => some { s with worker := if s.m_queue.isEmpty then .exited else .lock }
  | .lock, .go =>
    if s.m_mutex = none then some { s with m_mutex := some .worker, worker := .pred } else none
  | .pred, .go =>
    some { s with worker := if !s.m_queue.isEmpty || !s.m_running then .ready else .block }
  | .block, .go => some { s with m_mutex := none, worker := .blocked }
  | .blocked, .wake timedOut => some { s with worker := .woken timedOut }
  | .woken timedOut, .go =>
    -- after a timeout `wait_for` returns, whatever the predicate says
    if s.m_mutex = none then
      some { s with m_mutex := some .worker, worker := if timedOut then .ready else .pred }
    else none
  | .ready, .time timeReached =>
    -- `continue`, or the end of the body, unlocks
    if s.m_queue.isEmpty then some { s with m_mutex := none, worker := .test }
    else if s.m_queue.length ≥ o.batchSize || timeReached || !s.m_running then
      some (s.takeBatch o)
    else some { s with m_mutex := none, worker := .test }
  | .connect batch, .connect c => (s.tryReconnect o c).map fun
    | (true, s') => { s' with worker := .build batch }
    | (false, s') => { s' with worker := .rollback batch false }
  | .build batch, .go =>
    match buildPacket dump (batch.map Item.val) with
    | .ok packet => some { s with worker := .sending batch packet 0 }
    | .error _ => some { s with worker := .terminated batch }
  -- as long as bytes are missing `sendAll` calls `send`, and then it returns
  | .sending batch packet total, .send r =>
    if total < packet.length then s.sendStep batch packet total r else none
  | .sending batch packet total, .go =>
    if total < packet.length then none
    else some { s with worker := .count batch, sent := s.sent ++ [batch] }
  | .count batch, .go => some { s with
      m_stats.totalSent := s.m_stats.totalSent + UInt64.ofNat batch.length
      m_currentBackoff := 500
      worker := .test }
  | .rollback batch afterSend, .go =>
    if s.m_mutex = none then some (s.rollback batch afterSend) else none
  | .closing, .go => some { s.closeSocket with worker := .reconnect }
  -- `run` does not look at the result
  | .reconnect, .connect c => (s.tryReconnect o c).map fun x => { x.2 with worker := .test }
  | _, _ => none

/-! ### `stop` -/

/-- One step of `Sender::stop`. -/
def stop : Option (State J) :=
  match s.stopper with
  | .idle => some { s with m_running := false, stopper := .notify }
  | .notify => some { s with worker := s.worker.notified, stopper := .join }
  | .join =>
    if s.joinable = true then
      match s.worker with
      | .exited => some { s with joinable := false, stopper := .close }
      | _ => none
    else some { s with stopper := .close }
  | .close => some { s.closeSocket with stopper := .idle }

end State

/-- The steps of all threads. -/
inductive Label (J : Type*) where
  | enqueue (j : J)
  | produce
  | stop
  | work (r : Reply)

/-- One step; after `std::terminate` there is none. -/
def step (o : Options) (dump : J → Except JsonError (List Char)) (s : State J) (l : Label J) :
    Option (State J) :=
  match s.worker, l with
  | .terminated _, _ => none
  | _, .enqueue j => s.enqueue o j
  | _, .produce => s.produce
  | _, .stop => s.stop
  | _, .work r => s.work o dump r

/-- The sender as a transition system. -/
def lts (o : Options) (dump : J → Except JsonError (List Char)) : LTS (State J) (Label J) :=
  .ofFun (step o dump)

end Sender

end LiteMonitor
