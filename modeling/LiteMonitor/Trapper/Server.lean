import LiteMonitor.Control.Throwing
import LiteMonitor.LTS.Basic
import LiteMonitor.Trapper.Buffer
import Mathlib.Algebra.Order.Ring.Int
import Mathlib.Logic.Function.Basic

/-!
# The trapper's event loop

`TcpServer` with the calls it makes on its connections.  The kernel's side is part of the
events: which connections `accept` returns, and what every call of `read` returns.  An event
handler may throw; the exception leaves `run`, so nothing is handled after it.

* `MaxSize` : how long a `std::string` may get.
* `TcpServer` : the members of the class that change after `init`.
* `World` : the server, the open connections, and a log of what happened on each of them.
* `handleAccept`, `handleRead`, `closeConnection`, `processBufferOf` : the member functions.
* `TcpServer.lts` : the event loop.
-/

namespace LiteMonitor

/-- The exceptions of `std::string`. -/
inductive StdException where
  | length_error
  deriving DecidableEq

/-- `errno` after a failed call, as far as the code tells values apart. -/
inductive Errno where
  | EAGAIN
  | EWOULDBLOCK
  | other (code : ℕ)
  deriving DecidableEq

/-- What one `read(fd, buf, 1024)` returns. -/
inductive ReadResult where
  /-- Bytes were read into `buf`. -/
  | data (bytes : Bytes) (pos : 0 < bytes.length) (le : bytes.length ≤ 1024)
  /-- The peer has closed the connection. -/
  | eof
  /-- The call failed. -/
  | error (errno : Errno)

namespace ReadResult

/-- The return value, a `ssize_t`. -/
def ret : ReadResult → ℤ
  | .data bytes _ _ => bytes.length
  | .eof => 0
  | .error _ => -1

/-- The bytes in `buf`. -/
def buf : ReadResult → Bytes
  | .data bytes _ _ => bytes
  | _ => []

end ReadResult

/-- The bytes of one successful call of `read`. -/
abbrev Chunk := {bytes : Bytes // 0 < bytes.length ∧ bytes.length ≤ 1024}

/-- What the calls of `read` for one readable event return: chunks, and at last the end of the
file or an error. -/
structure ReadScript where
  chunks : List Chunk
  last : Option Errno
  deriving DecidableEq

namespace ReadScript

/-- The result after the chunks: an error, or the end of the file. -/
def lastResult (script : ReadScript) : ReadResult :=
  match script.last with
  | some e => .error e
  | none => .eof

/-- The results of the calls, in order. -/
def results (script : ReadScript) : List ReadResult :=
  script.chunks.map (fun c => .data c.1 c.2.1 c.2.2) ++ [script.lastResult]

end ReadScript

/-- The conversion of a `ssize_t` to `size_t`. -/
def toSizeT (n : ℤ) : ℕ := (n % 2 ^ 64).toNat

/-- `std::string::max_size()`, which is up to the implementation; `npos` is not a length. -/
structure MaxSize where
  toNat : ℕ
  lt_npos : toNat < 2 ^ 64 - 1

/-- The value of libstdc++ with 64-bit sizes. -/
def MaxSize.libstdcxx : MaxSize := ⟨2 ^ 62 - 1, by decide⟩

/-- `class TcpServer`; `message_cb_` says whether a callback is installed. -/
structure TcpServer where
  message_cb_ : Bool
  recv_buffers_ : ℕ → Option Bytes

/-- What happens on the connections. -/
inductive Obs where
  | accepted (fd : ℕ)
  | received (fd : ℕ) (bytes : Bytes)
  | callback (fd : ℕ) (data : Bytes)
  | closed (fd : ℕ)
  deriving DecidableEq

/-- The server among its connections: `open_` are the connections the kernel knows, `log` is
what happened so far, and `raised` is the exception that ended `run`. -/
structure World where
  server : TcpServer
  open_ : List ℕ
  log : List Obs
  raised : Option StdException

/-- The world after one more thing has happened. -/
def World.logging (w : World) (o : Obs) : World := { w with log := w.log ++ [o] }

/-- The world with a new buffer for `fd`. -/
def World.withBuffer (w : World) (fd : ℕ) (b : Bytes) : World :=
  { w with server.recv_buffers_ := Function.update w.server.recv_buffers_ fd (some b) }

/-- The world without a buffer for `fd`. -/
def World.withoutBuffer (w : World) (fd : ℕ) : World :=
  { w with server.recv_buffers_ := Function.update w.server.recv_buffers_ fd none }

/-- The member functions change the world and may throw. -/
abbrev Handler := ExceptT StdException (StateM World)

/-- What a member function returns or throws, and the world after it. -/
def Handler.on {α : Type} (m : Handler α) (w : World) : Except StdException α × World :=
  m.run.run w

section Run

variable {α β : Type} {m : Handler α} {f : α → Handler β} {w w' : World}

theorem Handler.on_bind_ok {a : α} (h : m.on w = (.ok a, w')) :
    (m >>= f).on w = (f a).on w' :=
  Throwing.on_bind_ok h

theorem Handler.on_bind_error {x : StdException} (h : m.on w = (.error x, w')) :
    (m >>= f).on w = (.error x, w') :=
  Throwing.on_bind_error h

end Run

/-- Note what happens. -/
def observe (o : Obs) : Handler Unit := modify fun w => w.logging o

/-- `recv_buffers_[fd] = b`. -/
def setBuffer (fd : ℕ) (b : Bytes) : Handler Unit := modify fun w => w.withBuffer fd b

/-- `recv_buffers_[fd]`, which inserts an empty string where there is none. -/
def getBuffer (fd : ℕ) : Handler Bytes := do
  let b := ((← get).server.recv_buffers_ fd).getD []
  setBuffer fd b
  return b

/-- `recv_buffers_[fd].append(buf, n)`, which throws when the string would get too long. -/
def append (max_size : MaxSize) (fd : ℕ) (buf : Bytes) (n : ℕ) : Handler Unit := do
  let b ← getBuffer fd
  -- the length is checked before `buf` is read
  if max_size.toNat - b.length < n then throw .length_error
  setBuffer fd (b ++ buf.take n)

/-- `TcpServer::handleAccept`, when `accept` returns `conns` before it fails. -/
def handleAccept (conns : List ℕ) : Handler Unit :=
  conns.forM fun conn_fd => do
    modify fun w => { w with open_ := conn_fd :: w.open_ }
    setBuffer conn_fd []
    observe (.accepted conn_fd)

/-- `TcpServer::closeConnection`. -/
def closeConnection (fd : ℕ) : Handler Unit := do
  modify fun w => { w with open_ := w.open_.erase fd }
  modify fun w => w.withoutBuffer fd
  observe (.closed fd)

/-- `TcpServer::processBuffer`: the callback is called for every payload, if there is one. -/
def processBufferOf (fd : ℕ) : Handler Unit := do
  let b ← getBuffer fd
  setBuffer fd (processBuffer b).2
  if (← get).server.message_cb_ then
    (processBuffer b).1.forM fun data => observe (.callback fd data)

/-- The loop of `handleRead`; it returns the last `n`.  The condition compares `n` after the
conversion to `size_t`. -/
def readLoop (max_size : MaxSize) (fd : ℕ) : List ReadResult → Handler ℕ
  | [] => return 0
  | x :: xs => do
    if x.buf ≠ [] then observe (.received fd x.buf)
    let n := toSizeT x.ret
    if n > 0 then
      append max_size fd x.buf n
      readLoop max_size fd xs
    else return n

/-- `TcpServer::handleRead`, when the calls of `read` return `script`. -/
def handleRead (max_size : MaxSize) (fd : ℕ) (script : ReadScript) : Handler Unit := do
  let n ← readLoop max_size fd script.results
  -- `n` is a `size_t`: this branch is never taken
  if n < 0 then
    if script.last = some .EAGAIN ∨ script.last = some .EWOULDBLOCK then
      return
    closeConnection fd
    return
  if n = 0 then
    closeConnection fd
    return
  processBufferOf fd

/-- An event of `epoll_wait`. -/
inductive Event where
  /-- `listen_fd_` is readable. -/
  | listen (conns : List ℕ)
  /-- A connection is readable. -/
  | conn (fd : ℕ) (script : ReadScript)
  deriving DecidableEq

/-- The body of the event loop in `TcpServer::run`. -/
def handle (max_size : MaxSize) : Event → Handler Unit
  | .listen conns => handleAccept conns
  | .conn fd script => handleRead max_size fd script

/-- What the kernel may report: a new connection gets a descriptor that is not in use, and
only open connections become readable. -/
def Event.Possible (w : World) : Event → Prop
  | .listen conns => conns.Nodup ∧ ∀ c ∈ conns, c ∉ w.open_
  | .conn fd _ => fd ∈ w.open_

instance (w : World) (e : Event) : Decidable (e.Possible w) :=
  match e with
  | .listen conns => inferInstanceAs (Decidable (conns.Nodup ∧ ∀ c ∈ conns, c ∉ w.open_))
  | .conn fd _ => inferInstanceAs (Decidable (fd ∈ w.open_))

/-- Handle one event. -/
def serverStep (max_size : MaxSize) (w : World) (e : Event) : Option World :=
  if w.raised = none ∧ e.Possible w then
    match (handle max_size e).on w with
    | (.ok (), w') => some w'
    | (.error x, w') => some { w' with raised := some x }
  else none

namespace TcpServer

/-- The event loop. -/
def lts (max_size : MaxSize) : LTS World Event := .ofFun (serverStep max_size)

/-- The server after `init`. -/
def init (message_cb_ : Bool) : World := ⟨⟨message_cb_, fun _ => none⟩, [], [], none⟩

end TcpServer

end LiteMonitor
