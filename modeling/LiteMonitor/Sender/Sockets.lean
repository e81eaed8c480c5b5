import LiteMonitor.Sender.Shutdown
import LiteMonitor.Sender.Wire

/-!
# The socket of the sender

`connectSocket` opens a socket and closes it again when it cannot be connected; `run` closes the
socket after a failed `send`, and `stop` closes it after the worker has left its loop.

* `Owns s` : no socket is open, or one is, it is connected, and `m_sockfd` is its descriptor.
* `opened x`, `closed x` : the descriptors that `socket` returns and that `close` gets in a step.
* `owns_run` : the sockets are those opened, and the closed ones are those that `close` got.
* `ownsOne` : **the sender owns at most one socket and leaks none.**
-/

namespace LiteMonitor

namespace Sender

open LTS

variable {J : Type*} {o : Options} {dump : J → Except JsonError (List Char)} {s s' : State J}
  {l : Label J} {tr : List (State J × Label J)}

namespace Pc

/-- The positions at which there is a connection. -/
def hasSocket : Pc J → Bool
  | .build _ | .sending _ _ _ | .count _ | .rollback _ true | .closing => true
  | _ => false

/-- The positions at which there is none. -/
def lacksSocket : Pc J → Bool
  | .connect _ | .rollback _ false | .reconnect => true
  | _ => false

@[simp] theorem hasSocket_notified (p : Pc J) : p.notified.hasSocket = p.hasSocket := by
  cases p <;> rfl

@[simp] theorem lacksSocket_notified (p : Pc J) : p.notified.lacksSocket = p.lacksSocket := by
  cases p <;> rfl

/-- The worker is about to call `closeSocket`. -/
def atClosing : Pc J → Bool
  | .closing => true
  | _ => false

end Pc

/-- No socket is open, or only the last one, which is connected and whose descriptor is
`m_sockfd`. -/
inductive Owns (s : State J) : Prop
  | nothing (hfd : s.m_sockfd = -1) (hw : s.worker.hasSocket = false)
      (hclosed : ∀ c ∈ s.conns, c.isOpen = false)
  | one {conns : List Conn} {c : Conn} (hconns : s.conns = conns ++ [c]) (hfd : s.m_sockfd = c.fd)
      (hopen : c.isOpen = true) (hconn : c.connected = true) (hw : s.worker.lacksSocket = false)
      (hclosed : ∀ c ∈ conns, c.isOpen = false)

/-! ### The calls -/

/-- The descriptor that `socket` returns in a step. -/
def opened (x : State J × Label J) : List ℤ :=
  match x.2 with
  | .work (.connect (.inetPtonFails fd)) => [(fd : ℤ)]
  | .work (.connect (.connectFails fd)) => [(fd : ℤ)]
  | .work (.connect (.connected fd)) => [(fd : ℤ)]
  | _ => []

/-- The descriptor that `closeSocket` passes to `close`. -/
def State.closes (s : State J) : List ℤ := if s.m_sockfd ≥ 0 then [s.m_sockfd] else []

/-- The descriptor that `close` is called with in a step. -/
def closed (x : State J × Label J) : List ℤ :=
  match x.2 with
  | .work (.connect (.inetPtonFails fd)) => [(fd : ℤ)]
  | .work (.connect (.connectFails fd)) => [(fd : ℤ)]
  | .work .go => if x.1.worker.atClosing then x.1.closes else []
  | .stop => if x.1.stopper = .close then x.1.closes else []
  | _ => []

/-- The descriptors of all sockets, in the order in which they were opened. -/
def fds (conns : List Conn) : List ℤ := conns.map fun c => (c.fd : ℤ)

/-- The sockets that are closed. -/
def closedConns (conns : List Conn) : List Conn := conns.filter fun c => !c.isOpen

theorem closedConns_of_closed {conns : List Conn} (h : ∀ c ∈ conns, c.isOpen = false) :
    closedConns conns = conns :=
  List.filter_eq_self.2 fun c hc => by simp [h c hc]

theorem closedConns_snoc (conns : List Conn) (c : Conn) :
    closedConns (conns ++ [c]) = closedConns conns ++ if c.isOpen then [] else [c] := by
  rw [closedConns, List.filter_append]
  cases hc : c.isOpen <;> simp [hc, closedConns]

/-- What a step does to the sockets. -/
structure SocketStep (s : State J) (l : Label J) (s' : State J) : Prop where
  owns : Owns s'
  opened_eq : fds s'.conns = fds s.conns ++ opened (s, l)
  closed_eq : fds (closedConns s'.conns) = fds (closedConns s.conns) ++ closed (s, l)

theorem SocketStep.of_eq (hs : Owns s) (hconns : s'.conns = s.conns)
    (hfd : s'.m_sockfd = s.m_sockfd)
    (hhas : s.m_sockfd = -1 → s.worker.hasSocket = false → s'.worker.hasSocket = false)
    (hlacks : s.m_sockfd ≥ 0 → s.worker.lacksSocket = false → s'.worker.lacksSocket = false)
    (ho : opened (s, l) = []) (hc : closed (s, l) = []) : SocketStep s l s' := by
  refine ⟨?_, by rw [hconns, ho, List.append_nil], by rw [hconns, hc, List.append_nil]⟩
  cases hs with
  | nothing hfd' hw hclosed =>
    exact .nothing (hfd.trans hfd') (hhas hfd' hw) (hconns ▸ hclosed)
  | one hconns' hfd' hopen hconn hw hclosed =>
    have hpos : s.m_sockfd ≥ 0 := by
      rw [hfd']
      exact Int.natCast_nonneg _
    exact .one (hconns.trans hconns') (hfd.trans hfd') hopen hconn (hlacks hpos hw) hclosed

theorem SocketStep.of_hasSocket (hs : Owns s) (hhas : s.worker.hasSocket = true)
    (hconns : s'.conns = s.conns) (hfd : s'.m_sockfd = s.m_sockfd)
    (hlacks : s'.worker.lacksSocket = false) (ho : opened (s, l) = []) (hc : closed (s, l) = []) :
    SocketStep s l s' := by
  refine .of_eq hs hconns hfd (fun _ hw => ?_) (fun _ _ => hlacks) ho hc
  rw [hhas] at hw
  simp at hw

theorem Owns.free (hs : Owns s) (hw : s.worker.lacksSocket = true) :
    s.m_sockfd = -1 ∧ ∀ c ∈ s.conns, c.isOpen = false := by
  cases hs with
  | nothing hfd _ hclosed => exact ⟨hfd, hclosed⟩
  | one _ _ _ _ hw' _ =>
    rw [hw] at hw'
    cases hw'

theorem closeConn_of_closed {conns : List Conn} (h : ∀ c ∈ conns, c.isOpen = false) (fd : ℤ) :
    conns.map (Conn.close fd) = conns :=
  map_eq_of_closed h fun _ hc => Conn.close_of_closed hc fd

theorem Owns.closeSocket (hs : Owns s) :
    s.closeSocket.m_sockfd = -1 ∧ (∀ c ∈ s.closeSocket.conns, c.isOpen = false) ∧
      fds s.closeSocket.conns = fds s.conns ∧
      fds (closedConns s.closeSocket.conns) = fds (closedConns s.conns) ++ s.closes := by
  cases hs with
  | nothing hfd hw hclosed =>
    have hneg : ¬ s.m_sockfd ≥ 0 := by rw [hfd]; decide
    rw [State.closeSocket, State.closes, if_neg hneg, if_neg hneg, List.append_nil]
    exact ⟨hfd, hclosed, rfl, rfl⟩
  | @one conns c hconns hfd hopen hconn hw hclosed =>
    have hpos : s.m_sockfd ≥ 0 := by
      rw [hfd]
      exact Int.natCast_nonneg _
    have hnew : c.close s.m_sockfd = { c with isOpen := false } := by
      simp [Conn.close, hfd, Conn.is_self hopen]
    have hall : s.conns.map (Conn.close s.m_sockfd) = conns ++ [{ c with isOpen := false }] := by
      rw [hconns, List.map_append, closeConn_of_closed hclosed, List.map_singleton, hnew]
    have hclosed' : ∀ c' ∈ conns ++ [{ c with isOpen := false }], c'.isOpen = false := by
      rw [List.forall_mem_append, List.forall_mem_singleton]
      exact ⟨hclosed, rfl⟩
    rw [State.closeSocket, State.closes, if_pos hpos, if_pos hpos]
    refine ⟨rfl, ?_, ?_, ?_⟩
    · rw [hall]
      exact hclosed'
    · rw [hall, hconns]
      simp [fds]
    · rw [hall, hconns, closedConns_of_closed hclosed', closedConns_snoc,
        closedConns_of_closed hclosed, hopen, hfd]
      simp [fds]

theorem connectFailed_socket {c : Connect} {s₁ : State J}
    (hfree : ∀ c ∈ s.conns, c.isOpen = false) (h : s.connectSocket c = some (false, s₁)) :
    s₁.m_sockfd = -1 ∧ (∀ c ∈ s₁.conns, c.isOpen = false) ∧
      fds s₁.conns = fds s.conns ++ opened (s, .work (.connect c)) ∧
      closed (s, .work (.connect c)) = opened (s, .work (.connect c)) := by
  have hclose : ∀ fd : ℕ, (s.openSocket fd false).closeSocket.m_sockfd = -1 ∧
      (s.openSocket fd false).closeSocket.conns = s.conns ++ [⟨fd, false, false, []⟩] := by
    intro fd
    have hpos : (s.openSocket fd false).m_sockfd ≥ 0 := Int.natCast_nonneg fd
    have hnew : Conn.close fd ⟨fd, false, true, []⟩ = ⟨fd, false, false, []⟩ := by
      simp [Conn.close, Conn.is]
    rw [State.closeSocket, if_pos hpos]
    refine ⟨rfl, ?_⟩
    simp only [State.openSocket, List.map_append, closeConn_of_closed hfree, List.map_singleton,
      hnew]
  cases c with
  | socketFails =>
    cases h
    exact ⟨rfl, hfree, (List.append_nil _).symm, rfl⟩
  | inetPtonFails fd | connectFails fd =>
    simp only [State.connectSocket] at h
    split_ifs at h
    cases h
    obtain ⟨hfd, hconns⟩ := hclose fd
    refine ⟨hfd, ?_, ?_, rfl⟩
    · rw [hconns, List.forall_mem_append, List.forall_mem_singleton]
      exact ⟨hfree, rfl⟩
    · rw [hconns]
      simp [fds, opened]
  | connected fd =>
    simp only [State.connectSocket] at h
    split_ifs at h
    simp at h

theorem SocketStep.of_closed (hw : s'.worker.hasSocket = false) (hfd : s'.m_sockfd = -1)
    (hfree : ∀ c ∈ s.conns, c.isOpen = false) (hfree' : ∀ c ∈ s'.conns, c.isOpen = false)
    (ho : fds s'.conns = fds s.conns ++ opened (s, l)) (hc : closed (s, l) = opened (s, l)) :
    SocketStep s l s' := by
  refine ⟨.nothing hfd hw hfree', ho, ?_⟩
  rw [closedConns_of_closed hfree', closedConns_of_closed hfree, ho, hc]

theorem SocketStep.connected {fd : ℕ} {w : Pc J} (hs : Owns s)
    (hlacks : s.worker.lacksSocket = true) (hw : w.lacksSocket = false) :
    SocketStep s (.work (.connect (.connected fd))) { s.openSocket fd true with worker := w } := by
  obtain ⟨-, hfree⟩ := hs.free hlacks
  refine ⟨.one rfl rfl rfl rfl hw hfree, by simp [fds, opened, State.openSocket], ?_⟩
  simp only [State.openSocket, closedConns_snoc, closed, if_true]
  simp [fds]

theorem SocketStep.failed {c : Connect} {s₁ : State J} {w : Pc J} (hs : Owns s)
    (hlacks : s.worker.lacksSocket = true) (hw : w.hasSocket = false)
    (h : s.connectSocket c = some (false, s₁)) :
    SocketStep s (.work (.connect c)) { s₁.backOff o with worker := w } := by
  obtain ⟨-, hfree⟩ := hs.free hlacks
  obtain ⟨hfd, hfree', ho, hc⟩ := connectFailed_socket hfree h
  exact .of_closed hw hfd hfree hfree' ho hc

theorem Owns.stops (hs : Owns s) (hj : Joined s) (h : Stops s s') : SocketStep s .stop s' := by
  have hquiet : s.stopper ≠ .close → closed (s, .stop) = [] := fun hst => by simp [closed, hst]
  cases h with
  | clear hst | join hst | joined hst =>
    exact .of_eq hs rfl rfl (fun _ => id) (fun _ => id) rfl (hquiet (hst ▸ nofun))
  | notify hst =>
    exact .of_eq hs rfl rfl (fun _ => s.worker.hasSocket_notified.trans)
      (fun _ => s.worker.lacksSocket_notified.trans) rfl (hquiet (hst ▸ nofun))
  | close hst =>
    obtain ⟨hfd, hfree, hfds, hclosed⟩ := hs.closeSocket
    refine ⟨.nothing hfd ?_ hfree, ?_, ?_⟩
    · obtain ⟨fd, conns, heq⟩ := closeSocket_eq s
      rw [heq]
      exact congrArg Pc.hasSocket (hj.close hst)
    · rw [hfds]
      exact (List.append_nil _).symm
    · rw [hclosed]
      simp [closed, hst]

theorem Owns.moves (hs : Owns s) (hj : Joined s) (h : Moves o s l s') : SocketStep s l s' := by
  cases h with
  | waits h =>
    cases h with
    | enter hw | stopping hw | drain hw | exit hw | lock hw | pass hw | fail hw | block hw
    | wake hw | back hw =>
      exact .of_eq hs rfl rfl (fun _ _ => rfl) (fun _ _ => rfl) rfl
        (by simp [closed, hw, Pc.atClosing])
    | @relock timedOut hw =>
      refine .of_eq hs rfl rfl (fun _ _ => ?_) (fun _ _ => ?_) rfl
        (by simp [closed, hw, Pc.atClosing])
      · cases timedOut <;> rfl
      · cases timedOut <;> rfl
  | eintr | full | fits => exact .of_eq hs rfl rfl (fun _ => id) (fun _ => id) rfl rfl
  | notifyOne =>
    exact .of_eq hs rfl rfl (fun _ => s.worker.hasSocket_notified.trans)
      (fun _ => s.worker.lacksSocket_notified.trans) rfl rfl
  | stops h => exact hs.stops hj h

theorem Owns.write {batch : List (Item J)} {packet bs : List UInt8} {total n : ℕ} {r : SendResult}
    (hs : Owns s) (hw : s.worker = .sending batch packet total) :
    SocketStep s (.work (.send r))
      { s.write bs with worker := .sending batch packet (total + n) } := by
  cases hs with
  | nothing hfd hhas hclosed =>
    rw [hw] at hhas
    cases hhas
  | @one conns c hconns hfd hopen hconn hlacks hclosed =>
    have hold : conns.map (Conn.write s.m_sockfd bs) = conns :=
      map_eq_of_closed hclosed fun _ hc => Conn.write_of_closed hc _ _
    have hnew : c.write s.m_sockfd bs = { c with wire := c.wire ++ bs } := by
      simp [Conn.write, hfd, Conn.is_self hopen]
    have hall : (s.write bs).conns = conns ++ [{ c with wire := c.wire ++ bs }] := by
      simp only [State.write, hconns, List.map_append, hold, List.map_singleton, hnew]
    refine ⟨.one hall hfd hopen hconn rfl hclosed, ?_, ?_⟩
    · rw [hall, hconns]
      simp [fds, opened]
    · rw [hall, hconns, closedConns_snoc, closedConns_snoc]
      simp [hopen, closed]

/-- **A step opens and closes sockets as it calls `socket` and `close`.** -/
theorem Owns.step (hs : Owns s) (hj : Joined s) (h : (lts o dump).step s l s') :
    SocketStep s l s' := by
  cases step_effect h with
  | quiet m r jn st hw => exact hs.moves hj (quiet_moves h hw rfl)
  | popped | countedDrop | pushed => exact .of_eq hs rfl rfl (fun _ => id) (fun _ => id) rfl rfl
  | take hw hq =>
    refine .of_eq hs rfl rfl ?_ ?_ rfl rfl
    · intro hfd _
      have hneg : s.m_sockfd < 0 := by omega
      simp [State.takeBatch, hneg, Pc.hasSocket]
    · intro hfd _
      have hpos : ¬ s.m_sockfd < 0 := by omega
      simp [State.takeBatch, hpos, Pc.lacksSocket]
  | connected hw hf => exact .connected hs (hw ▸ rfl) rfl
  | connectFailed hw hc => exact .failed hs (hw ▸ rfl) rfl hc
  | built hw | sent hw =>
    exact .of_hasSocket hs (hw ▸ rfl) rfl rfl rfl rfl (by simp [closed, hw, Pc.atClosing])
  | sendFailed hw => exact .of_hasSocket hs (hw ▸ rfl) rfl rfl rfl rfl rfl
  | accepted hw => exact hs.write hw
  | raised hw | counted hw =>
    exact .of_eq hs rfl rfl (fun _ _ => rfl) (fun _ _ => rfl) rfl
      (by simp [closed, hw, Pc.atClosing])
  | @rolledBack batch afterSend hw =>
    have hc : closed (s, .work .go) = [] := by simp [closed, hw, Pc.atClosing]
    cases afterSend with
    | true => exact .of_hasSocket hs (hw ▸ rfl) rfl rfl rfl rfl hc
    | false => exact .of_eq hs rfl rfl (fun _ _ => rfl) (fun _ _ => rfl) rfl hc
  | closed hw =>
    obtain ⟨hfd, hfree, hfds, hclosed⟩ := hs.closeSocket
    refine ⟨.nothing hfd rfl hfree, hfds.trans (List.append_nil _).symm, ?_⟩
    simp [hclosed, closed, hw, Pc.atClosing]
  | reconnected hw hf => exact .connected hs (hw ▸ rfl) rfl
  | reconnectFailed hw hc => exact .failed hs (hw ▸ rfl) rfl hc
  | stopped hst => exact hs.stops hj (.close hst)

/-! ### Runs -/

/-- The sockets of a run are those it has opened, and the closed ones are those it has closed. -/
theorem owns_run (h : (lts o dump).Run init tr s) :
    Owns s ∧ fds s.conns = tr.flatMap opened ∧
      fds (closedConns s.conns) = tr.flatMap closed := by
  refine h.invariant (I := fun tr s => Owns s ∧ fds s.conns = tr.flatMap opened ∧
    fds (closedConns s.conns) = tr.flatMap closed) ?_ ?_
  · exact ⟨.nothing rfl rfl (List.forall_mem_nil _), rfl, rfl⟩
  · intro tr s l s' hrun hs hst
    obtain ⟨hs, hopened, hclosed⟩ := hs
    obtain ⟨hs', ho, hc⟩ := hs.step (joined_reachable hrun.reachable) hst
    rw [List.flatMap_append, List.flatMap_append, List.flatMap_singleton, List.flatMap_singleton,
      ← hopened, ← hclosed]
    exact ⟨hs', ho, hc⟩

theorem Owns.fds_eq (hs : Owns s) : fds s.conns = fds (closedConns s.conns) ++ s.closes := by
  cases hs with
  | nothing hfd _ hclosed =>
    have hneg : ¬ s.m_sockfd ≥ 0 := by rw [hfd]; decide
    rw [closedConns_of_closed hclosed, State.closes, if_neg hneg, List.append_nil]
  | one hconns hfd hopen _ _ hclosed =>
    have hpos : s.m_sockfd ≥ 0 := by
      rw [hfd]
      exact Int.natCast_nonneg _
    rw [hconns, closedConns_snoc, closedConns_of_closed hclosed, State.closes, if_pos hpos, hfd]
    simp [hopen, fds]

/-- A call of `stop` has returned. -/
def StopReturned (tr : List (State J × Label J)) : Prop :=
  ∃ x ∈ tr, x.1.stopper = .close ∧ x.2 = .stop

theorem opened_of_exited (h : (lts o dump).step s l s') (hex : s.worker = .exited) :
    opened (s, l) = [] := by
  cases l with
  | work r =>
    have hwork := work_of_step h
    simp [State.work, hex] at hwork
  | _ => rfl

theorem SocketStep.nothing (h : SocketStep s l s') (hfree : ∀ c ∈ s.conns, c.isOpen = false)
    (ho : opened (s, l) = []) : s'.m_sockfd = -1 ∧ ∀ c ∈ s'.conns, c.isOpen = false := by
  obtain ⟨hs', hopened, hclosed⟩ := h
  cases hs' with
  | nothing hfd _ hclosed' => exact ⟨hfd, hclosed'⟩
  | one hconns _ hopen _ _ hclosed' =>
    -- all sockets but the last one are fewer than the sockets before
    rw [hconns, closedConns_snoc, closedConns_of_closed hclosed', closedConns_of_closed hfree,
      hopen] at hclosed
    rw [hconns, ho] at hopened
    have h₁ := congrArg List.length hclosed
    have h₂ := congrArg List.length hopened
    simp only [fds, List.map_append, List.length_append, List.length_map, List.length_singleton,
      List.map_cons, List.map_nil, List.length_nil, if_true] at h₁ h₂
    omega

/-- After `stop` has returned no socket is open, and none is opened any more. -/
theorem released_run (h : (lts o dump).Run init tr s) (hret : StopReturned tr) :
    s.worker = .exited ∧ s.m_sockfd = -1 ∧ ∀ c ∈ s.conns, c.isOpen = false := by
  refine h.invariant (I := fun tr s => StopReturned tr →
    s.worker = .exited ∧ s.m_sockfd = -1 ∧ ∀ c ∈ s.conns, c.isOpen = false) ?_ ?_ hret
  · rintro ⟨x, ⟨⟩, -⟩
  · rintro tr s l s' hrun hs hst ⟨x, hx, hclose, hl⟩
    have hjoined := joined_reachable hrun.reachable
    have howns := (owns_run hrun).1
    rcases List.mem_append.1 hx with hx' | hx'
    · obtain ⟨hex, -, hfree⟩ := hs ⟨x, hx', hclose, hl⟩
      exact ⟨exited_step hst hex,
        (howns.step hjoined hst).nothing hfree (opened_of_exited hst hex)⟩
    · obtain rfl := List.mem_singleton.1 hx'
      obtain rfl : l = .stop := hl
      have hex := hjoined.close hclose
      have hstop : (lts o dump).step s .stop { s.closeSocket with stopper := .idle } :=
        returns_step hrun.reachable hclose
      obtain rfl := Option.some.inj (hstop.symm.trans hst)
      obtain ⟨hfd, hfree, -⟩ := howns.closeSocket
      exact ⟨exited_step hst hex, hfd, hfree⟩

/-- What the sender owns after a run. -/
structure OwnsOne (tr : List (State J × Label J)) (s : State J) : Prop where
  atMostOne : (s.conns.filter Conn.isOpen).length ≤ 1
  owned : ∀ c ∈ s.conns, c.isOpen = true → s.m_sockfd = c.fd
  /-- Between two iterations of `run` `m_sockfd` says whether there is a connection. -/
  between : s.worker.idle = true →
    (s.m_sockfd ≥ 0 ↔ ∃ c ∈ s.conns, c.isOpen = true ∧ c.connected = true)
  /-- `send` is called on a connected socket. -/
  sends : ∀ batch packet total, s.worker = .sending batch packet total → s.canSend = true
  opened_eq : fds s.conns = tr.flatMap opened
  closed_eq : fds (closedConns s.conns) = tr.flatMap closed
  /-- The sockets opened are those closed, one by one, and the one in use. -/
  closedOnce : tr.flatMap opened = tr.flatMap closed ++ s.closes
  released : StopReturned tr → s.m_sockfd < 0 ∧ ∀ c ∈ s.conns, c.isOpen = false

theorem open_of_closed {conns : List Conn} (h : ∀ c ∈ conns, c.isOpen = false) :
    conns.filter Conn.isOpen = [] :=
  List.filter_eq_nil_iff.2 fun c hc => by simp [h c hc]

/-- **The sender owns at most one socket and leaks none**, after every run: at most one socket is
open and `m_sockfd` is its descriptor; between two iterations `m_sockfd` is not negative exactly
if a socket is open and connected; `send` is only called on a connected socket; the calls of
`close` are for the sockets opened, each once and in order, but for the one in use; and none is
open after `stop` has returned. -/
theorem ownsOne (h : (lts o dump).Run init tr s) : OwnsOne tr s := by
  obtain ⟨hs, hopened, hclosed⟩ := owns_run h
  have hreleased : StopReturned tr → s.m_sockfd < 0 ∧ ∀ c ∈ s.conns, c.isOpen = false := by
    intro hret
    obtain ⟨-, hfd, hfree⟩ := released_run h hret
    exact ⟨by rw [hfd]; decide, hfree⟩
  have honce : tr.flatMap opened = tr.flatMap closed ++ s.closes := by
    rw [← hopened, ← hclosed]
    exact hs.fds_eq
  cases hs with
  | nothing hfd hhas hfree =>
    have hno : ∀ c ∈ s.conns, ¬ c.isOpen = true := fun c hc => by simp [hfree c hc]
    refine ⟨?_, fun c hc hopen => absurd hopen (hno c hc), fun _ => ?_, ?_, hopened, hclosed, honce,
      hreleased⟩
    · rw [open_of_closed hfree]
      exact Nat.zero_le _
    · refine iff_of_false (by rw [hfd]; decide) ?_
      rintro ⟨c, hc, hopen, -⟩
      exact hno c hc hopen
    · intro batch packet total hw
      rw [hw] at hhas
      cases hhas
  | @one conns c hconns hfd hopen hconn hlacks hfree =>
    have hmem : c ∈ s.conns := by simp [hconns]
    refine ⟨?_, ?_, fun _ => ?_, ?_, hopened, hclosed, honce, hreleased⟩
    · rw [hconns, List.filter_append, open_of_closed hfree, List.nil_append]
      exact List.length_filter_le _ _
    · rw [hconns, List.forall_mem_append, List.forall_mem_singleton]
      refine ⟨fun c' hc' hopen' => ?_, fun _ => hfd⟩
      rw [hfree c' hc'] at hopen'
      cases hopen'
    · refine iff_of_true ?_ ⟨c, hmem, hopen, hconn⟩
      rw [hfd]
      exact Int.natCast_nonneg _
    · intro batch packet total _
      refine List.any_eq_true.2 ⟨c, hmem, ?_⟩
      rw [hfd, Conn.is_self hopen, hconn]
      rfl

/-- A batch is sent, and `stop` closes the socket. -/
theorem ownsOne_send : ∃ tr s, (lts {} dumpBool).Run init tr s ∧ StopReturned tr ∧
    tr.flatMap opened = [3] ∧ tr.flatMap closed = [3] ∧ OwnsOne tr s := by
  obtain ⟨tr, s, hrun, hclose, hfd, hopened, hclosed⟩ := Run.exists_of_trace
    (step {} dumpBool) init sendAndStop
    (fun tr s => s.stopper = .close ∧ s.m_sockfd = 3 ∧ tr.flatMap opened = [3] ∧
      tr.flatMap closed = []) (by decide)
  have hrun' := hrun.snoc (returns_step hrun.reachable hclose)
  refine ⟨_, _, hrun', ⟨(s, .stop), by simp, hclose, rfl⟩, ?_, ?_, ownsOne hrun'⟩
  · rw [List.flatMap_append, hopened]
    rfl
  · rw [List.flatMap_append, hclosed]
    simp [closed, hclose, State.closes, hfd]

end Sender

end LiteMonitor
