import LiteMonitor.Sender.Accounting

/-!
# What the sender writes

On every connection `send` accepts whole packets, and after them at most the front of one more,
when a `send` has failed or is still going on.  A connection with such a front is closed before
another packet is sent, and the batch is sent again on the next one: a reader who decodes every
connection and discards what is incomplete at its end gets every batch once.

* `bodyOf dump batch`, `packetOf dump batch` : the body and the packet of a batch, and
  `Encodable` : the batches whose body has a length that fits into the prefix.
* `Past` : the closed connections and the batches sent on them.
* `Wired` : the invariant: the closed connections, and the one in use, if there is one.
* `atRest_run` : what is closed or has failed is not written to any more.
* `exactlyOnce` : **a reader gets the batches sent, each once and in order.**
-/

namespace LiteMonitor

namespace Sender

open LTS LengthPrefix

variable {J : Type*} (o : Options) (dump : J → Except JsonError (List Char))

/-! ### Packets -/

/-- The body of a batch; empty if `dump` raises. -/
def bodyOf (batch : List (Item J)) : List UInt8 :=
  ((body dump (batch.map Item.val)).toOption).getD []

/-- The packet of a batch. -/
def packetOf (batch : List (Item J)) : List UInt8 := frame 4 (bodyOf dump batch)

/-- The batch has a body, and its length fits into the prefix. -/
structure Encodable (batch : List (Item J)) : Prop where
  body_eq : body dump (batch.map Item.val) = .ok (bodyOf dump batch)
  length_lt : (bodyOf dump batch).length < 2 ^ 32

variable {o dump}

theorem bodyOf_eq {batch : List (Item J)} {bytes : List UInt8}
    (h : body dump (batch.map Item.val) = .ok bytes) : bodyOf dump batch = bytes := by
  simp only [bodyOf, h]
  rfl

theorem packetOf_eq {batch : List (Item J)} {packet : List UInt8}
    (h : buildPacket dump (batch.map Item.val) = .ok packet) :
    body dump (batch.map Item.val) = .ok (bodyOf dump batch) ∧ packet = packetOf dump batch := by
  obtain ⟨bytes, hbytes, rfl⟩ := buildPacket_eq_ok_iff.1 h
  rw [packetOf, bodyOf_eq hbytes]
  exact ⟨hbytes, rfl⟩

/-- What is left of a packet whose `send` has failed. -/
def Broken (dump : J → Except JsonError (List Char)) (tail : List UInt8) : Prop :=
  tail = [] ∨ ∃ batch, Encodable dump batch ∧ StrictPrefix tail (packetOf dump batch)

theorem Broken.decode {tail : List UInt8} (h : Broken dump tail) : decode 4 tail = [] := by
  rcases h with rfl | ⟨batch, hbatch, htail⟩
  · exact decode_nil
  · exact decode_strictPrefix hbatch.length_lt htail

/-- The wire carries the packets of `batches`, and `tail` behind them. -/
def Carries (dump : J → Except JsonError (List Char)) (c : Conn) (batches : List (List (Item J)))
    (tail : List UInt8) : Prop :=
  c.wire = (batches.map (packetOf dump)).flatten ++ tail ∧ ∀ b ∈ batches, Encodable dump b

theorem Carries.decode {c : Conn} {batches : List (List (Item J))} {tail : List UInt8}
    (h : Carries dump c batches tail) :
    decode 4 c.wire = batches.map (bodyOf dump) ++ decode 4 tail := by
  have hpackets : batches.map (packetOf dump) = (batches.map (bodyOf dump)).map (frame 4) := by
    rw [List.map_map]
    rfl
  rw [h.1, hpackets]
  refine decode_frames_append (fun b hb => ?_) tail
  obtain ⟨batch, hbatch, rfl⟩ := List.mem_map.1 hb
  exact (h.2 batch hbatch).length_lt

/-! ### Sockets -/

namespace Conn

theorem is_of_closed {c : Conn} (h : c.isOpen = false) (fd : ℤ) : c.is fd = false := by
  rw [Conn.is, h, Bool.false_and]

theorem close_of_closed {c : Conn} (h : c.isOpen = false) (fd : ℤ) : c.close fd = c := by
  simp [Conn.close, is_of_closed h]

theorem write_of_closed {c : Conn} (h : c.isOpen = false) (fd : ℤ) (bs : List UInt8) :
    c.write fd bs = c := by
  simp [Conn.write, is_of_closed h]

theorem is_self {c : Conn} (h : c.isOpen = true) : c.is c.fd = true := by
  simp [Conn.is, h]

theorem close_wire (c : Conn) (fd : ℤ) : (c.close fd).wire = c.wire := by
  unfold Conn.close
  split_ifs <;> rfl

end Conn

theorem map_eq_of_closed {conns : List Conn} {f : Conn → Conn}
    (hc : ∀ c ∈ conns, c.isOpen = false) (hf : ∀ c, c.isOpen = false → f c = c) :
    conns.map f = conns := by
  conv_rhs => rw [← List.map_id conns]
  exact List.map_congr_left fun c hmem => hf c (hc c hmem)

/-! ### The invariant -/

/-- The closed connections, the batches sent on them, and what was broken off. -/
inductive Past (dump : J → Except JsonError (List Char)) :
    List Conn → List (List (Item J)) → Prop
  | nil : Past dump [] []
  | snoc {conns : List Conn} {sent batches : List (List (Item J))} {c : Conn}
      {tail : List UInt8} (hpast : Past dump conns sent) (hclosed : c.isOpen = false)
      (hc : Carries dump c batches tail) (htail : Broken dump tail) :
      Past dump (conns ++ [c]) (sent ++ batches)

theorem Past.closed {conns : List Conn} {sent : List (List (Item J))}
    (h : Past dump conns sent) : ∀ c ∈ conns, c.isOpen = false := by
  induction h with
  | nil => exact fun c hc => by cases hc
  | snoc _ hclosed _ _ ih =>
    intro c hc
    rcases List.mem_append.1 hc with hc | hc
    · exact ih c hc
    · rw [List.mem_singleton.1 hc]
      exact hclosed

theorem Past.carries {conns : List Conn} {sent : List (List (Item J))}
    (h : Past dump conns sent) :
    ∀ c ∈ conns, ∃ batches tail, Carries dump c batches tail ∧ Broken dump tail := by
  induction h with
  | nil => exact fun c hc => by cases hc
  | snoc _ _ hc htail ih =>
    intro c' hc'
    rcases List.mem_append.1 hc' with hc' | hc'
    · exact ih c' hc'
    · rw [List.mem_singleton.1 hc']
      exact ⟨_, _, hc, htail⟩

theorem Past.decode {conns : List Conn} {sent : List (List (Item J))}
    (h : Past dump conns sent) :
    (conns.map fun c => decode 4 c.wire).flatten = sent.map (bodyOf dump) ∧
      ∀ b ∈ sent, Encodable dump b := by
  induction h with
  | nil => exact ⟨rfl, fun b hb => by cases hb⟩
  | snoc _ _ hc htail ih =>
    refine ⟨?_, fun b hb => (List.mem_append.1 hb).elim (ih.2 b) (hc.2 b)⟩
    rw [List.map_append, List.flatten_append, ih.1, List.map_append, List.map_singleton,
      List.flatten_singleton, hc.decode, htail.decode, List.append_nil]

namespace Pc

/-- What stands behind the whole packets on the connection in use. -/
def TailOk (dump : J → Except JsonError (List Char)) : Pc J → List UInt8 → Prop
  | .sending batch packet total, tail =>
    Encodable dump batch ∧ packet = packetOf dump batch ∧ total ≤ packet.length ∧
      tail = packet.take total
  | .rollback batch true, tail =>
    Encodable dump batch ∧ StrictPrefix tail (packetOf dump batch)
  | .closing, tail => Broken dump tail
  | .connect _, _ => False
  | .reconnect, _ => False
  | _, tail => tail = []

/-- The positions of a worker that may have no connection. -/
def offline : Pc J → Bool
  | .build _ | .sending _ _ _ => false
  | _ => true

theorem tailOk_of_idle {p : Pc J} (h : p.idle = true) (tail : List UInt8) :
    p.TailOk dump tail ↔ tail = [] := by
  cases p <;> first | exact Iff.rfl | cases h

theorem offline_of_idle {p : Pc J} (h : p.idle = true) : p.offline = true := by
  cases p <;> first | rfl | cases h

end Pc

/-- The connections carry the batches sent: there is no open connection, or the last one is in
use. -/
inductive Wired (dump : J → Except JsonError (List Char)) (s : State J) : Prop
  | offline (hfd : s.m_sockfd = -1) (hw : s.worker.offline = true)
      (hpast : Past dump s.conns s.sent)
  | online {conns : List Conn} {c : Conn} {sent batches : List (List (Item J))}
      {tail : List UInt8} (hconns : s.conns = conns ++ [c]) (hsent : s.sent = sent ++ batches)
      (hfd : s.m_sockfd = c.fd) (hopen : c.isOpen = true) (hconn : c.connected = true)
      (hpast : Past dump conns sent) (hc : Carries dump c batches tail)
      (htail : s.worker.TailOk dump tail)

theorem wired_init : Wired dump (init : State J) := .offline rfl rfl .nil

/-! ### The steps of the socket -/

theorem carries_new (fd : ℕ) (connected isOpen : Bool) :
    Carries dump ⟨fd, connected, isOpen, []⟩ [] [] := ⟨rfl, fun b hb => by cases hb⟩

/-- `connectSocket` fails: the socket it may have opened is closed again. -/
theorem Past.connectFailed {s s₁ : State J} {c : Connect} (hpast : Past dump s.conns s.sent)
    (h : s.connectSocket c = some (false, s₁)) :
    s₁.m_sockfd = -1 ∧ Past dump s₁.conns s₁.sent := by
  rcases connectSocket_cases h with ⟨hb, -⟩ | ⟨-, rfl | ⟨fd, -, rfl⟩⟩
  · simp at hb
  · exact ⟨rfl, hpast⟩
  · have hfd : (s.openSocket fd false).m_sockfd ≥ 0 := Int.natCast_nonneg fd
    have hold : s.conns.map (Conn.close fd) = s.conns :=
      map_eq_of_closed hpast.closed fun c hc => Conn.close_of_closed hc fd
    have hnew : Conn.close fd ⟨fd, false, true, []⟩ = ⟨fd, false, false, []⟩ := by
      simp [Conn.close, Conn.is]
    have hconns : (s.openSocket fd false).conns.map (Conn.close (s.openSocket fd false).m_sockfd) =
        s.conns ++ [⟨fd, false, false, []⟩] := by
      simp only [State.openSocket, List.map_append, hold, List.map_singleton, hnew]
    have hpast' := hpast.snoc rfl (carries_new fd false false) (Or.inl rfl)
    rw [List.append_nil] at hpast'
    rw [State.closeSocket, if_pos hfd, hconns]
    exact ⟨rfl, hpast'⟩

theorem Wired.opened {s : State J} {w : Pc J} (fd : ℕ) (hpast : Past dump s.conns s.sent)
    (hw : w.TailOk dump []) : Wired dump { s.openSocket fd true with worker := w } :=
  .online rfl (List.append_nil s.sent).symm rfl rfl rfl hpast (carries_new fd true true) hw

theorem Wired.closeSocket {s : State J} (hs : Wired dump s)
    (hbroken : ∀ tail, s.worker.TailOk dump tail → Broken dump tail) :
    s.closeSocket.m_sockfd = -1 ∧ Past dump s.closeSocket.conns s.closeSocket.sent := by
  cases hs with
  | offline hfd hw hpast =>
    rw [State.closeSocket, if_neg (by rw [hfd]; decide)]
    exact ⟨hfd, hpast⟩
  | @online conns c sent batches tail hconns hsent hfd hopen hconn hpast hc htail =>
    have hold : conns.map (Conn.close s.m_sockfd) = conns :=
      map_eq_of_closed hpast.closed fun c hc => Conn.close_of_closed hc _
    have hnew : c.close s.m_sockfd = { c with isOpen := false } := by
      simp [Conn.close, hfd, Conn.is_self hopen]
    rw [State.closeSocket, if_pos (by rw [hfd]; exact Int.natCast_nonneg _)]
    refine ⟨rfl, ?_⟩
    rw [hconns, hsent, List.map_append, hold, List.map_singleton, hnew]
    exact hpast.snoc rfl hc (hbroken tail htail)

theorem Wired.past {s : State J} (hs : Wired dump s) (hno : ∀ tail, ¬ s.worker.TailOk dump tail) :
    Past dump s.conns s.sent := by
  cases hs with
  | offline hfd hw hpast => exact hpast
  | online hconns hsent hfd hopen hconn hpast hc htail => exact absurd htail (hno _)

theorem Wired.move {s s' : State J} (hs : Wired dump s) (hfd : s'.m_sockfd = s.m_sockfd)
    (hconns : s'.conns = s.conns) (hsent : s'.sent = s.sent)
    (hoff : s.m_sockfd = -1 → s.worker.offline = true → s'.worker.offline = true)
    (htail : s.m_sockfd ≥ 0 → ∀ tail, s.worker.TailOk dump tail → s'.worker.TailOk dump tail) :
    Wired dump s' := by
  cases hs with
  | offline hfd' hw hpast =>
    exact .offline (hfd.trans hfd') (hoff hfd' hw) (by rw [hconns, hsent]; exact hpast)
  | online hconns' hsent' hfd' hopen hconn hpast hc htail' =>
    have hpos : s.m_sockfd ≥ 0 := by
      rw [hfd']
      exact Int.natCast_nonneg _
    exact .online (hconns.trans hconns') (hsent.trans hsent') (hfd.trans hfd') hopen hconn hpast hc
      (htail hpos _ htail')

theorem Wired.accepted {s : State J} {batch : List (Item J)} {packet : List UInt8} {total n : ℕ}
    (hs : Wired dump s) (hw : s.worker = .sending batch packet total)
    (hle : total + n ≤ packet.length) :
    Wired dump { s.write ((packet.drop total).take n) with
      worker := .sending batch packet (total + n) } := by
  cases hs with
  | offline hfd hoff hpast =>
    rw [hw] at hoff
    cases hoff
  | @online conns c sent batches tail hconns hsent hfd hopen hconn hpast hc htail =>
    rw [hw] at htail
    obtain ⟨hbatch, hpacket, -, rfl⟩ := htail
    have hold : conns.map (Conn.write s.m_sockfd ((packet.drop total).take n)) = conns :=
      map_eq_of_closed hpast.closed fun c hc => Conn.write_of_closed hc _ _
    have hnew : c.write s.m_sockfd ((packet.drop total).take n) =
        { c with wire := c.wire ++ (packet.drop total).take n } := by
      simp [Conn.write, hfd, Conn.is_self hopen]
    have hc' : Carries dump { c with wire := c.wire ++ (packet.drop total).take n } batches
        (packet.take (total + n)) := by
      refine ⟨?_, hc.2⟩
      rw [hc.1, List.append_assoc, List.take_add]
    have hconns' : (s.write ((packet.drop total).take n)).conns =
        conns ++ [{ c with wire := c.wire ++ (packet.drop total).take n }] := by
      simp only [State.write, hconns, List.map_append, hold, List.map_singleton, hnew]
    exact .online hconns' hsent hfd hopen hconn hpast hc' ⟨hbatch, hpacket, hle, rfl⟩

theorem Wired.sent {s : State J} {batch : List (Item J)} {packet : List UInt8} {total : ℕ}
    (hs : Wired dump s) (hw : s.worker = .sending batch packet total)
    (hle : packet.length ≤ total) :
    Wired dump { s with worker := .count batch, sent := s.sent ++ [batch] } := by
  cases hs with
  | offline hfd hoff hpast =>
    rw [hw] at hoff
    cases hoff
  | @online conns c sent batches tail hconns hsent hfd hopen hconn hpast hc htail =>
    rw [hw] at htail
    obtain ⟨hbatch, hpacket, -, rfl⟩ := htail
    have hc' : Carries dump c (batches ++ [batch]) [] := by
      constructor
      · rw [hc.1, List.take_of_length_le hle, hpacket]
        simp
      · intro b hb
        rcases List.mem_append.1 hb with hb | hb
        · exact hc.2 b hb
        · rw [List.mem_singleton.1 hb]
          exact hbatch
    refine .online hconns ?_ hfd hopen hconn hpast hc' rfl
    rw [← List.append_assoc, ← hsent]

/-- **Every step keeps the invariant**, provided that the batches built are encodable. -/
theorem Wired.step {s s' : State J} {l : Label J} (hs : Wired dump s) (hj : Joined s)
    (h : (lts o dump).step s l s')
    (hshort : ∀ batch bytes, s.worker = .build batch →
      body dump (batch.map Item.val) = .ok bytes → bytes.length < 2 ^ 32) : Wired dump s' := by
  cases step_effect h with
  | quiet m r jn st hw hl hex hjoin =>
    refine hs.move rfl rfl rfl ?_ ?_
    · rcases hw with rfl | ⟨-, hi⟩
      · exact fun _ h => h
      · exact fun _ _ => Pc.offline_of_idle hi
    · rcases hw with rfl | ⟨hi, hi'⟩
      · exact fun _ _ h => h
      · exact fun _ tail h => (Pc.tailOk_of_idle hi' tail).2 ((Pc.tailOk_of_idle hi tail).1 h)
  | popped | countedDrop | pushed => exact hs.move rfl rfl rfl (fun _ h => h) (fun _ _ h => h)
  | take hw hq =>
    -- `m_sockfd` decides where `run` goes on, so the new position agrees with the connection
    refine hs.move rfl rfl rfl ?_ ?_
    · intro hfd _
      rw [State.takeBatch, if_pos (by rw [hfd]; decide)]
      rfl
    · intro hfd tail h
      rw [State.takeBatch, if_neg (Int.not_lt.2 hfd)]
      rw [hw] at h
      exact h
  | connected hw hf =>
    exact .opened _ (hs.past fun tail => by rw [hw]; exact id) rfl
  | connectFailed hw hc =>
    obtain ⟨hfd, hpast⟩ := (hs.past fun tail => by rw [hw]; exact id).connectFailed hc
    exact .offline hfd rfl hpast
  | @built batch packet hw hb =>
    obtain ⟨hbody, rfl⟩ := packetOf_eq hb
    refine hs.move rfl rfl rfl (fun _ h => by rw [hw] at h; cases h) fun _ tail h => ?_
    rw [hw] at h
    exact ⟨⟨hbody, hshort batch _ hw hbody⟩, rfl, Nat.zero_le _, h⟩
  | raised hw hb =>
    exact hs.move rfl rfl rfl (fun _ _ => rfl) fun _ tail h => by rw [hw] at h; exact h
  | @accepted batch packet total n hw hn hle hcan => exact hs.accepted hw hle
  | @sendFailed batch packet total r hw hlt =>
    refine hs.move rfl rfl rfl (fun _ h => by rw [hw] at h; cases h) fun _ tail h => ?_
    rw [hw] at h
    obtain ⟨hbatch, rfl, -, rfl⟩ := h
    -- `send` was called, so bytes of the packet are missing on the wire
    exact ⟨hbatch, strictPrefix_take hlt⟩
  | sent hw hle => exact hs.sent hw hle
  | counted hw =>
    exact hs.move rfl rfl rfl (fun _ _ => rfl) fun _ tail h => by rw [hw] at h; exact h
  | @rolledBack batch afterSend hw =>
    refine hs.move rfl rfl rfl (fun _ _ => by cases afterSend <;> rfl) fun _ tail h => ?_
    rw [hw] at h
    cases afterSend with
    | true => exact Or.inr ⟨batch, h⟩
    | false => exact h
  | closed hw =>
    obtain ⟨hfd, hpast⟩ := hs.closeSocket fun tail h => by rw [hw] at h; exact h
    exact .offline hfd rfl hpast
  | reconnected hw hf =>
    exact .opened _ (hs.past fun tail => by rw [hw]; exact id) rfl
  | reconnectFailed hw hc =>
    obtain ⟨hfd, hpast⟩ := (hs.past fun tail => by rw [hw]; exact id).connectFailed hc
    exact .offline hfd rfl hpast
  | stopped hst =>
    -- the worker is joined: nothing is in the middle of being sent
    have hex := hj.close hst
    obtain ⟨hfd, hpast⟩ := hs.closeSocket fun tail h => by rw [hex] at h; exact Or.inl h
    refine .offline hfd ?_ hpast
    obtain ⟨fd, conns, heq⟩ := closeSocket_eq s
    rw [heq]
    simp only [hex]
    rfl

/-- The condition of a run that makes its batches encodable: every body built has a length that
fits into the prefix. -/
def ShortBodies (dump : J → Except JsonError (List Char)) (tr : List (State J × Label J)) : Prop :=
  ∀ x ∈ tr, ∀ batch bytes, x.1.worker = .build batch →
    body dump (batch.map Item.val) = .ok bytes → bytes.length < 2 ^ 32

theorem wired_run {tr : List (State J × Label J)} {s : State J} (h : (lts o dump).Run init tr s)
    (hshort : ShortBodies dump tr) : Wired dump s := by
  refine h.invariant (I := fun tr s => ShortBodies dump tr → Wired dump s) (fun _ => wired_init) ?_
    hshort
  intro tr s l s' hrun hs hst hshort
  have htr : ShortBodies dump tr := fun x hx => hshort x (List.mem_append_left _ hx)
  exact (hs htr).step (joined_reachable hrun.reachable) hst
    (hshort (s, l) (List.mem_append_right _ List.mem_cons_self))

/-! ### What is not written to any more -/

/-- A `send` has failed, and its socket is not closed yet. -/
def Pc.failed : Pc J → Bool
  | .rollback _ true | .closing => true
  | _ => false

theorem Pc.failed_of_idle {p : Pc J} (h : p.idle = true) : p.failed = false := by
  cases p <;> first | rfl | cases h

/-- Connection `i` is closed, and `wire` is what was written on it. -/
def ClosedAt (conns : List Conn) (i : ℕ) (wire : List UInt8) : Prop :=
  ∃ c, conns[i]? = some c ∧ c.wire = wire ∧ c.isOpen = false

/-- Closed connections stay as they are when others are opened, written to and closed. -/
theorem ClosedAt.mono {conns : List Conn} {i : ℕ} {wire : List UInt8} {f : Conn → Conn}
    (h : ClosedAt conns i wire) (hf : ∀ c, c.isOpen = false → f c = c) (new : List Conn) :
    ClosedAt (conns.map f ++ new) i wire := by
  obtain ⟨c, hc, hwire, hclosed⟩ := h
  have hmap : (conns.map f)[i]? = some c := by
    rw [List.getElem?_map, hc, Option.map_some, hf c hclosed]
  exact ⟨c, by rw [List.getElem?_append_left (List.getElem?_eq_some_iff.1 hmap).1, hmap], hwire,
    hclosed⟩

theorem ClosedAt.openSocket {s : State J} {i : ℕ} {wire : List UInt8}
    (h : ClosedAt s.conns i wire) (fd : ℕ) (connected : Bool) :
    ClosedAt (s.openSocket fd connected).conns i wire := by
  have hopen := h.mono (f := id) (fun _ _ => rfl) [⟨fd, connected, true, []⟩]
  rwa [List.map_id] at hopen

theorem ClosedAt.closeSocket {s : State J} {i : ℕ} {wire : List UInt8}
    (h : ClosedAt s.conns i wire) : ClosedAt s.closeSocket.conns i wire := by
  by_cases hfd : s.m_sockfd ≥ 0
  · have hclose := h.mono (f := Conn.close s.m_sockfd) (fun c hc => Conn.close_of_closed hc _) []
    rw [State.closeSocket, if_pos hfd]
    rwa [List.append_nil] at hclose
  · rwa [State.closeSocket, if_neg hfd]

theorem ClosedAt.connectFailed {s s₁ : State J} {c : Connect} {i : ℕ} {wire : List UInt8}
    (h : ClosedAt s.conns i wire) (hc : s.connectSocket c = some (false, s₁)) :
    ClosedAt s₁.conns i wire := by
  rcases connectSocket_cases hc with ⟨hb, -⟩ | ⟨-, rfl | ⟨fd, -, rfl⟩⟩
  · simp at hb
  · exact h
  · exact (h.openSocket fd false).closeSocket

/-- Connection `i` is closed, or a `send` has failed on it and its socket is about to be
closed. -/
def AtRest (s : State J) (i : ℕ) (wire : List UInt8) : Prop :=
  ∃ c, s.conns[i]? = some c ∧ c.wire = wire ∧ (c.isOpen = false ∨ s.worker.failed = true)

theorem ClosedAt.atRest {s : State J} {conns : List Conn} {i : ℕ} {wire : List UInt8}
    (h : ClosedAt conns i wire) (hconns : s.conns = conns) : AtRest s i wire := by
  obtain ⟨c, hc, hwire, hclosed⟩ := h
  exact ⟨c, by rw [hconns, hc], hwire, Or.inl hclosed⟩

section AtRest

variable {s s' : State J} {i : ℕ} {wire : List UInt8}

theorem AtRest.of_conns_eq (h : AtRest s i wire) (hconns : s'.conns = s.conns)
    (hf : s.worker.failed = true → s'.worker.failed = true) : AtRest s' i wire := by
  obtain ⟨c, hc, hwire, hclosed⟩ := h
  exact ⟨c, by rw [hconns, hc], hwire, hclosed.imp_right hf⟩

/-- The worker is not between a failed `send` and the close: the connection is closed. -/
theorem AtRest.closedAt (h : AtRest s i wire) {p : Pc J} (hp : s.worker = p)
    (hf : p.failed = false) : ClosedAt s.conns i wire := by
  obtain ⟨c, hc, hwire, hclosed⟩ := h
  exact ⟨c, hc, hwire, hclosed.resolve_right (by rw [hp, hf]; decide)⟩

theorem AtRest.wire_closeSocket (h : AtRest s i wire) :
    ∃ c, s.closeSocket.conns[i]? = some c ∧ c.wire = wire := by
  obtain ⟨c, hc, hwire, -⟩ := h
  by_cases hfd : s.m_sockfd ≥ 0
  · rw [State.closeSocket, if_pos hfd]
    exact ⟨c.close s.m_sockfd, by rw [List.getElem?_map, hc, Option.map_some],
      (c.close_wire s.m_sockfd).trans hwire⟩
  · rw [State.closeSocket, if_neg hfd]
    exact ⟨c, hc, hwire⟩

/-- **A connection at rest stays at rest**, with the same bytes on the wire. -/
theorem AtRest.step {l : Label J} (hr : AtRest s i wire) (hs : Wired dump s)
    (hj : Joined s) (h : (lts o dump).step s l s') : AtRest s' i wire := by
  cases step_effect h with
  | quiet m r jn st hw hl hex hjoin =>
    refine hr.of_conns_eq rfl fun hf => ?_
    rcases hw with rfl | ⟨hi, -⟩
    · exact hf
    · rw [Pc.failed_of_idle hi] at hf
      simp at hf
  | popped | countedDrop | pushed => exact hr.of_conns_eq rfl id
  | take hw _ | built hw _ | raised hw _ | sent hw _ | counted hw =>
    exact (hr.closedAt hw rfl).atRest rfl
  | sendFailed hw _ => exact hr.of_conns_eq rfl fun _ => rfl
  | connected hw _ | reconnected hw _ => exact ((hr.closedAt hw rfl).openSocket _ true).atRest rfl
  | connectFailed hw hc | reconnectFailed hw hc =>
    exact ((hr.closedAt hw rfl).connectFailed hc).atRest rfl
  | @accepted batch packet total n hw _ _ _ =>
    have hmap := (hr.closedAt hw rfl).mono
      (f := Conn.write s.m_sockfd ((packet.drop total).take n))
      (fun c hc => Conn.write_of_closed hc _ _) []
    rw [List.append_nil] at hmap
    exact hmap.atRest rfl
  | @rolledBack batch afterSend hw =>
    refine hr.of_conns_eq rfl fun hf => ?_
    rw [hw] at hf
    cases afterSend with
    | true => rfl
    | false => cases hf
  | closed hw =>
    -- the socket of the failed `send` is closed now
    obtain ⟨c, hc, hwire⟩ := hr.wire_closeSocket
    obtain ⟨-, hpast⟩ := hs.closeSocket fun tail h => by rw [hw] at h; exact h
    exact ⟨c, hc, hwire, Or.inl (hpast.closed c (List.mem_of_getElem? hc))⟩
  | stopped hst =>
    exact (hr.closedAt (hj.close hst) rfl).closeSocket.atRest rfl

end AtRest

theorem atRest_run {tr : List (State J × Label J)} {s : State J} (h : (lts o dump).Run init tr s)
    (hshort : ShortBodies dump tr) {i : ℕ} {wire : List UInt8} :
    ∀ x ∈ states tr s, AtRest x i wire → AtRest s i wire := by
  refine h.invariant (I := fun tr s => ShortBodies dump tr →
    ∀ x ∈ states tr s, AtRest x i wire → AtRest s i wire) ?_ ?_ hshort
  · intro _
    exact forall_states_nil.2 id
  · intro tr s l s' hrun hrest hst hshort
    have htr : ShortBodies dump tr := fun x hx => hshort x (List.mem_append_left _ hx)
    refine forall_states_snoc.2 ⟨fun x hx hr => ?_, id⟩
    exact (hrest htr x hx hr).step (wired_run hrun htr) (joined_reachable hrun.reachable) hst

/-! ### What a reader gets -/

namespace Pc

/-- The batch whose packet is on the wire as a whole while `sendAll` has not returned yet. -/
def complete : Pc J → List (List (Item J))
  | .sending batch packet total => if packet.length ≤ total then [batch] else []
  | _ => []

theorem complete_of_offline {p : Pc J} (h : p.offline = true) : p.complete = [] := by
  cases p <;> first | rfl | cases h

/-- What stands behind the packets of the batches sent: at most one whole packet, and a strict
prefix of one. -/
theorem TailOk.split {p : Pc J} {tail : List UInt8} (h : p.TailOk dump tail) :
    ∃ tail', tail = (p.complete.map (packetOf dump)).flatten ++ tail' ∧ Broken dump tail' ∧
      (∀ b ∈ p.complete, Encodable dump b) ∧
      (tail' ≠ [] → p.failed = true ∨ ∃ batch packet total, p = .sending batch packet total) := by
  cases p with
  | sending batch packet total =>
    obtain ⟨hbatch, rfl, -, rfl⟩ := h
    -- all bytes may be accepted before `sendAll` finds out
    by_cases hall : (packetOf dump batch).length ≤ total
    · refine ⟨[], ?_, Or.inl rfl, ?_, fun hne => absurd rfl hne⟩
      · simp [complete, hall, List.take_of_length_le hall]
      · intro b hb
        simp only [complete, hall, if_true, List.mem_singleton] at hb
        exact hb ▸ hbatch
    · refine ⟨_, ?_, Or.inr ⟨batch, hbatch, strictPrefix_take (Nat.lt_of_not_le hall)⟩,
        ?_, fun _ => Or.inr ⟨batch, _, total, rfl⟩⟩
      · simp [complete, hall]
      · intro b hb
        simp [complete, hall] at hb
  | rollback batch afterSend =>
    cases afterSend with
    | true => exact ⟨tail, rfl, Or.inr ⟨batch, h⟩, nofun, fun _ => Or.inl rfl⟩
    | false => exact ⟨tail, rfl, Or.inl h, nofun, fun hne => absurd h hne⟩
  | closing => exact ⟨tail, rfl, h, nofun, fun _ => Or.inl rfl⟩
  | connect _ | reconnect => exact h.elim
  | _ => exact ⟨tail, rfl, Or.inl h, nofun, fun hne => absurd h hne⟩

end Pc

/-- Every connection carries whole packets, and at most the front of one. -/
theorem Wired.carries {s : State J} (hs : Wired dump s) :
    ∀ c ∈ s.conns, ∃ batches tail, Carries dump c batches tail ∧ Broken dump tail ∧
      (tail ≠ [] → c.isOpen = false ∨ s.worker.failed = true ∨
        ∃ batch packet total, s.worker = .sending batch packet total) := by
  intro c hmem
  cases hs with
  | offline hfd hw hpast =>
    obtain ⟨batches, tail, hc, htail⟩ := hpast.carries c hmem
    exact ⟨batches, tail, hc, htail, fun _ => Or.inl (hpast.closed c hmem)⟩
  | @online conns c' sent batches tail hconns hsent hfd hopen hconn hpast hc htail =>
    rw [hconns] at hmem
    rcases List.mem_append.1 hmem with hmem | hmem
    · obtain ⟨batches, tail, hc, htail⟩ := hpast.carries c hmem
      exact ⟨batches, tail, hc, htail, fun _ => Or.inl (hpast.closed c hmem)⟩
    · rw [List.mem_singleton.1 hmem]
      obtain ⟨tail', rfl, hbroken, henc, hne⟩ := htail.split
      refine ⟨batches ++ s.worker.complete, tail', ⟨?_, ?_⟩, hbroken,
        fun h => Or.inr (hne h)⟩
      · rw [hc.1, List.map_append, List.flatten_append, List.append_assoc]
      · intro b hb
        exact (List.mem_append.1 hb).elim (hc.2 b) (henc b)

theorem Wired.decode {s : State J} (hs : Wired dump s) :
    (s.conns.map fun c => decode 4 c.wire).flatten =
      (s.sent ++ s.worker.complete).map (bodyOf dump) ∧ ∀ b ∈ s.sent, Encodable dump b := by
  cases hs with
  | offline hfd hw hpast =>
    rw [Pc.complete_of_offline hw, List.append_nil]
    exact hpast.decode
  | @online conns c sent batches tail hconns hsent hfd hopen hconn hpast hc htail =>
    obtain ⟨hdecode, henc⟩ := hpast.decode
    obtain ⟨tail', rfl, hbroken, henc', -⟩ := htail.split
    have hc' : Carries dump c (batches ++ s.worker.complete) tail' := by
      refine ⟨?_, fun b hb => (List.mem_append.1 hb).elim (hc.2 b) (henc' b)⟩
      rw [hc.1, List.map_append, List.flatten_append, List.append_assoc]
    constructor
    · rw [hconns, hsent, List.map_append, List.flatten_append, hdecode, List.map_singleton,
        List.flatten_singleton, hc'.decode, hbroken.decode, List.append_nil, List.append_assoc,
        ← List.map_append]
    · rw [hsent]
      exact fun b hb => (List.mem_append.1 hb).elim (henc b) (hc.2 b)

/-- **A reader gets the batches sent, each once and in order.**  On every connection the bytes
accepted are whole packets and a strict prefix of one, which is empty unless the connection is
closed, a `send` on it has failed, or one is going on.  Decoding every connection, and discarding
what is incomplete, gives the bodies of the batches sent, in order; the batches sent are those
counted in `totalSent`, but for the last one until it is counted.  A batch whose `send` has
failed has left a strict prefix of its packet.  A connection that is closed or on which a `send`
has failed is not written to any more. -/
theorem exactlyOnce {tr : List (State J × Label J)} {s : State J}
    (h : (lts o dump).Run init tr s) (hshort : ShortBodies dump tr) :
    (∀ c ∈ s.conns, ∃ (batches : List (List (Item J))) (tail : List UInt8),
      c.wire = (batches.map (packetOf dump)).flatten ++ tail ∧
      (tail = [] ∨ ∃ batch, StrictPrefix tail (packetOf dump batch)) ∧
      (tail ≠ [] → c.isOpen = false ∨ s.worker.failed = true ∨
        ∃ batch packet total, s.worker = .sending batch packet total)) ∧
    ((s.conns.map fun c => decode 4 c.wire).flatten =
      (s.sent ++ s.worker.complete).map (bodyOf dump) ∧
      ∀ b ∈ s.sent, body dump (b.map Item.val) = .ok (bodyOf dump b)) ∧
    (∃ n, s.m_stats.totalSent = UInt64.ofNat n ∧
      n + s.worker.uncounted.length = s.sent.flatten.length) ∧
    (∀ batch, s.worker = .rollback batch true → ∀ c ∈ s.conns, c.isOpen = true →
      ∃ (batches : List (List (Item J))) (tail : List UInt8),
        c.wire = (batches.map (packetOf dump)).flatten ++ tail ∧
        StrictPrefix tail (packetOf dump batch)) ∧
    (∀ x ∈ states tr s, ∀ (i : ℕ) (c : Conn), x.conns[i]? = some c →
      (c.isOpen = false ∨ x.worker.failed = true) →
      ∃ c' : Conn, s.conns[i]? = some c' ∧ c'.wire = c.wire) := by
  have hs := wired_run h hshort
  refine ⟨fun c hmem => ?_, ⟨hs.decode.1, fun b hb => (hs.decode.2 b hb).body_eq⟩,
    (counted_reachable h.reachable).sent, fun batch hw c hmem hopen => ?_, fun x hx i c hc hq => ?_⟩
  · obtain ⟨batches, tail, hc, htail, hne⟩ := hs.carries c hmem
    exact ⟨batches, tail, hc.1, htail.imp_right fun ⟨batch, _, hp⟩ => ⟨batch, hp⟩, hne⟩
  · cases hs with
    | offline hfd hoff hpast =>
      rw [hpast.closed c hmem] at hopen
      simp at hopen
    | @online conns c' sent batches tail hconns hsent hfd hopen' hconn hpast hc htail =>
      rw [hw] at htail
      rw [hconns] at hmem
      rcases List.mem_append.1 hmem with hmem | hmem
      · rw [hpast.closed c hmem] at hopen
        simp at hopen
      · rw [List.mem_singleton.1 hmem]
        exact ⟨batches, tail, hc.1, htail.2⟩
  · obtain ⟨c', hc', hwire, -⟩ := atRest_run h hshort x hx ⟨c, hc, rfl, hq⟩
    exact ⟨c', hc', hwire⟩

theorem shortBodies_of_all {tr : List (State J × Label J)}
    (h : ∀ x ∈ tr, (x.1.worker.inFlight.all fun b => (bodyOf dump b).length < 2 ^ 32) = true) :
    ShortBodies dump tr := by
  intro x hx batch bytes hw hbody
  have hall := h x hx
  rw [hw] at hall
  rw [← bodyOf_eq hbody]
  exact of_decide_eq_true hall

/-- The first connection fails in the middle of a packet, and the batch is sent again. -/
theorem exactlyOnce_retry : ∃ tr s, (lts {} dumpBool).Run init tr s ∧
    s.conns.map (fun c => (c.wire.length, c.isOpen)) = [(10, false), (34, true)] ∧
    (s.conns.map fun c => decode 4 c.wire).flatten =
      (s.sent ++ s.worker.complete).map (bodyOf dumpBool) ∧ s.sent = [[⟨0, true⟩]] := by
  obtain ⟨tr, s, hrun, hconns, hsent, hall⟩ := Run.exists_of_trace (step {} dumpBool) init
    [.enqueue true, .produce, .produce, .work .go, .work .go, .work .go, .work (.time true),
      .work (.connect (.connected 3)), .work .go, .work (.send (.accepted 10)),
      .work (.send .error), .work .go, .work .go, .work (.connect (.connected 4)),
      .work .go, .work .go, .work .go, .work (.time true), .work .go,
      .work (.send .eintr), .work (.send (.accepted 34)), .work .go, .work .go]
    (fun tr s => s.conns.map (fun c => (c.wire.length, c.isOpen)) = [(10, false), (34, true)] ∧
      s.sent = [[⟨0, true⟩]] ∧
      ∀ x ∈ tr, (x.1.worker.inFlight.all fun b => (bodyOf dumpBool b).length < 2 ^ 32) = true)
    (by decide)
  obtain ⟨-, hdecode, -⟩ := exactlyOnce hrun (shortBodies_of_all hall)
  exact ⟨tr, s, hrun, hconns, hdecode.1, hsent⟩

end Sender

end LiteMonitor
