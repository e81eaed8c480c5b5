import LiteMonitor.Sender.Basic

/-!
# What a step of the sender does

Every step is one of a few effects on the queue, the counters and the sockets; `step_effect` is
the only place where `step` is taken apart.

* `Pc.inFlight` : the batch the worker holds.
* `Effect o dump s l s'` : the effects.
* `step_effect` : a step has one of them.
-/

namespace LiteMonitor

namespace Sender

variable {J : Type*}

namespace Pc

/-- The batch that is taken and neither sent nor back in the queue. -/
def inFlight : Pc J → Option (List (Item J))
  | .connect batch => some batch
  | .build batch => some batch
  | .sending batch _ _ => some batch
  | .rollback batch _ => some batch
  | .terminated batch => some batch
  | _ => none

/-- The worker is at the loop condition, in the wait, or has left the loop. -/
def idle : Pc J → Bool
  | .test | .testQueue | .lock | .pred | .block | .blocked | .woken _ | .ready | .exited => true
  | _ => false

theorem inFlight_of_idle {p : Pc J} (h : p.idle = true) : p.inFlight = none := by
  cases p <;> first | rfl | cases h

theorem notified_or (p : Pc J) : p.notified = p ∨ p.idle = true ∧ p.notified.idle = true := by
  cases p with
  | blocked => exact Or.inr ⟨rfl, rfl⟩
  | _ => exact Or.inl rfl

end Pc

variable (o : Options) (dump : J → Except JsonError (List Char))

/-- What a step does to the queue, the counters and the sockets. -/
inductive Effect (s : State J) : Label J → State J → Prop
  /-- Only the threads' positions, the lock and the flag change, outside of a batch. -/
  | quiet {l : Label J} {w : Pc J} (m : Option (Holder J)) (r : Bool) (jn : Bool) (st : StopPc)
      (hw : w = s.worker ∨ s.worker.idle = true ∧ w.idle = true)
      (hl : l = .work .go → s.worker.idle = true) (hex : s.worker = .exited → w = .exited)
      (hjoin : st = .close ∨ jn = false →
        s.stopper = .close ∨ s.joinable = false ∨ s.worker = .exited) :
      Effect s l { s with worker := w, m_mutex := m, m_running := r, joinable := jn, stopper := st }
  | popped {j : J} {x : Item J} {q : List (Item J)} (hm : s.m_mutex = some (.producer (.pop j)))
      (hq : s.m_queue = x :: q) : Effect s .produce (s.popped x q j)
  | countedDrop {j : J} (hm : s.m_mutex = some (.producer (.count j))) :
      Effect s .produce (s.countDrop j)
  | pushed {j : J} {p : Bool} (hm : s.m_mutex = some (.producer (.push p j))) :
      Effect s .produce (s.pushBack j)
  | take {t : Bool} (hw : s.worker = .ready) (hq : s.m_queue ≠ []) :
      Effect s (.work (.time t)) (s.takeBatch o)
  | connected {batch : List (Item J)} {fd : ℕ} (hw : s.worker = .connect batch)
      (hf : s.Fresh fd) :
      Effect s (.work (.connect (.connected fd)))
        { s.openSocket fd true with worker := .build batch }
  | connectFailed {batch : List (Item J)} {c : Connect} {s₁ : State J}
      (hw : s.worker = .connect batch) (hc : s.connectSocket c = some (false, s₁)) :
      Effect s (.work (.connect c)) { s₁.backOff o with worker := .rollback batch false }
  | built {batch : List (Item J)} {packet : List UInt8} (hw : s.worker = .build batch)
      (hb : buildPacket dump (batch.map Item.val) = .ok packet) :
      Effect s (.work .go) { s with worker := .sending batch packet 0 }
  | raised {batch : List (Item J)} {e : JsonError} (hw : s.worker = .build batch)
      (hb : buildPacket dump (batch.map Item.val) = .error e) :
      Effect s (.work .go) { s with worker := .terminated batch }
  | accepted {batch : List (Item J)} {packet : List UInt8} {total n : ℕ}
      (hw : s.worker = .sending batch packet total) (hn : 0 < n) (hle : total + n ≤ packet.length)
      (hc : s.canSend = true) :
      Effect s (.work (.send (.accepted n))) { s.write ((packet.drop total).take n) with
        worker := .sending batch packet (total + n) }
  | sendFailed {batch : List (Item J)} {packet : List UInt8} {total : ℕ} {r : SendResult}
      (hw : s.worker = .sending batch packet total) (hlt : total < packet.length) :
      Effect s (.work (.send r)) { s with worker := .rollback batch true }
  | sent {batch : List (Item J)} {packet : List UInt8} {total : ℕ}
      (hw : s.worker = .sending batch packet total) (hle : packet.length ≤ total) :
      Effect s (.work .go) { s with worker := .count batch, sent := s.sent ++ [batch] }
  | counted {batch : List (Item J)} (hw : s.worker = .count batch) :
      Effect s (.work .go) { s with
        m_stats.totalSent := s.m_stats.totalSent + UInt64.ofNat batch.length
        m_currentBackoff := 500
        worker := .test }
  | rolledBack {batch : List (Item J)} {afterSend : Bool}
      (hw : s.worker = .rollback batch afterSend) (hm : s.m_mutex = none) :
      Effect s (.work .go) (s.rollback batch afterSend)
  | closed (hw : s.worker = .closing) :
      Effect s (.work .go) { s.closeSocket with worker := .reconnect }
  | reconnected {fd : ℕ} (hw : s.worker = .reconnect) (hf : s.Fresh fd) :
      Effect s (.work (.connect (.connected fd))) { s.openSocket fd true with worker := .test }
  | reconnectFailed {c : Connect} {s₁ : State J} (hw : s.worker = .reconnect)
      (hc : s.connectSocket c = some (false, s₁)) :
      Effect s (.work (.connect c)) { s₁.backOff o with worker := .test }
  | stopped (hst : s.stopper = .close) : Effect s .stop { s.closeSocket with stopper := .idle }

variable {o dump}

theorem Effect.move {s : State J} {l : Label J} {p w : Pc J} (m : Option (Holder J))
    (hp : s.worker = p) (hidle : p.idle = true) (hne : p ≠ .exited) (hw : w.idle = true) :
    Effect o dump s l { s with worker := w, m_mutex := m } := by
  have hs : s.worker.idle = true := hp ▸ hidle
  exact .quiet m s.m_running s.joinable s.stopper (Or.inr ⟨hs, hw⟩) (fun _ => hs)
    (fun h => absurd (hp.symm.trans h) hne) (fun h => h.imp_right Or.inl)

theorem Effect.stop {s : State J} {w : Pc J} (r jn : Bool) (st : StopPc)
    (hw : w = s.worker ∨ s.worker.idle = true ∧ w.idle = true)
    (hex : s.worker = .exited → w = .exited)
    (hjoin : st = .close ∨ jn = false → s.joinable = false ∨ s.worker = .exited) :
    Effect o dump s .stop { s with worker := w, m_running := r, joinable := jn, stopper := st } :=
  .quiet s.m_mutex r jn st hw nofun hex (fun h => Or.inr (hjoin h))

theorem Effect.lock {s : State J} {j : J} (m : Option (Holder J)) :
    Effect o dump s (.enqueue j) { s with m_mutex := m } :=
  .quiet m s.m_running s.joinable s.stopper (Or.inl rfl) nofun id fun h => h.imp_right Or.inl

theorem enqueue_effect {s s' : State J} {j : J} (h : s.enqueue o j = some s') :
    Effect o dump s (.enqueue j) s' := by
  unfold State.enqueue at h
  split_ifs at h
  · exact Option.some.inj h ▸ .lock _
  · exact Option.some.inj h ▸ .lock _

theorem produce_effect {s s' : State J} (h : s.produce = some s') :
    Effect o dump s .produce s' := by
  unfold State.produce at h
  split at h
  · rename_i hm
    unfold State.popFront at h
    split at h
    · simp at h
    · rename_i hq
      exact Option.some.inj h ▸ .popped hm hq
  · rename_i hm
    exact Option.some.inj h ▸ .countedDrop hm
  · rename_i hm
    exact Option.some.inj h ▸ .pushed hm
  · refine Option.some.inj h ▸ .quiet none s.m_running s.joinable s.stopper s.worker.notified_or
      nofun ?_ fun h => h.imp_right Or.inl
    intro hex
    rw [hex]
    rfl
  · simp at h

theorem stop_effect {s s' : State J} (h : s.stop = some s') : Effect o dump s .stop s' := by
  unfold State.stop at h
  split at h
  · refine Option.some.inj h ▸ .stop false s.joinable .notify (Or.inl rfl) id ?_
    exact fun h => Or.inl (h.resolve_left nofun)
  · refine Option.some.inj h ▸ .stop s.m_running s.joinable .join s.worker.notified_or ?_ ?_
    · intro hex
      rw [hex]
      rfl
    · exact fun h => Or.inl (h.resolve_left nofun)
  · split_ifs at h with hjoin
    · split at h
      · rename_i hex
        exact Option.some.inj h ▸ .stop s.m_running false .close (Or.inl rfl) id fun _ => Or.inr hex
      · simp at h
    · refine Option.some.inj h ▸ .stop s.m_running s.joinable .close (Or.inl rfl) id fun _ => ?_
      exact Or.inl (by simpa using hjoin)
  · rename_i hst
    exact Option.some.inj h ▸ .stopped hst

theorem connectSocket_cases {s s₁ : State J} {c : Connect} {b : Bool}
    (h : s.connectSocket c = some (b, s₁)) :
    (b = true ∧ ∃ fd, c = .connected fd ∧ s.Fresh fd ∧ s₁ = s.openSocket fd true) ∨
    (b = false ∧ (s₁ = { s with m_sockfd := -1 } ∨
      ∃ fd, s.Fresh fd ∧ s₁ = (s.openSocket fd false).closeSocket)) := by
  cases c with
  | socketFails =>
    cases h
    exact Or.inr ⟨rfl, Or.inl rfl⟩
  | inetPtonFails fd | connectFails fd =>
    simp only [State.connectSocket] at h
    split_ifs at h with hf
    cases h
    exact Or.inr ⟨rfl, Or.inr ⟨fd, hf, rfl⟩⟩
  | connected fd =>
    simp only [State.connectSocket] at h
    split_ifs at h with hf
    cases h
    exact Or.inl ⟨rfl, fd, rfl, hf, rfl⟩

theorem closeSocket_eq (s : State J) :
    ∃ fd conns, s.closeSocket = { s with m_sockfd := fd, conns := conns } := by
  by_cases hfd : s.m_sockfd ≥ 0
  · exact ⟨_, _, if_pos hfd⟩
  · exact ⟨s.m_sockfd, s.conns, if_neg hfd⟩

theorem connectSocket_eq {s s₁ : State J} {c : Connect} {b : Bool}
    (h : s.connectSocket c = some (b, s₁)) :
    ∃ fd conns, s₁ = { s with m_sockfd := fd, conns := conns } := by
  rcases connectSocket_cases h with ⟨-, fd, -, -, rfl⟩ | ⟨-, rfl | ⟨fd, -, rfl⟩⟩
  · exact ⟨_, _, rfl⟩
  · exact ⟨_, _, rfl⟩
  · obtain ⟨fd', conns, heq⟩ := closeSocket_eq (s.openSocket fd false)
    exact ⟨fd', conns, heq⟩

theorem tryReconnect_cases {s s₁ : State J} {c : Connect} {b : Bool}
    (h : s.tryReconnect o c = some (b, s₁)) :
    (b = true ∧ ∃ fd, c = .connected fd ∧ s.Fresh fd ∧ s₁ = s.openSocket fd true) ∨
    (b = false ∧ ∃ s₂, s.connectSocket c = some (false, s₂) ∧ s₁ = s₂.backOff o) := by
  simp only [State.tryReconnect, Option.bind_eq_some_iff] at h
  obtain ⟨⟨b', s₂⟩, hc, heq⟩ := h
  rcases connectSocket_cases hc with ⟨rfl, hfd⟩ | ⟨rfl, -⟩
  · cases heq
    exact Or.inl ⟨rfl, hfd⟩
  · dsimp only at heq
    split_ifs at heq
    cases heq
    exact Or.inr ⟨rfl, s₂, hc, rfl⟩

theorem sendStep_effect {s s' : State J} {batch : List (Item J)} {packet : List UInt8} {total : ℕ}
    {r : SendResult} (hw : s.worker = .sending batch packet total) (hlt : total < packet.length)
    (h : s.sendStep batch packet total r = some s') : Effect o dump s (.work (.send r)) s' := by
  cases r with
  | accepted n =>
    simp only [State.sendStep] at h
    split_ifs at h with hn
    obtain ⟨hpos, hle, hc⟩ := hn
    exact Option.some.inj h ▸ .accepted hw hpos (by omega) hc
  | eintr =>
    obtain rfl : s = s' := Option.some.inj h
    exact .quiet s.m_mutex s.m_running s.joinable s.stopper (Or.inl rfl) nofun id
      fun h => h.imp_right Or.inl
  | zero | error => exact Option.some.inj h ▸ .sendFailed hw hlt

theorem work_effect {s s' : State J} {r : Reply} (h : s.work o dump r = some s') :
    Effect o dump s (.work r) s' := by
  unfold State.work at h
  split at h
  · rename_i hw
    exact Option.some.inj h ▸ .move s.m_mutex hw rfl nofun (by split <;> rfl)
  · rename_i hw
    exact Option.some.inj h ▸ .move s.m_mutex hw rfl nofun (by split <;> rfl)
  · rename_i hw
    split_ifs at h
    exact Option.some.inj h ▸ .move (some .worker) hw rfl nofun rfl
  · rename_i hw
    exact Option.some.inj h ▸ .move s.m_mutex hw rfl nofun (by split <;> rfl)
  · rename_i hw
    exact Option.some.inj h ▸ .move none hw rfl nofun rfl
  · rename_i hw
    exact Option.some.inj h ▸ .move s.m_mutex hw rfl nofun rfl
  · rename_i hw
    split_ifs at h
    all_goals exact Option.some.inj h ▸ .move (some .worker) hw rfl nofun rfl
  · rename_i hw
    split_ifs at h with hempty hflush
    · exact Option.some.inj h ▸ .move none hw rfl nofun rfl
    · exact Option.some.inj h ▸ .take hw (by simpa using hempty)
    · exact Option.some.inj h ▸ .move none hw rfl nofun rfl
  · rename_i hw
    obtain ⟨⟨b, s₁⟩, hc, heq⟩ := Option.map_eq_some_iff.1 h
    rcases tryReconnect_cases hc with ⟨rfl, fd, rfl, hf, rfl⟩ | ⟨rfl, s₂, hsock, rfl⟩
    · exact heq ▸ .connected hw hf
    · exact heq ▸ .connectFailed hw hsock
  · rename_i hw
    split at h
    · exact Option.some.inj h ▸ .built hw ‹_›
    · exact Option.some.inj h ▸ .raised hw ‹_›
  · rename_i hw
    split_ifs at h with hlt
    exact sendStep_effect hw hlt h
  · rename_i hw
    split_ifs at h with hlt
    exact Option.some.inj h ▸ .sent hw (Nat.le_of_not_lt hlt)
  · rename_i hw
    exact Option.some.inj h ▸ .counted hw
  · rename_i hw
    split_ifs at h with hm
    exact Option.some.inj h ▸ .rolledBack hw hm
  · rename_i hw
    exact Option.some.inj h ▸ .closed hw
  · rename_i hw
    obtain ⟨⟨b, s₁⟩, hc, heq⟩ := Option.map_eq_some_iff.1 h
    rcases tryReconnect_cases hc with ⟨rfl, fd, rfl, hf, rfl⟩ | ⟨rfl, s₂, hsock, rfl⟩
    · exact heq ▸ .reconnected hw hf
    · exact heq ▸ .reconnectFailed hw hsock
  · simp at h

/-- **Every step has one of the effects.** -/
theorem step_effect {s s' : State J} {l : Label J} (h : (lts o dump).step s l s') :
    Effect o dump s l s' := by
  simp only [lts, LTS.ofFun_step, step] at h
  split at h
  · simp at h
  · exact enqueue_effect h
  · exact produce_effect h
  · exact stop_effect h
  · exact work_effect h

/-- `rollback` puts the batch before the queue. -/
@[simp] theorem rollback_m_queue (s : State J) (batch : List (Item J)) (afterSend : Bool) :
    (s.rollback batch afterSend).m_queue = batch ++ s.m_queue := by
  simp [State.rollback]

theorem sent_cases {s s' : State J} {l : Label J} (h : (lts o dump).step s l s') :
    s'.sent = s.sent ∨ ∃ batch packet total, s.worker = .sending batch packet total ∧
      s' = { s with worker := .count batch, sent := s.sent ++ [batch] } := by
  cases step_effect h with
  | @sent batch packet total hw _ => exact Or.inr ⟨batch, packet, total, hw, rfl⟩
  | connectFailed _ hc | reconnectFailed _ hc =>
    obtain ⟨fd, conns, rfl⟩ := connectSocket_eq hc
    exact Or.inl rfl
  | closed | stopped =>
    obtain ⟨fd, conns, heq⟩ := closeSocket_eq s
    rw [heq]
    exact Or.inl rfl
  | _ => exact Or.inl rfl

/-- `stop` closes the socket only after the worker has left its loop. -/
structure Joined (s : State J) : Prop where
  close : s.stopper = .close → s.worker = .exited
  joined : s.joinable = false → s.worker = .exited

theorem joined_init : Joined (init : State J) := ⟨nofun, nofun⟩

theorem Joined.step {s s' : State J} {l : Label J} (hs : Joined s)
    (h : (lts o dump).step s l s') : Joined s' := by
  obtain ⟨hclose, hjoined⟩ := hs
  cases step_effect h with
  | quiet m r jn st hw hl hex hjoin =>
    have hall : st = .close ∨ jn = false → s.worker = .exited := fun h => by
      rcases hjoin h with h | h | h
      · exact hclose h
      · exact hjoined h
      · exact h
    exact ⟨fun h => hex (hall (Or.inl h)), fun h => hex (hall (Or.inr h))⟩
  | popped | countedDrop | pushed => exact ⟨hclose, hjoined⟩
  | take hw | connected hw | built hw | raised hw | accepted hw | sendFailed hw | sent hw
  | counted hw | rolledBack hw | reconnected hw =>
    -- the worker has not left its loop
    exact ⟨fun h => absurd (hw.symm.trans (hclose h)) nofun,
      fun h => absurd (hw.symm.trans (hjoined h)) nofun⟩
  | connectFailed hw hc | reconnectFailed hw hc =>
    obtain ⟨fd, conns, rfl⟩ := connectSocket_eq hc
    exact ⟨fun h => absurd (hw.symm.trans (hclose h)) nofun,
      fun h => absurd (hw.symm.trans (hjoined h)) nofun⟩
  | closed hw =>
    obtain ⟨fd, conns, heq⟩ := closeSocket_eq s
    rw [heq]
    exact ⟨fun h => absurd (hw.symm.trans (hclose h)) nofun,
      fun h => absurd (hw.symm.trans (hjoined h)) nofun⟩
  | stopped hst =>
    obtain ⟨fd, conns, heq⟩ := closeSocket_eq s
    rw [heq]
    exact ⟨nofun, hjoined⟩

theorem joined_reachable {s : State J} (h : (lts o dump).Reachable init s) : Joined s :=
  h.invariant joined_init fun _ hs hst => hs.step hst

end Sender

end LiteMonitor
