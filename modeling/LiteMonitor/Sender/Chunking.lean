import LiteMonitor.Queue.Chunks
import LiteMonitor.Sender.Drain

/-!
# What the shutdown drain sends

When nothing more is enqueued, the worker takes the queue in batches of `batchSize` items.  A batch
that is not sent goes back to the front, and the next one taken is the same.

* `edits x` : an `enqueue` call changes the queue.
* `State.toRetry` : the queue, the batch in flight and the batches sent; `step_toRetry`.
* `Pc.Draining q p` : where the worker can stand once `m_running` is false.
* `sends_chunks` : **failures do not change what the drain sends.**
-/

namespace LiteMonitor

namespace Sender

open LTS Chunks

variable {J : Type*} {o : Options} {dump : J → Except JsonError (List Char)} {s s' s₀ : State J}
  {l : Label J} {tr : List (State J × Label J)}

/-! ### Batches -/

/-- The queue, the batch in flight, and the batches sent. -/
def State.toRetry (s : State J) : Retry (Item J) := ⟨s.m_queue, s.worker.inFlight, s.sent⟩

/-- The step is the `pop_front` or the `push_back` of an `enqueue` call. -/
def edits (x : State J × Label J) : Bool := produces Enqueuing.atQueue x

theorem edits_of_producer {e : Enqueuing J} (hm : s.m_mutex = some (.producer e)) :
    edits (s, .produce) = e.atQueue :=
  produces_of_producer _ hm

/-- A step without `enqueue` takes, sends or puts back a batch, or changes nothing of this. -/
theorem step_toRetry (h : (lts o dump).step s l s') (hl : edits (s, l) = false) :
    s'.toRetry = s.toRetry ∨ Retry.Step o.batchSize s.toRetry s'.toRetry := by
  cases step_effect h with
  | quiet m r jn st hw =>
    refine Or.inl ?_
    rcases hw with rfl | ⟨hi, hi'⟩
    · rfl
    · simp only [State.toRetry, Pc.inFlight_of_idle hi, Pc.inFlight_of_idle hi']
  | popped hm | pushed hm =>
    rw [edits_of_producer hm] at hl
    simp [Enqueuing.atQueue] at hl
  | countedDrop hm => exact Or.inl rfl
  | take hw hq =>
    have hheld : s.toRetry.held = none := by simp only [State.toRetry, hw, Pc.inFlight]
    have htaken : (s.takeBatch o).toRetry =
        ⟨s.m_queue.drop o.batchSize, some (s.m_queue.take o.batchSize), s.sent⟩ := by
      rw [State.toRetry, inFlight_takeBatch, ← List.take_eq_take_min]
      refine congrArg (Retry.mk · _ _) ?_
      exact (List.drop_eq_drop_min ..).symm
    rw [htaken]
    exact Or.inr (.take hheld hq)
  | connected hw | built hw | raised hw | accepted hw | sendFailed hw | counted hw
  | reconnected hw =>
    exact Or.inl (by simp [State.toRetry, hw, Pc.inFlight, State.openSocket, State.write])
  | connectFailed hw hc | reconnectFailed hw hc =>
    obtain ⟨fd, conns, rfl⟩ := connectSocket_eq hc
    exact Or.inl (by simp [State.toRetry, State.backOff, hw, Pc.inFlight])
  | @sent batch packet total hw hle =>
    have hheld : s.toRetry.held = some batch := by simp only [State.toRetry, hw, Pc.inFlight]
    exact Or.inr (.settle hheld)
  | @rolledBack batch afterSend hw =>
    have hheld : s.toRetry.held = some batch := by simp only [State.toRetry, hw, Pc.inFlight]
    have hfree : (s.rollback batch afterSend).toRetry = ⟨batch ++ s.m_queue, none, s.sent⟩ := by
      cases afterSend <;> simp [State.toRetry, State.rollback, Pc.inFlight]
    rw [hfree]
    exact Or.inr (.restore hheld)
  | closed hw =>
    obtain ⟨fd, conns, heq⟩ := closeSocket_eq s
    exact Or.inl (by simp [State.toRetry, heq, hw, Pc.inFlight])
  | stopped hst =>
    obtain ⟨fd, conns, heq⟩ := closeSocket_eq s
    exact Or.inl (by simp [State.toRetry, heq])

theorem at_run (hb : 1 ≤ o.batchSize) (hw : s₀.worker = .test) (h : (lts o dump).Run s₀ tr s)
    (hl : ∀ x ∈ tr, edits x = false) :
    ∃ k, Retry.At o.batchSize s₀.m_queue s₀.sent k s.toRetry := by
  induction h with
  | nil =>
    have hstart : s₀.toRetry = ⟨s₀.m_queue, none, s₀.sent⟩ := by
      simp only [State.toRetry, hw, Pc.inFlight]
    exact ⟨0, hstart ▸ Retry.at_start ..⟩
  | snoc _ hst ih =>
    rw [List.forall_mem_append, List.forall_mem_singleton] at hl
    obtain ⟨k, hk⟩ := ih hl.1
    rcases step_toRetry hst hl.2 with heq | hstep
    · exact ⟨k, heq ▸ hk⟩
    · rcases hk.step hb hstep with hk' | hk'
      · exact ⟨k, hk'⟩
      · exact ⟨k + 1, hk'⟩

/-! ### The way out -/

namespace Pc

/-- Where the worker can stand once `m_running` is false, with the queue `q`. -/
def Draining (q : List (Item J)) : Pc J → Prop
  | .test | .testQueue | .count _ => True
  | .lock | .pred | .ready | .closing | .reconnect => q ≠ []
  | .block | .blocked | .woken _ => False
  | .connect b | .build b | .sending b _ _ | .rollback b _ | .terminated b => b ≠ []
  | .exited => q = []

theorem Draining.notified {p : Pc J} {q : List (Item J)} (h : p.Draining q) : p.notified = p := by
  cases p with
  | blocked => exact h.elim
  | _ => rfl

/-- The last batch is sent, and the worker is on its way out of the loop. -/
def leaving : Pc J → Bool
  | .count _ | .test | .testQueue | .exited => true
  | _ => false

end Pc

/-- `m_running` is false, and the worker drains the queue. -/
structure Draining (s : State J) : Prop where
  running : s.m_running = false
  worker : s.worker.Draining s.m_queue

theorem Waits.draining {r : Reply} (h : Waits o s r s') (hs : Draining s) :
    s'.worker.Draining s'.m_queue := by
  obtain ⟨hr, hd⟩ := hs
  cases h with
  | enter hw hr' | fail hw hq hr' => cases hr.symm.trans hr'
  | stopping | back => exact trivial
  | drain hw hq | exit hw hq => exact hq
  | lock hw | pass hw =>
    rw [hw] at hd
    exact hd
  | block hw | wake hw | relock hw =>
    rw [hw] at hd
    exact hd.elim

theorem Moves.draining (h : Moves o s l s') (hs : Draining s) :
    s'.worker.Draining s'.m_queue := by
  have hnotified : s.worker.notified.Draining s.m_queue := hs.worker.notified.symm ▸ hs.worker
  cases h with
  | waits h => exact h.draining hs
  | eintr | full | fits => exact hs.worker
  | notifyOne => exact hnotified
  | stops h =>
    cases h with
    | clear | join | joined => exact hs.worker
    | notify => exact hnotified
    | close =>
      obtain ⟨fd, conns, heq⟩ := closeSocket_eq s
      rw [heq]
      exact hs.worker

theorem Draining.step (hb : 1 ≤ o.batchSize) (hs : Draining s) (h : (lts o dump).step s l s')
    (hl : edits (s, l) = false) : Draining s' := by
  refine ⟨running_step h hs.running, ?_⟩
  have hd := hs.worker
  cases step_effect h with
  | quiet m r jn st hw => exact (quiet_moves h hw rfl).draining hs
  | popped hm | pushed hm =>
    rw [edits_of_producer hm] at hl
    simp [Enqueuing.atQueue] at hl
  | countedDrop hm => exact hd
  | take hw hq =>
    have hne : s.m_queue.take (min o.batchSize s.m_queue.length) ≠ [] := by
      have hpos := List.length_pos_iff.2 hq
      rw [← List.length_pos_iff, List.length_take]
      omega
    unfold State.takeBatch
    split_ifs <;> exact hne
  | connected hw | built hw | raised hw | accepted hw | sendFailed hw | connectFailed hw =>
    rw [hw] at hd
    exact hd
  | sent | counted | reconnected | reconnectFailed => exact trivial
  | @rolledBack batch afterSend hw =>
    rw [hw] at hd
    have hne : (s.rollback batch afterSend).m_queue ≠ [] := by
      rw [rollback_m_queue]
      exact fun h => hd (List.append_eq_nil_iff.1 h).1
    cases afterSend with
    | true => exact hne
    | false => exact trivial
  | closed hw =>
    rw [hw] at hd
    obtain ⟨fd, conns, heq⟩ := closeSocket_eq s
    rw [heq]
    exact hd
  | stopped =>
    obtain ⟨fd, conns, heq⟩ := closeSocket_eq s
    rw [heq]
    exact hd

theorem draining_run (hb : 1 ≤ o.batchSize) (hs : Draining s₀) (h : (lts o dump).Run s₀ tr s)
    (hl : ∀ x ∈ tr, edits x = false) : Draining s := by
  induction h with
  | nil => exact hs
  | snoc _ hst ih =>
    rw [List.forall_mem_append, List.forall_mem_singleton] at hl
    exact (ih hl.1).step hb hst hl.2

theorem Draining.leaving (hs : Draining s) (hheld : s.worker.inFlight = none)
    (hq : s.m_queue = []) : s.worker.leaving = true := by
  have hd := hs.worker
  cases hw : s.worker <;> rw [hw] at hd hheld <;>
    first | rfl | exact hd.elim | exact absurd hq hd | cases hheld

/-- The worker leaves its loop by its own steps, without the network. -/
def Exits (o : Options) (dump : J → Except JsonError (List Char)) (s : State J) : Prop :=
  ∃ tr s', (lts o dump).Run s tr s' ∧ (∀ x ∈ tr, x.2 = .work .go) ∧ s'.worker = .exited

theorem Exits.of_step (h : (lts o dump).step s (.work .go) s') (hs : Exits o dump s') :
    Exits o dump s := by
  obtain ⟨tr, s'', hrun, hgo, hex⟩ := hs
  have hone : (lts o dump).Run s [(s, .work .go)] s' := Run.nil.snoc h
  exact ⟨_, s'', hone.trans hrun,
    List.forall_mem_append.2 ⟨List.forall_mem_singleton.2 rfl, hgo⟩, hex⟩

theorem exits_of_leaving (hr : s.m_running = false) (hq : s.m_queue = [])
    (hw : s.worker.leaving = true) : Exits o dump s := by
  have hexited : ∀ s : State J, s.worker = .exited → Exits o dump s := fun s hw =>
    ⟨[], s, .nil, List.forall_mem_nil _, hw⟩
  have htestQueue : ∀ s : State J, s.m_queue = [] → s.worker = .testQueue → Exits o dump s := by
    intro s hq hw
    have hst : (lts o dump).step s (.work .go) { s with worker := .exited } := by
      simp [lts, step, State.work, hw, hq]
    exact .of_step hst (hexited _ rfl)
  have htest : ∀ s : State J, s.m_running = false → s.m_queue = [] → s.worker = .test →
      Exits o dump s := by
    intro s hr hq hw
    have hst : (lts o dump).step s (.work .go) { s with worker := .testQueue } := by
      simp [lts, step, State.work, hw, hr]
    exact .of_step hst (htestQueue _ hq rfl)
  cases hpc : s.worker with
  | exited => exact hexited s hpc
  | testQueue => exact htestQueue s hq hpc
  | test => exact htest s hr hq hpc
  | count batch =>
    refine .of_step ?_ (htest { s with
      m_stats.totalSent := s.m_stats.totalSent + UInt64.ofNat batch.length
      m_currentBackoff := 500
      worker := .test } hr hq rfl)
    simp [lts, step, State.work, hpc]
  | _ =>
    rw [hpc] at hw
    cases hw

/-- What the drain has done after `k` batches were sent; `s₀` is the state in which it begins. -/
structure Drained (o : Options) (dump : J → Except JsonError (List Char)) (s₀ s : State J)
    (k : ℕ) : Prop where
  le : k ≤ s₀.m_queue.length ⌈/⌉ o.batchSize
  sends : s.sent.length = s₀.sent.length + k
  sent_eq : s.sent = s₀.sent ++ (chunks o.batchSize s₀.m_queue).take k
  queue_eq : s.worker = .test →
    s.m_queue = s₀.m_queue.drop (min s₀.m_queue.length (k * o.batchSize))
  /-- The loop is left after the last batch only, and all items are counted then, -/
  exited : s.worker = .exited → k = s₀.m_queue.length ⌈/⌉ o.batchSize ∧
    s.m_stats.totalSent = s₀.m_stats.totalSent + UInt64.ofNat s₀.m_queue.length
  /-- and after the last batch the worker only leaves the loop. -/
  leaves : k = s₀.m_queue.length ⌈/⌉ o.batchSize → s.worker.leaving = true ∧ Exits o dump s

theorem totalSent_eq (hs₀ : (lts o dump).Reachable init s₀) (hs : (lts o dump).Reachable init s)
    (hw₀ : s₀.worker.uncounted = []) (hw : s.worker.uncounted = []) {b : List (List (Item J))}
    (hsent : s.sent = s₀.sent ++ b) :
    s.m_stats.totalSent = s₀.m_stats.totalSent + UInt64.ofNat b.flatten.length := by
  obtain ⟨⟨n, hn, hsum⟩, -⟩ := counted_reachable hs
  obtain ⟨⟨n₀, hn₀, hsum₀⟩, -⟩ := counted_reachable hs₀
  rw [hw, List.length_nil, Nat.add_zero, hsent, List.flatten_append, List.length_append] at hsum
  rw [hw₀, List.length_nil, Nat.add_zero] at hsum₀
  rw [hn, hn₀, hsum, hsum₀, UInt64.ofNat_add]

/-- **Failures do not change what the drain sends.**  From a loop head with `m_running` false and as
long as no `enqueue` call changes the queue, whatever the outcomes of `connect` and `send`: the
batches sent are the first pieces of the queue in order; at every loop head the queue is what is
behind them; and the loop is left exactly when the last piece is sent, with `totalSent` increased by
the length of the queue. -/
theorem sends_chunks (hb : 1 ≤ o.batchSize) (hs₀ : (lts o dump).Reachable init s₀)
    (hw₀ : s₀.worker = .test) (hr : s₀.m_running = false) (h : (lts o dump).Run s₀ tr s)
    (hl : ∀ x ∈ tr, edits x = false) : ∃ k, Drained o dump s₀ s k := by
  obtain ⟨k, hk⟩ := at_run hb hw₀ h hl
  have hdraining : Draining s := by
    refine draining_run hb ⟨hr, ?_⟩ h hl
    rw [hw₀]
    exact trivial
  have hsent : s.sent = s₀.sent ++ (chunks o.batchSize s₀.m_queue).take k := hk.done_eq
  have hlast := hk.eq_length_iff hb
  refine ⟨k, hk.le, ?_, hsent, ?_, ?_, ?_⟩
  · rw [hsent, List.length_append, List.length_take, length_chunks, Nat.min_eq_left hk.le]
  · intro hw
    have hheld : s.toRetry.held = none := by simp only [State.toRetry, hw, Pc.inFlight]
    have hqueue : s.m_queue = s₀.m_queue.drop (k * o.batchSize) := hk.queue_eq hheld
    rw [hqueue, Nat.min_comm]
    exact List.drop_eq_drop_min ..
  · intro hw
    have hd := hdraining.worker
    rw [hw] at hd
    have hend : k = s₀.m_queue.length ⌈/⌉ o.batchSize :=
      hlast.2 ⟨by simp only [State.toRetry, hw, Pc.inFlight], hd⟩
    have htotal :=
      totalSent_eq hs₀ (hs₀.trans h.reachable) (by rw [hw₀]; rfl) (by rw [hw]; rfl) hsent
    have hall : (chunks o.batchSize s₀.m_queue).take k = chunks o.batchSize s₀.m_queue :=
      List.take_of_length_le (by rw [length_chunks, hend])
    rw [hall, flatten_chunks hb] at htotal
    exact ⟨hend, htotal⟩
  · intro hend
    obtain ⟨hheld, hq⟩ := hlast.1 hend
    have hleaving := hdraining.leaving hheld hq
    exact ⟨hleaving, exits_of_leaving hdraining.running hq hleaving⟩

/-- Three items are queued when `stop` clears `m_running`. -/
def threeQueued : State Bool := { (init : State Bool) with
  m_queue := [⟨0, true⟩, ⟨1, true⟩, ⟨2, true⟩]
  m_running := false
  stopper := .notify
  enqueued := [⟨0, true⟩, ⟨1, true⟩, ⟨2, true⟩]
  enqueuedSinceTake := 3 }

theorem threeQueued_reachable : (lts { batchSize := 2 } dumpBool).Reachable init threeQueued := by
  obtain ⟨s, hs, rfl⟩ := Run.exists_reachable (step { batchSize := 2 } dumpBool) init
    [.enqueue true, .produce, .produce, .enqueue true, .produce, .produce, .enqueue true, .produce,
      .produce, .stop]
    (· = threeQueued) (by decide)
  exact hs

/-- The first connection fails, and then a batch is sent. -/
theorem sends_chunks_retry : ∃ s k, s.worker = .test ∧ s.m_queue = [⟨2, true⟩] ∧
    s.sent = [[⟨0, true⟩, ⟨1, true⟩]] ∧
    Drained { batchSize := 2 } dumpBool threeQueued s k := by
  obtain ⟨tr, s, hrun, hw, hq, hsent, hl⟩ := Run.exists_of_trace
    (step { batchSize := 2 } dumpBool) threeQueued
    [.work .go, .work .go, .work .go, .work .go, .work (.time false),
      .work (.connect .socketFails), .work .go, .work .go, .work .go, .work .go, .work .go,
      .work (.time false), .work (.connect (.connected 3)), .work .go,
      .work (.send (.accepted 39)), .work .go, .work .go]
    (fun tr s => s.worker = .test ∧ s.m_queue = [⟨2, true⟩] ∧
      s.sent = [[⟨0, true⟩, ⟨1, true⟩]] ∧ ∀ x ∈ tr, edits x = false) (by decide)
  obtain ⟨k, hk⟩ := sends_chunks (by decide) threeQueued_reachable rfl rfl hrun hl
  exact ⟨s, k, hw, hq, hsent, hk⟩

end Sender

end LiteMonitor
