import LiteMonitor.Sender.Steps

/-!
# The steps without a batch

`Effect.quiet` stands for every step that leaves the queue, the counters and the sockets alone.
Here these steps are told apart: the worker on its way from the loop condition through the wait,
the beginning and the end of `enqueue`, and `stop`.

* `Waits s r s'`, `Stops s s'`, `Moves s l s'` : the steps.
* `quiet_moves` : a quiet step is one of them.
* `Locked` : who holds `m_mutex`, and what follows from it.
* `enqueuing p m` : where the caller of `enqueue` that has the lock stands.
-/

namespace LiteMonitor

namespace Sender

variable {J : Type*}

/-- A step of the worker on its way to a batch or out of the loop. -/
inductive Waits (o : Options) (s : State J) : Reply → State J → Prop
  | enter (hw : s.worker = .test) (hr : s.m_running = true) :
      Waits o s .go { s with worker := .lock }
  | stopping (hw : s.worker = .test) (hr : s.m_running = false) :
      Waits o s .go { s with worker := .testQueue }
  | drain (hw : s.worker = .testQueue) (hq : s.m_queue ≠ []) :
      Waits o s .go { s with worker := .lock }
  | exit (hw : s.worker = .testQueue) (hq : s.m_queue = []) :
      Waits o s .go { s with worker := .exited }
  | lock (hw : s.worker = .lock) (hm : s.m_mutex = none) :
      Waits o s .go { s with m_mutex := some .worker, worker := .pred }
  | pass (hw : s.worker = .pred) (h : s.m_queue ≠ [] ∨ s.m_running = false) :
      Waits o s .go { s with worker := .ready }
  | fail (hw : s.worker = .pred) (hq : s.m_queue = []) (hr : s.m_running = true) :
      Waits o s .go { s with worker := .block }
  | block (hw : s.worker = .block) :
      Waits o s .go { s with m_mutex := none, worker := .blocked }
  | wake (hw : s.worker = .blocked) (timedOut : Bool) :
      Waits o s (.wake timedOut) { s with worker := .woken timedOut }
  | relock {timedOut : Bool} (hw : s.worker = .woken timedOut) (hm : s.m_mutex = none) :
      Waits o s .go
        { s with m_mutex := some .worker, worker := if timedOut then .ready else .pred }
  | back {t : Bool} (hw : s.worker = .ready)
      (h : s.m_queue = [] ∨ s.m_queue.length < o.batchSize ∧ s.m_running = true) :
      Waits o s (.time t) { s with m_mutex := none, worker := .test }

/-- A step of `stop`. -/
inductive Stops (s : State J) : State J → Prop
  | clear (hst : s.stopper = .idle) : Stops s { s with m_running := false, stopper := .notify }
  | notify (hst : s.stopper = .notify) :
      Stops s { s with worker := s.worker.notified, stopper := .join }
  | join (hst : s.stopper = .join) (hex : s.worker = .exited) :
      Stops s { s with joinable := false, stopper := .close }
  | joined (hst : s.stopper = .join) (hj : s.joinable = false) :
      Stops s { s with stopper := .close }
  | close (hst : s.stopper = .close) : Stops s { s.closeSocket with stopper := .idle }

/-- The steps that leave the queue, the counters and the batch in flight alone. -/
inductive Moves (o : Options) (s : State J) : Label J → State J → Prop
  | waits {r : Reply} {s' : State J} (h : Waits o s r s') : Moves o s (.work r) s'
  /-- `sendAll` tries again. -/
  | eintr : Moves o s (.work (.send .eintr)) s
  | full {j : J} (hm : s.m_mutex = none) (hfull : o.maxQueueSize ≤ s.m_queue.length)
      (hq : s.m_queue ≠ []) :
      Moves o s (.enqueue j) { s with m_mutex := some (.producer (.pop j)) }
  | fits {j : J} (hm : s.m_mutex = none) (hfits : s.m_queue.length < o.maxQueueSize) :
      Moves o s (.enqueue j) { s with m_mutex := some (.producer (.push false j)) }
  | notifyOne (hm : s.m_mutex = some (.producer .notify)) : Moves o s .produce s.notifyOne
  | stops {s' : State J} (h : Stops s s') : Moves o s .stop s'

variable {o : Options} {dump : J → Except JsonError (List Char)} {s s' : State J}

theorem stops_of_stop (h : s.stop = some s') : Stops s s' := by
  unfold State.stop at h
  split at h
  · rename_i hst
    exact Option.some.inj h ▸ .clear hst
  · rename_i hst
    exact Option.some.inj h ▸ .notify hst
  · rename_i hst
    split_ifs at h with hj
    · split at h
      · rename_i hex
        exact Option.some.inj h ▸ .join hst hex
      · simp at h
    · exact Option.some.inj h ▸ .joined hst (by simpa using hj)
  · rename_i hst
    exact Option.some.inj h ▸ .close hst

/-- A step that neither takes nor holds a batch is one on the way to it. -/
theorem waits_of_work {r : Reply} (h : s.work o dump r = some s') (hi : s.worker.idle = true)
    (hi' : s'.worker.idle = true) : Waits o s r s' := by
  unfold State.work at h
  split at h
  · rename_i hw
    split_ifs at h with hr
    · exact Option.some.inj h ▸ .enter hw hr
    · exact Option.some.inj h ▸ .stopping hw (by simpa using hr)
  · rename_i hw
    split_ifs at h with hq
    · exact Option.some.inj h ▸ .exit hw (List.isEmpty_iff.1 hq)
    · exact Option.some.inj h ▸ .drain hw (by simpa using hq)
  · rename_i hw
    split_ifs at h with hm
    exact Option.some.inj h ▸ .lock hw hm
  · rename_i hw
    split_ifs at h with hp
    · exact Option.some.inj h ▸ .pass hw (by simpa using hp)
    · have hp' : s.m_queue = [] ∧ s.m_running = true := by simpa using hp
      exact Option.some.inj h ▸ .fail hw hp'.1 hp'.2
  · rename_i hw
    exact Option.some.inj h ▸ .block hw
  · rename_i hw
    exact Option.some.inj h ▸ .wake hw _
  · rename_i hw
    split_ifs at h with hm ht
    · subst ht
      exact Option.some.inj h ▸ .relock hw hm
    · rw [Bool.not_eq_true] at ht
      subst ht
      exact Option.some.inj h ▸ .relock hw hm
  · rename_i hw
    split_ifs at h with hempty hflush
    · exact Option.some.inj h ▸ .back hw (Or.inl (List.isEmpty_iff.1 hempty))
    · obtain rfl := Option.some.inj h
      unfold State.takeBatch at hi'
      split_ifs at hi' <;> cases hi'
    · simp only [ge_iff_le, Bool.or_eq_true, decide_eq_true_eq, Bool.not_eq_true', not_or,
        Nat.not_le, Bool.not_eq_false] at hflush
      exact Option.some.inj h ▸ .back hw (Or.inr ⟨hflush.1.1, hflush.2⟩)
  all_goals
    rename_i hw
    first
    | rw [hw] at hi; cases hi
    | cases h

/-- During a batch only a repeated `send` leaves the worker where it is. -/
theorem eintr_of_work {r : Reply} (h : s.work o dump r = some s') (hi : s.worker.idle = false)
    (hw : s'.worker = s.worker) : r = .send .eintr ∧ s' = s := by
  unfold State.work at h
  split at h
  case h_9 batch c hs =>
    obtain ⟨⟨b, s₁⟩, -, rfl⟩ := Option.map_eq_some_iff.1 h
    rw [hs] at hw
    cases b <;> cases hw
  case h_10 batch hs =>
    rw [hs] at hw
    split at h
    all_goals
      obtain rfl := Option.some.inj h
      simp at hw
  case h_11 batch packet total r hs =>
    split_ifs at h
    cases r with
    | accepted n =>
      simp only [State.sendStep] at h
      split_ifs at h with hn
      obtain rfl := Option.some.inj h
      rw [hs] at hw
      have htotal : total + n = total := (Pc.sending.inj hw).2.2
      omega
    | eintr => exact ⟨rfl, (Option.some.inj h).symm⟩
    | zero | error =>
      obtain rfl := Option.some.inj h
      rw [hs] at hw
      simp at hw
  case h_12 batch packet total hs =>
    split_ifs at h
    obtain rfl := Option.some.inj h
    rw [hs] at hw
    simp at hw
  case h_14 batch afterSend hs =>
    split_ifs at h
    obtain rfl := Option.some.inj h
    rw [hs] at hw
    cases afterSend <;> cases hw
  case h_13 hs | h_15 hs =>
    obtain rfl := Option.some.inj h
    rw [hs] at hw
    simp at hw
  case h_16 c hs =>
    obtain ⟨⟨b, s₁⟩, -, rfl⟩ := Option.map_eq_some_iff.1 h
    rw [hs] at hw
    simp at hw
  case h_17 => cases h
  -- the positions before a batch
  all_goals
    rename_i hs
    rw [hs] at hi
    cases hi

theorem moves_of_enqueue {j : J} (h : s.enqueue o j = some s') : Moves o s (.enqueue j) s' := by
  unfold State.enqueue at h
  split_ifs at h with hm hfull hempty
  · exact Option.some.inj h ▸ .full hm hfull (by simpa using hempty)
  · exact Option.some.inj h ▸ .fits hm (Nat.lt_of_not_le hfull)

/-- What a caller of `enqueue` with the lock leaves behind. -/
def State.traces (s : State J) : List (Item J) × List (Item J) × Stats :=
  (s.enqueued, s.dropped, s.m_stats)

/-- Only the last step of `enqueue` leaves nothing behind. -/
theorem moves_of_produce (h : s.produce = some s') (hq : s'.traces = s.traces) :
    Moves o s .produce s' := by
  unfold State.produce at h
  split at h
  · unfold State.popFront at h
    split at h
    · simp at h
    · obtain rfl := Option.some.inj h
      simp [State.traces, State.popped] at hq
  · obtain rfl := Option.some.inj h
    have hcount : s.m_stats.totalDropped + 1 = s.m_stats.totalDropped :=
      congrArg (fun x => x.2.2.totalDropped) hq
    simp at hcount
  · obtain rfl := Option.some.inj h
    simp [State.traces, State.pushBack] at hq
  · rename_i hm
    exact Option.some.inj h ▸ .notifyOne hm
  · simp at h

theorem work_of_step {r : Reply} (h : (lts o dump).step s (.work r) s') :
    s.work o dump r = some s' := by
  simp only [lts, LTS.ofFun_step, step] at h
  split at h
  case h_1 => cases h
  case h_5 heq _ =>
    cases heq
    exact h
  all_goals
    rename_i heq _
    simp at heq

/-- **A quiet step is one of the moves.** -/
theorem quiet_moves {l : Label J} (h : (lts o dump).step s l s')
    (hw : s'.worker = s.worker ∨ s.worker.idle = true ∧ s'.worker.idle = true)
    (hq : s'.traces = s.traces) : Moves o s l s' := by
  simp only [lts, LTS.ofFun_step, step] at h
  split at h
  · simp at h
  · exact moves_of_enqueue h
  · exact moves_of_produce h hq
  · exact .stops (stops_of_stop h)
  · cases hi : s.worker.idle with
    | true =>
      have hi' : s'.worker.idle = true := hw.elim (fun h => h ▸ hi) And.right
      exact .waits (waits_of_work h hi hi')
    | false =>
      have hstay : s'.worker = s.worker := hw.resolve_right fun h => by simp [hi] at h
      obtain ⟨rfl, rfl⟩ := eintr_of_work h hi hstay
      exact .eintr

/-! ### The lock -/

/-- The worker holds `m_mutex`. -/
def Pc.locked : Pc J → Bool
  | .pred | .block | .ready => true
  | _ => false

theorem Pc.locked_notified (p : Pc J) : p.notified.locked = p.locked := by
  cases p <;> rfl

/-- What the size of the queue was found to be, and what became of it. -/
def Enqueuing.Fits (cap : ℕ) (q : List (Item J)) : Enqueuing J → Prop
  | .pop _ => cap ≤ q.length ∧ q ≠ []
  | .count _ => True
  | .push popped _ => popped = true ∨ q.length < cap
  | .notify => q ≠ []

/-- Who holds `m_mutex`. -/
structure Locked (o : Options) (s : State J) : Prop where
  worker : s.m_mutex = some .worker ↔ s.worker.locked = true
  producer : ∀ e, s.m_mutex = some (.producer e) → e.Fits o.maxQueueSize s.m_queue

theorem locked_init : Locked o (init : State J) :=
  ⟨iff_of_false nofun Bool.false_ne_true, nofun⟩

theorem Locked.not_worker (hs : Locked o s) (hm : s.m_mutex ≠ some .worker) :
    s.worker.locked = false := by
  rwa [← Bool.not_eq_true, ← hs.worker]

theorem Locked.of_enqueuing {e : Enqueuing J} (hs : Locked o s)
    (hm : s.m_mutex = some (.producer e)) : s.worker.locked = false :=
  hs.not_worker (by simp [hm])

theorem Locked.of_free (hm : s.m_mutex = none) (hw : s.worker.locked = false) : Locked o s := by
  refine ⟨iff_of_false ?_ ?_, ?_⟩
  · rw [hm]
    exact nofun
  · simp [hw]
  · rw [hm]
    exact nofun

theorem Locked.of_producer {e : Enqueuing J} (hm : s.m_mutex = some (.producer e))
    (hw : s.worker.locked = false) (he : e.Fits o.maxQueueSize s.m_queue) : Locked o s := by
  refine ⟨iff_of_false ?_ ?_, ?_⟩
  · rw [hm]
    exact nofun
  · simp [hw]
  · intro e' he'
    rw [hm] at he'
    cases he'
    exact he

theorem Locked.of_worker (hs : Locked o s) (hw : s.worker.locked = false)
    (hw' : s'.worker.locked = false) (hm : s'.m_mutex = s.m_mutex)
    (hq : s'.m_queue = s.m_queue) : Locked o s' := by
  refine ⟨iff_of_false ?_ (by simp [hw']), fun e he => ?_⟩
  · rw [hm, hs.worker, hw]
    exact Bool.false_ne_true
  · rw [hq]
    exact hs.producer e (hm ▸ he)

theorem Locked.waits {r : Reply} (hs : Locked o s) (h : Waits o s r s') : Locked o s' := by
  cases h with
  | enter hw | stopping hw | drain hw | exit hw | wake hw =>
    exact hs.of_worker (hw ▸ rfl) rfl rfl rfl
  | lock hw hm => exact ⟨iff_of_true rfl rfl, nofun⟩
  | pass hw | fail hw => exact ⟨iff_of_true (hs.worker.2 (hw ▸ rfl)) rfl, hs.producer⟩
  | block hw | back hw => exact .of_free rfl rfl
  | @relock timedOut hw hm =>
    refine ⟨iff_of_true rfl ?_, nofun⟩
    cases timedOut <;> rfl

theorem Locked.moves {l : Label J} (hs : Locked o s) (h : Moves o s l s') : Locked o s' := by
  cases h with
  | waits h => exact hs.waits h
  | eintr => exact hs
  | full hm hfull hq => exact .of_producer rfl (hs.not_worker (by simp [hm])) ⟨hfull, hq⟩
  | fits hm hfits => exact .of_producer rfl (hs.not_worker (by simp [hm])) (Or.inr hfits)
  | notifyOne hm => exact .of_free rfl ((Pc.locked_notified _).trans (hs.of_enqueuing hm))
  | stops h =>
    cases h with
    | clear | join | joined => exact ⟨hs.worker, hs.producer⟩
    | notify => exact ⟨hs.worker.trans (by rw [Pc.locked_notified]), hs.producer⟩
    | close =>
      obtain ⟨fd, conns, heq⟩ := closeSocket_eq s
      rw [heq]
      exact ⟨hs.worker, hs.producer⟩

theorem Locked.step {l : Label J} (hs : Locked o s) (h : (lts o dump).step s l s') :
    Locked o s' := by
  cases step_effect h with
  | quiet m r jn st hw => exact hs.moves (quiet_moves h hw rfl)
  | popped hm => exact .of_producer rfl (hs.of_enqueuing hm) trivial
  | countedDrop hm => exact .of_producer rfl (hs.of_enqueuing hm) (Or.inl rfl)
  | pushed hm =>
    exact .of_producer rfl (hs.of_enqueuing hm) (by simp [Enqueuing.Fits, State.pushBack])
  | take hw hq =>
    refine .of_free rfl ?_
    unfold State.takeBatch
    split_ifs <;> rfl
  | connected hw hf | built hw hb | raised hw hb | sendFailed hw hlt | reconnected hw hf
  | accepted hw hn hle hc | sent hw hle | counted hw =>
    exact hs.of_worker (hw ▸ rfl) rfl rfl rfl
  | connectFailed hw hc | reconnectFailed hw hc =>
    obtain ⟨fd, conns, rfl⟩ := connectSocket_eq hc
    exact hs.of_worker (hw ▸ rfl) rfl rfl rfl
  | @rolledBack batch afterSend hw hm =>
    refine .of_free hm ?_
    cases afterSend <;> rfl
  | closed hw =>
    obtain ⟨fd, conns, heq⟩ := closeSocket_eq s
    rw [heq]
    exact hs.of_worker (hw ▸ rfl) rfl rfl rfl
  | stopped hst =>
    obtain ⟨fd, conns, heq⟩ := closeSocket_eq s
    rw [heq]
    exact ⟨hs.worker, hs.producer⟩

theorem locked_reachable (h : (lts o dump).Reachable init s) : Locked o s :=
  h.invariant locked_init fun _ hs hst => hs.step hst

/-! ### Inside of `enqueue` -/

namespace Enqueuing

/-- The caller has popped an item, and its own is not in the queue yet. -/
def hasPopped : Enqueuing J → Bool
  | .count _ => true
  | .push popped _ => popped
  | _ => false

/-- The caller is between `pop_front` and `totalDropped++`. -/
def atCount : Enqueuing J → Bool
  | .count _ => true
  | _ => false

/-- The caller is about to push. -/
def atPush : Enqueuing J → Bool
  | .push _ _ => true
  | _ => false

/-- The caller is about to change the queue. -/
def atQueue : Enqueuing J → Bool
  | .pop _ | .push _ _ => true
  | _ => false

/-- The caller has pushed and not returned. -/
def atNotify : Enqueuing J → Bool
  | .notify => true
  | _ => false

end Enqueuing

/-- A caller of `enqueue` has the lock and stands where `p` holds. -/
def enqueuing (p : Enqueuing J → Bool) : Option (Holder J) → Bool
  | some (.producer e) => p e
  | _ => false

theorem enqueuing_of_producer {e : Enqueuing J} (p : Enqueuing J → Bool)
    (hm : s.m_mutex = some (.producer e)) : enqueuing p s.m_mutex = p e := by
  rw [hm, enqueuing]

theorem enqueuing_of_free (p : Enqueuing J → Bool) (hm : s.m_mutex = none) :
    enqueuing p s.m_mutex = false := by
  rw [hm, enqueuing]
  exact nofun

/-- The step is one of a caller of `enqueue` that stands where `p` holds. -/
def produces (p : Enqueuing J → Bool) (x : State J × Label J) : Bool :=
  match x.2 with
  | .produce => enqueuing p x.1.m_mutex
  | _ => false

theorem produces_of_producer {e : Enqueuing J} (p : Enqueuing J → Bool)
    (hm : s.m_mutex = some (.producer e)) : produces p (s, .produce) = p e :=
  enqueuing_of_producer p hm

theorem Locked.enqueuing_of_worker (hs : Locked o s) (hw : s.worker.locked = true)
    (p : Enqueuing J → Bool) : enqueuing p s.m_mutex = false := by
  rw [hs.worker.2 hw, enqueuing]
  exact nofun

theorem Moves.enqueuing_eq {l : Label J} {p : Enqueuing J → Bool} (h : Moves o s l s')
    (hs : Locked o s) (hpop : ∀ j, p (.pop j) = false) (hpush : ∀ j, p (.push false j) = false)
    (hnotify : p .notify = false) : enqueuing p s'.m_mutex = enqueuing p s.m_mutex := by
  cases h with
  | waits h =>
    cases h with
    | lock hw hm | relock hw hm => exact (enqueuing_of_free p hm).symm
    | block hw | back hw => exact (hs.enqueuing_of_worker (hw ▸ rfl) p).symm
    | _ => rfl
  | eintr => rfl
  | full hm => exact (hpop _).trans (enqueuing_of_free p hm).symm
  | fits hm => exact (hpush _).trans (enqueuing_of_free p hm).symm
  | notifyOne hm => exact ((enqueuing_of_producer p hm).trans hnotify).symm
  | stops h =>
    cases h with
    | close =>
      obtain ⟨fd, conns, heq⟩ := closeSocket_eq s
      rw [heq]
    | _ => rfl

end Sender

end LiteMonitor
