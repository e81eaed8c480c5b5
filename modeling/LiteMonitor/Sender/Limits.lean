import LiteMonitor.Sender.Drain

/-!
# The values of the options

The constructor takes every `batchSize` and every `maxQueueSize`.  With `maxQueueSize` 0 the
overflow test of `enqueue` is true for an empty queue, and with `batchSize` 0 the worker takes
batches without an item.

* `popBatch` : the loop of `run` that moves a batch off the queue; `popBatch_eq`.
* `Safe o dump s` : nothing is popped off an empty queue, and a packet has items.
* `safe_iff` : **the sender is safe to run with exactly if both limits are at least 1.**
-/

namespace LiteMonitor

namespace Sender

open LTS

variable {J : Type*}

/-- The loop in `run` that moves `n` items off the queue; `front` and `pop_front` are undefined on
an empty queue. -/
def popBatch {α : Type*} : ℕ → List α → Option (List α × List α)
  | 0, q => some ([], q)
  | _ + 1, [] => none
  | n + 1, x :: q => (popBatch n q).map fun r => (x :: r.1, r.2)

theorem popBatch_eq {α : Type*} {n : ℕ} {q : List α} (h : n ≤ q.length) :
    popBatch n q = some (q.take n, q.drop n) := by
  induction n generalizing q with
  | zero => rfl
  | succ n ih =>
    cases q with
    | nil => exact absurd h (Nat.not_succ_le_zero n)
    | cons x q =>
      rw [popBatch, ih (Nat.le_of_succ_le_succ h)]
      rfl

/-- Nothing is popped off an empty queue, the packet that is sent has items, and with a batch that
is sent there is less to send. -/
structure Safe (o : Options) (dump : J → Except JsonError (List Char)) (s : State J) : Prop where
  /-- An `enqueue` call that gets the lock goes through. -/
  enqueue : ∀ j, s.m_mutex = none → (s.enqueue o j).isSome = true
  produce : ∀ e, s.m_mutex = some (.producer e) → s.produce.isSome = true
  take : s.worker = .ready →
    popBatch (min o.batchSize s.m_queue.length) s.m_queue = some
      (s.m_queue.take (min o.batchSize s.m_queue.length), (s.takeBatch o).m_queue)
  packet : ∀ batch packet total, s.worker = .sending batch packet total → batch ≠ []
  progress : ∀ l s', (lts o dump).step s l s' → s'.sent ≠ s.sent → s'.unsent < s.unsent

variable {o : Options} {dump : J → Except JsonError (List Char)} {s s' : State J}

theorem enqueue_isSome_iff {j : J} (hm : s.m_mutex = none) :
    (s.enqueue o j).isSome = true ↔ (o.maxQueueSize ≤ s.m_queue.length → s.m_queue ≠ []) := by
  unfold State.enqueue
  rw [if_pos hm]
  by_cases hfull : o.maxQueueSize ≤ s.m_queue.length
  · rw [if_pos hfull]
    cases hq : s.m_queue with
    | nil => simpa [hq] using hfull
    | cons x q => simp
  · rw [if_neg hfull]
    simp [hfull]

theorem unsent_lt_of_sent {l : Label J} (hb : Batched s) (h : (lts o dump).step s l s')
    (hne : s'.sent ≠ s.sent) : s'.unsent < s.unsent := by
  obtain heq | ⟨batch, packet, total, hw, rfl⟩ := sent_cases h
  · exact absurd heq hne
  · have hpos := List.length_pos_iff.2 (hb batch (hw ▸ rfl))
    simp only [State.unsent, hw, Pc.inFlight, Option.getD_none, Option.getD_some, List.length_nil]
    omega

theorem safe_of_limits (hbatch : 1 ≤ o.batchSize) (hmax : 1 ≤ o.maxQueueSize)
    (hs : (lts o dump).Reachable init s) : Safe o dump s := by
  have hb := batched_reachable hbatch hs
  refine ⟨?_, ?_, ?_, ?_, ?_⟩
  · intro j hm
    refine (enqueue_isSome_iff hm).2 fun hfull => ?_
    rintro hempty
    rw [hempty, List.length_nil] at hfull
    omega
  · intro e hm
    obtain ⟨s', h, -⟩ := exists_produce (locked_reachable hs) hm
    rw [h]
    rfl
  · exact fun _ => popBatch_eq (Nat.min_le_right _ _)
  · intro batch packet total hw
    exact hb batch (hw ▸ rfl)
  · exact fun l s' hst hne => unsent_lt_of_sent hb hst hne

/-- The worker stands at `worker` with one item in the queue. -/
def oneQueued (j : J) (m : Option (Holder J)) (worker : Pc J) : State J :=
  { (init : State J).pushBack j with m_mutex := m, worker := worker }

theorem oneQueued_reachable (hmax : 1 ≤ o.maxQueueSize) (j : J) :
    (lts o dump).Reachable init (oneQueued j (some .worker) .ready) := by
  have hroom : ¬ o.maxQueueSize ≤ 0 := by omega
  have henqueue : (lts o dump).step init (.enqueue j)
      { init with m_mutex := some (.producer (.push false j)) } := by
    simp [lts, step, init, State.enqueue, hroom]
  have hpush : (lts o dump).step { init with m_mutex := some (.producer (.push false j)) } .produce
    (oneQueued j (some (.producer .notify)) .test) := rfl
  have hunlock : (lts o dump).step (oneQueued j (some (.producer .notify)) .test) .produce
    (oneQueued j none .test) := rfl
  have henter : (lts o dump).step (oneQueued j none .test) (.work .go) (oneQueued j none .lock) :=
    rfl
  have hlock : (lts o dump).step (oneQueued j none .lock) (.work .go)
    (oneQueued j (some .worker) .pred) := rfl
  have hpass : (lts o dump).step (oneQueued j (some .worker) .pred) (.work .go)
    (oneQueued j (some .worker) .ready) := rfl
  exact (((((Reachable.start.next henqueue).next hpush).next hunlock).next henter).next hlock).next
    hpass

theorem sends_nothing (hbatch : o.batchSize = 0) (hmax : 1 ≤ o.maxQueueSize) (j : J) :
    ∃ s packet, (lts o dump).Reachable init s ∧ s.worker = .sending [] packet 0 := by
  have hready : (lts o dump).Reachable init (oneQueued j (some .worker) .ready) :=
    oneQueued_reachable hmax j
  generalize hs : oneQueued j (some .worker) .ready = s at hready
  have htake : (lts o dump).step s (.work (.time true)) (s.takeBatch o) := by
    simp [← hs, lts, step, State.work, oneQueued, State.pushBack]
  have hconnect : (s.takeBatch o).worker = .connect [] := by
    simp [← hs, State.takeBatch, hbatch, oneQueued, State.pushBack, init]
  have hopen : (lts o dump).step (s.takeBatch o) (.work (.connect (.connected 3)))
      { (s.takeBatch o).openSocket 3 true with worker := .build [] } := by
    have hfresh : (s.takeBatch o).Fresh 3 := by
      simp [← hs, State.Fresh, State.takeBatch, oneQueued, State.pushBack, init]
    simp [lts, step, hconnect, State.work, State.tryReconnect, State.connectSocket, hfresh]
  obtain ⟨packet, hpacket⟩ : ∃ packet, buildPacket dump [] = .ok packet := ⟨_, rfl⟩
  have hbuild : (lts o dump).step { (s.takeBatch o).openSocket 3 true with worker := .build [] }
      (.work .go) { (s.takeBatch o).openSocket 3 true with worker := .sending [] packet 0 } := by
    simp [lts, step, State.work, hpacket]
  exact ⟨_, packet, ((hready.next htake).next hopen).next hbuild, rfl⟩

/-- **Which options are safe to run with**: in every reachable state `enqueue` and `run` pop items
off non-empty queues only, every packet has at least one item, and every batch that is sent leaves
less to send, if and only if `batchSize` and `maxQueueSize` are at least 1. -/
theorem safe_iff (j₀ : J) : (∀ s, (lts o dump).Reachable init s → Safe o dump s) ↔
    1 ≤ o.batchSize ∧ 1 ≤ o.maxQueueSize := by
  constructor
  · intro hsafe
    have hmax : 1 ≤ o.maxQueueSize := by
      by_contra hmax
      have hpop := (enqueue_isSome_iff rfl).1 ((hsafe init .start).enqueue j₀ rfl)
      exact hpop (by omega) rfl
    refine ⟨?_, hmax⟩
    by_contra hbatch
    have hzero : o.batchSize = 0 := by omega
    obtain ⟨s, packet, hs, hw⟩ : ∃ s packet, (lts o dump).Reachable init s ∧
      s.worker = .sending [] packet 0 := sends_nothing hzero hmax j₀
    exact (hsafe s hs).packet [] packet 0 hw rfl
  · intro h s hs
    exact safe_of_limits h.1 h.2 hs

/-- With `maxQueueSize` 0 the first `enqueue` call pops off the empty queue. -/
theorem not_safe : ¬ ∀ (o : Options) (s : State Bool), (lts o dumpBool).Reachable init s →
    Safe o dumpBool s := by
  intro hclaim
  have hpop := (hclaim { maxQueueSize := 0 } init .start).enqueue true rfl
  exact absurd hpop (by decide)

end Sender

end LiteMonitor
