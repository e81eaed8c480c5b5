import LiteMonitor.Sender.Accounting
import LiteMonitor.Sender.Waiting

/-!
# What `stop` leaves behind

`stop` clears `m_running`, wakes the worker and joins it; the worker leaves its loop when it finds
the queue empty, for which it does not take the lock.  `enqueue` does not look at `m_running`, and
an item that it pushes after the worker's last look at the queue stays there.

* `exit_empty` : the worker leaves its loop when the queue is empty; `exited_cases` : from then on
  only `enqueue` changes the queue.
* `pushes x` : the `push_back` of an `enqueue` call.
* `AllCounted` : the items of the `enqueue` calls that have returned are all counted.
* `allCounted_iff` : **`stop` returns with all of them counted exactly if no `enqueue` call has
  pushed after the worker left its loop**, as far as items are not popped again, and none has popped
  an item that it has not counted.
-/

namespace LiteMonitor

namespace Sender

open LTS

variable {J : Type*} {o : Options} {dump : J → Except JsonError (List Char)} {s s' : State J}
  {l : Label J}

theorem Pc.notified_eq_exited {p : Pc J} : p.notified = .exited ↔ p = .exited := by
  cases p <;> simp [Pc.notified]

theorem Moves.exit_empty (h : Moves o s l s') (hs : s.worker ≠ .exited)
    (hs' : s'.worker = .exited) : s.m_queue = [] := by
  cases h with
  | waits h =>
    cases h with
    | exit hw hq => exact hq
    | @relock timedOut hw hm => cases timedOut <;> cases hs'
    | _ => cases hs'
  | eintr | full | fits => exact absurd hs' hs
  | notifyOne => exact absurd (Pc.notified_eq_exited.1 hs') hs
  | stops h =>
    cases h with
    | clear | join | joined => exact absurd hs' hs
    | notify => exact absurd (Pc.notified_eq_exited.1 hs') hs
    | close =>
      obtain ⟨fd, conns, heq⟩ := closeSocket_eq s
      rw [heq] at hs'
      exact absurd hs' hs

theorem exit_empty (h : (lts o dump).step s l s') (hs : s.worker ≠ .exited)
    (hs' : s'.worker = .exited) : s'.m_queue = [] := by
  cases step_effect h with
  | quiet m r jn st hw => exact (quiet_moves h hw rfl).exit_empty hs hs'
  | popped | countedDrop | pushed => exact absurd hs' hs
  | take hw hq =>
    unfold State.takeBatch at hs'
    split_ifs at hs'
  | connected | built | raised | sendFailed | reconnected | accepted | sent | counted
  | connectFailed | reconnectFailed | closed => cases hs'
  | @rolledBack batch afterSend hw => cases afterSend <;> cases hs'
  | stopped hst =>
    obtain ⟨fd, conns, heq⟩ := closeSocket_eq s
    rw [heq] at hs'
    exact absurd hs' hs

/-- The step is the `push_back` of an `enqueue` call. -/
def pushes (x : State J × Label J) : Bool := produces Enqueuing.atPush x

theorem pushes_of_producer {e : Enqueuing J} (hm : s.m_mutex = some (.producer e)) :
    pushes (s, .produce) = e.atPush :=
  produces_of_producer _ hm

theorem Moves.not_pushes (h : Moves o s l s') : pushes (s, l) = false := by
  cases h with
  | notifyOne hm => exact pushes_of_producer hm
  | _ => rfl

/-- What an `enqueue` call does to the queue. -/
inductive Edits (s : State J) : State J → Prop
  | popped {j : J} {x : Item J} {q : List (Item J)} (hm : s.m_mutex = some (.producer (.pop j)))
      (hq : s.m_queue = x :: q) : Edits s (s.popped x q j)
  | pushed {j : J} {p : Bool} (hm : s.m_mutex = some (.producer (.push p j))) :
      Edits s (s.pushBack j)

theorem exited_step (h : (lts o dump).step s l s') (hs : s.worker = .exited) :
    s'.worker = .exited := by
  cases step_effect h with
  | quiet m r jn st hw _ hex => exact hex hs
  | popped | countedDrop | pushed => exact hs
  | stopped hst =>
    obtain ⟨fd, conns, heq⟩ := closeSocket_eq s
    rw [heq]
    exact hs
  | take hw | connected hw | connectFailed hw | built hw | raised hw | accepted hw | sendFailed hw
  | sent hw | counted hw | rolledBack hw | closed hw | reconnected hw | reconnectFailed hw =>
    exact absurd (hw.symm.trans hs) nofun

theorem exited_cases (hl : Locked o s) (h : (lts o dump).step s l s') (hs : s.worker = .exited) :
    l = .produce ∧ Edits s s' ∨
      s'.m_queue = s.m_queue ∧ pushes (s, l) = false ∧
        enqueuing Enqueuing.hasPopped s'.m_mutex = enqueuing Enqueuing.hasPopped s.m_mutex := by
  cases step_effect h with
  | quiet m r jn st hw =>
    have hmoves := quiet_moves h hw rfl
    exact Or.inr ⟨rfl, hmoves.not_pushes,
      hmoves.enqueuing_eq hl (fun _ => rfl) (fun _ => rfl) rfl⟩
  | popped hm hq => exact Or.inl ⟨rfl, .popped hm hq⟩
  | countedDrop hm =>
    exact Or.inr ⟨rfl, pushes_of_producer hm, (enqueuing_of_producer Enqueuing.hasPopped hm).symm⟩
  | pushed hm => exact Or.inl ⟨rfl, .pushed hm⟩
  | stopped hst =>
    obtain ⟨fd, conns, heq⟩ := closeSocket_eq s
    rw [heq]
    exact Or.inr ⟨rfl, rfl, rfl⟩
  | take hw | connected hw | connectFailed hw | built hw | raised hw | accepted hw | sendFailed hw
  | sent hw | counted hw | rolledBack hw | closed hw | reconnected hw | reconnectFailed hw =>
    exact absurd (hw.symm.trans hs) nofun

/-- What the queue says about the steps taken. -/
structure Left (o : Options) (tr : List (State J × Label J)) (s : State J) : Prop where
  before : s.worker ≠ .exited → ∀ x ∈ tr, x.1.worker ≠ .exited
  size : s.worker = .exited → s.toLedger.size ≤ max 1 o.maxQueueSize
  empty : s.worker = .exited → (∀ x ∈ tr, x.1.worker = .exited → pushes x = false) → s.m_queue = []
  /-- An item that was pushed is in the queue, or was popped for another one. -/
  pushed : s.worker = .exited → (∃ x ∈ tr, x.1.worker = .exited ∧ pushes x = true) →
    s.m_queue ≠ [] ∨ enqueuing Enqueuing.hasPopped s.m_mutex = true ∧ o.maxQueueSize ≤ 1

theorem Left.of_empty {tr : List (State J × Label J)} (hq : s.m_queue = [])
    (htr : ∀ x ∈ tr, x.1.worker ≠ .exited) : Left o tr s := by
  refine ⟨fun _ => htr, fun _ => ?_, fun _ _ => hq, ?_⟩
  · have hroom := Bool.toNat_le (enqueuing Enqueuing.hasPopped s.m_mutex)
    simp only [Ledger.size, State.toLedger, hq, List.length_nil, Nat.zero_add]
    exact hroom.trans (le_max_left _ _)
  · rintro - ⟨x, hx, hex, -⟩
    exact absurd hex (htr x hx)

theorem Left.edits {tr : List (State J × Label J)} (ht : Left o tr s) (hl : Locked o s)
    (hs : s.worker = .exited) (h : Edits s s') : Left o (tr ++ [(s, .produce)]) s' := by
  cases h with
  | @popped j x q hm hq =>
    -- the item was pushed behind the loop
    obtain ⟨hcap, -⟩ : o.maxQueueSize ≤ s.m_queue.length ∧ s.m_queue ≠ [] := hl.producer _ hm
    have hroom : s.toLedger.room = false := enqueuing_of_producer _ hm
    have hsize := ht.size hs
    rw [Ledger.size_of_no_room hroom] at hsize
    have hlen : s.toLedger.queued.length = q.length + 1 := congrArg List.length hq
    refine ⟨fun hne => absurd hs hne, fun _ => ?_, fun _ hno => ?_, fun _ _ => ?_⟩
    · have hroom' : (s.popped x q j).toLedger.room = true := rfl
      rw [Ledger.size_of_room hroom']
      exact hlen ▸ hsize
    · rw [List.forall_mem_append] at hno
      have hempty := ht.empty hs hno.1
      rw [hq] at hempty
      simp at hempty
    · cases q with
      | nil =>
        rw [hq, List.length_singleton] at hcap
        exact Or.inr ⟨rfl, hcap⟩
      | cons y q => exact Or.inl (List.cons_ne_nil y q)
  | @pushed j p hm =>
    have hne : (s.pushBack j).m_queue ≠ [] := by simp [State.pushBack]
    refine ⟨fun hne => absurd hs hne, fun _ => ?_, fun _ hno => ?_, fun _ _ => Or.inl hne⟩
    · have hroom' : (s.pushBack j).toLedger.room = false := rfl
      have hlen : (s.pushBack j).toLedger.queued.length = s.m_queue.length + 1 :=
        List.length_append
      rw [Ledger.size_of_no_room hroom', hlen]
      rcases hl.producer _ hm with rfl | hfits
      · have hroom : s.toLedger.room = true := enqueuing_of_producer _ hm
        have hsize := ht.size hs
        rwa [Ledger.size_of_room hroom] at hsize
      · exact le_max_of_le_right hfits
    · rw [List.forall_mem_append, List.forall_mem_singleton] at hno
      have hpush := hno.2 hs
      rw [pushes_of_producer hm] at hpush
      simp [Enqueuing.atPush] at hpush

theorem Left.step {tr : List (State J × Label J)} (ht : Left o tr s) (hl : Locked o s)
    (h : (lts o dump).step s l s') : Left o (tr ++ [(s, l)]) s' := by
  by_cases hs : s.worker = .exited
  · have hs' := exited_step h hs
    obtain ⟨rfl, hedits⟩ | ⟨hq, hpush, hroom⟩ := exited_cases hl h hs
    · exact ht.edits hl hs hedits
    · refine ⟨fun hne => absurd hs' hne, fun _ => ?_, fun _ hno => ?_, fun _ hsome => ?_⟩
      · have hsize := ht.size hs
        simp only [Ledger.size, State.toLedger, hq, hroom] at hsize ⊢
        exact hsize
      · rw [List.forall_mem_append] at hno
        exact hq.trans (ht.empty hs hno.1)
      · rw [hq, hroom]
        obtain ⟨x, hx, hex, hpush'⟩ := hsome
        rcases List.mem_append.1 hx with hx | hx
        · exact ht.pushed hs ⟨x, hx, hex, hpush'⟩
        · rw [List.mem_singleton.1 hx, hpush] at hpush'
          simp at hpush'
  · have hall : ∀ x ∈ tr ++ [(s, l)], x.1.worker ≠ .exited := by
      rw [List.forall_mem_append, List.forall_mem_singleton]
      exact ⟨ht.before hs, hs⟩
    by_cases hs' : s'.worker = .exited
    · exact .of_empty (exit_empty h hs hs') hall
    · exact ⟨fun _ => hall, fun h => absurd h hs', fun h => absurd h hs', fun h => absurd h hs'⟩

theorem left_run {tr : List (State J × Label J)} (h : (lts o dump).Run init tr s) :
    Left o tr s := by
  refine h.invariant (I := Left o) (.of_empty rfl (List.forall_mem_nil _)) ?_
  intro tr s l s' hrun ht hst
  exact ht.step (locked_reachable hrun.reachable) hst

/-- The `enqueue` calls that have returned: all that have pushed but the one that has the lock. -/
def returned (s : State J) : ℕ :=
  s.enqueued.length - (enqueuing Enqueuing.atNotify s.m_mutex).toNat

/-- No item is left in the queue, and each one whose `enqueue` has returned is counted. -/
def AllCounted (s : State J) : Prop :=
  s.m_queue = [] ∧ UInt64.ofNat (returned s) = s.m_stats.totalSent + s.m_stats.totalDropped

/-- With an empty queue no `enqueue` call has pushed and not returned. -/
theorem Locked.returned_eq (hl : Locked o s) (hq : s.m_queue = []) :
    returned s = s.enqueued.length := by
  have hno : enqueuing Enqueuing.atNotify s.m_mutex = false := by
    unfold enqueuing
    split
    · rename_i e he
      have hfits := hl.producer e he
      cases e with
      | notify => exact absurd hq hfits
      | _ => rfl
    · rfl
  rw [returned, hno, Bool.toNat_false, Nat.sub_zero]

/-- Behind the loop the items that are not counted are those in the queue, and the one that was
popped but not yet counted. -/
theorem allCounted_of_exited (h : (lts o dump).Reachable init s) (hex : s.worker = .exited) :
    AllCounted s ↔ s.m_queue = [] ∧ enqueuing Enqueuing.atCount s.m_mutex = false := by
  refine and_congr_right fun hq => ?_
  have hbal := Ledger.balanced_reachable (toLedger_reachable h)
  obtain ⟨⟨n, hn, hsum⟩, m, hm, hsum'⟩ := counted_reachable h
  have hlen : s.enqueued.length = s.sent.flatten.length + s.dropped.length +
    (s.worker.inFlight.getD []).length + s.m_queue.length := hbal.length_eq
  have hret : returned s = n + m + s.uncountedDrops := by
    rw [(locked_reachable h).returned_eq hq]
    rw [hex] at hlen hsum
    simp only [Pc.inFlight, Option.getD_none, Pc.uncounted, List.length_nil, Nat.add_zero, hq]
      at hlen hsum
    omega
  rw [hret, UInt64.ofNat_add, UInt64.ofNat_add, hn, hm, State.uncountedDrops]
  cases enqueuing Enqueuing.atCount s.m_mutex <;> simp

/-- With `maxQueueSize` at most 1 there is nothing in the queue before a `push_back` behind the
loop. -/
theorem Left.empty_of_atPush {tr : List (State J × Label J)} (ht : Left o tr s) (hl : Locked o s)
    (hs : s.worker = .exited) (hcap : o.maxQueueSize ≤ 1)
    (hpush : enqueuing Enqueuing.atPush s.m_mutex = true) : s.m_queue = [] := by
  obtain ⟨p, j, hm⟩ : ∃ p j, s.m_mutex = some (.producer (.push p j)) := by
    unfold enqueuing at hpush
    split at hpush
    · rename_i e he
      cases e with
      | push p j => exact ⟨p, j, he⟩
      | _ => simp [Enqueuing.atPush] at hpush
    · simp at hpush
  rw [← List.length_eq_zero_iff]
  rcases hl.producer _ hm with rfl | hfits
  · have hroom : s.toLedger.room = true := enqueuing_of_producer _ hm
    have hsize := ht.size hs
    rw [Ledger.size_of_room hroom, max_eq_left hcap] at hsize
    exact Nat.le_zero.1 (Nat.le_of_succ_le_succ hsize)
  · omega

theorem atPush_of_hasPopped {m : Option (Holder J)}
    (hpopped : enqueuing Enqueuing.hasPopped m = true)
    (hcount : enqueuing Enqueuing.atCount m = false) : enqueuing Enqueuing.atPush m = true := by
  unfold enqueuing at *
  split at hpopped
  · rename_i e
    cases e with
    | push => rfl
    | count => simp [Enqueuing.atCount] at hcount
    | _ => simp [Enqueuing.hasPopped] at hpopped
  · simp at hpopped

theorem returns_step (h : (lts o dump).Reachable init s) (hst : s.stopper = .close) :
    (lts o dump).step s .stop { s.closeSocket with stopper := .idle } := by
  have hex := (joined_reachable h).close hst
  simp only [lts, ofFun_step, step, hex, State.stop, hst]

/-- **`stop` returns with every item counted exactly if no `enqueue` call has pushed after the
worker had left its loop, and none stands between `pop_front` and `totalDropped++`.**  In that case
the queue is empty, and the `enqueue` calls that have returned are as many as the items sent and the
items dropped.  (With `maxQueueSize` at most 1 an item that was pushed does no harm if the next
`enqueue` call has popped it and not pushed its own.) -/
theorem allCounted_iff {tr : List (State J × Label J)} (hrun : (lts o dump).Run init tr s)
    (hst : s.stopper = .close) (h : (lts o dump).step s .stop s') :
    AllCounted s' ↔ ((∀ x ∈ tr, x.1.worker = .exited → pushes x = false) ∨
        o.maxQueueSize ≤ 1 ∧ enqueuing Enqueuing.atPush s.m_mutex = true) ∧
      enqueuing Enqueuing.atCount s.m_mutex = false := by
  have hreach := hrun.reachable
  have hl := locked_reachable hreach
  have hex := (joined_reachable hreach).close hst
  have hleft := left_run hrun
  have hs' := exited_step h hex
  obtain rfl : s' = { s.closeSocket with stopper := .idle } :=
    Option.some.inj (h.symm.trans (returns_step hreach hst))
  rw [allCounted_of_exited (hreach.next h) hs']
  obtain ⟨fd, conns, heq⟩ := closeSocket_eq s
  rw [heq]
  refine and_congr_left fun hcount => ⟨fun hq => ?_, ?_⟩
  · by_cases hno : ∀ x ∈ tr, x.1.worker = .exited → pushes x = false
    · exact Or.inl hno
    · push Not at hno
      simp only [Bool.not_eq_false] at hno
      obtain ⟨hpopped, hcap⟩ := (hleft.pushed hex hno).resolve_left fun hne => hne hq
      exact Or.inr ⟨hcap, atPush_of_hasPopped hpopped hcount⟩
  · rintro (hno | ⟨hcap, hpush⟩)
    · exact hleft.empty hex hno
    · exact hleft.empty_of_atPush hl hex hcap hpush

/-- One item, a `stop`, and the worker sends the item before it leaves its loop. -/
def sendAndStop : List (Label Bool) :=
  [.enqueue true, .produce, .produce, .stop, .stop, .work .go, .work .go, .work .go, .work .go,
    .work (.time false), .work (.connect (.connected 3)), .work .go,
    .work (.send (.accepted 34)), .work .go, .work .go, .work .go, .work .go, .stop]

/-- The run of `sendAndStop`, and the end of `stop`. -/
theorem allCounted_iff_send : ∃ s s' : State Bool, s.sent = [[⟨0, true⟩]] ∧
    (lts {} dumpBool).step s .stop s' ∧ AllCounted s' := by
  obtain ⟨tr, s, hrun, hst, hsent, hno, hcount⟩ := Run.exists_of_trace (step {} dumpBool) init
    sendAndStop
    (fun tr s => s.stopper = .close ∧ s.sent = [[⟨0, true⟩]] ∧
      (∀ x ∈ tr, x.1.worker = .exited → pushes x = false) ∧
      enqueuing Enqueuing.atCount s.m_mutex = false) (by decide)
  have h : (lts {} dumpBool).step s .stop _ := returns_step hrun.reachable hst
  exact ⟨s, _, hsent, h, (allCounted_iff hrun hst h).2 ⟨Or.inl hno, hcount⟩⟩

/-- An `enqueue` call takes the lock, the worker finds the queue empty and leaves its loop, and then
the item is pushed. -/
def stopAndEnqueue : List (Label Bool) :=
  [.stop, .work .go, .enqueue true, .work .go, .produce, .produce, .stop, .stop]

/-- The item of a late `enqueue` call is left in the queue. -/
theorem not_allCounted : ¬ ∀ s s' : State Bool, (lts {} dumpBool).Reachable init s →
    s.stopper = .close → (lts {} dumpBool).step s .stop s' → AllCounted s' := by
  intro hclaim
  obtain ⟨s, hs, hst, hq⟩ := Run.exists_reachable (step {} dumpBool) init stopAndEnqueue
    (fun s => s.stopper = .close ∧ s.m_queue ≠ []) (by decide)
  obtain ⟨hempty, -⟩ := hclaim s _ hs hst (returns_step hs hst)
  obtain ⟨fd, conns, heq⟩ := closeSocket_eq s
  rw [heq] at hempty
  exact hq hempty

end Sender

end LiteMonitor
