import LiteMonitor.Queue.Ledger
import LiteMonitor.Sender.Waiting
import Mathlib.Data.List.Nodup

/-!
# What becomes of the items

The sender is a ledger: `enqueue` sheds the oldest item on overflow and enters its own, the worker
takes batches, and settles or restores them.

* `State.toLedger` : the ledger of a state; `step_toLedger` : a step is an operation of the
  ledger, or leaves it alone.
* `Numbered` : the items are numbered in the order of the `enqueue` calls.
* `Counted` : the counters count the histories.
* `accounts` : **nothing is lost, duplicated or reordered except by counted drops.**
-/

namespace LiteMonitor

namespace Sender

open LTS

variable {J : Type*} {o : Options} {dump : J → Except JsonError (List Char)}

/-- The ledger of the items. -/
def State.toLedger (s : State J) : Ledger (Item J) where
  entered := s.enqueued
  settled := s.sent.flatten
  held := s.worker.inFlight
  queued := s.m_queue
  shed := s.dropped
  room := enqueuing Enqueuing.hasPopped s.m_mutex
  queuedAtTake := s.queuedAtTake
  enteredSinceTake := s.enqueuedSinceTake
  shedSinceTake := s.droppedSinceTake

/-- The worker is about to put a failed batch back. -/
def Pc.atRollback : Pc J → Bool
  | .rollback _ _ => true
  | _ => false

/-- The step puts a failed batch back into the queue. -/
def RollsBack (s : State J) (l : Label J) : Prop :=
  s.worker.atRollback = true ∧ l = .work .go

theorem not_rollsBack {s : State J} {l : Label J} {p : Pc J} (hw : s.worker = p)
    (hp : p.atRollback = false) : ¬ RollsBack s l := by
  rintro ⟨h, -⟩
  rw [hw, hp] at h
  simp at h

theorem Pc.atRollback_of_idle {p : Pc J} (h : p.idle = true) : p.atRollback = false := by
  cases p <;> first | rfl | cases h

/-- The operation of the ledger that a step amounts to. -/
structure LedgerStep (o : Options) (s : State J) (l : Label J) (s' : State J)
    (op : Option (Ledger.Op (Item J))) : Prop where
  stutter : (Ledger.lts o.maxQueueSize).stutter s.toLedger op s'.toLedger
  restore : op = some .restore ↔ RollsBack s l
  enter : ∀ x, op = some (.enter x) → x.seq = s.enqueued.length
  take : ∀ n, op = some (.take n) → s.m_queue ≠ [] ∧ n = min o.batchSize s.m_queue.length

section LedgerStep

variable {s s' : State J} {l : Label J}

theorem LedgerStep.of_shed (h : Ledger.Step o.maxQueueSize s.toLedger .shed s'.toLedger)
    (hno : ¬ RollsBack s l) : LedgerStep o s l s' (some .shed) :=
  ⟨h, iff_of_false (by rintro ⟨⟩) hno, by rintro _ ⟨⟩, by rintro _ ⟨⟩⟩

theorem toLedger_of_eq (heq : s'.toLedger = s.toLedger) (hno : ¬ RollsBack s l) :
    ∃ op, LedgerStep o s l s' op :=
  ⟨none, heq, iff_of_false (by rintro ⟨⟩) hno, by rintro _ ⟨⟩, by rintro _ ⟨⟩⟩

theorem LedgerStep.of_enter {x : Item J}
    (h : Ledger.Step o.maxQueueSize s.toLedger (.enter x) s'.toLedger)
    (hx : x.seq = s.enqueued.length) (hno : ¬ RollsBack s l) :
    LedgerStep o s l s' (some (.enter x)) := by
  refine ⟨h, iff_of_false (by rintro ⟨⟩) hno, ?_, by rintro _ ⟨⟩⟩
  rintro _ ⟨⟩
  exact hx

theorem LedgerStep.of_take
    (h : Ledger.Step o.maxQueueSize s.toLedger (.take (min o.batchSize s.m_queue.length))
      s'.toLedger)
    (hq : s.m_queue ≠ []) (hno : ¬ RollsBack s l) :
    LedgerStep o s l s' (some (.take (min o.batchSize s.m_queue.length))) := by
  refine ⟨h, iff_of_false (by rintro ⟨⟩) hno, by rintro _ ⟨⟩, ?_⟩
  rintro _ ⟨⟩
  exact ⟨hq, rfl⟩

theorem LedgerStep.of_settle (h : Ledger.Step o.maxQueueSize s.toLedger .settle s'.toLedger)
    (hno : ¬ RollsBack s l) : LedgerStep o s l s' (some .settle) :=
  ⟨h, iff_of_false (by rintro ⟨⟩) hno, by rintro _ ⟨⟩, by rintro _ ⟨⟩⟩

theorem LedgerStep.of_restore (h : Ledger.Step o.maxQueueSize s.toLedger .restore s'.toLedger)
    (hb : RollsBack s l) : LedgerStep o s l s' (some .restore) :=
  ⟨h, iff_of_true rfl hb, by rintro _ ⟨⟩, by rintro _ ⟨⟩⟩

end LedgerStep

/-- **A step is an operation of the ledger**, or leaves the ledger alone. -/
theorem step_toLedger {s s' : State J} {l : Label J} (hlock : Locked o s)
    (h : (lts o dump).step s l s') : ∃ op, LedgerStep o s l s' op := by
  cases step_effect h with
  | quiet m r jn st hw hl =>
    have hroom := (quiet_moves h hw rfl).enqueuing_eq (p := Enqueuing.hasPopped) hlock
      (fun _ => rfl) (fun _ => rfl) rfl
    refine toLedger_of_eq ?_ ?_
    · rw [State.toLedger, hroom]
      rcases hw with rfl | ⟨hi, hi'⟩
      · rfl
      · simp only [State.toLedger, Pc.inFlight_of_idle hi, Pc.inFlight_of_idle hi']
    · rintro ⟨hb, hgo⟩
      rw [Pc.atRollback_of_idle (hl hgo)] at hb
      simp at hb
  | popped hm hq =>
    have hroom : s.toLedger.room = false := enqueuing_of_producer _ hm
    exact ⟨_, .of_shed (.shed (hlock.producer _ hm).1 hq hroom) (by rintro ⟨-, ⟨⟩⟩)⟩
  | countedDrop hm =>
    have hroom : enqueuing Enqueuing.hasPopped s.m_mutex = true := enqueuing_of_producer _ hm
    refine toLedger_of_eq ?_ (by rintro ⟨-, ⟨⟩⟩)
    rw [State.toLedger, State.toLedger, hroom]
    rfl
  | pushed hm =>
    have hroom : s.toLedger.room = true ∨ s.m_queue.length < o.maxQueueSize :=
      (hlock.producer _ hm).imp_left (enqueuing_of_producer _ hm).trans
    exact ⟨_, .of_enter (.enter _ hroom) rfl (by rintro ⟨-, ⟨⟩⟩)⟩
  | take hw hq =>
    have hheld : s.toLedger.held = none := by simp only [State.toLedger, hw, Pc.inFlight]
    have htaken : (s.takeBatch o).worker.inFlight =
        some (s.m_queue.take (min o.batchSize s.m_queue.length)) := by
      unfold State.takeBatch
      split_ifs <;> rfl
    have hroom : enqueuing Enqueuing.hasPopped s.m_mutex = false :=
      hlock.enqueuing_of_worker (hw ▸ rfl) _
    have hstep : Ledger.Step o.maxQueueSize s.toLedger _ _ :=
      .take (min o.batchSize s.m_queue.length) hheld hroom
    refine ⟨_, .of_take ?_ hq (not_rollsBack hw rfl)⟩
    simp only [State.toLedger, htaken, hroom] at hstep ⊢
    exact hstep
  | connected hw hf =>
    exact toLedger_of_eq (by simp [State.toLedger, State.openSocket, hw, Pc.inFlight])
      (not_rollsBack hw rfl)
  | connectFailed hw hc =>
    obtain ⟨fd, conns, rfl⟩ := connectSocket_eq hc
    exact toLedger_of_eq (by simp [State.toLedger, State.backOff, hw, Pc.inFlight])
      (not_rollsBack hw rfl)
  | built hw hb =>
    exact toLedger_of_eq (by simp [State.toLedger, hw, Pc.inFlight]) (not_rollsBack hw rfl)
  | raised hw hb =>
    exact toLedger_of_eq (by simp [State.toLedger, hw, Pc.inFlight]) (not_rollsBack hw rfl)
  | accepted hw hn hle hc =>
    exact toLedger_of_eq (by simp [State.toLedger, State.write, hw, Pc.inFlight])
      (not_rollsBack hw rfl)
  | sendFailed hw hlt =>
    exact toLedger_of_eq (by simp [State.toLedger, hw, Pc.inFlight]) (not_rollsBack hw rfl)
  | @sent batch packet total hw hle =>
    have hheld : s.toLedger.held = some batch := by simp only [State.toLedger, hw, Pc.inFlight]
    refine ⟨_, .of_settle ?_ (not_rollsBack hw rfl)⟩
    simp only [State.toLedger, List.flatten_append, List.flatten_singleton]
    exact .settle hheld
  | counted hw =>
    exact toLedger_of_eq (by simp [State.toLedger, hw, Pc.inFlight]) (not_rollsBack hw rfl)
  | @rolledBack batch afterSend hw hm =>
    have hheld : s.toLedger.held = some batch := by simp only [State.toLedger, hw, Pc.inFlight]
    have hrolls : s.worker.atRollback = true := hw ▸ rfl
    refine ⟨_, .of_restore ?_ ⟨hrolls, rfl⟩⟩
    have hfree : (s.rollback batch afterSend).worker.inFlight = none := by
      cases afterSend <;> rfl
    simp only [State.toLedger, hfree, rollback_m_queue]
    exact .restore hheld (enqueuing_of_free _ hm)
  | closed hw =>
    obtain ⟨fd, conns, hclose⟩ := closeSocket_eq s
    exact toLedger_of_eq (by simp [State.toLedger, hclose, hw, Pc.inFlight])
      (not_rollsBack hw rfl)
  | reconnected hw hf =>
    exact toLedger_of_eq (by simp [State.toLedger, State.openSocket, hw, Pc.inFlight])
      (not_rollsBack hw rfl)
  | reconnectFailed hw hc =>
    obtain ⟨fd, conns, rfl⟩ := connectSocket_eq hc
    exact toLedger_of_eq (by simp [State.toLedger, State.backOff, hw, Pc.inFlight])
      (not_rollsBack hw rfl)
  | stopped hst =>
    obtain ⟨fd, conns, hclose⟩ := closeSocket_eq s
    exact toLedger_of_eq (by simp [State.toLedger, hclose]) (by rintro ⟨-, ⟨⟩⟩)

theorem toLedger_reachable {s : State J} (h : (lts o dump).Reachable init s) :
    (Ledger.lts o.maxQueueSize).Reachable .empty s.toLedger :=
  h.simulate (f := State.toLedger) fun hr hst =>
    have ⟨op, hop⟩ := step_toLedger (locked_reachable hr) hst
    ⟨op, hop.stutter⟩

/-! ### Numbers -/

/-- The items are numbered in the order of the `enqueue` calls. -/
def Numbered (s : State J) : Prop := s.enqueued.map Item.seq = List.range s.enqueued.length

theorem enqueued_cases {s s' : State J} {l : Label J} (h : (lts o dump).step s l s') :
    s'.enqueued = s.enqueued ∨
      ∃ x, s'.enqueued = s.enqueued ++ [x] ∧ x.seq = s.enqueued.length := by
  cases step_effect h with
  | pushed hm => exact Or.inr ⟨_, rfl, rfl⟩
  | connectFailed _ hc | reconnectFailed _ hc =>
    obtain ⟨fd, conns, rfl⟩ := connectSocket_eq hc
    exact Or.inl rfl
  | closed | stopped =>
    obtain ⟨fd, conns, heq⟩ := closeSocket_eq s
    rw [heq]
    exact Or.inl rfl
  | _ => exact Or.inl rfl

theorem Numbered.step {s s' : State J} {l : Label J} (hs : Numbered s)
    (h : (lts o dump).step s l s') : Numbered s' := by
  rcases enqueued_cases h with heq | ⟨x, heq, hseq⟩
  · rw [Numbered, heq, hs]
  · rw [Numbered, heq, List.map_append, hs, List.map_singleton, hseq, List.length_append,
      List.length_singleton, List.range_succ]

theorem numbered_reachable {s : State J} (h : (lts o dump).Reachable init s) : Numbered s :=
  h.invariant rfl fun _ hs hst => hs.step hst

theorem Numbered.nodup {s : State J} (hs : Numbered s) : s.enqueued.Nodup :=
  List.Nodup.of_map Item.seq (hs ▸ List.nodup_range)

/-! ### Counters -/

/-- The batch that is sent but not yet counted. -/
def Pc.uncounted : Pc J → List (Item J)
  | .count batch => batch
  | _ => []

theorem Pc.uncounted_of_idle {p : Pc J} (h : p.idle = true) : p.uncounted = [] := by
  cases p <;> first | rfl | cases h

/-- The item that was popped but not yet counted, if there is one. -/
def State.uncountedDrops (s : State J) : ℕ := (enqueuing Enqueuing.atCount s.m_mutex).toNat

theorem uncountedDrops_of_free {s : State J} (hm : s.m_mutex = none) : s.uncountedDrops = 0 :=
  congrArg Bool.toNat (enqueuing_of_free _ hm)

theorem uncountedDrops_of_producer {s : State J} {e : Enqueuing J}
    (hm : s.m_mutex = some (.producer e)) : s.uncountedDrops = e.atCount.toNat :=
  congrArg Bool.toNat (enqueuing_of_producer _ hm)

/-- The counters count the histories. -/
structure Counted (s : State J) : Prop where
  sent : ∃ n, s.m_stats.totalSent = UInt64.ofNat n ∧
    n + s.worker.uncounted.length = s.sent.flatten.length
  dropped : ∃ n, s.m_stats.totalDropped = UInt64.ofNat n ∧
    n + s.uncountedDrops = s.dropped.length

theorem Counted.step {s s' : State J} {l : Label J} (hs : Counted s) (hlock : Locked o s)
    (h : (lts o dump).step s l s') : Counted s' := by
  obtain ⟨hsent, hdropped⟩ := hs
  cases step_effect h with
  | quiet m r jn st hw hl =>
    refine ⟨?_, ?_⟩
    · rcases hw with rfl | ⟨hi, hi'⟩
      · exact hsent
      · rw [Pc.uncounted_of_idle hi] at hsent
        simpa only [Pc.uncounted_of_idle hi'] using hsent
    · have hcount := (quiet_moves h hw rfl).enqueuing_eq (p := Enqueuing.atCount) hlock
        (fun _ => rfl) (fun _ => rfl) rfl
      rw [State.uncountedDrops, hcount]
      exact hdropped
  | popped hm hq =>
    refine ⟨hsent, ?_⟩
    obtain ⟨n, hn, hsum⟩ := hdropped
    refine ⟨n, hn, ?_⟩
    rw [uncountedDrops_of_producer hm] at hsum
    rw [uncountedDrops_of_producer rfl]
    simpa [State.popped, Enqueuing.atCount] using hsum
  | countedDrop hm =>
    refine ⟨hsent, ?_⟩
    obtain ⟨n, hn, hsum⟩ := hdropped
    rw [uncountedDrops_of_producer hm] at hsum
    refine ⟨n + 1, ?_, hsum⟩
    rw [UInt64.ofNat_add, ← hn]
    rfl
  | pushed hm =>
    refine ⟨hsent, ?_⟩
    rw [uncountedDrops_of_producer hm] at hdropped
    exact hdropped
  | take hw hq =>
    have hcount := hlock.enqueuing_of_worker (hw ▸ rfl) Enqueuing.atCount
    refine ⟨?_, ?_⟩
    · rw [hw] at hsent
      have hnone : (s.takeBatch o).worker.uncounted = [] := by
        unfold State.takeBatch
        split_ifs <;> rfl
      rw [hnone]
      exact hsent
    · rw [State.uncountedDrops, hcount] at hdropped
      exact hdropped
  | connected hw hf | built hw hb | raised hw hb | sendFailed hw hlt | reconnected hw hf
  | accepted hw hn hle hc =>
    rw [hw] at hsent
    exact ⟨hsent, hdropped⟩
  | connectFailed hw hc | reconnectFailed hw hc =>
    rw [hw] at hsent
    obtain ⟨fd, conns, rfl⟩ := connectSocket_eq hc
    exact ⟨hsent, hdropped⟩
  | @sent batch packet total hw hle =>
    obtain ⟨n, hn, hsum⟩ := hsent
    have hsum' : n = s.sent.flatten.length := by simpa [hw, Pc.uncounted] using hsum
    refine ⟨⟨n, hn, ?_⟩, hdropped⟩
    simp only [Pc.uncounted, List.flatten_append, List.flatten_singleton, List.length_append, hsum']
  | @counted batch hw =>
    obtain ⟨n, hn, hsum⟩ := hsent
    have hsum' : n + batch.length = s.sent.flatten.length := by simpa [hw, Pc.uncounted] using hsum
    refine ⟨⟨n + batch.length, ?_, hsum'⟩, hdropped⟩
    rw [UInt64.ofNat_add, ← hn]
  | @rolledBack batch afterSend hw =>
    rw [hw] at hsent
    refine ⟨?_, hdropped⟩
    have hnone : (s.rollback batch afterSend).worker.uncounted = [] := by
      cases afterSend <;> rfl
    rw [hnone]
    exact hsent
  | closed hw =>
    rw [hw] at hsent
    obtain ⟨fd, conns, hclose⟩ := closeSocket_eq s
    rw [hclose]
    exact ⟨hsent, hdropped⟩
  | stopped hst =>
    obtain ⟨fd, conns, hclose⟩ := closeSocket_eq s
    rw [hclose]
    exact ⟨hsent, hdropped⟩

theorem counted_reachable {s : State J} (h : (lts o dump).Reachable init s) : Counted s :=
  h.invariant ⟨⟨0, rfl, rfl⟩, 0, rfl, rfl⟩ fun hr hs hst => hs.step (locked_reachable hr) hst

/-- **Nothing is lost, duplicated or reordered except by counted drops.**  In every reachable
state the items sent, the batch in flight and the queue are, in this order, a subsequence of the
items enqueued; the other items are those dropped; the items are distinct, being numbered in
lock order; and the counters count the items sent (but for a batch about to be counted) and the
items dropped (but for one between the `pop_front` and the `totalDropped++` of an `enqueue` call,
which has the lock there). -/
theorem accounts {s : State J} (h : (lts o dump).Reachable init s) :
    (s.sent.flatten ++ s.worker.inFlight.getD [] ++ s.m_queue).Sublist s.enqueued ∧
      s.enqueued.Perm
        (s.sent.flatten ++ s.worker.inFlight.getD [] ++ s.m_queue ++ s.dropped) ∧
      s.enqueued.map Item.seq = List.range s.enqueued.length ∧ s.enqueued.Nodup ∧
      (∃ n, s.m_stats.totalSent = UInt64.ofNat n ∧
        n + s.worker.uncounted.length = s.sent.flatten.length) ∧
      (∃ n, s.m_stats.totalDropped = UInt64.ofNat n ∧ n + s.uncountedDrops = s.dropped.length) ∧
      (s.m_mutex = none → s.m_stats.totalDropped = UInt64.ofNat s.dropped.length) ∧
      (s.enqueued.length < 2 ^ 64 → s.enqueued.length =
        s.m_stats.totalSent.toNat + s.worker.uncounted.length + s.m_stats.totalDropped.toNat +
          s.uncountedDrops + (s.worker.inFlight.getD []).length + s.m_queue.length) := by
  have hbal := Ledger.balanced_reachable (toLedger_reachable h)
  have hnum := numbered_reachable h
  obtain ⟨hsent, hdropped⟩ := counted_reachable h
  have hfree : s.m_mutex = none → s.m_stats.totalDropped = UInt64.ofNat s.dropped.length := by
    intro hm
    obtain ⟨n, hn, hsum⟩ := hdropped
    rw [uncountedDrops_of_free hm, Nat.add_zero] at hsum
    rw [hn, hsum]
  -- without a wrap-around the counters are the lengths
  refine ⟨hbal.sublist, hbal.perm, hnum, hnum.nodup, hsent, hdropped, hfree, fun hlt => ?_⟩
  have hlen : s.enqueued.length = s.sent.flatten.length + s.dropped.length +
    (s.worker.inFlight.getD []).length + s.m_queue.length := hbal.length_eq
  obtain ⟨n, hn, hsum⟩ := hsent
  obtain ⟨m, hm, hsum'⟩ := hdropped
  rw [hn, hm, UInt64.toNat_ofNat', UInt64.toNat_ofNat', Nat.mod_eq_of_lt (by omega),
    Nat.mod_eq_of_lt (by omega)]
  omega

/-- A full queue of one item, and a second `enqueue`. -/
theorem accounts_overflow : ∃ s : State Bool,
    (lts { maxQueueSize := 1 } dumpBool).Reachable init s ∧ s.m_queue = [⟨1, false⟩] ∧
      s.dropped = [⟨0, true⟩] ∧
      s.enqueued.Perm
        (s.sent.flatten ++ s.worker.inFlight.getD [] ++ s.m_queue ++ s.dropped) := by
  obtain ⟨s, hs, hq, hd⟩ := Run.exists_reachable (step { maxQueueSize := 1 } dumpBool) init
    [.enqueue true, .produce, .produce, .enqueue false, .produce, .produce, .produce]
    (fun s => s.m_queue = [⟨1, false⟩] ∧ s.dropped = [⟨0, true⟩]) (by decide)
  exact ⟨s, hs, hq, hd, (accounts hs).2.1⟩

end Sender

end LiteMonitor
