import LiteMonitor.Sender.Accounting

/-!
# The queue bound and the dropped items

`enqueue` keeps `m_queue` within `maxQueueSize` by dropping its front.  `rollback` puts a failed
batch back without looking at the bound: the queue may get longer than it should be, and the
items dropped while the batch was in flight are newer than those of the batch.

* `inFlight_ne_nil` : a batch in flight has items.
* `queueBound_iff` : **when the queue bound is respected.**
* `keepsNewest_iff` : **when the newest items are kept.**
-/

namespace LiteMonitor

namespace Sender

open LTS

variable {J : Type*} {o : Options} {dump : J → Except JsonError (List Char)}

theorem inFlight_ne_nil (hbatch : 1 ≤ o.batchSize) {s : State J}
    (h : (lts o dump).Reachable init s) : ∀ b, s.worker.inFlight = some b → b ≠ [] := by
  refine h.invariant (I := fun s => ∀ b, s.worker.inFlight = some b → b ≠ []) nofun ?_
  intro s l s' hr hs hst b hb
  obtain ⟨op, hop, -, -, htake⟩ := step_toLedger (locked_reachable hr) hst
  cases op with
  | none => exact hs b ((congrArg Ledger.held hop).symm.trans hb)
  | some op =>
    rcases Ledger.Step.held_cases hop with heq | heq | ⟨n, rfl, heq⟩
    · exact hs b (heq.symm.trans hb)
    · cases heq.symm.trans hb
    · obtain ⟨hq, rfl⟩ := htake n rfl
      obtain rfl : s.m_queue.take (min o.batchSize s.m_queue.length) = b :=
        Option.some.inj (heq.symm.trans hb)
      have hpos := List.length_pos_iff.2 hq
      rw [← List.length_pos_iff, List.length_take]
      omega

/-- **When the queue bound is respected**: `m_queue` stays within `maxQueueSize` all along a run
if and only if no batch is rolled back such that the items queued when it was taken and the items
enqueued since then exceed the bound. -/
theorem queueBound_iff (hbatch : 1 ≤ o.batchSize) {tr : List (State J × Label J)} {s : State J}
    (h : (lts o dump).Run init tr s) :
    (∀ x ∈ states tr s, x.m_queue.length ≤ o.maxQueueSize) ↔
      ∀ x ∈ tr, RollsBack x.1 x.2 → x.1.queuedAtTake + x.1.enqueuedSinceTake ≤ o.maxQueueSize := by
  refine h.forall_states_iff (P := fun x => x.m_queue.length ≤ o.maxQueueSize)
    (J := fun x => x.toLedger.InFlight o.maxQueueSize)
    (C := fun x l => RollsBack x l → x.queuedAtTake + x.enqueuedSinceTake ≤ o.maxQueueSize)
    (Nat.zero_le _) (Ledger.inFlight_empty _) ?_
  intro s l s' hr hlen hin hst
  obtain ⟨op, hop, hrestore, -, -⟩ := step_toLedger (locked_reachable hr) hst
  cases op with
  | none =>
    have heq : s'.toLedger = s.toLedger := hop
    have hno : ¬ RollsBack s l := fun hb => by cases hrestore.2 hb
    refine ⟨iff_of_true ?_ fun hb => absurd hb hno, fun _ => heq ▸ hin⟩
    rw [show s'.m_queue = s.m_queue from congrArg Ledger.queued heq]
    exact hlen
  | some op =>
    obtain ⟨hiff, hin'⟩ := Ledger.Step.bounded_iff hop hlen hin (inFlight_ne_nil hbatch hr)
    refine ⟨hiff.trans ?_, fun _ => hin'⟩
    rw [Ledger.Op.FitsBack, ← hrestore, Option.some.injEq]
    rfl

/-- The number of an item decides its age. -/
def Older (x y : Item J) : Prop := x.seq < y.seq

instance : Std.Asymm (Older (J := J)) := ⟨fun _ _ h => Nat.lt_asymm h⟩

/-- The items are enqueued in the order of their age. -/
theorem Numbered.pairwise {s : State J} (hs : Numbered s) : s.enqueued.Pairwise Older := by
  have hrange : (s.enqueued.map Item.seq).Pairwise (· < ·) := by
    rw [hs]
    exact List.pairwise_lt_range
  exact List.Pairwise.of_map Item.seq (fun _ _ h => h) hrange

theorem Numbered.seq_lt {s : State J} (hs : Numbered s) {x : Item J} (hx : x ∈ s.enqueued) :
    x.seq < s.enqueued.length := by
  have hmem := List.mem_map_of_mem (f := Item.seq) hx
  rw [hs] at hmem
  exact List.mem_range.1 hmem

/-- **When the newest items are kept**: whenever no batch is in flight, every item dropped was
enqueued before every item in `m_queue`, all along a run, if and only if no batch with items is
rolled back after an item was dropped while the batch was in flight. -/
theorem keepsNewest_iff {tr : List (State J × Label J)} {s : State J}
    (h : (lts o dump).Run init tr s) :
    (∀ x ∈ states tr s, x.worker.inFlight = none →
      ∀ d ∈ x.dropped, ∀ y ∈ x.m_queue, d.seq < y.seq) ↔
    ∀ x ∈ tr, RollsBack x.1 x.2 → x.1.droppedSinceTake = 0 ∨ x.1.worker.inFlight = some [] := by
  refine h.forall_states_iff
    (P := fun x => x.worker.inFlight = none → ∀ d ∈ x.dropped, ∀ y ∈ x.m_queue, d.seq < y.seq)
    (J := fun x => x.toLedger.Newest Older ∧ x.toLedger.Older Older)
    (C := fun x l => RollsBack x l → x.droppedSinceTake = 0 ∨ x.worker.inFlight = some [])
    nofun ⟨nofun, nofun⟩ ?_
  intro s l s' hr _ ⟨hnew, hold⟩ hst
  obtain ⟨op, hop, hrestore, henter, -⟩ := step_toLedger (locked_reachable hr) hst
  cases op with
  | none =>
    have heq : s'.toLedger = s.toLedger := hop
    have hno : ¬ RollsBack s l := fun hb => by cases hrestore.2 hb
    exact ⟨iff_of_true (fun _ => (heq ▸ hnew : s'.toLedger.Newest Older)) fun hb => absurd hb hno,
      fun _ => ⟨heq ▸ hnew, heq ▸ hold⟩⟩
  | some op =>
    have hnum := numbered_reachable hr
    have hbal := Ledger.balanced_reachable (toLedger_reachable hr)
    have hlast : ∀ x, op = .enter x → ∀ y ∈ s.toLedger.entered, Older y x := by
      rintro x rfl y hy
      rw [Older, henter x rfl]
      exact hnum.seq_lt hy
    obtain ⟨hiff, hold'⟩ :=
      Ledger.Step.newest_iff hop hbal (hnum.pairwise.sublist hbal.sublist) hlast hnew hold
    -- only the rollback can break the order, and it leaves no batch in flight
    have hP : (s'.worker.inFlight = none → s'.toLedger.Newest Older) ↔
        s'.toLedger.Newest Older := by
      refine ⟨fun hn => ?_, fun hn _ => hn⟩
      by_cases hb : op = .restore
      · subst hb
        exact hn (Ledger.Step.held_restore hop)
      · exact hiff.2 fun h => absurd h hb
    refine ⟨(hP.trans hiff).trans ?_, fun hn => ⟨hP.1 hn, hold'⟩⟩
    rw [Ledger.Op.ShedsNothing, ← hrestore, Option.some.injEq]
    rfl

/-- A batch is taken and rolled back without an item enqueued meanwhile. -/
theorem queueBound_iff_retry : ∃ tr s,
    (lts { batchSize := 1, maxQueueSize := 1 } dumpBool).Run init tr s ∧ tr.length = 9 ∧
      s.m_queue = [⟨0, true⟩] ∧ (∀ x ∈ states tr s, x.m_queue.length ≤ 1) ∧
      ∀ x ∈ tr, RollsBack x.1 x.2 → x.1.queuedAtTake + x.1.enqueuedSinceTake ≤ 1 := by
  obtain ⟨tr, s, hrun, hlen, hq, hall⟩ := Run.exists_of_trace
    (step { batchSize := 1, maxQueueSize := 1 } dumpBool) init
    [.enqueue true, .produce, .produce, .work .go, .work .go, .work .go, .work (.time true),
      .work (.connect .socketFails), .work .go]
    (fun tr s => tr.length = 9 ∧ s.m_queue = [⟨0, true⟩] ∧ ∀ x ∈ states tr s, x.m_queue.length ≤ 1)
    (by decide)
  exact ⟨tr, s, hrun, hlen, hq, hall, (queueBound_iff (by decide) hrun).1 hall⟩

/-- A batch of one item is in flight while the next item is enqueued, and the connection
fails. -/
theorem not_bounded : ¬ ∀ s : State Bool,
    (lts { batchSize := 1, maxQueueSize := 1 } dumpBool).Reachable init s →
      s.m_queue.length ≤ 1 := by
  intro hclaim
  obtain ⟨s, hs, hlen⟩ := Run.exists_reachable
    (step { batchSize := 1, maxQueueSize := 1 } dumpBool) init
    [.enqueue true, .produce, .produce, .work .go, .work .go, .work .go, .work (.time true),
      .enqueue false, .produce, .produce, .work (.connect .socketFails), .work .go]
    (fun s => s.m_queue.length = 2) (by decide)
  have hle := hclaim s hs
  omega

/-- An item is dropped before the batch is taken, and none while it is in flight. -/
theorem keepsNewest_iff_retry : ∃ tr s,
    (lts { batchSize := 1, maxQueueSize := 1 } dumpBool).Run init tr s ∧
      s.dropped = [⟨0, true⟩] ∧ s.m_queue = [⟨1, false⟩] ∧
      ∀ x ∈ tr, RollsBack x.1 x.2 →
        x.1.droppedSinceTake = 0 ∨ x.1.worker.inFlight = some [] := by
  obtain ⟨tr, s, hrun, hd, hq, hall⟩ := Run.exists_of_trace
    (step { batchSize := 1, maxQueueSize := 1 } dumpBool) init
    [.enqueue true, .produce, .produce, .enqueue false, .produce, .produce, .produce, .produce,
      .work .go, .work .go, .work .go, .work (.time true), .work (.connect .socketFails), .work .go]
    (fun tr s => s.dropped = [⟨0, true⟩] ∧ s.m_queue = [⟨1, false⟩] ∧
      ∀ x ∈ states tr s, x.worker.inFlight = none →
        ∀ d ∈ x.dropped, ∀ y ∈ x.m_queue, d.seq < y.seq)
    (by decide)
  exact ⟨tr, s, hrun, hd, hq, (keepsNewest_iff hrun).1 hall⟩

/-- Two items are enqueued while a batch is in flight, the second one drops the first one, and
the connection fails. -/
theorem not_newest : ¬ ∀ s : State Bool,
    (lts { batchSize := 1, maxQueueSize := 1 } dumpBool).Reachable init s →
      s.worker.inFlight = none → ∀ d ∈ s.dropped, ∀ y ∈ s.m_queue, d.seq < y.seq := by
  intro hclaim
  obtain ⟨s, hs, hw, hd, hq⟩ := Run.exists_reachable
    (step { batchSize := 1, maxQueueSize := 1 } dumpBool) init
    [.enqueue true, .produce, .produce, .work .go, .work .go, .work .go, .work (.time true),
      .enqueue false, .produce, .produce, .enqueue true, .produce, .produce, .produce, .produce,
      .work (.connect .socketFails), .work .go]
    (fun s => s.worker = .test ∧ s.dropped = [⟨1, false⟩] ∧ s.m_queue = [⟨0, true⟩, ⟨2, true⟩])
    (by decide)
  have hlt := hclaim s hs (by rw [hw]; rfl) ⟨1, false⟩ (by simp [hd]) ⟨0, true⟩ (by simp [hq])
  exact absurd hlt (by decide)

end Sender

end LiteMonitor
