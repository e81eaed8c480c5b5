import LiteMonitor.Sender.Waiting

/-!
# Missed wake-ups of the worker

The worker evaluates the predicate of `wait_for` with the lock and then blocks and releases it.
`enqueue` changes the queue under the lock; `stop` changes `m_running` without it, and its
notification is lost when the worker is about to block.

* `Halting` : how `m_running`, `stop` and `m_worker` go together.
* `Awake` : a worker that is blocked has nothing to do, or is going to be notified.
* `MissesWorker s l` : `stop` notifies while the worker is about to block.
* `neverAsleep_iff` : **the worker is never left asleep exactly if no notification misses it.**
-/

namespace LiteMonitor

namespace Sender

open LTS

variable {J : Type*} {o : Options} {dump : J → Except JsonError (List Char)} {s s' : State J}
  {l : Label J}

/-! ### Invariants -/

/-- A call of `stop` clears `m_running` first, and a call that returns has joined the worker; the
worker blocks on an empty queue. -/
structure Halting (s : State J) : Prop where
  stopping : s.stopper ≠ .idle → s.m_running = false
  close : s.stopper = .close → s.joinable = false
  stopped : s.m_running = false → s.stopper = .idle → s.joinable = false
  block : s.worker = .block → s.m_queue = []

theorem halting_init : Halting (init : State J) := ⟨nofun, nofun, nofun, nofun⟩

theorem Halting.of_worker (hs : Halting s) (hr : s'.m_running = s.m_running)
    (hst : s'.stopper = s.stopper) (hj : s'.joinable = s.joinable) (hw : s'.worker ≠ .block) :
    Halting s' := by
  refine ⟨?_, ?_, ?_, fun h => absurd h hw⟩
  · rw [hst, hr]
    exact hs.stopping
  · rw [hst, hj]
    exact hs.close
  · rw [hst, hj, hr]
    exact hs.stopped

theorem notified_ne_blocked (p : Pc J) : p.notified ≠ .blocked := by
  cases p <;> exact nofun

theorem notified_eq_block_iff {p : Pc J} : p.notified = .block ↔ p = .block := by
  cases p <;> simp [Pc.notified]

theorem Halting.stops (hs : Halting s) (h : Stops s s') : Halting s' := by
  cases h with
  | clear hst => exact ⟨fun _ => rfl, nofun, nofun, hs.block⟩
  | notify hst =>
    have hr := hs.stopping (hst ▸ nofun)
    exact ⟨fun _ => hr, nofun, nofun, fun h => hs.block (notified_eq_block_iff.1 h)⟩
  | join hst hex =>
    have hr := hs.stopping (hst ▸ nofun)
    exact ⟨fun _ => hr, fun _ => rfl, nofun, hs.block⟩
  | joined hst hj =>
    have hr := hs.stopping (hst ▸ nofun)
    exact ⟨fun _ => hr, fun _ => hj, nofun, hs.block⟩
  | close hst =>
    obtain ⟨fd, conns, heq⟩ := closeSocket_eq s
    rw [heq]
    exact ⟨nofun, nofun, fun _ _ => hs.close hst, hs.block⟩

theorem Halting.moves (hs : Halting s) (h : Moves o s l s') : Halting s' := by
  cases h with
  | waits h =>
    cases h with
    | fail hw hq hr => exact ⟨hs.stopping, hs.close, hs.stopped, fun _ => hq⟩
    | @relock timedOut hw hm =>
      refine hs.of_worker rfl rfl rfl ?_
      cases timedOut <;> exact nofun
    | _ => exact hs.of_worker rfl rfl rfl nofun
  | eintr => exact hs
  | full | fits => exact ⟨hs.stopping, hs.close, hs.stopped, hs.block⟩
  | notifyOne =>
    exact ⟨hs.stopping, hs.close, hs.stopped, fun h => hs.block (notified_eq_block_iff.1 h)⟩
  | stops h => exact hs.stops h

theorem Locked.ne_block (hl : Locked o s) (hm : s.m_mutex ≠ some .worker) : s.worker ≠ .block := by
  intro hw
  have hlocked := hl.not_worker hm
  rw [hw] at hlocked
  simp [Pc.locked] at hlocked

theorem Halting.step (hs : Halting s) (hl : Locked o s) (h : (lts o dump).step s l s') :
    Halting s' := by
  cases step_effect h with
  | quiet m r jn st hw => exact hs.moves (quiet_moves h hw rfl)
  | popped hm | countedDrop hm | pushed hm =>
    exact hs.of_worker rfl rfl rfl (hl.ne_block (by simp [hm]))
  | take hw hq =>
    refine hs.of_worker rfl rfl rfl ?_
    unfold State.takeBatch
    split_ifs <;> exact nofun
  | connectFailed hw hc | reconnectFailed hw hc =>
    obtain ⟨fd, conns, rfl⟩ := connectSocket_eq hc
    exact hs.of_worker rfl rfl rfl nofun
  | @rolledBack batch afterSend hw =>
    refine hs.of_worker rfl rfl rfl ?_
    cases afterSend <;> exact nofun
  | closed hw =>
    obtain ⟨fd, conns, heq⟩ := closeSocket_eq s
    rw [heq]
    exact hs.of_worker rfl rfl rfl nofun
  | stopped hst => exact hs.stops (.close hst)
  | _ => exact hs.of_worker rfl rfl rfl nofun

theorem halting_reachable (h : (lts o dump).Reachable init s) : Halting s :=
  h.invariant halting_init fun hr hs hst => hs.step (locked_reachable hr) hst

/-! ### Notifications -/

/-- A worker that is blocked and not notified has an empty queue and is not stopped, or a running
`enqueue` or `stop` is still going to notify it. -/
def Awake (s : State J) : Prop :=
  s.worker = .blocked → (s.m_queue = [] ∧ s.m_running = true) ∨
    s.m_mutex = some (.producer .notify) ∨ s.stopper = .notify

/-- A worker that is about to block is not stopped, or is going to be notified. -/
def Blocking (s : State J) : Prop :=
  s.worker = .block → s.m_running = true ∨ s.stopper = .notify

/-- `stop` calls `notify_all` while the worker has evaluated the predicate and does not wait yet. -/
def MissesWorker (s : State J) (l : Label J) : Prop :=
  l = .stop ∧ s.stopper = .notify ∧ s.worker = .block

theorem not_missesWorker (h : s.worker ≠ .block) : ¬ MissesWorker s l := fun hm => h hm.2.2

/-- A worker that is not about to block, before and after a step, and does not get to wait. -/
theorem awake_step_of_ne (hw : s.worker ≠ .block) (hw' : s'.worker ≠ .block) (ha : Awake s') :
    Awake s' ∧ Blocking s' ↔ Blocking s ∧ ¬ MissesWorker s l :=
  iff_of_true ⟨ha, fun h => absurd h hw'⟩ ⟨fun h => absurd h hw, not_missesWorker hw⟩

theorem awake_step_of_exited (hw : s.worker = .exited) (hw' : s'.worker = .exited) :
    Awake s' ∧ Blocking s' ↔ Blocking s ∧ ¬ MissesWorker s l :=
  awake_step_of_ne (hw ▸ nofun) (hw' ▸ nofun) fun h => absurd (hw'.symm.trans h) nofun

theorem Waits.awake_iff {r : Reply} (h : Waits o s r s') (hs : Halting s) :
    Awake s' ∧ Blocking s' ↔ Blocking s ∧ ¬ MissesWorker s (.work r) := by
  cases h with
  | fail hw hq hr =>
    exact iff_of_true ⟨nofun, fun _ => Or.inl hr⟩ ⟨fun h => absurd (hw.symm.trans h) nofun, nofun⟩
  | block hw =>
    -- nobody but `stop` has changed the predicate
    have hq := hs.block hw
    have hmiss : ¬ MissesWorker s (.work .go) := nofun
    simp [Awake, Blocking, hw, hq, hmiss]
  | @relock timedOut hw hm =>
    cases timedOut <;> exact awake_step_of_ne (hw ▸ nofun) nofun nofun
  | enter hw | stopping hw | drain hw | exit hw | lock hw | pass hw | wake hw | back hw =>
    exact awake_step_of_ne (hw ▸ nofun) nofun nofun

theorem Stops.awake_iff (h : Stops s s') (hs : Halting s) (hj : Joined s) :
    Awake s' ∧ Blocking s' ↔ Blocking s ∧ ¬ MissesWorker s .stop := by
  cases h with
  | clear hst =>
    refine iff_of_true ⟨fun _ => Or.inr (Or.inr rfl), fun _ => Or.inr rfl⟩ ⟨fun hw => ?_, ?_⟩
    · -- a worker that is about to block has not been joined
      cases hr : s.m_running with
      | true => exact Or.inl rfl
      | false => exact absurd (hw.symm.trans (hj.joined (hs.stopped hr hst))) nofun
    · rintro ⟨-, hst', -⟩
      cases hst.symm.trans hst'
  | notify hst =>
    by_cases hw : s.worker = .block
    · have hr := hs.stopping (hst ▸ nofun)
      refine iff_of_false ?_ fun h => h.2 ⟨rfl, hst, hw⟩
      rintro ⟨-, hb⟩
      simp [Blocking, notified_eq_block_iff, hw, hr] at hb
    · refine awake_step_of_ne hw (fun h => hw (notified_eq_block_iff.1 h)) ?_
      exact fun h => absurd h (notified_ne_blocked _)
  | join hst hex => exact awake_step_of_exited hex hex
  | joined hst hjoined => exact awake_step_of_exited (hj.joined hjoined) (hj.joined hjoined)
  | close hst =>
    have hex := hj.close hst
    obtain ⟨fd, conns, heq⟩ := closeSocket_eq s
    rw [heq]
    exact awake_step_of_exited hex hex

theorem Moves.awake_iff (h : Moves o s l s') (hs : Halting s) (hl : Locked o s) (hj : Joined s)
    (ha : Awake s) : Awake s' ∧ Blocking s' ↔ Blocking s ∧ ¬ MissesWorker s l := by
  cases h with
  | waits h => exact h.awake_iff hs
  | eintr => simp [ha, MissesWorker]
  | full hm | fits hm =>
    -- nobody has the lock, so nothing is to be notified but by `stop`
    have hw : s.worker ≠ .block := hl.ne_block (by simp [hm])
    refine awake_step_of_ne hw hw fun hb => (ha hb).imp_right fun h => ?_
    exact Or.inr (h.resolve_left (by simp [hm]))
  | notifyOne hm =>
    have hw := hl.ne_block (by simp [hm])
    refine awake_step_of_ne hw (fun h => hw (notified_eq_block_iff.1 h)) ?_
    exact fun h => absurd h (notified_ne_blocked _)
  | stops h => exact h.awake_iff hs hj

/-- **The worker stays awake with a step exactly if no notification misses it.** -/
theorem awake_step_iff (hs : Halting s) (hl : Locked o s) (hj : Joined s) (ha : Awake s)
    (h : (lts o dump).step s l s') :
    Awake s' ∧ Blocking s' ↔ Blocking s ∧ ¬ MissesWorker s l := by
  cases step_effect h with
  | quiet m r jn st hw => exact (quiet_moves h hw rfl).awake_iff hs hl hj ha
  | @popped j x q hm hq =>
    -- a worker that waits for `stop` only has left nothing in the queue
    have hne := hl.ne_block (by simp [hm])
    refine awake_step_of_ne hne hne fun hb => ?_
    rcases ha hb with ⟨hempty, -⟩ | hm' | hst
    · simp [hq] at hempty
    · simp [hm] at hm'
    · exact Or.inr (Or.inr hst)
  | countedDrop hm =>
    have hne := hl.ne_block (by simp [hm])
    refine awake_step_of_ne hne hne fun hb => (ha hb).imp_right fun h => ?_
    exact Or.inr (h.resolve_left (by simp [hm]))
  | pushed hm =>
    have hne := hl.ne_block (by simp [hm])
    exact awake_step_of_ne hne hne fun _ => Or.inr (Or.inl rfl)
  | take hw hq =>
    unfold State.takeBatch
    split_ifs <;> exact awake_step_of_ne (hw ▸ nofun) nofun nofun
  | connectFailed hw hc | reconnectFailed hw hc =>
    obtain ⟨fd, conns, rfl⟩ := connectSocket_eq hc
    exact awake_step_of_ne (hw ▸ nofun) nofun nofun
  | @rolledBack batch afterSend hw =>
    cases afterSend <;> exact awake_step_of_ne (hw ▸ nofun) nofun nofun
  | closed hw =>
    obtain ⟨fd, conns, heq⟩ := closeSocket_eq s
    rw [heq]
    exact awake_step_of_ne (hw ▸ nofun) nofun nofun
  | stopped hst => exact Stops.awake_iff (.close hst) hs hj
  | connected hw | built hw | raised hw | accepted hw | sendFailed hw | sent hw | counted hw
  | reconnected hw => exact awake_step_of_ne (hw ▸ nofun) nofun nofun

/-- **When the worker is never left asleep**: in every state of a run in which it is blocked and not
notified it has nothing to do or is going to be notified, and at the end of the run it is not about
to block with something to do, if and only if no `notify_all` of `stop` comes while the worker has
found its predicate false and does not wait yet. -/
theorem neverAsleep_iff {tr : List (State J × Label J)} (h : (lts o dump).Run init tr s) :
    (∀ x ∈ states tr s, Awake x) ∧ Blocking s ↔ ∀ x ∈ tr, ¬ MissesWorker x.1 x.2 := by
  refine h.forall_states_and_iff (C := fun s l => ¬ MissesWorker s l) nofun nofun ?_
  intro s l s' hr ha hst
  exact awake_step_iff (halting_reachable hr) (locked_reachable hr) (joined_reachable hr) ha hst

/-- `stop` notifies the worker that waits. -/
theorem neverAsleep_iff_stopped : ∃ tr s, (lts {} dumpBool).Run init tr s ∧
    (∃ x ∈ tr, x.1.worker = .blocked) ∧ s.worker = .woken false ∧ ∀ x ∈ states tr s, Awake x := by
  obtain ⟨tr, s, hrun, hblocked, hw, hno⟩ := Run.exists_of_trace (step {} dumpBool) init
    [.work .go, .work .go, .work .go, .work .go, .stop, .stop]
    (fun tr s => (∃ x ∈ tr, x.1.worker = .blocked) ∧ s.worker = .woken false ∧
      ∀ x ∈ tr, x.1.stopper = .notify → x.1.worker ≠ .block) (by decide)
  refine ⟨tr, s, hrun, hblocked, hw, ((neverAsleep_iff hrun).2 fun x hx hm => ?_).1⟩
  exact hno x hx hm.2.1 hm.2.2

/-- `stop` runs between the test of the predicate and the wait. -/
theorem not_awake : ¬ ∀ s : State Bool, (lts {} dumpBool).Reachable init s → Awake s := by
  intro hclaim
  obtain ⟨s, hs, hw, hr, hm, hst⟩ := Run.exists_reachable (step {} dumpBool) init
    [.work .go, .work .go, .work .go, .stop, .stop, .work .go]
    (fun s => s.worker = .blocked ∧ s.m_running = false ∧ s.m_mutex = none ∧ s.stopper = .join)
    (by decide)
  rcases hclaim s hs hw with ⟨-, hr'⟩ | hm' | hst'
  · cases hr.symm.trans hr'
  · cases hm.symm.trans hm'
  · cases hst.symm.trans hst'

end Sender

end LiteMonitor
