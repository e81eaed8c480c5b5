import LiteMonitor.LTS.Path
import LiteMonitor.Sender.Shutdown
import Mathlib.Data.Fintype.EquivFin

/-!
# Leaving the loop

When `m_running` is false and nothing more is enqueued, the worker sends what is in the queue and
leaves its loop; a batch that cannot be sent goes back to the queue.

* `Fails l` : a step in which `connect` or `send` fails.
* `State.measure` : what is still to be done; `measure_step` : without failures every step
  lessens it.
* `can_step` : somebody can take a step, until the worker has left.
* `leaves_iff` : **the worker leaves its loop exactly if the network does not fail forever**.
-/

namespace LiteMonitor

namespace Sender

open LTS

variable {J : Type*} {o : Options} {dump : J → Except JsonError (List Char)} {s s' : State J}
  {l : Label J}

/-- The network does not do what it is asked for: a connection is not made, or `send` accepts
nothing, be it that it is interrupted. -/
def Fails : Label J → Prop
  | .work (.connect c) => ∀ fd, c ≠ .connected fd
  | .work (.send r) => ∀ n, r ≠ .accepted n
  | _ => False

/-! ### Invariants -/

theorem Moves.running (h : Moves o s l s') (hs : s.m_running = false) : s'.m_running = false := by
  cases h with
  | waits h => cases h <;> exact hs
  | eintr | full | fits | notifyOne => exact hs
  | stops h =>
    cases h with
    | clear => rfl
    | notify | join | joined => exact hs
    | close =>
      obtain ⟨fd, conns, heq⟩ := closeSocket_eq s
      rw [heq]
      exact hs

theorem running_step (h : (lts o dump).step s l s') (hs : s.m_running = false) :
    s'.m_running = false := by
  cases step_effect h with
  | quiet m r jn st hw => exact (quiet_moves h hw rfl).running hs
  | connectFailed hw hc | reconnectFailed hw hc =>
    obtain ⟨fd, conns, rfl⟩ := connectSocket_eq hc
    exact hs
  | closed | stopped =>
    obtain ⟨fd, conns, heq⟩ := closeSocket_eq s
    rw [heq]
    exact hs
  | _ => exact hs

/-- A batch in flight is not empty. -/
def Batched (s : State J) : Prop := ∀ b, s.worker.inFlight = some b → b ≠ []

theorem inFlight_takeBatch (o : Options) (s : State J) :
    (s.takeBatch o).worker.inFlight = some (s.m_queue.take (min o.batchSize s.m_queue.length)) := by
  unfold State.takeBatch
  split_ifs <;> rfl

theorem Batched.step (hb : 1 ≤ o.batchSize) (hs : Batched s) (h : (lts o dump).step s l s') :
    Batched s' := by
  cases step_effect h with
  | quiet m r jn st hw =>
    rcases hw with rfl | ⟨-, hi⟩
    · exact hs
    · intro b hb
      rw [Pc.inFlight_of_idle hi] at hb
      simp at hb
  | take hw hq =>
    intro b hb'
    rw [inFlight_takeBatch] at hb'
    obtain rfl := Option.some.inj hb'
    have hpos := List.length_pos_iff.2 hq
    rw [← List.length_pos_iff, List.length_take]
    omega
  | popped | countedDrop | pushed => exact hs
  | connected hw | built hw | raised hw | accepted hw | sendFailed hw | connectFailed hw =>
    rw [Batched, hw] at hs
    exact hs
  | @rolledBack batch afterSend hw => cases afterSend <;> exact nofun
  | stopped =>
    obtain ⟨fd, conns, heq⟩ := closeSocket_eq s
    rw [heq]
    exact hs
  | _ => exact nofun

theorem batched_reachable (hb : 1 ≤ o.batchSize) (h : (lts o dump).Reachable init s) :
    Batched s :=
  h.invariant nofun fun _ hs hst => hs.step hb hst

/-! ### What is still to be done -/

/-- How far the caller of `stop` is from waiting for the worker. -/
def StopPc.rank : StopPc → ℕ
  | .idle => 3
  | .notify => 2
  | .join => 1
  | .close => 0

/-- How far a caller of `enqueue` that has the lock is from giving it back. -/
def Enqueuing.rank : Enqueuing J → ℕ
  | .pop _ => 4
  | .count _ => 3
  | .push _ _ => 2
  | .notify => 1

/-- The same with whoever has the lock. -/
def Holder.rank : Option (Holder J) → ℕ
  | some (.producer e) => e.rank
  | _ => 0

/-- How far the worker is from having sent a batch, or, with an empty queue, from leaving. -/
def Pc.rank (empty : Bool) : Pc J → ℕ
  | .rollback _ _ => 14
  | .closing => 13
  | .reconnect | .count _ => 12
  | .test => if empty then 3 else 11
  | .testQueue => if empty then 2 else 10
  | .lock => 9
  | .block => 8
  | .blocked => 7
  | .woken _ => 6
  | .pred => 5
  | .ready => 4
  | .connect _ => 3
  | .build _ => 2
  | .sending _ _ _ => 1
  | .exited | .terminated _ => 0

/-- The bytes of the packet that are not sent. -/
def Pc.missing : Pc J → ℕ
  | .sending _ packet total => packet.length - total
  | _ => 0

namespace State

/-- What the other threads do before they wait for the worker. -/
def outside (s : State J) : ℕ := Holder.rank s.m_mutex + s.stopper.rank

/-- The items that are not sent. -/
def unsent (s : State J) : ℕ := s.m_queue.length + (s.worker.inFlight.getD []).length

/-- What is still to be done. -/
def measure (s : State J) : ℕ ×ₗ ℕ ×ₗ ℕ ×ₗ ℕ :=
  toLex (s.outside, toLex (s.unsent, toLex (s.worker.rank s.m_queue.isEmpty, s.worker.missing)))

theorem measure_lt_iff : s'.measure < s.measure ↔
    s'.outside < s.outside ∨ s'.outside = s.outside ∧ (s'.unsent < s.unsent ∨
      s'.unsent = s.unsent ∧
        (s'.worker.rank s'.m_queue.isEmpty < s.worker.rank s.m_queue.isEmpty ∨
          s'.worker.rank s'.m_queue.isEmpty = s.worker.rank s.m_queue.isEmpty ∧
            s'.worker.missing < s.worker.missing)) := by
  simp only [measure, Prod.Lex.toLex_lt_toLex]

end State

theorem measure_lt_of_rank (hout : s'.outside = s.outside) (hun : s'.unsent = s.unsent)
    (hrank : s'.worker.rank s'.m_queue.isEmpty < s.worker.rank s.m_queue.isEmpty) :
    s'.measure < s.measure :=
  State.measure_lt_iff.2 (Or.inr ⟨hout, Or.inr ⟨hun, Or.inl hrank⟩⟩)

theorem measure_lt_of_enqueuing (hst : s'.stopper = s.stopper)
    (hrank : Holder.rank s'.m_mutex < Holder.rank s.m_mutex) : s'.measure < s.measure := by
  refine State.measure_lt_iff.2 (Or.inl ?_)
  unfold State.outside
  rw [hst]
  exact Nat.add_lt_add_right hrank _

theorem measure_lt_of_pc (hout : s'.outside = s.outside) (hq : s'.m_queue = s.m_queue)
    (hbatch : s'.worker.inFlight = s.worker.inFlight)
    (hrank : s'.worker.rank s.m_queue.isEmpty < s.worker.rank s.m_queue.isEmpty) :
    s'.measure < s.measure := by
  refine measure_lt_of_rank hout ?_ ?_
  · unfold State.unsent
    rw [hq, hbatch]
  · rw [hq]
    exact hrank

theorem Waits.measure_lt {r : Reply} (h : Waits o s r s') (hr : s.m_running = false)
    (hl : Locked o s) : s'.measure < s.measure := by
  have hworker : s.worker.locked = true → Holder.rank s.m_mutex = 0 := fun h => by
    rw [hl.worker.2 h, Holder.rank]
    exact nofun
  cases h with
  | enter hw hr' => simp [hr] at hr'
  | fail hw hq hr' => simp [hr] at hr'
  | stopping hw =>
    refine measure_lt_of_pc rfl rfl (hw ▸ rfl) ?_
    simp only [hw, Pc.rank]
    split_ifs <;> decide
  | drain hw hq | exit hw hq =>
    refine measure_lt_of_pc rfl rfl (hw ▸ rfl) ?_
    simp [hw, Pc.rank, hq]
  | lock hw hm =>
    refine measure_lt_of_pc ?_ rfl (hw ▸ rfl) ?_
    · simp [State.outside, hm, Holder.rank]
    · simp [hw, Pc.rank]
  | pass hw | wake hw =>
    refine measure_lt_of_pc rfl rfl (hw ▸ rfl) ?_
    simp [hw, Pc.rank]
  | block hw =>
    refine measure_lt_of_pc ?_ rfl (hw ▸ rfl) ?_
    · simp only [State.outside, hworker (hw ▸ rfl)]
      rfl
    · simp [hw, Pc.rank]
  | @relock timedOut hw hm =>
    refine measure_lt_of_pc ?_ rfl ?_ ?_
    · simp [State.outside, hm, Holder.rank]
    · cases timedOut <;> exact hw ▸ rfl
    · cases timedOut <;> simp [hw, Pc.rank]
  | back hw h =>
    have hq : s.m_queue = [] := h.resolve_right fun h => by simp [hr] at h
    refine measure_lt_of_pc ?_ rfl (hw ▸ rfl) ?_
    · simp only [State.outside, hworker (hw ▸ rfl)]
      rfl
    · simp [hw, Pc.rank, hq]

theorem Stops.measure_lt (h : Stops s s') (hj : Joined s) (hne : s.worker ≠ .exited) :
    s'.measure < s.measure := by
  refine State.measure_lt_iff.2 (Or.inl ?_)
  cases h with
  | clear hst | notify hst => simp [State.outside, hst, StopPc.rank]
  | join hst hex => exact absurd hex hne
  | joined hst hjoined => exact absurd (hj.joined hjoined) hne
  | close hst => exact absurd (hj.close hst) hne

theorem Moves.measure_lt (h : Moves o s l s') (hr : s.m_running = false) (hl : Locked o s)
    (hj : Joined s) (hne : s.worker ≠ .exited) (hq : ∀ j, l ≠ .enqueue j) (hf : ¬ Fails l) :
    s'.measure < s.measure := by
  cases h with
  | waits h => exact h.measure_lt hr hl
  | eintr => exact absurd nofun hf
  | @full j | @fits j => exact absurd rfl (hq j)
  | notifyOne hm => exact measure_lt_of_enqueuing rfl (by simp [State.notifyOne, hm, Holder.rank,
      Enqueuing.rank])
  | stops h => exact h.measure_lt hj hne

theorem fails_of_connectSocket {c : Connect} (h : s.connectSocket c = some (false, s')) :
    Fails (J := J) (.work (.connect c)) := by
  rintro fd rfl
  simp only [State.connectSocket] at h
  split_ifs at h
  simp at h

theorem fails_of_rollback {r : SendResult} {batch : List (Item J)} {packet : List UInt8}
    {total : ℕ} (h : (lts o dump).step s (.work (.send r)) s')
    (hw : s.worker = .sending batch packet total) (hw' : s'.worker = .rollback batch true) :
    Fails (J := J) (.work (.send r)) := by
  rintro n rfl
  have hwork := work_of_step h
  simp only [State.work, hw, State.sendStep] at hwork
  split_ifs at hwork
  obtain rfl := Option.some.inj hwork
  cases hw'

/-- What is still to be done while the network does not fail: **every step lessens it**. -/
theorem measure_step (hb : 1 ≤ o.batchSize) (hs : (lts o dump).Reachable init s)
    (hr : s.m_running = false) (hne : s.worker ≠ .exited) (h : (lts o dump).step s l s')
    (hq : ∀ j, l ≠ .enqueue j) (hf : ¬ Fails l) : s'.measure < s.measure := by
  have hl := locked_reachable hs
  cases step_effect h with
  | quiet m r jn st hw =>
    exact (quiet_moves h hw rfl).measure_lt hr hl (joined_reachable hs) hne hq hf
  | popped hm | countedDrop hm | pushed hm =>
    refine measure_lt_of_enqueuing rfl ?_
    rw [hm]
    exact Nat.lt_succ_self _
  | take hw hq =>
    have hm : s.m_mutex = some .worker := hl.worker.2 (hw ▸ rfl)
    refine measure_lt_of_rank ?_ ?_ ?_
    · simp [State.takeBatch, State.outside, hm, Holder.rank]
    · have hqueue : (s.takeBatch o).m_queue = s.m_queue.drop (min o.batchSize s.m_queue.length) :=
        rfl
      rw [State.unsent, inFlight_takeBatch, hqueue, State.unsent, hw, Option.getD_some,
        List.length_drop, List.length_take]
      simp only [Pc.inFlight, Option.getD_none, List.length_nil]
      omega
    · unfold State.takeBatch
      split_ifs <;> simp [hw, Pc.rank]
  | connected hw | built hw | raised hw =>
    refine measure_lt_of_pc rfl rfl (hw ▸ rfl) ?_
    simp [hw, Pc.rank]
  | connectFailed hw hc => exact absurd (fails_of_connectSocket hc) hf
  | accepted hw hn hle =>
    refine State.measure_lt_iff.2 (Or.inr ⟨rfl, Or.inr ⟨?_, Or.inr ⟨?_, ?_⟩⟩⟩)
    · simp [State.unsent, State.write, hw, Pc.inFlight]
    · simp [hw, Pc.rank]
    · simp only [hw, Pc.missing]
      omega
  | sendFailed hw => exact absurd (fails_of_rollback h hw rfl) hf
  | @sent batch packet total hw hle =>
    have hpos := List.length_pos_iff.2 (batched_reachable hb hs batch (hw ▸ rfl))
    refine State.measure_lt_iff.2 (Or.inr ⟨rfl, Or.inl ?_⟩)
    simp only [State.unsent, hw, Pc.inFlight, Option.getD_none, Option.getD_some, List.length_nil]
    omega
  | counted hw | reconnected hw =>
    refine measure_lt_of_pc rfl rfl (hw ▸ rfl) ?_
    simp only [hw, Pc.rank]
    split_ifs <;> decide
  | @rolledBack batch afterSend hw =>
    refine measure_lt_of_rank rfl ?_ ?_
    · cases afterSend <;> simp [State.unsent, State.rollback, hw, Pc.inFlight, Nat.add_comm]
    · cases afterSend with
      | true => simp [State.rollback, hw, Pc.rank]
      | false =>
        simp only [State.rollback, hw, Pc.rank, Bool.false_eq_true, if_false]
        split_ifs <;> decide
  | closed hw =>
    obtain ⟨fd, conns, heq⟩ := closeSocket_eq s
    rw [heq]
    refine measure_lt_of_pc rfl rfl (hw ▸ rfl) ?_
    simp [hw, Pc.rank]
  | reconnectFailed hw hc => exact absurd (fails_of_connectSocket hc) hf
  | stopped hst => exact absurd ((joined_reachable hs).close hst) hne

/-! ### Progress -/

theorem step_of_work {r : Reply} (hw : ∀ b, s.worker ≠ .terminated b)
    (h : s.work o dump r = some s') : (lts o dump).step s (.work r) s' := by
  simp only [lts, ofFun_step, step]
  exact h

theorem exists_fresh (s : State J) : ∃ fd, s.Fresh fd := by
  obtain ⟨fd, hfd⟩ := Infinite.exists_notMem_finset (s.conns.map Conn.fd).toFinset
  refine ⟨fd, fun c hc _ heq => hfd ?_⟩
  rw [List.mem_toFinset, ← heq]
  exact List.mem_map_of_mem hc

/-- The worker can go on, unless a caller of `enqueue` has the lock; `send` need not be
interrupted. -/
theorem exists_work (hex : s.worker ≠ .exited) (hterm : ∀ b, s.worker ≠ .terminated b)
    (hl : Locked o s) (hm : ∀ e, s.m_mutex ≠ some (.producer e)) :
    ∃ r s', s.work o dump r = some s' ∧ r ≠ .send .eintr := by
  have hfree : s.worker.locked = false → s.m_mutex = none := by
    intro h
    cases hh : s.m_mutex with
    | none => rfl
    | some w =>
      cases w with
      | producer e => exact absurd hh (hm e)
      | worker => simp [hl.worker.1 hh] at h
  cases hw : s.worker with
  | exited => exact absurd hw hex
  | terminated b => exact absurd hw (hterm b)
  | test | testQueue | pred | block | count | closing =>
    refine ⟨.go, ?_⟩
    simp only [State.work, hw]
    exact ⟨_, rfl, by rintro ⟨⟩⟩
  | lock | woken | rollback =>
    refine ⟨.go, ?_⟩
    simp only [State.work, hw, hfree (hw ▸ rfl)]
    exact ⟨_, rfl, by rintro ⟨⟩⟩
  | blocked =>
    refine ⟨.wake true, ?_⟩
    simp only [State.work, hw]
    exact ⟨_, rfl, by rintro ⟨⟩⟩
  | ready =>
    refine ⟨.time true, ?_⟩
    simp only [State.work, hw]
    split_ifs <;> exact ⟨_, rfl, by rintro ⟨⟩⟩
  | connect | reconnect =>
    obtain ⟨fd, hfd⟩ := exists_fresh s
    refine ⟨.connect (.connected fd), ?_⟩
    simp only [State.work, hw, State.tryReconnect, State.connectSocket, if_pos hfd]
    exact ⟨_, rfl, by rintro ⟨⟩⟩
  | build =>
    refine ⟨.go, ?_⟩
    simp only [State.work, hw]
    split <;> exact ⟨_, rfl, by rintro ⟨⟩⟩
  | sending batch packet total =>
    by_cases hlt : total < packet.length
    · refine ⟨.send .error, ?_⟩
      simp only [State.work, hw, if_pos hlt]
      exact ⟨_, rfl, by rintro ⟨⟩⟩
    · refine ⟨.go, ?_⟩
      simp only [State.work, hw, if_neg hlt]
      exact ⟨_, rfl, by rintro ⟨⟩⟩

/-- A caller of `enqueue` that has the lock can go on, and comes closer to giving it back. -/
theorem exists_produce {e : Enqueuing J} (hl : Locked o s) (hm : s.m_mutex = some (.producer e)) :
    ∃ s', s.produce = some s' ∧ Holder.rank s'.m_mutex < e.rank := by
  have hfits := hl.producer e hm
  unfold State.produce
  rw [hm]
  cases e with
  | pop j =>
    obtain ⟨x, q, hq⟩ := List.exists_cons_of_ne_nil hfits.2
    exact ⟨s.popped x q j, by simp [State.popFront, hq], Nat.lt_succ_self 3⟩
  | count j => exact ⟨_, rfl, Nat.lt_succ_self 2⟩
  | push p j => exact ⟨_, rfl, Nat.lt_succ_self 1⟩
  | notify => exact ⟨_, rfl, Nat.lt_succ_self 0⟩

theorem step_of_produce (hterm : ∀ b, s.worker ≠ .terminated b) (h : s.produce = some s') :
    (lts o dump).step s .produce s' := by
  simp only [lts, ofFun_step, step]
  exact h

/-- Until the worker has left its loop, or an exception has left the worker, it can go on, or the
caller of `enqueue` with the lock can. -/
theorem can_step (hs : (lts o dump).Reachable init s) :
    s.worker = .exited ∨ (∃ b, s.worker = .terminated b) ∨
      ∃ l s', (l = .produce ∨ ∃ r, l = .work r) ∧ (lts o dump).step s l s' := by
  by_cases hex : s.worker = .exited
  · exact Or.inl hex
  by_cases hterm : ∃ b, s.worker = .terminated b
  · exact Or.inr (Or.inl hterm)
  push Not at hterm
  refine Or.inr (Or.inr ?_)
  have hl := locked_reachable hs
  by_cases hm : ∃ e, s.m_mutex = some (.producer e)
  · obtain ⟨e, hm⟩ := hm
    obtain ⟨s', h, -⟩ := exists_produce hl hm
    exact ⟨.produce, s', Or.inl rfl, step_of_produce hterm h⟩
  · push Not at hm
    obtain ⟨r, s', h, -⟩ : ∃ r s', s.work o dump r = some s' ∧ _ := exists_work hex hterm hl hm
    exact ⟨.work r, s', Or.inr ⟨r, rfl⟩, step_of_work hterm h⟩

theorem exists_stop (hex : s.worker = .exited) : ∃ s', (lts o dump).step s .stop s' := by
  simp only [lts, ofFun_step, step, hex, State.stop]
  split
  case h_3 => split_ifs <;> exact ⟨_, rfl⟩
  all_goals exact ⟨_, rfl⟩

theorem not_fails_of_exited (h : (lts o dump).step s l s') (hex : s.worker = .exited) :
    ¬ Fails l := by
  intro hf
  cases l with
  | work r =>
    have hwork := work_of_step h
    simp [State.work, hex] at hwork
  | _ => exact hf

section Path

variable {s₀ : State J}

theorem exited_from (p : (lts o dump).Path s₀) {K : ℕ} (hK : (p.st K).worker = .exited) :
    ∀ k, K ≤ k → (p.st k).worker = .exited := by
  intro k hk
  induction k, hk using Nat.le_induction with
  | base => exact hK
  | succ k _ ih => exact exited_step (p.step k) ih

/-- **The worker leaves its loop exactly if the network does not fail forever.**  From a state in
which `m_running` is false, somebody can take a step until the worker has left its loop, and then
the caller of `stop` can; and along every infinite run without `enqueue` calls the worker leaves
its loop if and only if from some point on no connection and no `send` fails. -/
theorem leaves_iff (hb : 1 ≤ o.batchSize) (hs : (lts o dump).Reachable init s₀)
    (hr : s₀.m_running = false) :
    (s₀.worker = .exited ∧ (∃ s', (lts o dump).step s₀ .stop s') ∨
      (∃ b, s₀.worker = .terminated b) ∨
      ∃ l s', (l = .produce ∨ ∃ r, l = .work r) ∧ (lts o dump).step s₀ l s') ∧
    ∀ p : (lts o dump).Path s₀, (∀ k j, p.lab k ≠ .enqueue j) →
      ((∃ k, (p.st k).worker = .exited) ↔ ∃ K, ∀ k, K ≤ k → ¬ Fails (p.lab k)) := by
  refine ⟨(can_step hs).imp_left fun hex => ⟨hex, exists_stop hex⟩, fun p hq => ⟨?_, ?_⟩⟩
  · rintro ⟨K, hK⟩
    exact ⟨K, fun k hk => not_fails_of_exited (p.step k) (exited_from p hK k hk)⟩
  · rintro ⟨K, hK⟩
    refine p.eventually_of_descent State.measure (·.worker = .exited) K ?_
    intro k hk hne
    have hrun : (p.st k).m_running = false :=
      p.invariant (I := (·.m_running = false)) hr (fun n => running_step (p.step n)) k
    exact measure_step hb (hs.trans (p.reachable k)) hrun hne (p.step k) (hq k) (hK k hk)

end Path

/-- `stop` has just cleared `m_running`; the queue is empty. -/
def stopped : State Bool := { init with m_running := false, stopper := .notify }

theorem stopped_reachable : (lts {} dumpBool).Reachable init stopped :=
  .next (l := .stop) .start rfl

theorem exists_leaving : ∃ p : (lts {} dumpBool).Path stopped,
    ∀ n, p.lab n = .work .go ∨ p.lab n = .stop := by
  let I : State Bool → Prop := fun s => s.m_running = false ∧ s.m_queue = [] ∧
    (s.worker = .test ∨ s.worker = .testQueue ∨ s.worker = .exited)
  have hstep : ∀ s, I s → ∃ l s', (lts {} dumpBool).step s l s' ∧
      (l = .work .go ∨ l = .stop) ∧ I s' := by
    rintro s ⟨hr, hq, hw | hw | hw⟩
    · refine ⟨.work .go, { s with worker := .testQueue }, ?_, Or.inl rfl, hr, hq,
        Or.inr (Or.inl rfl)⟩
      simp [lts, step, hw, State.work, hr]
    · refine ⟨.work .go, { s with worker := .exited }, ?_, Or.inl rfl, hr, hq,
        Or.inr (Or.inr rfl)⟩
      simp [lts, step, hw, State.work, hq]
    · obtain ⟨s', h⟩ : ∃ s', (lts {} dumpBool).step s .stop s' := exists_stop hw
      have hq' : s'.m_queue = s.m_queue := by
        cases step_effect h with
        | stopped hst =>
          obtain ⟨fd, conns, heq⟩ := closeSocket_eq s
          rw [heq]
        | quiet => rfl
      exact ⟨.stop, s', h, Or.inr rfl, running_step h hr, hq' ▸ hq,
        Or.inr (Or.inr (exited_step h hw))⟩
  have hstart : I stopped := ⟨rfl, rfl, Or.inl rfl⟩
  obtain ⟨p, hp⟩ :=
    Path.exists_of_invariant (C := fun _ (l : Label Bool) => l = .work .go ∨ l = .stop) hstart hstep
  exact ⟨p, fun n => (hp n).2⟩

/-- A run in which the network is not used. -/
theorem leaves_iff_empty :
    ∃ p : (lts {} dumpBool).Path stopped, ∃ k, (p.st k).worker = .exited := by
  obtain ⟨p, hp⟩ := exists_leaving
  refine ⟨p, ((leaves_iff (by decide) stopped_reachable rfl).2 p ?_).2 ⟨0, ?_⟩⟩
  · intro k j hj
    rcases hp k with h | h <;> cases h.symm.trans hj
  · intro k _
    rcases hp k with h | h <;> rw [h] <;> exact id

/-- Where the worker stands on its way around the loop with items it cannot send. -/
def Pc.AroundWith (queue : List (Item J)) (mutex : Option (Holder J)) : Pc J → Prop
  | .test | .testQueue | .lock => queue ≠ [] ∧ mutex = none
  | .pred | .ready => queue ≠ []
  | .connect b | .rollback b false => b ≠ [] ∧ mutex = none
  | _ => False

/-- The worker goes around the loop without a socket. -/
structure Around (s : State J) : Prop where
  running : s.m_running = false
  sockfd : s.m_sockfd < 0
  backoff : 0 ≤ s.m_currentBackoff ∧ s.m_currentBackoff < 2 ^ 30
  worker : s.worker.AroundWith s.m_queue s.m_mutex

theorem Around.work (hb : 1 ≤ o.batchSize) (hcap : 0 ≤ o.maxBackoffMs ∧ o.maxBackoffMs < 2 ^ 30)
    (hs : Around s) : ∃ r s', s.work o dump r = some s' ∧ Around s' := by
  obtain ⟨hr, hfd, hback, hw⟩ := hs
  cases hpc : s.worker with
  | test =>
    rw [hpc] at hw
    exact ⟨.go, { s with worker := .testQueue }, by simp [State.work, hpc, hr], hr, hfd, hback, hw⟩
  | testQueue =>
    rw [hpc] at hw
    exact ⟨.go, { s with worker := .lock }, by simp [State.work, hpc, hw.1], hr, hfd, hback, hw⟩
  | lock =>
    rw [hpc] at hw
    exact ⟨.go, { s with m_mutex := some .worker, worker := .pred },
      by simp [State.work, hpc, hw.2], hr, hfd, hback, hw.1⟩
  | pred =>
    rw [hpc] at hw
    exact ⟨.go, { s with worker := .ready }, by simp [State.work, hpc, hr], hr, hfd, hback, hw⟩
  | ready =>
    rw [hpc] at hw
    have hne : s.m_queue ≠ [] := hw
    have htake : (s.takeBatch o).worker =
        .connect (s.m_queue.take (min o.batchSize s.m_queue.length)) := if_pos hfd
    refine ⟨.time false, s.takeBatch o, by simp [State.work, hpc, hr, hne], hr, hfd, hback, ?_⟩
    have hpos := List.length_pos_iff.2 hne
    rw [htake]
    refine ⟨?_, rfl⟩
    rw [← List.length_pos_iff, List.length_take]
    omega
  | connect b =>
    rw [hpc] at hw
    refine ⟨.connect .socketFails, { ({ s with m_sockfd := -1 } : State J).backOff o with
      worker := .rollback b false }, ?_, hr, Int.negSucc_lt_zero 0, ?_, hw⟩
    · have hfits : FitsInt (s.m_currentBackoff * 2) := by
        unfold FitsInt
        omega
      simp [State.work, hpc, State.tryReconnect, State.connectSocket, hfits]
    · simp only [State.backOff]
      omega
  | rollback b afterSend =>
    rw [hpc] at hw
    cases afterSend with
    | true => exact hw.elim
    | false =>
      refine ⟨.go, s.rollback b false, by simp [State.work, hpc, hw.2], hr, hfd, hback, ?_, hw.2⟩
      rw [rollback_m_queue]
      exact fun h => hw.1 (List.append_eq_nil_iff.1 h).1
  | _ =>
    rw [hpc] at hw
    exact hw.elim

/-- If no socket can ever be created, the worker goes around the loop forever. -/
theorem Around.exists_path (hb : 1 ≤ o.batchSize)
    (hcap : 0 ≤ o.maxBackoffMs ∧ o.maxBackoffMs < 2 ^ 30) (hs : Around s) :
    ∃ p : (lts o dump).Path s, (∀ k j, p.lab k ≠ .enqueue j) ∧
      ∀ k, (p.st k).worker ≠ .exited := by
  have hstep : ∀ s, Around s →
      ∃ l s', (lts o dump).step s l s' ∧ (∀ j, l ≠ .enqueue j) ∧ Around s' := by
    intro s hs
    obtain ⟨r, s', hwork, hs'⟩ : ∃ r s', s.work o dump r = some s' ∧ _ := hs.work hb hcap
    refine ⟨.work r, s', step_of_work ?_ hwork, ?_, hs'⟩
    · intro b hterm
      have hw := hs.worker
      rw [hterm] at hw
      exact hw
    · rintro j ⟨⟩
  obtain ⟨p, hp⟩ :=
    Path.exists_of_invariant (C := fun _ (l : Label J) => ∀ j, l ≠ .enqueue j) hs hstep
  refine ⟨p, fun k => (hp k).2, fun k hex => ?_⟩
  have hw := (hp k).1.worker
  rw [hex] at hw
  exact hw

/-- One item, `stop`, and no socket. -/
theorem not_leaves : ¬ ∀ (s : State Bool) (p : (lts {} dumpBool).Path s),
    (lts {} dumpBool).Reachable init s → s.m_running = false → (∀ k j, p.lab k ≠ .enqueue j) →
      ∃ k, (p.st k).worker = .exited := by
  intro hclaim
  obtain ⟨s, hs, hr, hfd, hback, hw, hq, hm⟩ := Run.exists_reachable (step {} dumpBool) init
    [.enqueue true, .produce, .produce, .stop]
    (fun s => s.m_running = false ∧ s.m_sockfd < 0 ∧
      (0 ≤ s.m_currentBackoff ∧ s.m_currentBackoff < 2 ^ 30) ∧ s.worker = .test ∧ s.m_queue ≠ [] ∧
      s.m_mutex = none) (by decide)
  have haround : Around s := ⟨hr, hfd, hback, hw ▸ ⟨hq, hm⟩⟩
  obtain ⟨p, hp, hne⟩ : ∃ p : (lts {} dumpBool).Path s, (∀ k j, p.lab k ≠ .enqueue j) ∧
      ∀ k, (p.st k).worker ≠ .exited := haround.exists_path (by decide) (by decide)
  obtain ⟨k, hk⟩ := hclaim s p hs hr hp
  exact hne k hk

end Sender

end LiteMonitor
