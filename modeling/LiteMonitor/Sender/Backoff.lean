import LiteMonitor.Retry.Backoff
import LiteMonitor.Sender.Waiting

/-!
# The backoff of the sender

`tryReconnect` sleeps for `m_currentBackoff` milliseconds after a failure and then doubles it, at
most up to `maxBackoffMs`; a batch that is sent sets it back to 500.

* `failsToConnect l` : `tryReconnect` fails and sleeps; `sleeps x` : for how long.
* `sendSucceeds x` : `run` counts a batch and resets the backoff.
* `backoff_run` : `m_currentBackoff` is the `delay` of the failures since the last batch.
* `Attempts o dump tr` : the steps of a run, and possibly a failure whose product overflows.
* `backoffLimits_iff` : **when the backoff stays within its limits.**
-/

namespace LiteMonitor

namespace Sender

open LTS Backoff

variable {J : Type*} {o : Options} {dump : J → Except JsonError (List Char)} {s s' : State J}
  {l : Label J} {tr : List (State J × Label J)}

/-- `connectSocket` fails in this step. -/
def Label.failsToConnect : Label J → Bool
  | .work (.connect (.connected _)) => false
  | .work (.connect _) => true
  | _ => false

/-- `tryReconnect` fails in this step, and sleeps. -/
def failsToConnect (x : State J × Label J) : Bool := x.2.failsToConnect

/-- The milliseconds that a failing `tryReconnect` sleeps. -/
def sleeps (x : State J × Label J) : ℤ := x.1.m_currentBackoff

/-- A batch that was sent is counted, and the backoff is reset. -/
def sendSucceeds (x : State J × Label J) : Bool :=
  match x.1.worker, x.2 with
  | .count _, .work .go => true
  | _, _ => false

theorem not_sendSucceeds {x : State J × Label J} (h : failsToConnect x = true) :
    sendSucceeds x = false := by
  obtain ⟨s, l⟩ := x
  unfold sendSucceeds
  split
  · rename_i hl
    rw [failsToConnect, hl] at h
    cases h
  · rfl

theorem failsToConnect_of_socket {c : Connect} (h : s.connectSocket c = some (false, s')) :
    Label.failsToConnect (J := J) (.work (.connect c)) = true := by
  cases c with
  | connected fd =>
    simp only [State.connectSocket] at h
    split_ifs at h
    simp at h
  | _ => rfl

/-- The failures of `connect` since the last batch was sent. -/
abbrev failures (tr : List (State J × Label J)) : ℕ := streak failsToConnect sendSucceeds tr

/-- What a step does to the backoff. -/
def BackoffStep (o : Options) (s : State J) (l : Label J) (s' : State J) : Prop :=
  s'.m_currentBackoff = if sendSucceeds (s, l) then 500
    else if l.failsToConnect then min (s.m_currentBackoff * 2) o.maxBackoffMs
    else s.m_currentBackoff

theorem BackoffStep.of_keep (hs : sendSucceeds (s, l) = false) (hf : l.failsToConnect = false)
    (heq : s'.m_currentBackoff = s.m_currentBackoff) : BackoffStep o s l s' := by
  simp only [BackoffStep, hs, hf, heq, Bool.false_eq_true, if_false]

theorem BackoffStep.of_fail {c : Connect} {s₁ : State J}
    (hc : s.connectSocket c = some (false, s₁))
    (heq : s'.m_currentBackoff = (s₁.backOff o).m_currentBackoff) :
    BackoffStep o s (.work (.connect c)) s' := by
  have hf := failsToConnect_of_socket hc
  have hs : sendSucceeds (s, .work (.connect c)) = false :=
    not_sendSucceeds (x := (s, .work (.connect c))) hf
  obtain ⟨fd, conns, rfl⟩ := connectSocket_eq hc
  simp only [BackoffStep, hs, hf, heq, State.backOff, Bool.false_eq_true, if_false, if_true]

theorem Moves.backoff (h : Moves o s l s') : BackoffStep o s l s' := by
  cases h with
  | waits h =>
    cases h with
    | enter hw | stopping hw | drain hw | exit hw | lock hw | pass hw | fail hw | block hw
    | wake hw | relock hw | back hw =>
      exact .of_keep (by simp [sendSucceeds, hw]) rfl rfl
  | eintr | full | fits | notifyOne => exact .of_keep (by simp [sendSucceeds]) rfl rfl
  | stops h =>
    refine .of_keep (by simp [sendSucceeds]) rfl ?_
    cases h with
    | clear | notify | join | joined => rfl
    | close =>
      obtain ⟨fd, conns, heq⟩ := closeSocket_eq s
      rw [heq]

/-- **The backoff is doubled by a failure, up to the cap, and reset by a batch that is sent.** -/
theorem backoff_step (h : (lts o dump).step s l s') : BackoffStep o s l s' := by
  cases step_effect h with
  | quiet m r jn st hw => exact (quiet_moves h hw rfl).backoff
  | connectFailed hw hc | reconnectFailed hw hc => exact .of_fail hc rfl
  | counted hw => simp [BackoffStep, sendSucceeds, hw]
  | closed hw =>
    obtain ⟨fd, conns, heq⟩ := closeSocket_eq s
    rw [heq]
    exact .of_keep (by simp [sendSucceeds, hw]) rfl rfl
  | stopped =>
    obtain ⟨fd, conns, heq⟩ := closeSocket_eq s
    rw [heq]
    exact .of_keep (by simp [sendSucceeds]) rfl rfl
  | popped | countedDrop | pushed => exact .of_keep (by simp [sendSucceeds]) rfl rfl
  | connected hw | reconnected hw | take hw | built hw | raised hw | accepted hw | sendFailed hw
  | sent hw | rolledBack hw => exact .of_keep (by simp [sendSucceeds, hw]) rfl rfl

/-- `m_currentBackoff` is what the failures since the last batch make of it. -/
theorem backoff_run (h : (lts o dump).Run init tr s) :
    s.m_currentBackoff = delay 500 o.maxBackoffMs (failures tr) := by
  refine h.invariant (I := fun tr s => s.m_currentBackoff =
    delay 500 o.maxBackoffMs (streak failsToConnect sendSucceeds tr)) rfl ?_
  intro tr s l s' _ hs hst
  have hstep := backoff_step hst
  rw [hstep, hs, streak_snoc, streakStep]
  cases sendSucceeds (s, l) <;> cases hf : l.failsToConnect <;>
    simp [failsToConnect, hf, delay]

/-- The steps of a run, and possibly a last one, in which `tryReconnect` fails and sleeps, whether
the product behind the sleep can be formed or not. -/
inductive Attempts (o : Options) (dump : J → Except JsonError (List Char)) :
    List (State J × Label J) → Prop
  | run {tr : List (State J × Label J)} {s : State J} (h : (lts o dump).Run init tr s) :
      Attempts o dump tr
  | fails {tr : List (State J × Label J)} {s s₁ : State J} {c : Connect}
      (h : (lts o dump).Run init tr s) (hw : s.worker = .reconnect ∨ ∃ b, s.worker = .connect b)
      (hc : s.connectSocket c = some (false, s₁)) :
      Attempts o dump (tr ++ [(s, .work (.connect c))])

theorem follows_run (h : (lts o dump).Run init tr s) :
    Follows failsToConnect sendSucceeds 500 o.maxBackoffMs sleeps tr := by
  rintro a x b rfl -
  exact backoff_run h.front

theorem Attempts.follows (h : Attempts o dump tr) :
    Follows failsToConnect sendSucceeds 500 o.maxBackoffMs sleeps tr := by
  cases h with
  | run h => exact follows_run h
  | fails h hw hc => exact (follows_run h).snoc fun _ => backoff_run h

theorem delay_doubles_iff {cap : ℤ} (hcap : 500 ≤ cap) (k : ℕ) :
    delay 500 cap k * 2 < 2 ^ 31 ↔ cap < 2 ^ 30 ∨ k < 22 := by
  rw [delay_eq_min (by decide) hcap]
  constructor
  · intro h
    by_contra hc
    push Not at hc
    have hpow : (500 : ℤ) * 2 ^ 22 ≤ 500 * 2 ^ k :=
      mul_le_mul_of_nonneg_left (pow_le_pow_right₀ (by decide) hc.2) (by decide)
    have hmin := le_min (le_trans (by decide) hpow) hc.1
    omega
  · rintro (h | h)
    · have hle := min_le_right ((500 : ℤ) * 2 ^ k) cap
      omega
    · have hpow : (500 : ℤ) * 2 ^ k ≤ 500 * 2 ^ 21 :=
        mul_le_mul_of_nonneg_left (pow_le_pow_right₀ (by decide) (by omega)) (by decide)
      have hle := min_le_left ((500 : ℤ) * 2 ^ k) cap
      omega

/-- **When the backoff stays within its limits**: every sleep of a run is positive and at most
`maxBackoffMs`, its double fits into 32 bits, and the sleeps do not decrease between two batches
that are sent, if and only if, at every failure to connect, `maxBackoffMs` is at least 500, and
it is below `2 ^ 30` or fewer than 22 failures came before this one since the last batch.  The last
of the failures may be one whose double overflows. -/
theorem backoffLimits_iff (h : Attempts o dump tr) :
    WithinLimits failsToConnect sendSucceeds o.maxBackoffMs (2 ^ 31) sleeps tr ↔
      ∀ a x b, tr = a ++ x :: b → failsToConnect x = true →
        500 ≤ o.maxBackoffMs ∧ (o.maxBackoffMs < 2 ^ 30 ∨ failures a < 22) := by
  rw [h.follows.withinLimits_iff (by decide) fun x => not_sendSucceeds]
  refine forall₅_congr fun a x b _ _ => and_congr_right fun hcap => ?_
  exact delay_doubles_iff hcap _

/-- A batch is taken, and no socket can be created. -/
def failOnce : List (Label Bool) :=
  [.enqueue true, .produce, .produce, .work .go, .work .go, .work .go, .work (.time true),
    .work (.connect .socketFails)]

/-- One failure under the default options. -/
theorem backoffLimits_iff_once : ∃ tr s, (lts {} dumpBool).Run init tr s ∧ failures tr = 1 ∧
    WithinLimits failsToConnect sendSucceeds 8000 (2 ^ 31) sleeps tr := by
  obtain ⟨tr, s, hrun, hf⟩ := Run.exists_of_trace (step {} dumpBool) init failOnce
    (fun tr _ => failures tr = 1) (by decide)
  refine ⟨tr, s, hrun, hf, (backoffLimits_iff (.run hrun)).2 ?_⟩
  exact fun _ _ _ _ _ => ⟨by decide, Or.inl (by decide)⟩

/-- With a cap of 100 milliseconds the first failure sleeps 500. -/
theorem not_withinLimits : ¬ ∀ (o : Options) (tr : List (State Bool × Label Bool)) (s : State Bool),
    1 ≤ o.maxBackoffMs → o.maxBackoffMs < 2 ^ 31 → (lts o dumpBool).Run init tr s →
      WithinLimits failsToConnect sendSucceeds o.maxBackoffMs (2 ^ 31) sleeps tr := by
  intro hclaim
  obtain ⟨tr, s, hrun, x, hx, hf, hlong⟩ := Run.exists_of_trace
    (step { maxBackoffMs := 100 } dumpBool) init failOnce
    (fun tr _ => ∃ x ∈ tr, failsToConnect x = true ∧ sleeps x = 500) (by decide)
  have hle := ((hclaim _ tr s (by decide) (by decide) hrun).range x hx hf).2.1
  rw [hlong] at hle
  exact absurd hle (by decide)

end Sender

end LiteMonitor
