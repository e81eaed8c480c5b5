import LiteMonitor.RingBuffer.Refinement
import LiteMonitor.Threads.Count
import Mathlib.Data.Fintype.Basic

/-!
# Threads in the ring buffer

The calls of `push`, `pop` and `stop` by finitely many threads, at the level of the mutex and
the condition variables.  A thread locks `mtx_`, evaluates the predicate of its `wait`, and
then either releases the mutex and enters the wait set in one step, or runs its critical
section and unlocks; it calls `notify_one` in a later step.  `stop` sets the flag under the
mutex and calls the two `notify_all` afterwards, one after the other.  A blocked thread may
wake up spuriously at any time, and a woken thread locks the mutex again and re-evaluates its
predicate.

* `RingBuffer.Shared` : the buffer, the owner of the mutex and the location of every thread.
* `RingBuffer.threads` : the interleavings, as a transition system.
* `RingBuffer.run_threads` : their critical sections form a run of `RingBuffer.lts`; so the
  threads too see a bounded queue (`RingBuffer.threads_fifo`).
-/

namespace LiteMonitor

namespace RingBuffer

/-- The two condition variables. -/
inductive CondVar where
  | not_full_cv_
  | not_empty_cv_
  deriving DecidableEq

/-- A call that may wait. -/
inductive Call (α : Type*) where
  | push (x : α)
  | pop

/-- The locations of a thread. -/
inductive Loc (α : Type*) where
  /-- Outside of the buffer. -/
  | idle
  /-- About to lock `mtx_` for the first time. -/
  | enter (c : Call α)
  /-- Owns `mtx_`, about to evaluate the predicate of the `wait`; `again` after a wake-up. -/
  | check (c : Call α) (again : Bool)
  /-- In the wait set, not notified. -/
  | blocked (c : Call α)
  /-- Removed from the wait set, about to lock `mtx_` again. -/
  | woken (c : Call α)
  /-- Has unlocked `mtx_`, about to call `notify_one`. -/
  | notify (c : Call α)
  /-- In `stop`, about to lock `mtx_`. -/
  | stopEnter
  /-- In `stop`, owns `mtx_`, about to set the flag. -/
  | stopSet
  /-- In `stop`, about to call `not_empty_cv_.notify_all()`. -/
  | stopNotifyEmpty
  /-- In `stop`, about to call `not_full_cv_.notify_all()`. -/
  | stopNotifyFull

/-- The steps of the threads. -/
inductive Act (ι α : Type*) where
  /-- Thread `t` calls `push` or `pop`. -/
  | call (t : ι) (c : Call α)
  /-- Thread `t` calls `stop`. -/
  | callStop (t : ι)
  /-- Thread `t` locks the mutex. -/
  | lock (t : ι)
  /-- Thread `t`, which owns the mutex, runs to the next release of it. -/
  | critical (t : ι)
  /-- Thread `t` calls `notify_one`, which picks `target` from the wait set, if it has one. -/
  | notifyOne (t : ι) (target : Option ι)
  /-- Thread `t`, in `stop`, calls its next `notify_all`. -/
  | notifyAll (t : ι)
  /-- Thread `t` wakes up without being notified. -/
  | spurious (t : ι)

variable {ι α : Type*}

/-- The thread that takes the step. -/
def Act.actor : Act ι α → ι
  | .call t _ | .callStop t | .lock t | .critical t | .notifyOne t _ | .notifyAll t
  | .spurious t => t

/-- The condition variable a call waits on. -/
def Call.waitsOn : Call α → CondVar
  | .push _ => .not_full_cv_
  | .pop => .not_empty_cv_

/-- The condition variable a call notifies. -/
def Call.signals : Call α → CondVar
  | .push _ => .not_empty_cv_
  | .pop => .not_full_cv_

/-- The thread is in the wait set of `cv`. -/
def Loc.blockedOn (cv : CondVar) : Loc α → Bool
  | .blocked c => c.waitsOn = cv
  | _ => false

/-- The thread was woken from the wait set of `cv` and has not re-evaluated its predicate. -/
def Loc.wokenFrom (cv : CondVar) : Loc α → Bool
  | .woken c => c.waitsOn = cv
  | .check c again => again && c.waitsOn = cv
  | _ => false

/-- The thread is between `unlock` and its `notify_one` of `cv`. -/
def Loc.signalling (cv : CondVar) : Loc α → Bool
  | .notify c => c.signals = cv
  | _ => false

/-- The thread is in `stop` and still has to call `notify_all` of `cv`. -/
def Loc.stopping (cv : CondVar) : Loc α → Bool
  | .stopNotifyEmpty => true
  | .stopNotifyFull => cv = .not_full_cv_
  | _ => false

/-- The thread owns the mutex. -/
def Loc.holds : Loc α → Bool
  | .check _ _ | .stopSet => true
  | _ => false

/-- Where a thread waiting for the mutex continues once it owns it. -/
def Loc.locked : Loc α → Option (Loc α)
  | .enter c => some (.check c false)
  | .woken c => some (.check c true)
  | .stopEnter => some .stopSet
  | _ => none

/-- The thread is inside of the buffer and not in a wait set. -/
def Loc.active : Loc α → Bool
  | .idle | .blocked _ => false
  | _ => true

/-- `notify_all` of `cv`, for one thread. -/
def Loc.wake (cv : CondVar) : Loc α → Loc α
  | .blocked c => if c.waitsOn = cv then .woken c else .blocked c
  | l => l

/-- The shared state: the buffer, the owner of `mtx_` and the locations of the threads. -/
structure Shared (ι α : Type*) where
  ring : RingBuffer α
  mtx_ : Option ι
  pc : ι → Loc α

/-- A new buffer, before any call. -/
def Shared.init (ι : Type*) (r : RingBuffer α) : Shared ι α := ⟨r, none, fun _ => .idle⟩

section Steps

variable [Inhabited α]

/-- The critical section of a call: whether it goes on to notify, and the buffer.  It is
`none` while the predicate of the `wait` is false. -/
def runCall (r : RingBuffer α) : Call α → Option (Bool × RingBuffer α)
  | .push x => r.push x
  | .pop => r.pop.map fun p => (p.1.isSome, p.2)

variable [DecidableEq ι] [Fintype ι]

/-- One step of one thread. -/
def threadStep (s : Shared ι α) : Act ι α → Option (Shared ι α)
  | .call t c => match s.pc t with
    | .idle => some { s with pc := Function.update s.pc t (.enter c) }
    | _ => none
  | .callStop t => match s.pc t with
    | .idle => some { s with pc := Function.update s.pc t .stopEnter }
    | _ => none
  | .lock t => match s.mtx_, (s.pc t).locked with
    | none, some l => some ⟨s.ring, some t, Function.update s.pc t l⟩
    | _, _ => none
  | .critical t => match s.pc t with
    -- the predicate holds and the section runs, or the thread unlocks and waits in one step
    | .check c _ => match runCall s.ring c with
      | some (true, r) => some ⟨r, none, Function.update s.pc t (.notify c)⟩
      | some (false, r) => some ⟨r, none, Function.update s.pc t .idle⟩
      | none => some ⟨s.ring, none, Function.update s.pc t (.blocked c)⟩
    | .stopSet => some ⟨s.ring.stop, none, Function.update s.pc t .stopNotifyEmpty⟩
    | _ => none
  | .notifyOne t target => match s.pc t with
    -- any thread of the wait set may be picked, and one must be unless the set is empty
    | .notify c => match target with
      | some u =>
        if (s.pc u).blockedOn c.signals then
          some { s with
            pc := Function.update (Function.update s.pc t .idle) u ((s.pc u).wake c.signals) }
        else none
      | none =>
        if ∀ u, (s.pc u).blockedOn c.signals = false then
          some { s with pc := Function.update s.pc t .idle }
        else none
    | _ => none
  | .notifyAll t => match s.pc t with
    | .stopNotifyEmpty => some { s with
        pc := Function.update (fun u => (s.pc u).wake .not_empty_cv_) t .stopNotifyFull }
    | .stopNotifyFull => some { s with
        pc := Function.update (fun u => (s.pc u).wake .not_full_cv_) t .idle }
    | _ => none
  | .spurious t => match s.pc t with
    | .blocked c => some { s with pc := Function.update s.pc t (.woken c) }
    | _ => none

/-- The interleavings of the threads. -/
def threads (ι α : Type*) [Inhabited α] [DecidableEq ι] [Fintype ι] :
    LTS (Shared ι α) (Act ι α) := .ofFun threadStep

/-- What one step can do. -/
inductive Move (s : Shared ι α) : Shared ι α → Prop
  | enter {t : ι} {c : Call α} : s.pc t = .idle →
      Move s { s with pc := Function.update s.pc t (.enter c) }
  | enterStop {t : ι} : s.pc t = .idle →
      Move s { s with pc := Function.update s.pc t .stopEnter }
  | lock {t : ι} {l : Loc α} : s.mtx_ = none → (s.pc t).locked = some l →
      Move s ⟨s.ring, some t, Function.update s.pc t l⟩
  | wait {t : ι} {c : Call α} {again : Bool} : s.pc t = .check c again →
      runCall s.ring c = none → Move s ⟨s.ring, none, Function.update s.pc t (.blocked c)⟩
  | finish {t : ι} {c : Call α} {again : Bool} {r : RingBuffer α} : s.pc t = .check c again →
      runCall s.ring c = some (true, r) → Move s ⟨r, none, Function.update s.pc t (.notify c)⟩
  | leave {t : ι} {c : Call α} {again : Bool} {r : RingBuffer α} : s.pc t = .check c again →
      runCall s.ring c = some (false, r) → Move s ⟨r, none, Function.update s.pc t .idle⟩
  | setStop {t : ι} : s.pc t = .stopSet →
      Move s ⟨s.ring.stop, none, Function.update s.pc t .stopNotifyEmpty⟩
  | notify {t u : ι} {c : Call α} : s.pc t = .notify c →
      (s.pc u).blockedOn c.signals = true →
      Move s { s with
        pc := Function.update (Function.update s.pc t .idle) u ((s.pc u).wake c.signals) }
  | notifyNone {t : ι} {c : Call α} : s.pc t = .notify c →
      (∀ u, (s.pc u).blockedOn c.signals = false) →
      Move s { s with pc := Function.update s.pc t .idle }
  | notifyAllEmpty {t : ι} : s.pc t = .stopNotifyEmpty →
      Move s { s with
        pc := Function.update (fun u => (s.pc u).wake .not_empty_cv_) t .stopNotifyFull }
  | notifyAllFull {t : ι} : s.pc t = .stopNotifyFull →
      Move s { s with pc := Function.update (fun u => (s.pc u).wake .not_full_cv_) t .idle }
  | spurious {t : ι} {c : Call α} : s.pc t = .blocked c →
      Move s { s with pc := Function.update s.pc t (.woken c) }

theorem threadStep_move {s s' : Shared ι α} {a : Act ι α} (h : threadStep s a = some s') :
    Move s s' := by
  cases a with
  | call t c =>
    simp only [threadStep] at h
    split at h <;> cases h
    exact .enter ‹_›
  | callStop t =>
    simp only [threadStep] at h
    split at h <;> cases h
    exact .enterStop ‹_›
  | lock t =>
    simp only [threadStep] at h
    split at h <;> cases h
    exact .lock ‹_› ‹_›
  | critical t =>
    simp only [threadStep] at h
    split at h
    · split at h <;> cases h
      · exact .finish ‹_› ‹_›
      · exact .leave ‹_› ‹_›
      · exact .wait ‹_› ‹_›
    · cases h
      exact .setStop ‹_›
    · simp at h
  | notifyOne t target =>
    simp only [threadStep] at h
    split at h
    · cases target with
      | some u =>
        obtain ⟨hu, rfl⟩ := by simpa only [Option.ite_none_right_eq_some, Option.some.injEq] using h
        exact .notify ‹_› hu
      | none =>
        obtain ⟨hu, rfl⟩ := by simpa only [Option.ite_none_right_eq_some, Option.some.injEq] using h
        exact .notifyNone ‹_› hu
    · simp at h
  | notifyAll t =>
    simp only [threadStep] at h
    split at h <;> cases h
    · exact .notifyAllEmpty ‹_›
    · exact .notifyAllFull ‹_›
  | spurious t =>
    simp only [threadStep] at h
    split at h <;> cases h
    exact .spurious ‹_›

/-- The operation of the buffer a step carries out, if it runs a critical section that does
not end in the wait set. -/
def ringOp (s : Shared ι α) : Act ι α → Option (Fifo.Op α)
  | .critical t => match s.pc t with
    | .check (.push x) _ => (s.ring.push x).map fun p => .push x p.1
    | .check .pop _ => s.ring.pop.map fun p => .pop p.1
    | .stopSet => some .close
    | _ => none
  | _ => none

/-- A step carries out its operation on the buffer, or leaves the buffer alone. -/
theorem threadStep_ring {s s' : Shared ι α} {a : Act ι α} (h : threadStep s a = some s') :
    (lts α).stutter s.ring (ringOp s a) s'.ring := by
  cases a with
  | critical t =>
    simp only [threadStep] at h
    cases hpc : s.pc t with
    | check c again =>
      cases c with
      | push x =>
        rcases hp : s.ring.push x with _ | ⟨ok, r⟩
        · simp only [hpc, runCall, hp, Option.some.injEq] at h
          simp [ringOp, hpc, hp, LTS.stutter, ← h]
        · cases ok <;> simp only [hpc, runCall, hp, Option.some.injEq] at h <;>
            simp [ringOp, hpc, hp, LTS.stutter, lts, ← h]
      | pop =>
        rcases hp : s.ring.pop with _ | ⟨result, r⟩
        · simp only [hpc, runCall, hp, Option.map_none, Option.some.injEq] at h
          simp [ringOp, hpc, hp, LTS.stutter, ← h]
        · cases result <;>
            simp only [hpc, runCall, hp, Option.map_some, Option.isSome_some,
              Option.isSome_none, Option.some.injEq] at h <;>
            simp [ringOp, hpc, hp, LTS.stutter, lts, ← h]
    | stopSet =>
      simp only [hpc, Option.some.injEq] at h
      simp [ringOp, hpc, LTS.stutter, lts, ← h]
    | _ => simp [hpc] at h
  | call t c | callStop t | lock t | spurious t | notifyAll t =>
    simp only [threadStep] at h
    split at h <;> simp only [Option.some.injEq, reduceCtorEq] at h <;>
      simp [ringOp, LTS.stutter, ← h]
  | notifyOne t target =>
    simp only [threadStep] at h
    split at h
    · cases target <;> simp only [Option.ite_none_right_eq_some, Option.some.injEq] at h <;>
        simp [ringOp, LTS.stutter, ← h.2]
    · simp at h

theorem run_threads {s₀ s : Shared ι α} {tr : List (Shared ι α × Act ι α)}
    (h : (threads ι α).Run s₀ tr s) :
    (lts α).Run s₀.ring (LTS.Run.mapSteps Shared.ring ringOp tr) s.ring :=
  h.map fun _ hst => threadStep_ring hst

/-- **The threads share a bounded queue**: the items of their successful pushes, in the order
of the critical sections, are the items popped followed by those in the buffer. -/
theorem threads_fifo {capacity : ℕ} {r : RingBuffer α} {s : Shared ι α}
    {tr : List (Shared ι α × Act ι α)} (h₀ : new capacity = some r)
    (h : (threads ι α).Run (.init ι r) tr s) :
    Fifo.accepted (LTS.Run.mapSteps Shared.ring ringOp tr) =
      Fifo.delivered (LTS.Run.mapSteps Shared.ring ringOp tr) ++ s.ring.contents := by
  have hwf := wellFormed_new h₀
  have hrun := run_toFifo hwf (run_threads h)
  change (Fifo.lts α r.capacity_).Run r.toFifo _ _ at hrun
  rw [toFifo_new h₀] at hrun
  have hacc := Fifo.accepted_eq hrun
  rwa [accepted_mapSteps, delivered_mapSteps] at hacc

end Steps

end RingBuffer

end LiteMonitor
