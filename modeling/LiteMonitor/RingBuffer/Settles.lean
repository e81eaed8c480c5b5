import Mathlib
import LiteMonitor.RingBuffer.WakeUp
import LiteMonitor.LTS.Path

/-!
# The calls of the ring buffer settle

As long as no thread makes a new call and no thread wakes up spuriously, the threads in the buffer
run out of steps: a thread that waits is woken at most once for every `notify_one` or `notify_all`
still to come.  When they have, every call has returned, or waits for something it cannot have.

* `Act.progresses` : the steps other than a new call and a spurious wake-up.
* `measure` : how many of them there can still be; `measure_lt` : each makes it smaller.
* `Settled` : every thread is outside or waits with its predicate false.
* `calls_settle` : **the calls settle, in every interleaving**; after `stop` they all return.
-/

namespace LiteMonitor

namespace RingBuffer

open Threads

variable {ι α : Type*}

/-- A step of a thread that has been called and does not wait. -/
def Act.progresses : Act ι α → Bool
  | .call _ _ | .callStop _ | .spurious _ => false
  | _ => true

/-- How far a thread still has to go, among `n` threads: a `notify_one` wakes one thread and a
`notify_all` at most all of them, and a woken thread may wait once more. -/
def Loc.rank (n : ℕ) : Loc α → ℕ
  | .idle => 0
  | .notify _ | .blocked _ => 3
  | .check _ _ => 4
  | .woken _ | .enter _ => 5
  | .stopNotifyFull => 2 * n + 1
  | .stopNotifyEmpty => 4 * n + 2
  | .stopSet => 4 * n + 3
  | .stopEnter => 4 * n + 4

/-- Every thread is outside, or waits while the predicate of its `wait` is false. -/
def Settled (s : Shared ι α) : Prop :=
  ∀ t, s.pc t = .idle ∨ ∃ c, s.pc t = .blocked c ∧ ready c.waitsOn s.ring = false

/-- How many steps the threads can still take by themselves. -/
def measure [Fintype ι] (s : Shared ι α) : ℕ :=
  Finset.univ.sum fun t => (s.pc t).rank (Fintype.card ι)

/-! ### The measure -/

theorem Loc.rank_locked {l l' : Loc α} (n : ℕ) (h : l.locked = some l') :
    l'.rank n < l.rank n := by
  cases l <;> simp only [Loc.locked, Option.some.injEq, reduceCtorEq] at h <;>
    subst h <;> simp only [Loc.rank] <;> omega

theorem Loc.rank_wake (n : ℕ) (cv : CondVar) (l : Loc α) : (l.wake cv).rank n ≤ l.rank n + 2 := by
  cases l with
  | blocked c =>
    simp only [Loc.wake]
    split_ifs <;> simp [Loc.rank]
  | _ => exact Nat.le_add_right _ 2

section Measure

variable [Fintype ι] [DecidableEq ι] {s s' : Shared ι α}

theorem measure_update {pc : ι → Loc α} {t : ι} {l : Loc α}
    (hpc : s'.pc = Function.update pc t l) :
    measure s' + (pc t).rank (Fintype.card ι) =
      (Finset.univ.sum fun u => (pc u).rank (Fintype.card ι)) + l.rank (Fintype.card ι) := by
  rw [measure, hpc]
  exact sum_update (Loc.rank (Fintype.card ι)) pc t l

theorem measure_lt_of_update {t : ι} {l l' : Loc α} (ht : s.pc t = l)
    (hpc : s'.pc = Function.update s.pc t l')
    (hlt : l'.rank (Fintype.card ι) < l.rank (Fintype.card ι)) : measure s' < measure s := by
  have hsum := measure_update hpc
  rw [ht] at hsum
  change _ = measure s + _ at hsum
  omega

theorem measure_lt_of_wake {t : ι} {l l' : Loc α} {cv : CondVar} (ht : s.pc t = l)
    (hl : l.wake cv = l) (hpc : s'.pc = Function.update (fun u => (s.pc u).wake cv) t l')
    (hlt : l'.rank (Fintype.card ι) + 2 * Fintype.card ι < l.rank (Fintype.card ι)) :
    measure s' < measure s := by
  have hsum := measure_update hpc
  have hle : (Finset.univ.sum fun u => ((s.pc u).wake cv).rank (Fintype.card ι)) ≤
      Finset.univ.sum fun u => (s.pc u).rank (Fintype.card ι) + 2 :=
    Finset.sum_le_sum fun u _ => Loc.rank_wake _ cv (s.pc u)
  rw [Finset.sum_add_distrib, Finset.sum_const_nat fun _ _ => rfl, Finset.card_univ] at hle
  rw [ht, hl] at hsum
  change _ ≤ measure s + _ at hle
  omega

/-- A thread notifies another one, which may wait once more. -/
theorem measure_lt_of_notify {t u : ι} {c : Call α} (ht : s.pc t = .notify c)
    (hu : (s.pc u).blockedOn c.signals = true) :
    measure { s with
      pc := Function.update (Function.update s.pc t .idle) u ((s.pc u).wake c.signals) } <
        measure s := by
  have hut : u ≠ t := by
    rintro rfl
    rw [ht] at hu
    cases hu
  let s₁ : Shared ι α := { s with pc := Function.update s.pc t .idle }
  let s₂ : Shared ι α := { s with pc := Function.update s₁.pc u ((s.pc u).wake c.signals) }
  have hu₁ : s₁.pc u = s.pc u := Function.update_of_ne hut ..
  have hsum₁ : measure s₁ + (s.pc t).rank (Fintype.card ι) =
      measure s + (Loc.idle : Loc α).rank (Fintype.card ι) := measure_update rfl
  have hsum₂ : measure s₂ + (s₁.pc u).rank (Fintype.card ι) =
      measure s₁ + ((s.pc u).wake c.signals).rank (Fintype.card ι) := measure_update rfl
  have hle := Loc.rank_wake (Fintype.card ι) c.signals (s.pc u)
  have hranks : (Loc.notify c).rank (Fintype.card ι) = 3 ∧
    (Loc.idle : Loc α).rank (Fintype.card ι) = 0 := ⟨rfl, rfl⟩
  rw [hu₁] at hsum₂
  rw [ht] at hsum₁
  change measure s₂ < measure s
  omega

variable [Inhabited α]

/-- **A step that progresses makes the measure smaller.** -/
theorem measure_lt {a : Act ι α} (h : (threads ι α).step s a s') (ha : a.progresses = true) :
    measure s' < measure s := by
  change threadStep s a = some s' at h
  cases a with
  | call | callStop | spurious => cases ha
  | lock t =>
    simp only [threadStep] at h
    split at h <;> cases h
    next hl => exact measure_lt_of_update rfl rfl (Loc.rank_locked _ hl)
  | critical t =>
    simp only [threadStep] at h
    split at h
    next c again ht =>
      split at h <;> cases h <;> exact measure_lt_of_update ht rfl (by simp [Loc.rank])
    next ht =>
      cases h
      exact measure_lt_of_update ht rfl (by simp [Loc.rank])
    · cases h
  | notifyOne t target =>
    simp only [threadStep] at h
    split at h
    next c ht =>
      cases target with
      | none =>
        obtain ⟨-, rfl⟩ := by simpa only [Option.ite_none_right_eq_some, Option.some.injEq] using h
        exact measure_lt_of_update ht rfl (by simp [Loc.rank])
      | some u =>
        obtain ⟨hu, rfl⟩ := by simpa only [Option.ite_none_right_eq_some, Option.some.injEq] using h
        exact measure_lt_of_notify ht hu
    · cases h
  | notifyAll t =>
    simp only [threadStep] at h
    split at h <;> cases h
    next ht => exact measure_lt_of_wake ht rfl rfl (by simp only [Loc.rank]; omega)
    next ht => exact measure_lt_of_wake ht rfl rfl (by simp only [Loc.rank]; omega)

end Measure

/-! ### No call is stuck -/

section Settles

variable [Fintype ι] [DecidableEq ι] [Inhabited α] {s s' : Shared ι α}

/-- A step by a thread that is inside and does not wait is no new call and no spurious wake-up. -/
theorem progresses_of_active {a : Act ι α} (h : (threads ι α).step s a s')
    (ha : (s.pc a.actor).active = true) : a.progresses = true := by
  change threadStep s a = some s' at h
  cases a with
  | call t | callStop t | spurious t =>
    simp only [threadStep] at h
    split at h <;> cases h
    next ht =>
      rw [Act.actor, ht] at ha
      cases ha
  | lock | critical | notifyOne | notifyAll => rfl

omit [DecidableEq ι] [Inhabited α] in
theorem Accounted.settled (hs : Accounted s) (h : ∀ t, (s.pc t).active = false) : Settled s := by
  intro t
  cases ht : s.pc t with
  | idle => exact Or.inl rfl
  | blocked c =>
    refine Or.inr ⟨c, rfl, ?_⟩
    by_contra hready
    have hb : 0 < s.blocked c.waitsOn := count_pos_iff.2 ⟨t, by simp [ht, Loc.blockedOn]⟩
    obtain ⟨u, hu⟩ := hs.exists_active hb (by simpa using hready)
    rw [h u] at hu
    cases hu
  | _ =>
    have hact := h t
    rw [ht] at hact
    cases hact

omit [Fintype ι] [DecidableEq ι] [Inhabited α] in
theorem Settled.idle (h : Settled s) (hstop : s.ring.stop_ = true) (t : ι) : s.pc t = .idle := by
  rcases h t with ht | ⟨c, -, hready⟩
  · exact ht
  · cases c <;> simp [Call.waitsOn, ready, mayPush, mayPop, hstop] at hready

/-- **The calls settle, whatever the order of the steps.**  From every reachable state the threads
take at most `measure s` steps other than new calls and spurious wake-ups.  When none of these is
left, every call has returned, or it waits while the predicate of its `wait` is false; and once
`stop_` is set, every call has returned. -/
theorem calls_settle {capacity : ℕ} {r : RingBuffer α} (h₀ : new capacity = some r)
    (h : (threads ι α).Reachable (.init ι r) s) {tr : List (Shared ι α × Act ι α)}
    (hrun : (threads ι α).Run s tr s') (hprog : ∀ x ∈ tr, x.2.progresses = true) :
    tr.length ≤ measure s ∧
      ((∃ a s'', (threads ι α).step s' a s'' ∧ a.progresses = true) ∨
        Settled s' ∧ (s'.ring.stop_ = true → ∀ t, s'.pc t = .idle)) := by
  constructor
  · have hlen := hrun.length_add_le (C := fun _ a => a.progresses = true) measure hprog
      fun _ hst ha => measure_lt hst ha
    omega
  · have hs' := accounted_reachable h₀ (h.trans hrun.reachable)
    by_cases hact : ∃ t, (s'.pc t).active = true
    · obtain ⟨t, ht⟩ := hact
      obtain ⟨a, s'', hactor, hst⟩ := hs'.exists_step ht
      exact Or.inl ⟨a, s'', hst, progresses_of_active hst hactor⟩
    · have hsettled := hs'.settled fun t => by simpa using fun ht => hact ⟨t, ht⟩
      exact Or.inr ⟨hsettled, hsettled.idle⟩

/-- A consumer waits, and another thread calls `stop`. -/
def stopCalled : Shared (Fin 2) ℕ :=
  let consumer : Fin 2 := ⟨0, Nat.zero_lt_two⟩
  ((LTS.trace threadStep (.init (Fin 2) ⟨[0], 1, 0, 0, 0, false⟩)
    [.call consumer .pop, .lock consumer, .critical consumer, .callStop ⟨1, Nat.one_lt_two⟩]).getD
      ([], .init (Fin 2) ⟨[0], 1, 0, 0, 0, false⟩)).2

theorem stopCalled_reachable :
    (threads (Fin 2) ℕ).Reachable (.init (Fin 2) ⟨[0], 1, 0, 0, 0, false⟩) stopCalled := by
  have htrace : LTS.trace threadStep (.init (Fin 2) ⟨[0], 1, 0, 0, 0, false⟩)
      [.call 0 .pop, .lock 0, .critical 0, .callStop 1] = some (_, stopCalled) := rfl
  exact (LTS.Run.of_trace htrace).reachable

/-- `stop` runs, and the consumer leaves. -/
theorem calls_settle_stopped : ∃ (tr : List (Shared (Fin 2) ℕ × Act (Fin 2) ℕ)) (s : _),
    (threads (Fin 2) ℕ).Run stopCalled tr s ∧ s.ring.stop_ = true ∧ (s.pc 0).active = false ∧
      tr.length ≤ measure stopCalled := by
  obtain ⟨tr, s, hrun, hprog, hstop, hpc⟩ := LTS.Run.exists_of_trace threadStep stopCalled
    [.lock 1, .critical 1, .notifyAll 1, .notifyAll 1, .lock 0, .critical 0]
    (fun tr s => (∀ x ∈ tr, x.2.progresses = true) ∧ s.ring.stop_ = true ∧
      (s.pc 0).active = false) (by decide)
  have hnew : new 1 = some (⟨[0], 1, 0, 0, 0, false⟩ : RingBuffer ℕ) := rfl
  obtain ⟨hlen, -⟩ := calls_settle hnew stopCalled_reachable hrun hprog
  exact ⟨tr, s, hrun, hstop, hpc, hlen⟩

end Settles

end RingBuffer

end LiteMonitor
