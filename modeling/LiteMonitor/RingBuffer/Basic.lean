import LiteMonitor.Queue.Fifo
import Mathlib.Data.Nat.ModEq

/-!
# The ring buffer

The state of `RingBuffer<T>` and the critical sections of `push`, `pop` and `stop`, each run
with `mtx_` held: what `push` and `pop` do is what follows the `wait` on their condition
variable, so they return `none` while the predicate of that `wait` is false.

`RingBuffer.lts` interleaves the critical sections of any number of threads; a label says which
section ran and with what result.  `RingBuffer.WellFormed` is the invariant of the indices and
`RingBuffer.contents` the slots in use, read from `head_` with wrap-around.
-/

namespace LiteMonitor

/-- `class RingBuffer`, without the mutex and the condition variables. -/
structure RingBuffer (α : Type*) where
  buffer_ : List α
  capacity_ : ℕ
  head_ : ℕ
  tail_ : ℕ
  size_ : ℕ
  stop_ : Bool

namespace RingBuffer

variable {α : Type*} [Inhabited α]

/-- The constructor throws `std::invalid_argument` for capacity `0`. -/
def new (capacity : ℕ) : Option (RingBuffer α) :=
  if capacity = 0 then none else some ⟨List.replicate capacity default, capacity, 0, 0, 0, false⟩

/-- The predicate `push` waits for on `not_full_cv_`. -/
def mayPush (r : RingBuffer α) : Bool := r.size_ < r.capacity_ || r.stop_

/-- The predicate `pop` waits for on `not_empty_cv_`. -/
def mayPop (r : RingBuffer α) : Bool := 0 < r.size_ || r.stop_

/-- `push`, from the end of its `wait` on: the result and the buffer. -/
def push (x : α) (r : RingBuffer α) : Option (Bool × RingBuffer α) :=
  if r.mayPush then
    if r.stop_ then some (false, r)
    else some (true,
      { r with
        buffer_ := r.buffer_.set r.tail_ x
        tail_ := (r.tail_ + 1) % r.capacity_
        size_ := r.size_ + 1 })
  else none

/-- `pop`, from the end of its `wait` on.  The slot read keeps its value, for a moved-from `T`
that is never read again. -/
def pop (r : RingBuffer α) : Option (Option α × RingBuffer α) :=
  if r.mayPop then
    if r.stop_ ∧ r.size_ = 0 then some (none, r)
    else some (some (r.buffer_.getD r.head_ default),
      { r with
        head_ := (r.head_ + 1) % r.capacity_
        size_ := r.size_ - 1 })
  else none

/-- `stop`, without its notifications. -/
def stop (r : RingBuffer α) : RingBuffer α := { r with stop_ := true }

/-- The critical sections of any number of threads, one at a time. -/
def lts (α : Type*) [Inhabited α] : LTS (RingBuffer α) (Fifo.Op α) where
  step r l r' := match l with
    | .push x ok => r.push x = some (ok, r')
    | .pop result => r.pop = some (result, r')
    | .close => r' = r.stop

/-- Take out up to `n` items one after another, and return what every `pop` returned. -/
def drain : ℕ → RingBuffer α → List (Option α)
  | 0, _ => []
  | n + 1, r => match r.pop with
    | some (result, r') => result :: drain n r'
    | none => []

/-- The slots in use, the oldest first. -/
def contents (r : RingBuffer α) : List α :=
  (List.range r.size_).map fun i => r.buffer_.getD ((r.head_ + i) % r.capacity_) default

/-- The invariant of the indices. -/
structure WellFormed (r : RingBuffer α) : Prop where
  length_buffer : r.buffer_.length = r.capacity_
  head_lt : r.head_ < r.capacity_
  size_le : r.size_ ≤ r.capacity_
  tail_eq : r.tail_ = (r.head_ + r.size_) % r.capacity_

/-! ### What each critical section does -/

omit [Inhabited α] in
theorem push_eq_none_iff {r : RingBuffer α} {x : α} : r.push x = none ↔ r.mayPush = false := by
  unfold push
  split_ifs with hmay <;> simp [hmay]

theorem pop_eq_none_iff {r : RingBuffer α} : r.pop = none ↔ r.mayPop = false := by
  unfold pop
  split_ifs with hmay <;> simp [hmay]

omit [Inhabited α] in
theorem push_eq_some {r r' : RingBuffer α} {x : α} {ok : Bool}
    (h : r.push x = some (ok, r')) :
    (ok = false ∧ r.stop_ = true ∧ r' = r) ∨
      (ok = true ∧ r.stop_ = false ∧ r.size_ < r.capacity_ ∧
        r' = { r with buffer_ := r.buffer_.set r.tail_ x,
                      tail_ := (r.tail_ + 1) % r.capacity_, size_ := r.size_ + 1 }) := by
  unfold push at h
  split_ifs at h with hmay hstop
  · simp only [Option.some.injEq, Prod.mk.injEq] at h
    exact Or.inl ⟨h.1.symm, hstop, h.2.symm⟩
  · simp only [Option.some.injEq, Prod.mk.injEq] at h
    have hlt : r.size_ < r.capacity_ := by simpa [mayPush, hstop] using hmay
    exact Or.inr ⟨h.1.symm, by simpa using hstop, hlt, h.2.symm⟩

theorem pop_eq_some {r r' : RingBuffer α} {result : Option α}
    (h : r.pop = some (result, r')) :
    (result = none ∧ r.stop_ = true ∧ r.size_ = 0 ∧ r' = r) ∨
      (result = some (r.buffer_.getD r.head_ default) ∧ 0 < r.size_ ∧
        r' = { r with head_ := (r.head_ + 1) % r.capacity_, size_ := r.size_ - 1 }) := by
  unfold pop at h
  split_ifs at h with hmay hstop
  · simp only [Option.some.injEq, Prod.mk.injEq] at h
    exact Or.inl ⟨h.1.symm, hstop.1, hstop.2, h.2.symm⟩
  · simp only [Option.some.injEq, Prod.mk.injEq] at h
    refine Or.inr ⟨h.1.symm, ?_, h.2.symm⟩
    -- an empty buffer passes the `wait` only when it is stopped
    by_contra h0
    have hs : r.stop_ = true := by simpa [mayPop, h0] using hmay
    exact hstop ⟨hs, by omega⟩

theorem pop_of_pos {r : RingBuffer α} (h : 0 < r.size_) :
    r.pop = some (some (r.buffer_.getD r.head_ default),
      { r with head_ := (r.head_ + 1) % r.capacity_, size_ := r.size_ - 1 }) := by
  have h0 : r.size_ ≠ 0 := by omega
  simp [pop, mayPop, h, h0]

theorem pop_of_stopped {r : RingBuffer α} (hs : r.stop_ = true) (h0 : r.size_ = 0) :
    r.pop = some (none, r) := by
  simp [pop, mayPop, hs, h0]

/-! ### The invariant -/

theorem wellFormed_new {capacity : ℕ} {r : RingBuffer α} (h : new capacity = some r) :
    r.WellFormed := by
  unfold new at h
  split_ifs at h with hc
  cases h
  exact ⟨by simp, Nat.pos_of_ne_zero hc, Nat.zero_le _, by simp⟩

omit [Inhabited α] in
theorem WellFormed.tail_lt {r : RingBuffer α} (hr : r.WellFormed) : r.tail_ < r.capacity_ := by
  rw [hr.tail_eq]
  exact Nat.mod_lt _ (Nat.zero_lt_of_lt hr.head_lt)

omit [Inhabited α] in
theorem WellFormed.push {r r' : RingBuffer α} {x : α} {ok : Bool} (hr : r.WellFormed)
    (h : r.push x = some (ok, r')) : r'.WellFormed := by
  rcases push_eq_some h with ⟨-, -, rfl⟩ | ⟨-, -, hlt, rfl⟩
  · exact hr
  · refine ⟨by simp [hr.length_buffer], hr.head_lt, hlt, ?_⟩
    simp only [hr.tail_eq, Nat.mod_add_mod, Nat.add_assoc]

theorem WellFormed.pop {r r' : RingBuffer α} {result : Option α} (hr : r.WellFormed)
    (h : r.pop = some (result, r')) : r'.WellFormed := by
  rcases pop_eq_some h with ⟨-, -, -, rfl⟩ | ⟨-, hpos, rfl⟩
  · exact hr
  · refine ⟨hr.length_buffer, Nat.mod_lt _ (Nat.zero_lt_of_lt hr.head_lt), ?_, ?_⟩
    · exact (Nat.sub_le _ _).trans hr.size_le
    · have hsum : r.head_ + 1 + (r.size_ - 1) = r.head_ + r.size_ := by omega
      simp only [hr.tail_eq, Nat.mod_add_mod, hsum]

omit [Inhabited α] in
theorem WellFormed.stop {r : RingBuffer α} (hr : r.WellFormed) : r.stop.WellFormed :=
  ⟨hr.length_buffer, hr.head_lt, hr.size_le, hr.tail_eq⟩

theorem WellFormed.step {r r' : RingBuffer α} {l : Fifo.Op α} (hr : r.WellFormed)
    (h : (lts α).step r l r') : r'.WellFormed := by
  cases l with
  | push x ok => exact hr.push h
  | pop result => exact hr.pop h
  | close =>
    obtain rfl : r' = r.stop := h
    exact hr.stop

theorem WellFormed.reachable {r₀ r : RingBuffer α} (hr : r₀.WellFormed)
    (h : (lts α).Reachable r₀ r) : r.WellFormed :=
  h.invariant hr fun _ hs hst => hs.step hst

end RingBuffer

end LiteMonitor
