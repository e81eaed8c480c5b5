import LiteMonitor.RingBuffer.Basic

/-!
# The ring buffer is a bounded queue

`RingBuffer.toFifo` forgets the array: a ring buffer stands for the queue of its `contents`.
Every critical section is an operation of the abstract queue with the same result
(`RingBuffer.toFifo_step`), so runs of the ring buffer are runs of `Fifo.lts`
(`RingBuffer.run_toFifo`) and inherit its laws: `RingBuffer.refines_fifo`.
-/

namespace LiteMonitor

namespace RingBuffer

variable {α : Type*} [Inhabited α]

/-- The queue a ring buffer stands for. -/
def toFifo (r : RingBuffer α) : Fifo α := ⟨r.contents, r.stop_⟩

@[simp] theorem length_contents (r : RingBuffer α) : r.contents.length = r.size_ := by
  simp [contents]

theorem slot_ne {cap head i j : ℕ} (hij : i < j) (hj : j < cap) :
    (head + i) % cap ≠ (head + j) % cap := by
  intro h
  have hmod : i ≡ j [MOD cap] := Nat.ModEq.add_left_cancel' head h
  have hij' : i = j := Nat.ModEq.eq_of_lt_of_lt hmod (hij.trans hj) hj
  omega

/-- The slot at `tail_` is free: writing it changes none of the slots in use, and one more
slot shows the item written. -/
theorem contents_push {r : RingBuffer α} (hr : r.WellFormed) (hlt : r.size_ < r.capacity_)
    (x : α) :
    contents { r with buffer_ := r.buffer_.set r.tail_ x,
                      tail_ := (r.tail_ + 1) % r.capacity_, size_ := r.size_ + 1 } =
      r.contents ++ [x] := by
  have htail : r.tail_ < r.buffer_.length := hr.length_buffer ▸ hr.tail_lt
  simp only [contents, List.range_succ, List.map_append, List.map_cons, List.map_nil]
  congr 1
  · apply List.map_congr_left
    intro i hi
    have hne : r.tail_ ≠ (r.head_ + i) % r.capacity_ := by
      rw [hr.tail_eq]
      exact (slot_ne (List.mem_range.1 hi) hlt).symm
    simp [List.getD_eq_getElem?_getD, List.getElem?_set_ne hne]
  · rw [← hr.tail_eq]
    simp [List.getD_eq_getElem?_getD, htail]

theorem contents_eq_cons {r : RingBuffer α} (hr : r.WellFormed) (hpos : 0 < r.size_) :
    r.contents = r.buffer_.getD r.head_ default ::
      contents { r with head_ := (r.head_ + 1) % r.capacity_, size_ := r.size_ - 1 } := by
  obtain ⟨n, hn⟩ : ∃ n, r.size_ = n + 1 := ⟨r.size_ - 1, by omega⟩
  simp only [contents, hn, List.range_succ_eq_map, List.map_cons, List.map_map, Nat.add_zero,
    Nat.mod_eq_of_lt hr.head_lt, Nat.add_sub_cancel, Nat.mod_add_mod]
  congr 1
  apply List.map_congr_left
  intro i _
  simp only [Function.comp_apply, Nat.succ_eq_add_one, Nat.add_assoc, Nat.add_comm 1 i]

/-- **Refinement**: a critical section of the ring buffer is the queue operation with the same
result. -/
theorem toFifo_step {r r' : RingBuffer α} {l : Fifo.Op α} (hr : r.WellFormed)
    (h : (lts α).step r l r') : Fifo.Step r.capacity_ r.toFifo l r'.toFifo := by
  cases l with
  | push x ok =>
    rcases push_eq_some h with ⟨rfl, hs, rfl⟩ | ⟨rfl, hs, hlt, rfl⟩
    · exact .refuse hs
    · have hstep : Fifo.Step r.capacity_ r.toFifo (.push x true) ⟨r.contents ++ [x], r.stop_⟩ :=
        .push hs (by simpa [toFifo] using hlt)
      rwa [← contents_push hr hlt x] at hstep
  | pop result =>
    rcases pop_eq_some h with ⟨rfl, hs, h0, rfl⟩ | ⟨rfl, hpos, rfl⟩
    · exact .turnAway hs (List.length_eq_zero_iff.1 (by simpa [toFifo] using h0))
    · exact .pop (contents_eq_cons hr hpos)
  | close =>
    obtain rfl : r' = r.stop := h
    exact .close

theorem capacity_step {r r' : RingBuffer α} {l : Fifo.Op α} (h : (lts α).step r l r') :
    r'.capacity_ = r.capacity_ := by
  cases l with
  | push x ok => rcases push_eq_some h with ⟨-, -, rfl⟩ | ⟨-, -, -, rfl⟩ <;> rfl
  | pop result => rcases pop_eq_some h with ⟨-, -, -, rfl⟩ | ⟨-, -, rfl⟩ <;> rfl
  | close =>
    obtain rfl : r' = r.stop := h
    rfl

theorem capacity_reachable {r₀ r : RingBuffer α} (h : (lts α).Reachable r₀ r) :
    r.capacity_ = r₀.capacity_ :=
  h.invariant (I := fun r => r.capacity_ = r₀.capacity_) rfl fun _ ih hst =>
    (capacity_step hst).trans ih

/-- Runs of the ring buffer are runs of the queue. -/
theorem run_toFifo {r₀ r : RingBuffer α} {tr : List (RingBuffer α × Fifo.Op α)}
    (hr : r₀.WellFormed) (h : (lts α).Run r₀ tr r) :
    (Fifo.lts α r₀.capacity_).Run r₀.toFifo
      (LTS.Run.mapSteps toFifo (fun _ l => some l) tr) r.toFifo :=
  h.map fun hreach hst => by
    have hs := toFifo_step (hr.reachable hreach) hst
    rw [capacity_reachable hreach] at hs
    exact hs

theorem accepted_mapSteps (tr : List (RingBuffer α × Fifo.Op α)) :
    Fifo.accepted (LTS.Run.mapSteps toFifo (fun _ l => some l) tr) = Fifo.accepted tr := by
  simp [Fifo.accepted, LTS.Run.mapSteps]

theorem delivered_mapSteps (tr : List (RingBuffer α × Fifo.Op α)) :
    Fifo.delivered (LTS.Run.mapSteps toFifo (fun _ l => some l) tr) = Fifo.delivered tr := by
  simp [Fifo.delivered, LTS.Run.mapSteps]

theorem toFifo_new {capacity : ℕ} {r : RingBuffer α} (h : new capacity = some r) :
    r.toFifo = Fifo.empty := by
  unfold new at h
  split_ifs at h
  cases h
  rfl

/-- After `stop`, the items left come out in order, and then nothing does. -/
theorem drain_eq {r : RingBuffer α} (hr : r.WellFormed) (hs : r.stop_ = true) :
    drain (r.size_ + 1) r = r.contents.map some ++ [none] := by
  induction hn : r.size_ generalizing r with
  | zero =>
    have hc : r.contents = [] := List.length_eq_zero_iff.1 (by simp [hn])
    simp [drain, pop_of_stopped hs hn, hc]
  | succ n ih =>
    have hpos : 0 < r.size_ := by omega
    have hpop := pop_of_pos hpos
    have hrest := ih (hr.pop hpop) hs (by simp [hn])
    rw [drain, hpop, contents_eq_cons hr hpos]
    simp only [hrest, List.map_cons, List.cons_append]

/-- **The ring buffer is a bounded first-in first-out queue.**  For every run of the critical
sections of any threads from a new buffer: the indices stay within the array and agree with
the size, the items of the successful pushes are the items popped followed by the slots in
use, no push succeeds after `stop`, a `pop` returns nothing only when the buffer is stopped and
empty, and once it is stopped the items left still come out once each, in order. -/
theorem refines_fifo (capacity : ℕ) (r₀ r : RingBuffer α)
    (tr : List (RingBuffer α × Fifo.Op α)) (h₀ : new capacity = some r₀)
    (h : (lts α).Run r₀ tr r) :
    (r.head_ < r.capacity_ ∧ r.tail_ < r.capacity_ ∧ r.size_ ≤ r.capacity_ ∧
      r.tail_ = (r.head_ + r.size_) % r.capacity_) ∧
    Fifo.accepted tr = Fifo.delivered tr ++ r.contents ∧
    (∀ tr₁ s tr₂, tr = tr₁ ++ (s, .close) :: tr₂ → ∀ y ∈ tr₂, ∀ x, y.2 ≠ .push x true) ∧
    (∀ y ∈ tr, y.2 = .pop none → y.1.stop_ = true ∧ y.1.size_ = 0) ∧
    (r.stop_ = true → drain (r.size_ + 1) r = r.contents.map some ++ [none]) := by
  have hwf₀ : r₀.WellFormed := wellFormed_new h₀
  have hwf : r.WellFormed := hwf₀.reachable h.reachable
  have hrun := run_toFifo hwf₀ h
  refine ⟨⟨hwf.head_lt, hwf.tail_lt, hwf.size_le, hwf.tail_eq⟩, ?_, ?_, ?_, drain_eq hwf⟩
  · rw [toFifo_new h₀] at hrun
    have hacc := Fifo.accepted_eq hrun
    rwa [accepted_mapSteps, delivered_mapSteps] at hacc
  · intro tr₁ s tr₂ heq y hy x hyx
    have hmap : LTS.Run.mapSteps toFifo (fun _ l => some l) tr =
        LTS.Run.mapSteps toFifo (fun _ l => some l) tr₁ ++ (s.toFifo, .close) ::
          LTS.Run.mapSteps toFifo (fun _ l => some l) tr₂ := by
      simp [LTS.Run.mapSteps, heq]
    have hmem : (y.1.toFifo, y.2) ∈ LTS.Run.mapSteps toFifo (fun _ l => some l) tr₂ := by
      simp only [LTS.Run.mapSteps, List.mem_filterMap, Option.map_some]
      exact ⟨y, hy, rfl⟩
    have hnone := (Fifo.refused_after_close hrun).2 _ _ _ hmap _ hmem
    simp [hyx, Fifo.Op.accepted] at hnone
  · have hstep : ∀ y ∈ tr, ∃ r', (lts α).step y.1 y.2 r' := by
      refine h.invariant (I := fun tr _ => ∀ y ∈ tr, ∃ r', (lts α).step y.1 y.2 r') (by simp) ?_
      intro tr s l s' _ ih hst
      rw [List.forall_mem_append, List.forall_mem_singleton]
      exact ⟨ih, s', hst⟩
    rintro ⟨s, l⟩ hy rfl
    obtain ⟨r', hr'⟩ := hstep _ hy
    rcases pop_eq_some hr' with ⟨-, hs, h0, -⟩ | ⟨hsome, -, -⟩
    · exact ⟨hs, h0⟩
    · simp at hsome

/-- Three items through two slots, the third one wrapping around, and a stop. -/
theorem refines_fifo_wrap :
    ∃ r₀ r : RingBuffer ℕ, ∃ tr, new 2 = some r₀ ∧ (lts ℕ).Run r₀ tr r ∧
      Fifo.accepted tr = [7, 8, 9] ∧ Fifo.accepted tr = Fifo.delivered tr ++ r.contents := by
  have h₁ : (lts ℕ).step ⟨[0, 0], 2, 0, 0, 0, false⟩ (.push 7 true)
      ⟨[7, 0], 2, 0, 1, 1, false⟩ := rfl
  have h₂ : (lts ℕ).step ⟨[7, 0], 2, 0, 1, 1, false⟩ (.push 8 true)
      ⟨[7, 8], 2, 0, 0, 2, false⟩ := rfl
  have h₃ : (lts ℕ).step ⟨[7, 8], 2, 0, 0, 2, false⟩ (.pop (some 7))
      ⟨[7, 8], 2, 1, 0, 1, false⟩ := rfl
  have h₄ : (lts ℕ).step ⟨[7, 8], 2, 1, 0, 1, false⟩ (.push 9 true)
      ⟨[9, 8], 2, 1, 1, 2, false⟩ := rfl
  have h₅ : (lts ℕ).step ⟨[9, 8], 2, 1, 1, 2, false⟩ .close ⟨[9, 8], 2, 1, 1, 2, true⟩ := rfl
  have hrun := ((((LTS.Run.nil.snoc h₁).snoc h₂).snoc h₃).snoc h₄).snoc h₅
  exact ⟨_, _, _, rfl, hrun, rfl, (refines_fifo 2 _ _ _ rfl hrun).2.1⟩

end RingBuffer

end LiteMonitor
