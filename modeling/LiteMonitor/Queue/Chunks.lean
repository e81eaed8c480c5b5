import Mathlib.Algebra.Order.Floor.Div

/-!
# Draining a queue in pieces

A consumer takes up to `b` items off the front of a queue, and either is done with them or puts them
back.  However often it fails, what it gets done are the consecutive pieces of `b` items, in order.

* `chunks b q` : the pieces of the queue; `flatten_chunks`.
* `Retry α` : the queue, the piece held, and the pieces done; `Retry.Step b` : the operations.
* `Retry.At b q d k p` : `k` pieces of the queue `q` are done.
* `Retry.At.step` : **an operation keeps to the pieces.**
-/

namespace LiteMonitor

namespace Chunks

variable {α : Type*} {b k : ℕ} {q : List α}

/-- The piece with the number `i`. -/
def chunk (b : ℕ) (q : List α) (i : ℕ) : List α := (q.drop (i * b)).take b

/-- The queue in consecutive pieces of `b` items, the last one possibly shorter. -/
def chunks (b : ℕ) (q : List α) : List (List α) :=
  (List.range (q.length ⌈/⌉ b)).map (chunk b q)

@[simp] theorem length_chunks (b : ℕ) (q : List α) : (chunks b q).length = q.length ⌈/⌉ b := by
  rw [chunks, List.length_map, List.length_range]

theorem lt_ceilDiv_iff (hb : 0 < b) {n : ℕ} : k < n ⌈/⌉ b ↔ k * b < n := by
  rw [← Nat.not_le, ceilDiv_le_iff_le_mul hb, Nat.not_le, Nat.mul_comm]

theorem take_chunks_succ (hk : k < q.length ⌈/⌉ b) :
    (chunks b q).take (k + 1) = (chunks b q).take k ++ [chunk b q k] := by
  have hk' : k < (chunks b q).length := by rwa [length_chunks]
  rw [List.take_succ_eq_append_getElem hk']
  simp [chunks]

theorem chunk_append_drop (b k : ℕ) (q : List α) :
    chunk b q k ++ q.drop ((k + 1) * b) = q.drop (k * b) := by
  rw [chunk, Nat.succ_mul, ← List.drop_drop, List.take_append_drop]

theorem flatten_take_chunks (hk : k ≤ q.length ⌈/⌉ b) :
    ((chunks b q).take k).flatten = q.take (k * b) := by
  induction k with
  | zero => simp
  | succ k ih =>
    rw [take_chunks_succ hk, List.flatten_append, ih (Nat.le_of_succ_le hk), List.flatten_singleton,
      Nat.succ_mul, List.take_add, chunk]

theorem flatten_chunks (hb : 0 < b) (q : List α) : (chunks b q).flatten = q := by
  have hall : (chunks b q).take (q.length ⌈/⌉ b) = chunks b q :=
    List.take_of_length_le (length_chunks b q).le
  have hle : q.length ≤ b * (q.length ⌈/⌉ b) := (ceilDiv_le_iff_le_mul hb).1 le_rfl
  rw [← hall, flatten_take_chunks le_rfl, List.take_of_length_le (Nat.mul_comm _ _ ▸ hle)]

example : chunks 2 [1, 2, 3, 4, 5] = [[1, 2], [3, 4], [5]] := by decide

end Chunks

open Chunks

/-- The queue, the piece held, and the pieces done. -/
structure Retry (α : Type*) where
  queue : List α
  held : Option (List α)
  done : List (List α)

namespace Retry

variable {α : Type*} {b k : ℕ} {q : List α} {d : List (List α)} {p p' : Retry α}

/-- A piece is taken, is done, or is put back. -/
inductive Step (b : ℕ) (p : Retry α) : Retry α → Prop
  | take (hheld : p.held = none) (hq : p.queue ≠ []) :
      Step b p ⟨p.queue.drop b, some (p.queue.take b), p.done⟩
  | settle {c : List α} (hheld : p.held = some c) : Step b p ⟨p.queue, none, p.done ++ [c]⟩
  | restore {c : List α} (hheld : p.held = some c) : Step b p ⟨c ++ p.queue, none, p.done⟩

/-- `k` pieces of the queue `q` are done, after those of `d`, and the next one may be held. -/
inductive At (b : ℕ) (q : List α) (d : List (List α)) : ℕ → Retry α → Prop
  | waiting {k : ℕ} (hk : k ≤ q.length ⌈/⌉ b) :
      At b q d k ⟨q.drop (k * b), none, d ++ (chunks b q).take k⟩
  | holding {k : ℕ} (hk : k < q.length ⌈/⌉ b) :
      At b q d k ⟨q.drop ((k + 1) * b), some (chunk b q k), d ++ (chunks b q).take k⟩

theorem at_start (b : ℕ) (q : List α) (d : List (List α)) : At b q d 0 ⟨q, none, d⟩ := by
  have h : At b q d 0 _ := .waiting (Nat.zero_le _)
  rwa [Nat.zero_mul, List.drop_zero, List.take_zero, List.append_nil] at h

/-- **However often a piece is put back**, what is done are the first pieces of the queue. -/
theorem At.step (hb : 0 < b) (h : At b q d k p) (hst : Step b p p') :
    At b q d k p' ∨ At b q d (k + 1) p' := by
  cases h with
  | waiting hk =>
    cases hst with
    | take hheld hq =>
      have hlt : k < q.length ⌈/⌉ b := by
        rw [lt_ceilDiv_iff hb]
        by_contra hle
        exact hq (List.drop_of_length_le (Nat.le_of_not_lt hle))
      have hnext : At b q d k _ := .holding hlt
      rw [Nat.succ_mul, ← List.drop_drop] at hnext
      exact Or.inl hnext
    | settle hheld => cases hheld
    | restore hheld => cases hheld
  | holding hk =>
    cases hst with
    | take hheld => cases hheld
    | settle hheld =>
      cases hheld
      have hnext : At b q d (k + 1) _ := .waiting hk
      rw [take_chunks_succ hk, ← List.append_assoc] at hnext
      exact Or.inr hnext
    | restore hheld =>
      cases hheld
      rw [chunk_append_drop]
      exact Or.inl (.waiting hk.le)

theorem At.le (h : At b q d k p) : k ≤ q.length ⌈/⌉ b := by
  cases h with
  | waiting hk => exact hk
  | holding hk => exact hk.le

theorem At.done_eq (h : At b q d k p) : p.done = d ++ (chunks b q).take k := by
  cases h <;> rfl

theorem At.queue_eq (h : At b q d k p) (hheld : p.held = none) : p.queue = q.drop (k * b) := by
  cases h with
  | waiting hk => rfl
  | holding hk => cases hheld

theorem At.eq_length_iff (hb : 0 < b) (h : At b q d k p) :
    k = q.length ⌈/⌉ b ↔ p.held = none ∧ p.queue = [] := by
  cases h with
  | waiting hk =>
    rw [and_iff_right rfl, List.drop_eq_nil_iff, ← Nat.not_lt, ← lt_ceilDiv_iff hb]
    omega
  | holding hk => exact iff_of_false hk.ne (by rintro ⟨⟨⟩, -⟩)

end Retry

end LiteMonitor
