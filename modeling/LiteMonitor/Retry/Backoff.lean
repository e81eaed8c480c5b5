import Mathlib.Algebra.Order.Ring.Int
import Mathlib.Data.List.Induction
import Mathlib.Order.MinMax

/-!
# Backoff that doubles up to a cap

Attempts are made over and over; between them something is waited for.  The wait starts at `start`,
every failure doubles it, at most up to `cap`, and a reset takes it back to `start`.  The wait is
used before it is capped.

* `delay start cap k` : the wait after `k` failures in a row; `delay_eq_min`.
* `streak fails resets tr` : the failures of the trace `tr` since the last reset.
* `Follows` : a trace waits for `delay` at every failure.
* `WithinLimits` : the waits are positive, at most the cap, can be doubled below a bound, and do not
  decrease between two resets.
* `Follows.withinLimits_iff` : **a trace that follows the schedule stays within the limits exactly
  if the start is at most the cap, and the doubling stays below the bound.**
-/

namespace LiteMonitor

namespace Backoff

/-! ### The schedule -/

/-- The wait after `k` failures in a row. -/
def delay (start cap : ℤ) : ℕ → ℤ
  | 0 => start
  | k + 1 => min (delay start cap k * 2) cap

section Delay

variable {start cap : ℤ}

theorem delay_eq_min (hstart : 0 ≤ start) (hcap : start ≤ cap) (k : ℕ) :
    delay start cap k = min (start * 2 ^ k) cap := by
  induction k with
  | zero => simp [delay, hcap]
  | succ k ih =>
    have hdouble : min (start * 2 ^ k) cap * 2 = min (start * 2 ^ (k + 1)) (cap * 2) := by
      rw [min_mul_of_nonneg _ _ (Int.zero_le_ofNat 2), pow_succ, mul_assoc]
    have hle : cap ≤ cap * 2 := by omega
    rw [delay, ih, hdouble, min_assoc, min_eq_right hle]

theorem delay_le (hcap : start ≤ cap) (k : ℕ) : delay start cap k ≤ cap := by
  cases k with
  | zero => exact hcap
  | succ k => exact min_le_right _ _

theorem delay_pos (hstart : 0 < start) (hcap : start ≤ cap) (k : ℕ) : 0 < delay start cap k := by
  rw [delay_eq_min hstart.le hcap]
  exact lt_min (mul_pos hstart (Int.pow_pos (by decide))) (lt_of_lt_of_le hstart hcap)

theorem delay_mono (hstart : 0 < start) (hcap : start ≤ cap) {i j : ℕ} (h : i ≤ j) :
    delay start cap i ≤ delay start cap j := by
  induction j, h using Nat.le_induction with
  | base => exact le_rfl
  | succ j _ ih =>
    have hpos := delay_pos hstart hcap j
    have hdouble : delay start cap j ≤ delay start cap j * 2 := by omega
    exact ih.trans (le_min hdouble (delay_le hcap j))

end Delay

/-! ### Traces -/

variable {α : Type*} (fails resets : α → Bool)

/-- One more event of the trace. -/
def streakStep (k : ℕ) (x : α) : ℕ := if resets x then 0 else if fails x then k + 1 else k

/-- The failures since the last reset. -/
def streak (tr : List α) : ℕ := tr.foldl (streakStep fails resets) 0

/-- Every failure of the trace waits according to the schedule. -/
def Follows (start cap : ℤ) (wait : α → ℤ) (tr : List α) : Prop :=
  ∀ a x b, tr = a ++ x :: b → fails x = true → wait x = delay start cap (streak fails resets a)

/-- The waits are positive, at most `cap`, can be doubled below `bound`, and do not decrease between
two resets. -/
structure WithinLimits (cap bound : ℤ) (wait : α → ℤ) (tr : List α) : Prop where
  range : ∀ x ∈ tr, fails x = true → 0 < wait x ∧ wait x ≤ cap ∧ wait x * 2 < bound
  mono : ∀ a x b y c, tr = a ++ x :: (b ++ y :: c) → (∀ z ∈ b, resets z = false) →
    fails x = true → fails y = true → wait x ≤ wait y

variable {fails resets}

theorem streak_snoc (tr : List α) (x : α) :
    streak fails resets (tr ++ [x]) = streakStep fails resets (streak fails resets tr) x := by
  rw [streak, List.foldl_append]
  rfl

theorem Follows.snoc {start cap : ℤ} {wait : α → ℤ} {tr : List α} {x : α}
    (h : Follows fails resets start cap wait tr)
    (hx : fails x = true → wait x = delay start cap (streak fails resets tr)) :
    Follows fails resets start cap wait (tr ++ [x]) := by
  intro a y b htr hy
  rcases List.eq_nil_or_concat b with rfl | ⟨b, z, rfl⟩
  · obtain ⟨rfl, hxy⟩ := List.append_inj' htr rfl
    obtain rfl : x = y := List.singleton_inj.1 hxy
    exact hx hy
  · rw [List.concat_eq_append, ← List.cons_append, ← List.append_assoc] at htr
    exact h a y b (List.append_inj' htr rfl).1 hy

theorem streak_le_append {a b : List α} (hb : ∀ z ∈ b, resets z = false) :
    streak fails resets a ≤ streak fails resets (a ++ b) := by
  induction b using List.reverseRecOn with
  | nil => rw [List.append_nil]
  | append_singleton b z ih =>
    rw [List.forall_mem_append, List.forall_mem_singleton] at hb
    rw [← List.append_assoc, streak_snoc, streakStep, hb.2]
    refine (ih hb.1).trans ?_
    cases fails z
    · exact le_rfl
    · exact Nat.le_succ _

theorem exists_first {a : List α} (ha : streak fails resets a ≠ 0) :
    ∃ a' y b, a = a' ++ y :: b ∧ fails y = true ∧ streak fails resets a' = 0 := by
  induction a using List.reverseRecOn with
  | nil => exact absurd rfl ha
  | append_singleton a z ih =>
    by_cases hz : streak fails resets a = 0
    · refine ⟨a, z, [], rfl, ?_, hz⟩
      rw [streak_snoc, hz, streakStep] at ha
      cases hr : resets z <;> cases hf : fails z <;> simp [hr, hf] at ha ⊢
    · obtain ⟨a', y, b, rfl, hy, h0⟩ := ih hz
      exact ⟨a', y, b ++ [z], by simp, hy, h0⟩

/-- **When the waits stay within their limits**: at every failure the start is at most the cap, and
the wait that is due can be doubled. -/
theorem Follows.withinLimits_iff {start cap bound : ℤ} {wait : α → ℤ} {tr : List α}
    (hstart : 0 < start) (hreset : ∀ x, fails x = true → resets x = false)
    (h : Follows fails resets start cap wait tr) :
    WithinLimits fails resets cap bound wait tr ↔
      ∀ a x b, tr = a ++ x :: b → fails x = true →
        start ≤ cap ∧ delay start cap (streak fails resets a) * 2 < bound := by
  constructor
  · intro hw a x b htr hx
    obtain ⟨-, hle, hlt⟩ := hw.range x (by simp [htr]) hx
    rw [h a x b htr hx] at hle hlt
    refine ⟨?_, hlt⟩
    by_cases h0 : streak fails resets a = 0
    · rwa [h0] at hle
    · obtain ⟨a', y, b', rfl, hy, h0'⟩ := exists_first h0
      have htr' : tr = a' ++ y :: (b' ++ x :: b) := by
        rw [htr, List.append_assoc, List.cons_append]
      have hle' := (hw.range y (by simp [htr']) hy).2.1
      rwa [h a' y _ htr' hy, h0'] at hle'
  · intro hc
    refine ⟨?_, ?_⟩
    · intro x hx hf
      obtain ⟨a, b, htr⟩ := List.append_of_mem hx
      obtain ⟨hcap, hlt⟩ := hc a x b htr hf
      rw [h a x b htr hf]
      exact ⟨delay_pos hstart hcap _, delay_le hcap _, hlt⟩
    · intro a x b y c htr hb hx hy
      obtain ⟨hcap, -⟩ := hc a x (b ++ y :: c) htr hx
      have htr' : tr = (a ++ x :: b) ++ y :: c := by rw [htr, List.append_assoc, List.cons_append]
      rw [h a x _ htr hx, h _ y c htr' hy]
      refine delay_mono hstart hcap (streak_le_append ?_)
      exact List.forall_mem_cons.2 ⟨hreset x hx, hb⟩

end Backoff

end LiteMonitor
