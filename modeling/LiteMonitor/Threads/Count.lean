import Mathlib.Algebra.BigOperators.Group.Finset.Basic
import Mathlib.Data.Fintype.Card
import Mathlib.Data.Finset.Card

/-!
# Counting threads at program locations

Finitely many threads `ι` each stand at a location in `L`.  `count P pc` is the number of
threads whose location satisfies `P`; `count_update` says how it changes when one
thread moves, and `sum_update` how a sum over the threads does.
-/

namespace LiteMonitor

namespace Threads

open Finset

variable {ι L : Type*} [Fintype ι]

/-- The number of threads at a location with `P`. -/
def count (P : L → Bool) (pc : ι → L) : ℕ := (univ.filter fun t => P (pc t) = true).card

theorem count_pos_iff {P : L → Bool} {pc : ι → L} : 0 < count P pc ↔ ∃ t, P (pc t) = true := by
  simp [count, card_pos, Finset.Nonempty]

theorem count_eq_zero_iff {P : L → Bool} {pc : ι → L} :
    count P pc = 0 ↔ ∀ t, P (pc t) = false := by
  simp [count, card_eq_zero, filter_eq_empty_iff]

/-- One thread moves: it no longer counts at its old location and counts at the new one. -/
theorem count_update [DecidableEq ι] (P : L → Bool) (pc : ι → L) (t : ι) (l : L) :
    count P (Function.update pc t l) + (P (pc t)).toNat = count P pc + (P l).toNat := by
  have hsplit : ∀ pc' : ι → L, count P pc' =
      ((univ.erase t).filter fun u => P (pc' u) = true).card + (P (pc' t)).toNat := by
    intro pc'
    rw [count, ← insert_erase (mem_univ t), filter_insert]
    cases hP : P (pc' t) <;> simp
  have hrest : ((univ.erase t).filter fun u => P (Function.update pc t l u) = true) =
      (univ.erase t).filter fun u => P (pc u) = true := by
    refine filter_congr fun u hu => ?_
    rw [Function.update_of_ne (ne_of_mem_erase hu)]
  rw [hsplit (Function.update pc t l), hsplit pc, hrest, Function.update_self]
  omega

theorem count_mono {P Q : L → Bool} (h : ∀ l, P l = true → Q l = true) (pc : ι → L) :
    count P pc ≤ count Q pc :=
  card_le_card fun t ht => by
    simp only [mem_filter, mem_univ, true_and] at ht ⊢
    exact h _ ht

theorem count_congr {P Q : L → Bool} (h : ∀ l, P l = Q l) (pc : ι → L) :
    count P pc = count Q pc := by
  simp only [count, h]

theorem count_const (l : L) (P : L → Bool) (hP : P l = false) :
    count P (fun _ : ι => l) = 0 :=
  count_eq_zero_iff.2 fun _ => hP

theorem sum_update [DecidableEq ι] (r : L → ℕ) (pc : ι → L) (t : ι) (l : L) :
    ∑ u, r (Function.update pc t l u) + r (pc t) = ∑ u, r (pc u) + r l := by
  have hrest : ∀ u ∈ univ.erase t, r (Function.update pc t l u) = r (pc u) := by
    intro u hu
    rw [Function.update_of_ne (ne_of_mem_erase hu)]
  rw [← add_sum_erase univ _ (mem_univ t), ← add_sum_erase univ (fun u => r (pc u)) (mem_univ t),
    sum_congr rfl hrest, Function.update_self]
  omega

end Threads

end LiteMonitor
