import Mathlib
import LiteMonitor.Pool.Lending

/-!
# What the items of a pool hold

Every item holds something, such as a resource of its own; a weight says how much.

* `Lending.weight p w` : what the items of the pool hold together, idle or lent.
* `weight_lend`, `weight_giveBack`, `weight_retire` : how the operations change it.
-/

namespace LiteMonitor

namespace Lending

open Finset

variable {ι α : Type*} [Fintype ι]

/-- What the items hold together. -/
def weight (p : Lending ι α) (w : α → ℕ) : ℕ :=
  (p.idle.map w).sum + ∑ i, (p.lent i).elim 0 w

variable {p : Lending ι α} {w w' : α → ℕ}

theorem weight_congr (h : ∀ z, p.Mem z → w' z = w z) : p.weight w' = p.weight w := by
  have hidle : p.idle.map w' = p.idle.map w :=
    List.map_congr_left fun z hz => h z (Or.inl hz)
  have hlent : ∀ i ∈ univ, (p.lent i).elim 0 w' = (p.lent i).elim 0 w := by
    intro i _
    cases hi : p.lent i with
    | none => rfl
    | some z => exact h z (Or.inr ⟨i, hi⟩)
  rw [weight, weight, hidle, sum_congr rfl hlent]

theorem weight_none (q : List α) (w : α → ℕ) :
    weight (⟨q, fun _ : ι => none⟩ : Lending ι α) w = (q.map w).sum := by
  simp [weight]

variable [DecidableEq ι]

theorem weight_lend {i : ι} {x : α} {q : List α} (hi : p.lent i = none) (hq : p.idle = x :: q) :
    weight ⟨q, Function.update p.lent i (some x)⟩ w = p.weight w := by
  have hsum := Threads.sum_update (fun o => o.elim 0 w) p.lent i (some x)
  rw [hi] at hsum
  simp only [weight, hq, List.map_cons, List.sum_cons]
  simp only [Option.elim_none, Option.elim_some] at hsum
  omega

theorem weight_giveBack {i : ι} {x y : α} (hp : p.Exclusive) (hi : p.lent i = some x)
    (hagree : ∀ z, z ≠ x → p.Mem z → w' z = w z) :
    weight ⟨p.idle ++ [y], Function.update p.lent i none⟩ w' + w x = p.weight w + w' y := by
  have hsum := Threads.sum_update (fun o => o.elim 0 w) p.lent i none
  rw [hi] at hsum
  simp only [Option.elim_none, Option.elim_some] at hsum
  -- without `x`, the weights agree
  have hrest : weight ⟨p.idle, Function.update p.lent i none⟩ w' =
      weight ⟨p.idle, Function.update p.lent i none⟩ w := by
    refine weight_congr fun z hz => ?_
    rcases hz with hz | ⟨j, hj⟩
    · refine hagree z ?_ (Or.inl hz)
      rintro rfl
      exact hp.idle hi hz
    · obtain ⟨hji, hj⟩ := update_none_iff.1 hj
      refine hagree z ?_ (Or.inr ⟨j, hj⟩)
      rintro rfl
      exact hji (hp.lent hj hi)
  simp only [weight] at hrest ⊢
  rw [List.map_append, List.sum_append, List.map_singleton, List.sum_singleton]
  omega

omit [DecidableEq ι] in
theorem weight_retire {x : α} {q : List α} (hp : p.Exclusive) (hq : p.idle = x :: q)
    (hagree : ∀ z, z ≠ x → p.Mem z → w' z = w z) :
    weight ⟨q, p.lent⟩ w' + w x = p.weight w := by
  have hrest : weight ⟨q, p.lent⟩ w' = weight ⟨q, p.lent⟩ w := by
    refine weight_congr fun z hz => ?_
    obtain ⟨hne, hmem⟩ := hp.mem_retire hq hz
    exact hagree z hne hmem
  simp only [weight] at hrest ⊢
  rw [hq, List.map_cons, List.sum_cons]
  omega

end Lending

end LiteMonitor
