import Mathlib.Data.List.Basic

/-!
# Checks with repairs

A value is checked for one thing after another.  The first check that fails reports an error, may
repair the value, and ends the run.

* `Check P E`, `run cs p` : the checks and their execution.
* `run_cases` : all checks pass and nothing changes, or the first one that fails makes its repair.
-/

namespace LiteMonitor

/-- What is wrong with a value, the report about it, and the value put right. -/
structure Check (P E : Type*) where
  bad : P → Bool
  error : P → E
  repair : P → P

namespace Check

variable {P E : Type*} {cs : List (Check P E)} {p : P}

/-- Make the checks in order, up to the first one that fails. -/
def run : List (Check P E) → P → Option E × P
  | [], p => (none, p)
  | c :: cs, p => if c.bad p then (some (c.error p), c.repair p) else run cs p

/-- **How a run comes out.** -/
theorem run_cases (cs : List (Check P E)) (p : P) :
    ((∀ c ∈ cs, c.bad p = false) ∧ run cs p = (none, p)) ∨
      ∃ a c b, cs = a ++ c :: b ∧ (∀ x ∈ a, x.bad p = false) ∧ c.bad p = true ∧
        run cs p = (some (c.error p), c.repair p) := by
  induction cs with
  | nil => exact Or.inl ⟨List.forall_mem_nil _, rfl⟩
  | cons c cs ih =>
    cases hc : c.bad p with
    | true =>
      refine Or.inr ⟨[], c, cs, rfl, List.forall_mem_nil _, hc, ?_⟩
      rw [run, if_pos hc]
    | false =>
      have hrun : run (c :: cs) p = run cs p := by
        rw [run, if_neg (by simp [hc])]
      rw [hrun]
      rcases ih with ⟨hall, heq⟩ | ⟨a, x, b, rfl, ha, hx, heq⟩
      · exact Or.inl ⟨List.forall_mem_cons.2 ⟨hc, hall⟩, heq⟩
      · exact Or.inr ⟨c :: a, x, b, rfl, List.forall_mem_cons.2 ⟨hc, ha⟩, hx, heq⟩

theorem run_fst_eq_none_iff : (run cs p).1 = none ↔ ∀ c ∈ cs, c.bad p = false := by
  rcases run_cases cs p with ⟨hall, heq⟩ | ⟨a, c, b, rfl, -, hc, heq⟩
  · exact iff_of_true (by rw [heq]) hall
  · refine iff_of_false (by rw [heq]; rintro ⟨⟩) fun hall => ?_
    rw [hall c (by simp)] at hc
    simp at hc

theorem run_of_good (h : ∀ c ∈ cs, c.bad p = false) : run cs p = (none, p) := by
  rcases run_cases cs p with ⟨-, heq⟩ | ⟨a, c, b, rfl, -, hc, -⟩
  · exact heq
  · rw [h c (by simp)] at hc
    simp at hc

end Check

end LiteMonitor
