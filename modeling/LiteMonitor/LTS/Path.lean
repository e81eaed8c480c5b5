import LiteMonitor.LTS.Basic
import Mathlib.Data.Prod.Lex
import Mathlib.Order.WellFounded

/-!
# Infinite runs

* `LTS.Path s₀` : an infinite run from `s₀`, as the sequences of its states and labels.
* `LTS.Path.invariant` : the invariant rule along a path.
* `LTS.Path.eventually_of_descent` : a path reaches `P` if a measure in a well-founded order
  descends as long as `P` does not hold.
* `LTS.Path.exists_of_invariant` : a predicate from which there is always a step back into it is
  the start of a path inside of it.
* `LTS.Run.length_add_le` : a run whose steps all make a measure smaller is no longer than it.
-/

namespace LiteMonitor

namespace LTS

variable {S L : Type*} (A : LTS S L)

/-- An infinite run from `s₀`. -/
structure Path (s₀ : S) where
  st : ℕ → S
  lab : ℕ → L
  start : st 0 = s₀
  step : ∀ n, A.step (st n) (lab n) (st (n + 1))

namespace Path

variable {A} {s₀ : S}

theorem invariant (p : A.Path s₀) {I : S → Prop} (h₀ : I s₀)
    (hstep : ∀ n, I (p.st n) → I (p.st (n + 1))) (n : ℕ) : I (p.st n) := by
  induction n with
  | zero => exact p.start.symm ▸ h₀
  | succ n ih => exact hstep n ih

theorem reachable (p : A.Path s₀) (n : ℕ) : A.Reachable s₀ (p.st n) :=
  p.invariant .start (fun n ih => ih.next (p.step n)) n

/-- **Descent**: from some point on a measure descends as long as `P` does not hold, so `P` does
hold once. -/
theorem eventually_of_descent {α : Type*} [LT α] [WellFoundedLT α] (p : A.Path s₀) (μ : S → α)
    (P : S → Prop) (K : ℕ)
    (h : ∀ n, K ≤ n → ¬ P (p.st n) → μ (p.st (n + 1)) < μ (p.st n)) : ∃ n, P (p.st n) := by
  by_contra hne
  push Not at hne
  obtain ⟨n, hn⟩ := WellFounded.not_rel_apply_succ (r := (· < ·)) fun n => μ (p.st (K + n))
  exact hn (h (K + n) (Nat.le_add_right K n) (hne (K + n)))

/-- From a state with `I` there is a path on which `I` holds and the steps meet `C`, if every state
with `I` has such a step. -/
theorem exists_of_invariant {I : S → Prop} {C : S → L → Prop} (h₀ : I s₀)
    (hstep : ∀ s, I s → ∃ l s', A.step s l s' ∧ C s l ∧ I s') :
    ∃ p : A.Path s₀, ∀ n, I (p.st n) ∧ C (p.st n) (p.lab n) := by
  choose lab next hst hC hI using hstep
  let st : ℕ → {s // I s} := fun n =>
    n.rec ⟨s₀, h₀⟩ fun _ s => ⟨next s.1 s.2, hI s.1 s.2⟩
  exact ⟨⟨fun n => (st n).1, fun n => lab (st n).1 (st n).2, rfl, fun n => hst (st n).1 (st n).2⟩,
    fun n => ⟨(st n).2, hC (st n).1 (st n).2⟩⟩

end Path

/-- The steps of a run that make a measure smaller, one after another. -/
theorem Run.length_add_le {A : LTS S L} {C : S → L → Prop} {s₀ s : S} {tr : List (S × L)}
    (h : A.Run s₀ tr s) (μ : S → ℕ) (hC : ∀ x ∈ tr, C x.1 x.2)
    (hstep : ∀ {s l s'}, A.Reachable s₀ s → A.step s l s' → C s l → μ s' < μ s) :
    tr.length + μ s ≤ μ s₀ := by
  induction h with
  | nil => simp
  | snoc hrun hst ih =>
    rw [List.forall_mem_append, List.forall_mem_singleton] at hC
    have hle := ih hC.1
    have hlt := hstep hrun.reachable hst hC.2
    rw [List.length_append, List.length_singleton]
    omega

end LTS

end LiteMonitor
