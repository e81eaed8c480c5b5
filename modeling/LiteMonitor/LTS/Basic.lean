import Mathlib.Data.List.Basic

/-!
# Labelled transition systems and their runs

A component shared by several threads is given a semantics as a labelled transition system
(`LTS`).  Its labels are the atomic steps of all parties, each with the answers the
environment gives during the step.

## Main definitions

* `LTS S L` : a transition relation, and `LTS.ofFun`, the system of a partial step function;
  `LTS.trace` executes a list of labels.
* `LTS.Reachable s₀ s` : `s` is reached from `s₀` in finitely many steps.
* `LTS.Run s₀ tr s` : a run from `s₀` to `s`; `tr` records the source state and the label of
  every step, so that `LTS.states tr s` are the states visited.

## Main results

* `LTS.Reachable.invariant` : the invariant rule.
* `LTS.Reachable.simulate` : a simulation maps reachable states to reachable states.
* `LTS.Run.forall_states_iff` : a state predicate holds all along a run iff every step of it
  meets a condition that decides whether the predicate survives the step.
* `LTS.Run.forall_states_and_iff` : the same where a step breaks the predicate only later on.
* `LTS.Run.map` : a map of states under which steps become steps or stutters maps runs to
  runs.
-/

namespace LiteMonitor

/-- Labelled transition systems with states `S` and labels `L`. -/
structure LTS (S : Type*) (L : Type*) where
  /-- In state `s` the step `l` may lead to `s'`. -/
  step (s : S) (l : L) (s' : S) : Prop

namespace LTS

variable {S L S' L' : Type*}

/-- The transition system of a partial step function. -/
def ofFun (f : S → L → Option S) : LTS S L := ⟨fun s l s' => f s l = some s'⟩

@[simp] theorem ofFun_step {f : S → L → Option S} {s s' : S} {l : L} :
    (ofFun f).step s l s' ↔ f s l = some s' := Iff.rfl

/-- Execute the labels one after another: the steps taken and the state reached. -/
def trace (f : S → L → Option S) : S → List L → Option (List (S × L) × S)
  | s, [] => some ([], s)
  | s, l :: ls => (f s l).bind fun s' => (trace f s' ls).map fun r => ((s, l) :: r.1, r.2)

variable (A : LTS S L)

/-- The states reached from `s₀` in finitely many steps. -/
inductive Reachable (s₀ : S) : S → Prop
  | start : Reachable s₀ s₀
  | next {s s' : S} {l : L} : Reachable s₀ s → A.step s l s' → Reachable s₀ s'

/-- A run from `s₀`: the steps taken, each with its source state, and the state reached. -/
inductive Run (s₀ : S) : List (S × L) → S → Prop
  | nil : Run s₀ [] s₀
  | snoc {tr : List (S × L)} {s s' : S} {l : L} :
      Run s₀ tr s → A.step s l s' → Run s₀ (tr ++ [(s, l)]) s'

/-- The states a run visits, the last one included. -/
def states (tr : List (S × L)) (s : S) : List S := tr.map Prod.fst ++ [s]

theorem forall_states_nil {P : S → Prop} {s : S} :
    (∀ x ∈ states ([] : List (S × L)) s, P x) ↔ P s := by
  simp [states]

theorem forall_states_snoc {P : S → Prop} {tr : List (S × L)} {s s' : S} {l : L} :
    (∀ x ∈ states (tr ++ [(s, l)]) s', P x) ↔ (∀ x ∈ states tr s, P x) ∧ P s' := by
  simp only [states, List.map_append, List.map_cons, List.map_nil, List.mem_append,
    List.mem_singleton, or_imp, forall_and, forall_eq]

theorem last_mem_states (tr : List (S × L)) (s : S) : s ∈ states tr s := by
  simp [states]

/-- A step, or no step at all where there is no label. -/
def stutter (s : S) : Option L → S → Prop
  | some l, s' => A.step s l s'
  | none, s' => s' = s

variable {A}

namespace Reachable

theorem trans {s₁ s₂ s₃ : S} (h₁ : A.Reachable s₁ s₂) (h₂ : A.Reachable s₂ s₃) :
    A.Reachable s₁ s₃ := by
  induction h₂ with
  | start => exact h₁
  | next _ hst ih => exact ih.next hst

/-- **Invariant rule**: a predicate that holds at the start and that no step from a reachable
state breaks holds in every reachable state. -/
theorem invariant {I : S → Prop} {s₀ s : S} (h : A.Reachable s₀ s) (h₀ : I s₀)
    (hstep : ∀ {s l s'}, A.Reachable s₀ s → I s → A.step s l s' → I s') : I s := by
  induction h with
  | start => exact h₀
  | next hr hst ih => exact hstep hr ih hst

/-- **Simulation**: reachable states have reachable images, if every step has a step or a
stutter of the images. -/
theorem simulate {B : LTS S' L'} {f : S → S'} {s₀ s : S} (h : A.Reachable s₀ s)
    (hstep : ∀ {s l s'}, A.Reachable s₀ s → A.step s l s' → ∃ m, B.stutter (f s) m (f s')) :
    B.Reachable (f s₀) (f s) := by
  induction h with
  | start => exact .start
  | next hr hst ih =>
    obtain ⟨m, hm⟩ := hstep hr hst
    cases m with
    | none =>
      have heq : f _ = f _ := hm
      exact heq ▸ ih
    | some m => exact ih.next hm

end Reachable

namespace Run

theorem reachable {s₀ s : S} {tr : List (S × L)} (h : A.Run s₀ tr s) : A.Reachable s₀ s := by
  induction h with
  | nil => exact .start
  | snoc _ hst ih => exact ih.next hst

theorem trans {s₁ s₂ s₃ : S} {tr₁ tr₂ : List (S × L)} (h₁ : A.Run s₁ tr₁ s₂)
    (h₂ : A.Run s₂ tr₂ s₃) : A.Run s₁ (tr₁ ++ tr₂) s₃ := by
  induction h₂ with
  | nil => rwa [List.append_nil]
  | snoc _ hst ih => exact List.append_assoc _ _ _ ▸ ih.snoc hst

theorem exists_step {s₀ s : S} {tr : List (S × L)} (h : A.Run s₀ tr s) :
    ∀ x ∈ tr, A.Reachable s₀ x.1 ∧ ∃ s', A.step x.1 x.2 s' := by
  induction h with
  | nil => exact List.forall_mem_nil _
  | snoc hrun hst ih =>
    rw [List.forall_mem_append, List.forall_mem_singleton]
    exact ⟨ih, hrun.reachable, _, hst⟩

/-- The front of a run is a run up to the state its next step is taken from. -/
theorem front {s₀ s : S} {a b : List (S × L)} {x : S × L} (h : A.Run s₀ (a ++ x :: b) s) :
    A.Run s₀ a x.1 := by
  generalize htr : a ++ x :: b = tr at h
  induction h generalizing b with
  | nil => exact absurd htr (by simp)
  | @snoc tr s s' l hrun hst ih =>
    rcases List.eq_nil_or_concat b with rfl | ⟨b, y, rfl⟩
    · obtain ⟨rfl, hx⟩ := List.append_inj' htr rfl
      obtain rfl : x = (s, l) := List.singleton_inj.1 hx
      exact hrun
    · rw [List.concat_eq_append, ← List.cons_append, ← List.append_assoc] at htr
      exact ih (List.append_inj' htr rfl).1

theorem of_trace {f : S → L → Option S} {s s' : S} {ls : List L} {tr : List (S × L)}
    (h : trace f s ls = some (tr, s')) : (ofFun f).Run s tr s' := by
  induction ls generalizing s tr with
  | nil =>
    cases h
    exact .nil
  | cons l ls ih =>
    obtain ⟨s₁, hst, hrest⟩ := Option.bind_eq_some_iff.1 h
    obtain ⟨⟨tr₁, s₂⟩, htr, heq⟩ := Option.map_eq_some_iff.1 hrest
    cases heq
    have hone : (ofFun f).Run s [(s, l)] s₁ := Run.nil.snoc hst
    exact hone.trans (ih htr)

theorem exists_of_trace (f : S → L → Option S) (s : S) (ls : List L)
    (P : List (S × L) → S → Prop) [∀ tr s, Decidable (P tr s)]
    (h : (trace f s ls).any (fun r => decide (P r.1 r.2)) = true) :
    ∃ tr s', (ofFun f).Run s tr s' ∧ P tr s' := by
  obtain ⟨⟨tr, s'⟩, htr, hP⟩ := (Option.any_eq_true _ _).1 h
  exact ⟨tr, s', of_trace htr, of_decide_eq_true hP⟩

theorem exists_reachable (f : S → L → Option S) (s : S) (ls : List L) (P : S → Prop)
    [DecidablePred P] (h : (trace f s ls).any (fun r => decide (P r.2)) = true) :
    ∃ s', (ofFun f).Reachable s s' ∧ P s' := by
  obtain ⟨tr, s', hrun, hP⟩ := exists_of_trace f s ls (fun _ s' => P s') h
  exact ⟨s', hrun.reachable, hP⟩

/-- The invariant rule for a relation between the steps taken and the state reached. -/
theorem invariant {I : List (S × L) → S → Prop} {s₀ s : S} {tr : List (S × L)}
    (h : A.Run s₀ tr s) (h₀ : I [] s₀)
    (hstep : ∀ {tr s l s'}, A.Run s₀ tr s → I tr s → A.step s l s' → I (tr ++ [(s, l)]) s') :
    I tr s := by
  induction h with
  | nil => exact h₀
  | snoc hrun hst ih => exact hstep hrun ih hst

/-- The invariant rule for the states of a run whose steps all meet a condition. -/
theorem forall_states {I : S → Prop} {C : S → L → Prop} {s₀ s : S} {tr : List (S × L)}
    (h : A.Run s₀ tr s) (hC : ∀ x ∈ tr, C x.1 x.2) (h₀ : I s₀)
    (hstep : ∀ {s l s'}, A.Reachable s₀ s → I s → A.step s l s' → C s l → I s') :
    ∀ x ∈ states tr s, I x := by
  induction h with
  | nil => simpa [forall_states_nil] using h₀
  | @snoc tr s s' l hrun hst ih =>
    rw [List.forall_mem_append, List.forall_mem_singleton] at hC
    have hall := ih hC.1
    rw [forall_states_snoc]
    exact ⟨hall, hstep hrun.reachable (hall s (last_mem_states tr s)) hst hC.2⟩

/-- **A property of all states of a run, as a condition on its steps.**  `J` is what the
states with `P` so far leave behind: as long as `P` and `J` hold, `C` decides whether the next
step keeps `P`, and a step that keeps `P` keeps `J`. -/
theorem forall_states_iff {P J : S → Prop} {C : S → L → Prop} {s₀ s : S} {tr : List (S × L)}
    (h : A.Run s₀ tr s) (hP : P s₀) (hJ : J s₀)
    (hstep : ∀ {s l s'}, A.Reachable s₀ s → P s → J s → A.step s l s' →
      (P s' ↔ C s l) ∧ (P s' → J s')) :
    (∀ x ∈ states tr s, P x) ↔ ∀ x ∈ tr, C x.1 x.2 := by
  have key : ((∀ x ∈ states tr s, P x) ↔ ∀ x ∈ tr, C x.1 x.2) ∧
      ((∀ x ∈ states tr s, P x) → J s) := by
    induction h with
    | nil => exact ⟨by simpa [forall_states_nil] using hP, fun _ => hJ⟩
    | @snoc tr s s' l hrun hst ih =>
      obtain ⟨hiff, hj⟩ := ih
      rw [forall_states_snoc, List.forall_mem_append, List.forall_mem_singleton, ← hiff]
      refine ⟨and_congr_right ?_, fun ⟨hall, hs'⟩ => ?_⟩
      · intro hall
        exact (hstep hrun.reachable (hall s (last_mem_states tr s)) (hj hall) hst).1
      · exact (hstep hrun.reachable (hall s (last_mem_states tr s)) (hj hall) hst).2 hs'
  exact key.1

/-- The rule for a property `P` that a step may break only later: `K` says of the state reached that
it is not broken yet, and as long as `P` holds, `C` decides whether the next step keeps both. -/
theorem forall_states_and_iff {P K : S → Prop} {C : S → L → Prop} {s₀ s : S} {tr : List (S × L)}
    (h : A.Run s₀ tr s) (hP : P s₀) (hK : K s₀)
    (hstep : ∀ {s l s'}, A.Reachable s₀ s → P s → A.step s l s' → (P s' ∧ K s' ↔ K s ∧ C s l)) :
    (∀ x ∈ states tr s, P x) ∧ K s ↔ ∀ x ∈ tr, C x.1 x.2 := by
  induction h with
  | nil => exact iff_of_true ⟨by simpa [forall_states_nil] using hP, hK⟩ (List.forall_mem_nil _)
  | @snoc tr s s' l hrun hst ih =>
    rw [forall_states_snoc, List.forall_mem_append, List.forall_mem_singleton, ← ih, and_assoc,
      and_assoc]
    refine and_congr_right fun hall => ?_
    exact hstep hrun.reachable (hall s (last_mem_states tr s)) hst

/-- The image of the steps of a run under a map of states and labels; the steps whose label
has no image are left out. -/
def mapSteps (f : S → S') (lab : S → L → Option L') (tr : List (S × L)) : List (S' × L') :=
  tr.filterMap fun x => (lab x.1 x.2).map fun m => (f x.1, m)

/-- **Runs are mapped to runs** by a map `f` of states under which every step becomes a step
with the image label, or leaves the image alone when the label has no image. -/
theorem map {B : LTS S' L'} {f : S → S'} {lab : S → L → Option L'} {s₀ s : S}
    {tr : List (S × L)} (h : A.Run s₀ tr s)
    (hstep : ∀ {s l s'}, A.Reachable s₀ s → A.step s l s' →
      B.stutter (f s) (lab s l) (f s')) :
    B.Run (f s₀) (mapSteps f lab tr) (f s) := by
  induction h with
  | nil => exact .nil
  | @snoc tr s s' l hrun hst ih =>
    have hs := hstep hrun.reachable hst
    simp only [mapSteps, List.filterMap_append, List.filterMap_cons, List.filterMap_nil]
    cases hl : lab s l with
    | none =>
      have heq : f s' = f s := by simpa [hl, stutter] using hs
      simpa [mapSteps, heq] using ih
    | some m =>
      have hm : B.step (f s) m (f s') := by simpa [hl, stutter] using hs
      exact ih.snoc hm

end Run

end LTS

end LiteMonitor
