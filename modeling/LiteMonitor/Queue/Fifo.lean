import LiteMonitor.LTS.Basic

/-!
# Bounded first-in first-out queues that can be closed

The abstract queue behind a blocking buffer: at most `cap` items, a producer is refused once
the queue is closed, and a consumer is turned away only when the queue is closed and empty.

* `Fifo.lts cap` : the queue as a transition system; its labels are the completed operations
  with their results.
* `Fifo.accepted_eq` : the items accepted are the items delivered followed by those held.
* `Fifo.not_accepted_of_closed`, `Fifo.refused_after_close` : nothing is accepted once the
  queue is closed.
-/

namespace LiteMonitor

/-- A queue: the items held, the oldest first, and whether it is closed. -/
structure Fifo (α : Type*) where
  items : List α
  closed : Bool

namespace Fifo

/-- A completed operation with its result. -/
inductive Op (α : Type*) where
  /-- A producer offered `x`; it was taken iff `accepted`. -/
  | push (x : α) (accepted : Bool)
  /-- A consumer left with `result`. -/
  | pop (result : Option α)
  /-- The queue was closed. -/
  | close
  deriving DecidableEq

variable {α S : Type*}

/-- The operations of a queue of capacity `cap`. -/
inductive Step (cap : ℕ) : Fifo α → Op α → Fifo α → Prop
  | push {q : Fifo α} {x : α} : q.closed = false → q.items.length < cap →
      Step cap q (.push x true) { q with items := q.items ++ [x] }
  | refuse {q : Fifo α} {x : α} : q.closed = true → Step cap q (.push x false) q
  | pop {q : Fifo α} {x : α} {xs : List α} : q.items = x :: xs →
      Step cap q (.pop (some x)) { q with items := xs }
  | turnAway {q : Fifo α} : q.closed = true → q.items = [] → Step cap q (.pop none) q
  | close {q : Fifo α} : Step cap q .close { q with closed := true }

/-- The queue as a transition system. -/
def lts (α : Type*) (cap : ℕ) : LTS (Fifo α) (Op α) := ⟨Step cap⟩

/-- The empty open queue. -/
def empty : Fifo α := ⟨[], false⟩

/-- The item an operation added. -/
def Op.accepted : Op α → Option α
  | .push x true => some x
  | _ => none

/-- The item an operation handed out. -/
def Op.delivered : Op α → Option α
  | .pop result => result
  | _ => none

/-- The items accepted along a run, in order. -/
def accepted (tr : List (S × Op α)) : List α := tr.filterMap fun x => x.2.accepted

/-- The items delivered along a run, in order. -/
def delivered (tr : List (S × Op α)) : List α := tr.filterMap fun x => x.2.delivered

@[simp] theorem accepted_snoc (tr : List (S × Op α)) (s : S) (l : Op α) :
    accepted (tr ++ [(s, l)]) = accepted tr ++ l.accepted.toList := by
  cases h : l.accepted <;> simp [accepted, h]

@[simp] theorem delivered_snoc (tr : List (S × Op α)) (s : S) (l : Op α) :
    delivered (tr ++ [(s, l)]) = delivered tr ++ l.delivered.toList := by
  cases h : l.delivered <;> simp [delivered, h]

variable {cap : ℕ}

/-- What one operation takes in and hands out. -/
theorem Step.items_eq {q q' : Fifo α} {l : Op α} (h : Step cap q l q') :
    q.items ++ l.accepted.toList = l.delivered.toList ++ q'.items := by
  cases h with
  | push | refuse | close => simp [Op.accepted, Op.delivered]
  | pop hx => simp [Op.accepted, Op.delivered, hx]
  | turnAway _ hx => simp [Op.accepted, Op.delivered, hx]

theorem Step.closed_mono {q q' : Fifo α} {l : Op α} (h : Step cap q l q')
    (hc : q.closed = true) : q'.closed = true := by
  cases h <;> simp_all

/-- **First in, first out, nothing lost**: the items accepted along a run are those delivered,
followed by those the queue holds. -/
theorem accepted_eq {q : Fifo α} {tr : List (Fifo α × Op α)}
    (h : (lts α cap).Run empty tr q) : accepted tr = delivered tr ++ q.items := by
  induction h with
  | nil => rfl
  | snoc _ hst ih =>
    rw [accepted_snoc, delivered_snoc, ih, List.append_assoc, List.append_assoc]
    exact congrArg _ (Step.items_eq hst)

theorem not_accepted_of_closed {q q' : Fifo α} {l : Op α} (h : Step cap q l q')
    (hc : q.closed = true) : l.accepted = none := by
  cases h with
  | push ho => simp [hc] at ho
  | refuse | pop | turnAway | close => rfl

theorem refused_after_close {q₀ q : Fifo α} {tr : List (Fifo α × Op α)}
    (h : (lts α cap).Run q₀ tr q) :
    ((∃ y ∈ tr, y.2 = .close) → q.closed = true) ∧
      ∀ tr₁ s tr₂, tr = tr₁ ++ (s, .close) :: tr₂ → ∀ y ∈ tr₂, y.2.accepted = none := by
  induction h with
  | nil => exact ⟨by simp, by simp⟩
  | @snoc tr q q' l hrun hst ih =>
    obtain ⟨ihc, ihr⟩ := ih
    constructor
    · rintro ⟨y, hy, hyc⟩
      rcases List.mem_append.1 hy with hy | hy
      · exact Step.closed_mono hst (ihc ⟨y, hy, hyc⟩)
      · obtain rfl : y = (q, l) := by simpa using hy
        obtain rfl : l = .close := hyc
        cases hst
        rfl
    · intro tr₁ s tr₂ heq
      -- the new step is either the last one after the `close`, or the `close` itself
      rcases List.eq_nil_or_concat tr₂ with rfl | ⟨tr₃, y, rfl⟩
      · simp
      · rw [List.concat_eq_append] at heq ⊢
        rw [← List.cons_append, ← List.append_assoc] at heq
        obtain ⟨htr, hy⟩ := List.append_inj' heq rfl
        rw [List.forall_mem_append, List.forall_mem_singleton]
        refine ⟨ihr tr₁ s tr₃ htr, ?_⟩
        obtain rfl : (q, l) = y := by simpa using hy
        exact not_accepted_of_closed hst (ihc ⟨(s, .close), by simp [htr], rfl⟩)

end Fifo

end LiteMonitor
