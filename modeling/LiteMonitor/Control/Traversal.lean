import Mathlib.Data.List.Forall2

/-!
# Traversals that may fail

* `bind_eq_ok_iff`, `map_eq_ok_iff` : a sequence succeeds when both parts do.
* `mapM_eq_ok_iff` : a traversal succeeds with the results of the members, and
  `exists_of_mem_mapM` : it has no others.
* `mapM_ok_iff` : it succeeds exactly if it does so on every member.
* `foldlM_keeps` : what every step of a loop keeps, the loop keeps.
-/

namespace LiteMonitor

universe u

theorem ok_bind {ε : Type*} {α β : Type u} (a : α) (f : α → Except ε β) :
    Except.ok a >>= f = f a := rfl

theorem error_bind {ε : Type*} {α β : Type u} (e : ε) (f : α → Except ε β) :
    Except.error e >>= f = .error e := rfl

theorem bind_eq_ok_iff {ε : Type*} {α β : Type u} {m : Except ε α} {f : α → Except ε β} {b : β} :
    m >>= f = .ok b ↔ ∃ a, m = .ok a ∧ f a = .ok b := by
  cases m with
  | error e => exact iff_of_false (by rintro ⟨⟩) (by rintro ⟨a, ⟨⟩, -⟩)
  | ok a =>
    constructor
    · intro h
      exact ⟨a, rfl, h⟩
    · rintro ⟨a', ha, h⟩
      obtain rfl := Except.ok.inj ha
      exact h

theorem map_eq_ok_iff {ε : Type*} {α β : Type u} {m : Except ε α} {f : α → β} {b : β} :
    f <$> m = .ok b ↔ ∃ a, m = .ok a ∧ f a = b := by
  cases m with
  | error e => exact iff_of_false (by rintro ⟨⟩) (by rintro ⟨a, ⟨⟩, -⟩)
  | ok a =>
    constructor
    · intro h
      exact ⟨a, rfl, Except.ok.inj h⟩
    · rintro ⟨a', ha, rfl⟩
      obtain rfl := Except.ok.inj ha
      rfl

variable {α β ε : Type*} {f : α → Except ε β} {xs : List α} {ys : List β}

theorem mapM_eq_ok_iff :
    xs.mapM f = .ok ys ↔ List.Forall₂ (fun x y => f x = .ok y) xs ys := by
  induction xs generalizing ys with
  | nil =>
    rw [List.forall₂_nil_left_iff, List.mapM_nil]
    constructor
    · intro h
      exact (Except.ok.inj h).symm
    · rintro rfl
      rfl
  | cons x xs ih =>
    rw [List.forall₂_cons_left_iff, List.mapM_cons, bind_eq_ok_iff]
    simp only [bind_eq_ok_iff, ih]
    constructor
    · rintro ⟨y, hy, ys', hrest, heq⟩
      exact ⟨y, ys', hy, hrest, (Except.ok.inj heq).symm⟩
    · rintro ⟨y, ys', hy, hrest, rfl⟩
      exact ⟨y, hy, ys', hrest, rfl⟩

theorem exists_of_mem_mapM (h : xs.mapM f = .ok ys) {y : β} (hy : y ∈ ys) :
    ∃ x ∈ xs, f x = .ok y := by
  rw [mapM_eq_ok_iff] at h
  induction h with
  | nil => exact absurd hy List.not_mem_nil
  | cons hhead _ ih =>
    rcases List.mem_cons.1 hy with rfl | hrest
    · exact ⟨_, List.mem_cons_self, hhead⟩
    · obtain ⟨x, hx, hfx⟩ := ih hrest
      exact ⟨x, List.mem_cons_of_mem _ hx, hfx⟩

theorem mapM_ok_iff : (∃ ys, xs.mapM f = .ok ys) ↔ ∀ x ∈ xs, ∃ y, f x = .ok y := by
  simp only [mapM_eq_ok_iff]
  induction xs with
  | nil => exact iff_of_true ⟨[], .nil⟩ (List.forall_mem_nil _)
  | cons x xs ih =>
    rw [List.forall_mem_cons, ← ih]
    constructor
    · rintro ⟨ys, hys⟩
      cases hys with
      | cons hy hrest => exact ⟨⟨_, hy⟩, _, hrest⟩
    · rintro ⟨⟨y, hy⟩, ys, hys⟩
      exact ⟨y :: ys, .cons hy hys⟩

/-- What every step of a loop keeps, the loop keeps. -/
theorem foldlM_keeps {σ : Type*} {P : σ → Prop} {step : σ → α → Except ε σ}
    (hstep : ∀ x ∈ xs, ∀ s s', step s x = .ok s' → P s → P s') {s s' : σ}
    (h : xs.foldlM step s = .ok s') (hs : P s) : P s' := by
  induction xs generalizing s with
  | nil =>
    obtain rfl := Except.ok.inj h
    exact hs
  | cons x xs ih =>
    obtain ⟨hfirst, hrest⟩ := List.forall_mem_cons.1 hstep
    rw [List.foldlM_cons] at h
    obtain ⟨s₁, hs₁, hs'⟩ := bind_eq_ok_iff.1 h
    exact ih hrest hs' (hfirst s s₁ hs₁ hs)

end LiteMonitor
