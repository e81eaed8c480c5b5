import Mathlib.Data.List.Infix
import Mathlib.Logic.Function.Basic

/-!
# Generations

Slots that hold what is kept, the youngest in slot `0` and older ones in the slots above.  To make
room, the content of every slot is moved to the next one, the oldest first; a move can fail, and
the content of its target can be lost with it.

* `Attempt`, `attempt` : one attempt to move a content; `moveOne` : two attempts.
* `moveUp a n f` : the contents below slot `n` are moved up, until a move fails.
* `kept n f` : what is in the slots up to `n`, the oldest first.
* `kept_moveUp_suffix`, `kept_moveUp_sublist` : **moving up loses the oldest slot only**, and if a
  move fails some slots.
-/

namespace LiteMonitor

namespace Generations

variable {α β γ : Type*}

/-- How an attempt turns out: whether the target was cleared, and whether the content was moved. -/
structure Attempt where
  cleared : Bool
  moved : Bool
  deriving DecidableEq

/-- One attempt to move the content of slot `i` to slot `i + 1`. -/
def attempt (a : Attempt) (i : ℕ) (f : ℕ → Option β) : ℕ → Option β :=
  let f := if a.cleared then Function.update f (i + 1) none else f
  if a.moved then Function.update (Function.update f (i + 1) (f i)) i none else f

/-- Two attempts; the second one is made if the first one fails. -/
def moveOne (a : Attempt × Attempt) (i : ℕ) (f : ℕ → Option β) : Bool × (ℕ → Option β) :=
  if a.1.moved then (true, attempt a.1 i f)
  else (a.2.moved, attempt a.2 i (attempt a.1 i f))

/-- The contents of the slots below `n` are moved up, the oldest first, until a move fails.  An
empty slot is passed over. -/
def moveUp (a : ℕ → Attempt × Attempt) : ℕ → (ℕ → Option β) → Bool × (ℕ → Option β)
  | 0, f => (true, f)
  | i + 1, f =>
    if (f i).isNone then moveUp a i f
    else if (moveOne (a i) i f).1 then moveUp a i (moveOne (a i) i f).2
    else (false, (moveOne (a i) i f).2)

/-- What is in the slots up to `n`, the oldest first. -/
def kept : ℕ → (ℕ → Option (List α)) → List α
  | 0, f => (f 0).getD []
  | n + 1, f => (f (n + 1)).getD [] ++ kept n f

/-! ### One move -/

section Attempt

variable (a : Attempt) (i : ℕ) (f : ℕ → Option β)

theorem attempt_of_ne {j : ℕ} (hi : j ≠ i) (hs : j ≠ i + 1) : attempt a i f j = f j := by
  unfold attempt
  split_ifs <;> simp [hi, hs]

theorem attempt_moved (h : a.moved = true) :
    attempt a i f i = none ∧ attempt a i f (i + 1) = f i := by
  unfold attempt
  split_ifs <;> simp

theorem attempt_failed (h : a.moved = false) : attempt a i f i = f i ∧
    (attempt a i f (i + 1) = f (i + 1) ∨ attempt a i f (i + 1) = none) := by
  unfold attempt
  split_ifs <;> simp_all

theorem attempt_map (g : β → γ) : attempt a i (fun j => (f j).map g) =
    fun j => (attempt a i f j).map g := by
  funext j
  by_cases hi : j = i <;> by_cases hs : j = i + 1 <;> unfold attempt <;>
    split_ifs <;> simp_all

end Attempt

section MoveOne

variable (a : Attempt × Attempt) (i : ℕ) (f : ℕ → Option β)

theorem moveOne_of_ne {j : ℕ} (hi : j ≠ i) (hs : j ≠ i + 1) : (moveOne a i f).2 j = f j := by
  unfold moveOne
  split_ifs
  · exact attempt_of_ne _ _ _ hi hs
  · exact (attempt_of_ne _ _ _ hi hs).trans (attempt_of_ne _ _ _ hi hs)

theorem moveOne_moved (h : (moveOne a i f).1 = true) :
    (moveOne a i f).2 i = none ∧ (moveOne a i f).2 (i + 1) = f i := by
  unfold moveOne at h ⊢
  by_cases hfst : a.1.moved = true
  · rw [if_pos hfst]
    exact attempt_moved _ _ _ hfst
  · rw [if_neg hfst] at h ⊢
    obtain ⟨hnone, hnext⟩ := attempt_moved a.2 i (attempt a.1 i f) h
    exact ⟨hnone, hnext.trans (attempt_failed _ _ _ (by simpa using hfst)).1⟩

/-- A move that fails leaves the content where it is, and the target may be empty. -/
theorem moveOne_failed (h : (moveOne a i f).1 = false) : (moveOne a i f).2 i = f i ∧
    ((moveOne a i f).2 (i + 1) = f (i + 1) ∨ (moveOne a i f).2 (i + 1) = none) := by
  unfold moveOne at h ⊢
  by_cases hfst : a.1.moved = true
  · rw [if_pos hfst] at h
    cases h
  · rw [if_neg hfst] at h ⊢
    obtain ⟨hsame₁, hnext₁⟩ := attempt_failed a.1 i f (by simpa using hfst)
    obtain ⟨hsame₂, hnext₂⟩ := attempt_failed a.2 i (attempt a.1 i f) h
    refine ⟨hsame₂.trans hsame₁, ?_⟩
    rcases hnext₂ with hnext₂ | hnext₂
    · exact hnext₁.imp hnext₂.trans hnext₂.trans
    · exact Or.inr hnext₂

theorem moveOne_map (g : β → γ) : moveOne a i (fun j => (f j).map g) =
    ((moveOne a i f).1, fun j => ((moveOne a i f).2 j).map g) := by
  unfold moveOne
  split_ifs
  · rw [attempt_map]
  · rw [attempt_map, attempt_map]

theorem exists_of_moveOne {j : ℕ} {c : β} (h : (moveOne a i f).2 j = some c) :
    ∃ k, f k = some c := by
  by_cases hi : j = i
  · subst hi
    cases hmove : (moveOne a j f).1 with
    | true =>
      rw [(moveOne_moved _ _ _ hmove).1] at h
      cases h
    | false => exact ⟨j, (moveOne_failed _ _ _ hmove).1 ▸ h⟩
  by_cases hs : j = i + 1
  · subst hs
    cases hmove : (moveOne a i f).1 with
    | true => exact ⟨i, (moveOne_moved _ _ _ hmove).2 ▸ h⟩
    | false =>
      rcases (moveOne_failed _ _ _ hmove).2 with hsame | hnone
      · exact ⟨i + 1, hsame ▸ h⟩
      · rw [hnone] at h
        cases h
  · rw [moveOne_of_ne _ _ _ hi hs] at h
    exact ⟨j, h⟩

end MoveOne

/-! ### All moves -/

section MoveUp

variable {a : ℕ → Attempt × Attempt} {n : ℕ} {f : ℕ → Option β}

theorem moveUp_cases (a : ℕ → Attempt × Attempt) (i : ℕ) (f : ℕ → Option β) :
    f i = none ∧ moveUp a (i + 1) f = moveUp a i f ∨
    (moveOne (a i) i f).1 = true ∧ moveUp a (i + 1) f = moveUp a i (moveOne (a i) i f).2 ∨
    (moveOne (a i) i f).1 = false ∧ moveUp a (i + 1) f = (false, (moveOne (a i) i f).2) := by
  rw [moveUp]
  split_ifs with hnone hmove
  · exact Or.inl ⟨Option.isNone_iff_eq_none.1 hnone, rfl⟩
  · exact Or.inr (Or.inl ⟨hmove, rfl⟩)
  · exact Or.inr (Or.inr ⟨by simpa using hmove, rfl⟩)

theorem moveUp_above {j : ℕ} (hj : n < j) : (moveUp a n f).2 j = f j := by
  induction n generalizing f with
  | zero => rfl
  | succ i ih =>
    have hstep : (moveOne (a i) i f).2 j = f j := moveOne_of_ne _ _ _ (by omega) (by omega)
    rcases moveUp_cases a i f with ⟨-, heq⟩ | ⟨-, heq⟩ | ⟨-, heq⟩
    · rw [heq, ih (by omega)]
    · rw [heq, ih (by omega), hstep]
    · rw [heq, hstep]

theorem moveUp_fst (h : ∀ i, (a i).1.moved = true ∨ (a i).2.moved = true) :
    (moveUp a n f).1 = true := by
  induction n generalizing f with
  | zero => rfl
  | succ i ih =>
    rcases moveUp_cases a i f with ⟨-, heq⟩ | ⟨-, heq⟩ | ⟨hfail, -⟩
    · rw [heq]
      exact ih
    · rw [heq]
      exact ih
    · unfold moveOne at hfail
      rcases h i with hfst | hsnd
      · rw [if_pos hfst] at hfail
        cases hfail
      · split_ifs at hfail
        rw [hsnd] at hfail
        cases hfail

theorem moveUp_succ {i : ℕ} (hi : i < n) (h : (moveUp a n f).1 = true) (hf : f i ≠ none) :
    (moveUp a n f).2 (i + 1) = f i := by
  induction n generalizing f with
  | zero => omega
  | succ k ih =>
    rcases moveUp_cases a k f with ⟨hnone, heq⟩ | ⟨hmove, heq⟩ | ⟨-, heq⟩
    · rw [heq] at h ⊢
      have hne : i ≠ k := fun hik => hf (hik ▸ hnone)
      exact ih (by omega) h hf
    · rw [heq] at h ⊢
      by_cases hik : i = k
      · subst hik
        rw [moveUp_above (by omega)]
        exact (moveOne_moved _ _ _ hmove).2
      · have hsame : (moveOne (a k) k f).2 i = f i := moveOne_of_ne _ _ _ hik (by omega)
        rw [← hsame] at hf ⊢
        exact ih (by omega) h hf
    · rw [heq] at h
      cases h

theorem moveUp_zero (hn : 0 < n) (h : (moveUp a n f).1 = true) : (moveUp a n f).2 0 = none := by
  induction n generalizing f with
  | zero => omega
  | succ i ih =>
    rcases moveUp_cases a i f with ⟨hnone, heq⟩ | ⟨hmove, heq⟩ | ⟨-, heq⟩
    · rw [heq] at h ⊢
      cases i with
      | zero => exact hnone
      | succ i => exact ih (by omega) h
    · rw [heq] at h ⊢
      cases i with
      | zero => exact (moveOne_moved _ _ _ hmove).1
      | succ i => exact ih (by omega) h
    · rw [heq] at h
      cases h

theorem exists_of_moveUp {j : ℕ} {c : β} (h : (moveUp a n f).2 j = some c) :
    ∃ k, f k = some c := by
  induction n generalizing f with
  | zero => exact ⟨j, h⟩
  | succ i ih =>
    rcases moveUp_cases a i f with ⟨-, heq⟩ | ⟨-, heq⟩ | ⟨-, heq⟩
    · rw [heq] at h
      exact ih h
    · rw [heq] at h
      obtain ⟨k, hk⟩ := ih h
      exact exists_of_moveOne _ _ _ hk
    · rw [heq] at h
      exact exists_of_moveOne _ _ _ h

theorem moveUp_map (a : ℕ → Attempt × Attempt) (n : ℕ) (f : ℕ → Option β) (g : β → γ) :
    moveUp a n (fun j => (f j).map g) =
      ((moveUp a n f).1, fun j => ((moveUp a n f).2 j).map g) := by
  induction n generalizing f with
  | zero => rfl
  | succ i ih =>
    rw [moveUp, moveUp, Option.isNone_map, moveOne_map]
    dsimp only
    split_ifs
    · exact ih f
    · exact ih _
    · rfl

end MoveUp

/-! ### What is kept -/

section Kept

variable {a : ℕ → Attempt × Attempt} {n : ℕ} {f g : ℕ → Option (List α)}

theorem kept_congr (h : ∀ j ≤ n, f j = g j) : kept n f = kept n g := by
  induction n with
  | zero => rw [kept, kept, h 0 le_rfl]
  | succ n ih => rw [kept, kept, h (n + 1) le_rfl, ih fun j hj => h j (by omega)]

theorem kept_empty (hnone : g n = none) (h : ∀ j < n, g j = f j) :
    (f n).getD [] ++ kept n g = kept n f := by
  cases n with
  | zero => rw [kept, kept, hnone, Option.getD_none, List.append_nil]
  | succ n =>
    rw [kept, kept, hnone, Option.getD_none, List.nil_append,
      kept_congr fun j hj => h j (by omega)]

theorem kept_moveUp_eq (hnone : f n = none) (h : (moveUp a n f).1 = true) :
    kept n (moveUp a n f).2 = kept n f := by
  induction n generalizing f with
  | zero => rfl
  | succ i ih =>
    rw [kept, kept, hnone, Option.getD_none, List.nil_append]
    rcases moveUp_cases a i f with ⟨hnone', heq⟩ | ⟨hmove, heq⟩ | ⟨-, heq⟩
    · rw [heq] at h ⊢
      rw [moveUp_above (by omega), hnone, ih hnone' h, Option.getD_none, List.nil_append]
    · rw [heq] at h ⊢
      obtain ⟨hempty, hnext⟩ := moveOne_moved _ _ _ hmove
      rw [moveUp_above (by omega), ih hempty h, hnext]
      exact kept_empty hempty fun j hj => moveOne_of_ne _ _ _ (by omega) (by omega)
    · rw [heq] at h
      cases h

/-- **If all moves succeed, the oldest slot is lost at most.** -/
theorem kept_moveUp_suffix (h : (moveUp a n f).1 = true) :
    kept n (moveUp a n f).2 <:+ kept n f := by
  cases n with
  | zero => exact List.suffix_rfl
  | succ i =>
    rcases moveUp_cases a i f with ⟨hnone, heq⟩ | ⟨hmove, heq⟩ | ⟨-, heq⟩
    · rw [heq] at h ⊢
      rw [kept, kept, moveUp_above (by omega), kept_moveUp_eq hnone h]
    · rw [heq] at h ⊢
      obtain ⟨hempty, hnext⟩ := moveOne_moved _ _ _ hmove
      have hrest : (f i).getD [] ++ kept i (moveOne (a i) i f).2 = kept i f :=
        kept_empty hempty fun j hj => moveOne_of_ne _ _ _ (by omega) (by omega)
      rw [kept, kept, moveUp_above (by omega), hnext, kept_moveUp_eq hempty h, hrest]
      exact List.suffix_append _ _
    · rw [heq] at h
      cases h

/-- **Even if a move fails, what is kept stays in order.** -/
theorem kept_moveUp_sublist : (kept n (moveUp a n f).2).Sublist (kept n f) := by
  induction n generalizing f with
  | zero => exact List.Sublist.refl _
  | succ i ih =>
    rcases moveUp_cases a i f with ⟨-, heq⟩ | ⟨hmove, heq⟩ | ⟨hfail, heq⟩
    · rw [heq, kept, kept, moveUp_above (by omega)]
      exact (List.Sublist.refl _).append ih
    · obtain ⟨hempty, hnext⟩ := moveOne_moved _ _ _ hmove
      have hrest : (f i).getD [] ++ kept i (moveOne (a i) i f).2 = kept i f :=
        kept_empty hempty fun j hj => moveOne_of_ne _ _ _ (by omega) (by omega)
      have hsub : (kept i (moveUp a i (moveOne (a i) i f).2).2).Sublist
        (kept i (moveOne (a i) i f).2) := ih
      rw [heq, kept, kept, moveUp_above (by omega), hnext]
      refine (((List.Sublist.refl _).append hsub).trans ?_).trans (List.sublist_append_right _ _)
      rw [hrest]
    · obtain ⟨hsame, hnext⟩ := moveOne_failed _ _ _ hfail
      have hrest : kept i (moveOne (a i) i f).2 = kept i f := by
        refine kept_congr fun j hj => ?_
        by_cases hji : j = i
        · rw [hji, hsame]
        · exact moveOne_of_ne _ _ _ hji (by omega)
      rw [heq, kept, kept, hrest]
      rcases hnext with hnext | hnext
      · rw [hnext]
      · rw [hnext, Option.getD_none, List.nil_append]
        exact List.sublist_append_right _ _

theorem kept_update_zero (n : ℕ) (f : ℕ → Option (List α)) (c : Option (List α)) :
    kept n (Function.update f 0 c) = kept n (Function.update f 0 none) ++ c.getD [] := by
  induction n with
  | zero => simp [kept]
  | succ n ih => simp [kept, ih]

theorem kept_zero (n : ℕ) (f : ℕ → Option (List α)) :
    kept n f = kept n (Function.update f 0 none) ++ (f 0).getD [] := by
  rw [← kept_update_zero, Function.update_eq_self]

theorem kept_append (n : ℕ) {f : ℕ → Option (List α)} {b : List α} (hb : f 0 = some b)
    (c : List α) : kept n (Function.update f 0 (some (b ++ c))) = kept n f ++ c := by
  rw [kept_update_zero, kept_zero n f, hb, Option.getD_some, Option.getD_some, List.append_assoc]

theorem kept_clear_sublist (n : ℕ) (f : ℕ → Option (List α)) :
    (kept n (Function.update f 0 (some []))).Sublist (kept n f) := by
  rw [kept_update_zero, Option.getD_some, List.append_nil, kept_zero n f]
  exact List.sublist_append_left _ _

theorem kept_update_sublist (n : ℕ) {f : ℕ → Option (List α)} {b : Option (List α)} {c : List α}
    (h : (b.getD []).Sublist ((f 0).getD [] ++ c)) :
    (kept n (Function.update f 0 b)).Sublist (kept n f ++ c) := by
  rw [kept_update_zero, kept_zero n f, List.append_assoc]
  exact (List.Sublist.refl _).append h

/-- **Moving up and starting with a new content** loses the oldest slot only. -/
theorem kept_rotate_suffix (h : (moveUp a n f).1 = true) (c : List α) :
    kept n (Function.update (moveUp a n f).2 0 (some c)) <:+ kept n f ++ c := by
  cases n with
  | zero => simp [kept]
  | succ n =>
    rw [kept_update_zero, Option.getD_some]
    have hzero := moveUp_zero (Nat.succ_pos n) h
    rw [Function.update_eq_self_iff.2 hzero.symm]
    obtain ⟨lost, hlost⟩ := kept_moveUp_suffix h
    exact ⟨lost, by rw [← hlost, List.append_assoc]⟩

/-- The contents are one slot further up, and the youngest slot is empty. -/
theorem kept_shift (hzero : g 0 = none) (h : ∀ i ≤ n, g (i + 1) = f i) :
    kept (n + 1) g = kept n f := by
  induction n with
  | zero => rw [kept, kept, kept, hzero, h 0 le_rfl, Option.getD_none, List.append_nil]
  | succ n ih =>
    rw [kept, h (n + 1) le_rfl, ih fun i hi => h i (by omega)]
    rfl

/-- If the slots are not empty, moving up is a shift as long as there is room. -/
theorem kept_rotate_shift {m : ℕ} (hm : m < n) (h : (moveUp a n f).1 = true)
    (hf : ∀ i ≤ m, f i ≠ none) (c : List α) :
    kept (m + 1) (Function.update (moveUp a n f).2 0 (some c)) = kept m f ++ c := by
  have hzero := moveUp_zero (by omega) h
  rw [kept_update_zero, Option.getD_some, Function.update_eq_self_iff.2 hzero.symm,
    kept_shift hzero fun i hi => moveUp_succ (by omega) h (hf i hi)]

end Kept

end Generations

end LiteMonitor
