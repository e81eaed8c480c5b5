import LiteMonitor.LTS.Basic
import LiteMonitor.Threads.Count
import Mathlib.Data.List.Nodup

/-!
# A pool that lends its items

Items are idle in the pool or lent to a holder; what a holder gives back is the item it was lent,
or a new one in its place.

* `Lending ι α` : the idle items in order, and what each holder has.
* `Lending.Step p op p'` : an operation on it.
* `Lending.Exclusive` : every item is in one place only; `Exclusive.step`.
* `Step.total_eq` : but for retired items, the number of items is conserved.
-/

namespace LiteMonitor

/-- The idle items, the next one first, and the item each holder has. -/
structure Lending (ι α : Type*) where
  idle : List α
  lent : ι → Option α

namespace Lending

variable {ι α : Type*} [DecidableEq ι]

/-- The operations. -/
inductive Op (ι : Type*) where
  | lend (i : ι)
  | giveBack (i : ι)
  /-- An idle item leaves the pool for good. -/
  | retire
  deriving DecidableEq

/-- What an operation does; the item that is given back is not elsewhere. -/
inductive Step (p : Lending ι α) : Op ι → Lending ι α → Prop
  | lend {i : ι} {x : α} {q : List α} (hi : p.lent i = none) (hq : p.idle = x :: q) :
      Step p (.lend i) ⟨q, Function.update p.lent i (some x)⟩
  | giveBack {i : ι} {x y : α} (hi : p.lent i = some x) (hidle : y ∉ p.idle)
      (hlent : ∀ j, j ≠ i → p.lent j ≠ some y) :
      Step p (.giveBack i) ⟨p.idle ++ [y], Function.update p.lent i none⟩
  | retire {x : α} {q : List α} (hq : p.idle = x :: q) : Step p .retire ⟨q, p.lent⟩

/-- The pool as a transition system. -/
def lts : LTS (Lending ι α) (Op ι) := ⟨Step⟩

omit [DecidableEq ι] in
/-- Every item is in one place. -/
structure Exclusive (p : Lending ι α) : Prop where
  nodup : p.idle.Nodup
  idle : ∀ {i x}, p.lent i = some x → x ∉ p.idle
  lent : ∀ {i j x}, p.lent i = some x → p.lent j = some x → i = j

omit [DecidableEq ι] in
theorem exclusive_of_none {q : List α} (hq : q.Nodup) :
    Exclusive (⟨q, fun _ : ι => none⟩ : Lending ι α) :=
  ⟨hq, nofun, nofun⟩

theorem update_some_iff {f : ι → Option α} {i j : ι} {x y : α} :
    Function.update f i (some x) j = some y ↔ j = i ∧ x = y ∨ j ≠ i ∧ f j = some y := by
  by_cases hji : j = i
  · subst hji
    simp
  · simp [hji]

theorem update_none_iff {f : ι → Option α} {i j : ι} {y : α} :
    Function.update f i none j = some y ↔ j ≠ i ∧ f j = some y := by
  by_cases hji : j = i
  · subst hji
    simp
  · simp [hji]

variable {p p' : Lending ι α} {op : Op ι}

theorem Exclusive.step (hp : Exclusive p) (h : Step p op p') : Exclusive p' := by
  cases h with
  | @lend i x q hi hq =>
    have hnodup : (x :: q).Nodup := hq ▸ hp.nodup
    have hx : ∀ {j}, p.lent j ≠ some x := fun hj => hp.idle hj (hq ▸ List.mem_cons_self)
    refine ⟨hnodup.of_cons, ?_, ?_⟩
    · intro j y hj
      rcases update_some_iff.1 hj with ⟨-, rfl⟩ | ⟨-, hj'⟩
      · exact (List.nodup_cons.1 hnodup).1
      · exact fun hmem => hp.idle hj' (hq ▸ List.mem_cons_of_mem x hmem)
    · intro j k y hj hk
      rcases update_some_iff.1 hj with ⟨rfl, rfl⟩ | ⟨-, hj'⟩
      · rcases update_some_iff.1 hk with ⟨rfl, -⟩ | ⟨-, hk'⟩
        · rfl
        · exact absurd hk' hx
      · rcases update_some_iff.1 hk with ⟨-, rfl⟩ | ⟨-, hk'⟩
        · exact absurd hj' hx
        · exact hp.lent hj' hk'
  | @giveBack i x y hi hidle hother =>
    refine ⟨?_, ?_, ?_⟩
    · exact List.Nodup.append hp.nodup (List.nodup_singleton y) (by simpa using hidle)
    · intro j z hj
      obtain ⟨hji, hj'⟩ := update_none_iff.1 hj
      rw [List.mem_append, List.mem_singleton]
      rintro (hmem | rfl)
      · exact hp.idle hj' hmem
      · exact hother j hji hj'
    · exact fun hj hk => hp.lent (update_none_iff.1 hj).2 (update_none_iff.1 hk).2
  | @retire x q hq =>
    exact ⟨(hq ▸ hp.nodup : (x :: q).Nodup).of_cons,
      fun hj hmem => hp.idle hj (hq ▸ List.mem_cons_of_mem x hmem), hp.lent⟩

omit [DecidableEq ι] in
/-- The item is idle or lent. -/
def Mem (p : Lending ι α) (x : α) : Prop := x ∈ p.idle ∨ ∃ i, p.lent i = some x

theorem mem_lend {i : ι} {x z : α} {q : List α} (hq : p.idle = x :: q)
    (h : Mem ⟨q, Function.update p.lent i (some x)⟩ z) : p.Mem z := by
  rcases h with h | ⟨j, hj⟩
  · exact Or.inl (hq ▸ List.mem_cons_of_mem x h)
  · rcases update_some_iff.1 hj with ⟨-, rfl⟩ | ⟨-, hj'⟩
    · exact Or.inl (hq ▸ List.mem_cons_self)
    · exact Or.inr ⟨j, hj'⟩

theorem Exclusive.mem_giveBack {i : ι} {x y z : α} (hp : Exclusive p) (hi : p.lent i = some x)
    (h : Mem ⟨p.idle ++ [y], Function.update p.lent i none⟩ z) : z = y ∨ z ≠ x ∧ p.Mem z := by
  rcases h with h | ⟨j, hj⟩
  · rcases List.mem_append.1 h with h | h
    · refine Or.inr ⟨?_, Or.inl h⟩
      rintro rfl
      exact hp.idle hi h
    · exact Or.inl (List.mem_singleton.1 h)
  · obtain ⟨hji, hj'⟩ := update_none_iff.1 hj
    refine Or.inr ⟨?_, Or.inr ⟨j, hj'⟩⟩
    rintro rfl
    exact hji (hp.lent hj' hi)

omit [DecidableEq ι] in
theorem Exclusive.mem_retire {x z : α} {q : List α} (hp : Exclusive p) (hq : p.idle = x :: q)
    (h : Mem ⟨q, p.lent⟩ z) : z ≠ x ∧ p.Mem z := by
  have hnodup : (x :: q).Nodup := hq ▸ hp.nodup
  rcases h with h | ⟨j, hj⟩
  · refine ⟨?_, Or.inl (hq ▸ List.mem_cons_of_mem x h)⟩
    rintro rfl
    exact (List.nodup_cons.1 hnodup).1 h
  · refine ⟨?_, Or.inr ⟨j, hj⟩⟩
    rintro rfl
    exact hp.idle hj (hq ▸ List.mem_cons_self)

theorem Mem.lend {i : ι} {x z : α} {q : List α} (h : p.Mem z) (hi : p.lent i = none)
    (hq : p.idle = x :: q) : Mem ⟨q, Function.update p.lent i (some x)⟩ z := by
  rcases h with h | ⟨j, hj⟩
  · rw [hq] at h
    rcases List.mem_cons.1 h with rfl | h
    · exact Or.inr ⟨i, Function.update_self ..⟩
    · exact Or.inl h
  · have hji : j ≠ i := by
      rintro rfl
      rw [hi] at hj
      cases hj
    exact Or.inr ⟨j, update_some_iff.2 (Or.inr ⟨hji, hj⟩)⟩

theorem Mem.giveBack {i : ι} {x y z : α} (h : p.Mem z) (hi : p.lent i = some x) (hne : z ≠ x) :
    Mem ⟨p.idle ++ [y], Function.update p.lent i none⟩ z := by
  rcases h with h | ⟨j, hj⟩
  · exact Or.inl (List.mem_append_left _ h)
  · have hji : j ≠ i := by
      rintro rfl
      exact hne (Option.some.inj (hj.symm.trans hi))
    exact Or.inr ⟨j, update_none_iff.2 ⟨hji, hj⟩⟩

omit [DecidableEq ι] in
theorem Mem.retire {x z : α} {q : List α} (h : p.Mem z) (hq : p.idle = x :: q) (hne : z ≠ x) :
    Mem ⟨q, p.lent⟩ z := by
  rcases h with h | h
  · rw [hq] at h
    exact Or.inl ((List.mem_cons.1 h).resolve_left hne)
  · exact Or.inr h

section Count

variable [Fintype ι]

omit [DecidableEq ι] in
/-- The number of items that are lent. -/
def out (p : Lending ι α) : ℕ := Threads.count Option.isSome p.lent

/-- Items are conserved: they change their place, until they are retired. -/
theorem Step.total_eq (h : Step p op p') :
    p'.idle.length + p'.out + (if op = .retire then 1 else 0) = p.idle.length + p.out := by
  cases h with
  | @lend i x q hi hq =>
    have hcount := Threads.count_update Option.isSome p.lent i (some x)
    rw [hi] at hcount
    simp only [out, hq, List.length_cons, reduceCtorEq, if_false]
    simp at hcount
    omega
  | @giveBack i x y hi =>
    have hcount := Threads.count_update Option.isSome p.lent i none
    rw [hi] at hcount
    simp only [out, List.length_append, List.length_singleton, reduceCtorEq, if_false]
    simp at hcount
    omega
  | retire hq => simp only [out, hq, List.length_cons, if_true]; omega

end Count

end Lending

end LiteMonitor
