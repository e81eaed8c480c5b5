/-!
# Computations that change a state and may throw

What is changed before something is thrown stays changed.

* `Throwing.on m s` : what `m` returns or throws from the state `s`, and the state after it;
  `on_bind_ok`, `on_bind_error`, `on_get_bind`, `on_modify_bind`, `on_throw_bind`.
* `Updates m u`, `Throws m` : what `m` does from every state.
* `forM_updates`, `forM_throws` : a loop makes the updates of its rounds, or throws if one of them
  does.
* `Keeps I m` : whether `m` returns or throws, it keeps `I`; `Keeps.bind`, `keeps_modify`.
-/

namespace LiteMonitor

namespace Throwing

variable {ε σ α β : Type} {m : ExceptT ε (StateM σ) α} {f : α → ExceptT ε (StateM σ) β} {s s' : σ}

/-- What the computation returns or throws, and the state after it. -/
def on (m : ExceptT ε (StateM σ) α) (s : σ) : Except ε α × σ := m.run.run s

theorem on_bind_ok {a : α} (h : on m s = (.ok a, s')) : on (m >>= f) s = on (f a) s' := by
  unfold on at h
  simp only [on, ExceptT.run_bind, StateT.run_bind, h]
  rfl

theorem on_bind_error {e : ε} (h : on m s = (.error e, s')) : on (m >>= f) s = (.error e, s') := by
  unfold on at h
  simp only [on, ExceptT.run_bind, StateT.run_bind, h]
  rfl

section Rules

variable (g : σ → ExceptT ε (StateM σ) β) (k : PUnit → ExceptT ε (StateM σ) β) (u : σ → σ) (e : ε)

theorem on_get_bind : on ((get : ExceptT ε (StateM σ) σ) >>= g) s = on (g s) s := rfl

theorem on_modify_bind :
    on ((modify u : ExceptT ε (StateM σ) PUnit) >>= k) s = on (k ⟨⟩) (u s) := rfl

theorem on_throw_bind :
    on ((throw e : ExceptT ε (StateM σ) α) >>= f) s = (.error e, s) := rfl

end Rules

/-- From every state the computation returns, and `u` is done to the state. -/
def Updates (m : ExceptT ε (StateM σ) Unit) (u : σ → σ) : Prop := ∀ s, on m s = (.ok (), u s)

/-- From every state the computation throws the same. -/
def Throws (m : ExceptT ε (StateM σ) α) : Prop := ∃ e, ∀ s, (on m s).1 = .error e

theorem updates_pure : Updates (pure () : ExceptT ε (StateM σ) Unit) id := fun _ => rfl

theorem throws_throw (e : ε) : Throws (throw e : ExceptT ε (StateM σ) α) := ⟨e, fun _ => rfl⟩

theorem Updates.bind {m m' : ExceptT ε (StateM σ) Unit} {u u' : σ → σ} (h : Updates m u)
    (h' : Updates m' u') : Updates (m >>= fun _ => m') (u' ∘ u) := by
  intro s
  rw [on_bind_ok (h s)]
  exact h' (u s)

theorem Throws.bind (h : Throws m) : Throws (m >>= f) := by
  obtain ⟨e, he⟩ := h
  refine ⟨e, fun s => ?_⟩
  have hm : on m s = (.error e, (on m s).2) := by
    rw [← he s]
  rw [on_bind_error hm]

theorem Updates.bind_throws {m : ExceptT ε (StateM σ) Unit} {m' : ExceptT ε (StateM σ) α}
    {u : σ → σ} (h : Updates m u) (h' : Throws m') : Throws (m >>= fun _ => m') := by
  obtain ⟨e, he⟩ := h'
  refine ⟨e, fun s => ?_⟩
  rw [on_bind_ok (h s)]
  exact he (u s)

section ForM

variable {ι : Type} {l : List ι} {g : ι → ExceptT ε (StateM σ) Unit}

theorem forM_updates {u : ι → σ → σ} (h : ∀ x ∈ l, Updates (g x) (u x)) :
    Updates (l.forM g) fun s => l.foldl (fun s x => u x s) s := by
  induction l with
  | nil => exact updates_pure
  | cons y l ih =>
    rw [List.forM_eq_forM, List.forM_cons]
    have hl := ih fun x hx => h x (List.mem_cons_of_mem y hx)
    exact (h y List.mem_cons_self).bind hl

/-- **A loop throws if one of its rounds does.** -/
theorem forM_throws (hall : ∀ x ∈ l, (∃ u, Updates (g x) u) ∨ Throws (g x))
    (h : ∃ x ∈ l, Throws (g x)) : Throws (l.forM g) := by
  induction l with
  | nil =>
    obtain ⟨x, hx, -⟩ := h
    simp at hx
  | cons y l ih =>
    rw [List.forM_eq_forM, List.forM_cons]
    obtain ⟨x, hx, hthrows⟩ := h
    rcases List.mem_cons.1 hx with rfl | hx
    · exact hthrows.bind
    · -- a later round throws, unless this one does already
      rcases hall y List.mem_cons_self with ⟨u, hu⟩ | hy
      · have hl := ih (fun x hx => hall x (List.mem_cons_of_mem y hx)) ⟨x, hx, hthrows⟩
        exact hu.bind_throws hl
      · exact hy.bind

end ForM

/-- Whether the computation returns or throws, it keeps `I`. -/
def Keeps (I : σ → Prop) (m : ExceptT ε (StateM σ) α) : Prop := ∀ s, I s → I (on m s).2

section Keeps

variable {I : σ → Prop}

theorem keeps_pure (a : α) : Keeps I (pure a : ExceptT ε (StateM σ) α) := fun _ hs => hs

theorem keeps_throw (e : ε) : Keeps I (throw e : ExceptT ε (StateM σ) α) := fun _ hs => hs

theorem keeps_get : Keeps I (get : ExceptT ε (StateM σ) σ) := fun _ hs => hs

theorem keeps_modify {u : σ → σ} (h : ∀ s, I s → I (u s)) :
    Keeps I (modify u : ExceptT ε (StateM σ) PUnit) := fun s hs => h s hs

theorem Keeps.bind (h : Keeps I m) (hf : ∀ a, Keeps I (f a)) : Keeps I (m >>= f) := by
  intro s hs
  have hm := h s hs
  cases hr : on m s with
  | mk r s' =>
    rw [hr] at hm
    cases r with
    | ok a =>
      rw [on_bind_ok hr]
      exact hf a s' hm
    | error e =>
      rw [on_bind_error hr]
      exact hm

end Keeps

end Throwing

end LiteMonitor
