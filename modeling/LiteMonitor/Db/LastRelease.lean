import LiteMonitor.Db.Teardown

/-!
# The last release

The destructor waits on `cv_exit_` until no connection is out.  A deleter counts its connection
down under the lock, and reads `shutting_down_` and notifies without it; the destructor sets the
flag before it looks at the counter.

* `GoingToNotify s i` : the deleter of caller `i` will notify `cv_exit_`.
* `Awaited` : while the destructor is blocked, a connection is out or a deleter is going to notify.
* `last_release` : **the destructor is not left blocked when no connection is out.**
-/

namespace LiteMonitor

namespace DBConnectionPool

open LTS

variable {ι : Type*} {s s' : State ι} {a : Act ι}

/-- The connection is back in the pool, and the deleter has not read `shutting_down_` yet. -/
def Loc.beforeFlag : Loc → Bool
  | relUnlock | relNotify | relCheck => true
  | _ => false

/-- The deleter of caller `i` is about to notify `cv_exit_`, or will be when it reads
`shutting_down_`. -/
def GoingToNotify (s : State ι) (i : ι) : Prop :=
  s.caller i = .relNotifyExit ∨ s.shutting_down_ = true ∧ (s.caller i).beforeFlag = true

/-- While the destructor is blocked, a connection is out or a deleter is going to notify. -/
def Awaited (s : State ι) : Prop :=
  s.dtor = .blocked → s.active_connections_ ≠ 0 ∨ ∃ i, GoingToNotify s i

theorem GoingToNotify.of_eq {i : ι} (hi : GoingToNotify s i) (hc : s'.caller i = s.caller i)
    (hs : s'.shutting_down_ = s.shutting_down_) : GoingToNotify s' i := by
  unfold GoingToNotify
  rw [hc, hs]
  exact hi

theorem GoingToNotify.ne {i j : ι} {l : Loc} (hi : GoingToNotify s i) (hj : s.caller j = l)
    (hl : l ≠ .relNotifyExit) (hl' : l.beforeFlag = false) : j ≠ i := by
  rintro rfl
  rcases hi with hi | ⟨-, hi⟩
  · exact hl (hj.symm.trans hi)
  · rw [hj, hl'] at hi
    simp at hi

variable [DecidableEq ι]

theorem GoingToNotify.step {i : ι} (hi : GoingToNotify s i) (hshut : s.shutting_down_ = true)
    (h : Move s a s') (ha : a ≠ .notifyExit i) : GoingToNotify s' i := by
  have hother : ∀ {j : ι} {l : Loc}, j ≠ i → Function.update s.caller j l i = s.caller i :=
    fun hj => Function.update_of_ne hj.symm ..
  cases h with
  | call hj | wait hj | take hj | refuse hj | wake _ hj | release hj | returned hj | replaced hj =>
    exact hi.of_eq (hother (hi.ne hj (by rintro ⟨⟩) rfl)) rfl
  | @lock j l hm hl =>
    refine hi.of_eq (hother ?_) rfl
    rintro rfl
    rcases hi with hi | ⟨-, hi⟩
    · simp [hi, Loc.locked] at hl
    · cases hj : s.caller j <;> simp [hj, Loc.locked, Loc.beforeFlag] at hl hi
  | execute _ hj | query _ hj => exact hi.of_eq rfl rfl
  | @unlock j hj =>
    by_cases hji : j = i
    · exact Or.inr ⟨hshut, by simp [hji, State.goto, Loc.beforeFlag]⟩
    · exact hi.of_eq (hother hji) rfl
  | @notifyNone j hj =>
    by_cases hji : j = i
    · exact Or.inr ⟨hshut, by simp [hji, State.goto, Loc.beforeFlag]⟩
    · exact hi.of_eq (hother hji) rfl
  | @notify j k hj hk =>
    have hki : k ≠ i := hi.ne hk (by rintro ⟨⟩) rfl
    have hki' : Function.update (Function.update s.caller j .relCheck) k (.woken false) i =
        Function.update s.caller j .relCheck i := Function.update_of_ne hki.symm ..
    by_cases hji : j = i
    · refine Or.inr ⟨hshut, ?_⟩
      simp only [State.goto]
      rw [hki', hji, Function.update_self]
      rfl
    · exact hi.of_eq (hki'.trans (hother hji)) rfl
  | @readFlag j hj =>
    by_cases hji : j = i
    · exact Or.inl (by simp [hji, State.goto, hshut])
    · exact hi.of_eq (hother hji) rfl
  | @notifyExit j hj => exact hi.of_eq (hother fun h => ha (h ▸ rfl)) rfl
  | dtorNotifyAll =>
    refine hi.of_eq ?_ rfl
    show (s.caller i).notified = s.caller i
    cases hl : s.caller i with
    | blocked => exact absurd rfl (hi.ne hl (by rintro ⟨⟩) rfl)
    | _ => rfl
  | dtorSet =>
    exact hi.imp_right fun h => ⟨rfl, h.2⟩
  | _ => exact hi

theorem Awaited.step (hs : Awaited s) (hclosing : Closing s) (h : Move s a s') : Awaited s' := by
  intro hd'
  have hset : s.dtor = .blocked → s.shutting_down_ = true := fun hd =>
    hclosing.shut (by rw [hd]; rfl)
  have hkeep : s.dtor = .blocked → s'.active_connections_ = s.active_connections_ →
      (∀ i, a ≠ .notifyExit i) → s'.active_connections_ ≠ 0 ∨ ∃ i, GoingToNotify s' i := by
    intro hd hactive hne
    rw [hactive]
    refine (hs hd).imp_right ?_
    rintro ⟨i, hi⟩
    exact ⟨i, hi.step (hset hd) h (hne i)⟩
  cases h with
  | take hi hd =>
    rw [hset hd'] at hd
    simp at hd
  | @returned i | @replaced i =>
    -- the last connection that comes back is counted down by a deleter that will see the flag
    exact Or.inr ⟨i, Or.inr ⟨hset hd', by simp [State.push, State.goto, Loc.beforeFlag]⟩⟩
  | dtorWait hd ha => exact Or.inl ha
  | notifyExit hi =>
    cases hd : s.dtor <;> simp [hd, DtorLoc.notified] at hd'
  | dtorLock hm hl =>
    cases hd : s.dtor <;> rw [hd] at hl <;> cases hl <;> cases hd'
  | dtorBegin | dtorSet | dtorUnlock | dtorNotifyAll | dtorLeave | dtorWake | dtorDrained
  | dtorEnd => cases hd'
  | dtorClose hd =>
    have h := hd.symm.trans hd'
    simp at h
  | _ => exact hkeep hd' rfl (by rintro i ⟨⟩)

variable [Fintype ι]

/-- **The destructor misses no last release**: whenever it is blocked on `cv_exit_` and no
connection is out, some deleter is still going to notify `cv_exit_`. -/
theorem last_release {rounds : List (Addr × Net)} {s₀ : State ι} (h₀ : construct rounds = some s₀)
    (h : (lts ι).Reachable s₀ s) (hd : s.dtor = .blocked) (ha : s.active_connections_ = 0) :
    ∃ i, GoingToNotify s i := by
  have hbuilt := built_construct h₀
  have hawaited : Awaited s := by
    refine h.invariant ?_ ?_
    · intro hd
      rw [hbuilt.dtor] at hd
      simp at hd
    · intro s a s' hr hs hst
      exact hs.step (closing_reachable hbuilt hr) (step_move hst).2
  exact (hawaited hd).resolve_left (not_not.2 ha)

/-- The destructor blocks while the connection is out, and then the connection comes back. -/
theorem last_release_blocked : ∃ s : State Unit, (lts Unit).Reachable oneConnection s ∧
    s.dtor = .blocked ∧ s.active_connections_ = 0 ∧ ∃ i, GoingToNotify s i := by
  obtain ⟨s, hs, hd, ha⟩ := Run.exists_reachable step oneConnection
    [.call (), .lock (), .critical (), .dtor, .dtor, .dtor, .dtor, .dtor, .dtor, .dtor,
      .release (), .lock (), .giveBack () 0 allUp]
    (fun s => s.dtor = .blocked ∧ s.active_connections_ = 0) (by decide)
  exact ⟨s, hs, hd, ha, last_release construct_one hs hd ha⟩

end DBConnectionPool

end LiteMonitor
