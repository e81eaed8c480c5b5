import LiteMonitor.Db.Teardown

/-!
# No wake-up is lost in the pool

A caller that waits un-notified on `cv_` has not been forgotten: every connection in the queue is
accounted for by a caller that was woken and has not looked yet, or by a deleter that has given its
connection back and has not notified yet.  This holds until the destructor sets `shutting_down_`:
from then on a woken caller leaves without the connection, and wakes nobody in its place.

* `State.waiting`, `State.looking`, `State.notifying` : how many callers stand where.
* `Awake` : the invariant; `Awake.step` : every step keeps it.
* `spokenFor` : **while callers wait, the connections in the queue are spoken for**.
-/

namespace LiteMonitor

namespace DBConnectionPool

open LTS Threads

namespace Loc

/-- In the wait set of `cv_`. -/
def waits : Loc → Bool
  | blocked => true
  | _ => false

/-- Woken, and about to evaluate the predicate of `wait_for` again. -/
def looks : Loc → Bool
  | woken _ | check (some _) => true
  | _ => false

/-- In the deleter, with the connection back in the pool and `cv_` not notified yet. -/
def notifies : Loc → Bool
  | relUnlock | relNotify => true
  | _ => false

theorem waits_notified (l : Loc) : l.notified.waits = false := by
  cases l <;> rfl

end Loc

variable {ι : Type*} [Fintype ι]

namespace State

/-- The number of callers in the wait set of `cv_`. -/
def waiting (s : State ι) : ℕ := count Loc.waits s.caller

/-- The number of callers that were woken and have not looked yet. -/
def looking (s : State ι) : ℕ := count Loc.looks s.caller

/-- The number of deleters that have yet to notify `cv_`. -/
def notifying (s : State ι) : ℕ := count Loc.notifies s.caller

end State

/-- While a caller waits, the connections in the queue are spoken for. -/
def Awake (s : State ι) : Prop :=
  s.shutting_down_ = false → 0 < s.waiting → s.pool_.length ≤ s.looking + s.notifying

variable {s s' : State ι} {a : Act ι}

theorem Awake.of_nil (h : s.pool_ = []) : Awake s := by
  intro _ _
  rw [h]
  exact Nat.zero_le _

variable [DecidableEq ι]

theorem counts_goto {i : ι} {l : Loc} (h : s'.caller = Function.update s.caller i l) :
    s'.waiting + ((s.caller i).waits).toNat = s.waiting + l.waits.toNat ∧
    s'.looking + ((s.caller i).looks).toNat = s.looking + l.looks.toNat ∧
    s'.notifying + ((s.caller i).notifies).toNat = s.notifying + l.notifies.toNat := by
  simp only [State.waiting, State.looking, State.notifying, h]
  exact ⟨count_update .., count_update .., count_update ..⟩

theorem counts_self (s : State ι) (i : ι) (l : Loc) :
    (s.goto i l).waiting + ((s.caller i).waits).toNat = s.waiting + l.waits.toNat ∧
    (s.goto i l).looking + ((s.caller i).looks).toNat = s.looking + l.looks.toNat ∧
    (s.goto i l).notifying + ((s.caller i).notifies).toNat = s.notifying + l.notifies.toNat :=
  counts_goto rfl

/-- A caller moves on; what it takes from the queue or adds to it is made up for by what it was
about to do, or is about to do now. -/
theorem Awake.of_goto (hs : Awake s) {i : ι} {l l' : Loc} {q : List Addr} (hi : s.caller i = l)
    (hc : s'.caller = Function.update s.caller i l') (hd : s'.shutting_down_ = s.shutting_down_)
    (hq : s'.pool_ = q) (hwait : l'.waits = true → l.waits = true)
    (hpool : q.length + (l.looks.toNat + l.notifies.toNat) ≤
      s.pool_.length + (l'.looks.toNat + l'.notifies.toNat)) : Awake s' := by
  subst hq
  intro hd' hpos
  obtain ⟨hw, hl, hn⟩ := counts_goto hc
  rw [hi] at hw hl hn
  have hpos' : 0 < s.waiting := by
    cases hlw : l.waits <;> cases hlw' : l'.waits <;> simp [hlw, hlw'] at hw hwait <;> omega
  have hle := hs (hd ▸ hd') hpos'
  omega

theorem Loc.looks_locked {l l' : Loc} (h : l.locked = some l') :
    l'.waits = false ∧ l'.looks = l.looks ∧ l'.notifies = l.notifies := by
  cases l <;> simp only [Loc.locked, Option.some.injEq, reduceCtorEq] at h <;>
    subst h <;> exact ⟨rfl, rfl, rfl⟩

theorem Awake.step (hs : Awake s) (h : Move s a s') : Awake s' := by
  cases h with
  | call hi | release hi | unlock hi | notifyExit hi =>
    exact hs.of_goto hi rfl rfl rfl nofun le_rfl
  | @lock i l hm hl =>
    obtain ⟨hwait, hlook, hnotify⟩ := Loc.looks_locked hl
    refine hs.of_goto (q := s.pool_) rfl rfl rfl rfl (fun h => ?_) (by rw [hlook, hnotify])
    rw [hwait] at h
    cases h
  | refuse hi hwhy =>
    rcases hwhy with ⟨-, hshut⟩ | ⟨-, hq, -⟩
    · exact fun hd => absurd (hshut.symm.trans hd) nofun
    · exact .of_nil hq
  | wait hi hq => exact .of_nil hq
  | @take i again conn q hi hd hq =>
    -- the caller may have been woken for this connection, or come first
    refine hs.of_goto hi rfl rfl rfl nofun ?_
    cases again <;> simp [hq, Loc.looks, Loc.notifies]
  | wake timedOut hi =>
    refine hs.of_goto (q := s.pool_) hi rfl rfl rfl nofun ?_
    simp [Loc.looks, Loc.notifies]
  | execute | query | dtorBegin | dtorLock | dtorUnlock | dtorLeave | dtorWait | dtorWake
  | dtorDrained | dtorEnd => exact hs
  | @returned _ back _ _ _ hi | @replaced _ _ back _ _ hi =>
    refine hs.of_goto (q := s.pool_ ++ [back]) hi rfl rfl rfl nofun ?_
    simp [Loc.looks, Loc.notifies]
  | @notify i j hi hj =>
    have hji : j ≠ i := by
      rintro rfl
      rw [hi] at hj
      cases hj
    -- the notification passes from the one to the other
    intro hd hpos
    have hj' : (s.goto i .relCheck).caller j = .blocked := (Function.update_of_ne hji ..).trans hj
    obtain ⟨hw₁, hl₁, hn₁⟩ := counts_self s i .relCheck
    obtain ⟨hw₂, hl₂, hn₂⟩ := counts_self (s.goto i .relCheck) j (.woken false)
    simp only [hi, hj', Loc.waits, Loc.looks, Loc.notifies, Bool.toNat_true,
      Bool.toNat_false] at hw₁ hl₁ hn₁ hw₂ hl₂ hn₂
    have hle := hs hd (by omega)
    change s.pool_.length ≤ _
    omega
  | @notifyNone i hi hall =>
    have hzero : s.waiting = 0 := by
      refine count_eq_zero_iff.2 fun j => ?_
      cases hj : s.caller j <;> first | rfl | exact absurd hj (hall j)
    obtain ⟨hw, -, -⟩ := counts_self s i .relCheck
    intro _ hpos
    simp [hi, hzero, Loc.waits] at hw
    omega
  | readFlag hi =>
    refine hs.of_goto (q := s.pool_) hi rfl rfl rfl ?_ ?_ <;> split_ifs <;>
      simp [Loc.waits, Loc.looks, Loc.notifies]
  | dtorSet => exact nofun
  | dtorNotifyAll =>
    intro _ hpos
    have hzero : count Loc.waits (fun i => (s.caller i).notified) = 0 :=
      count_eq_zero_iff.2 fun i => (s.caller i).waits_notified
    exact absurd hpos (by rw [State.waiting, hzero]; exact Nat.lt_irrefl 0)
  | dtorClose hd hq hc =>
    intro hshut hpos
    have hle := hs hshut hpos
    rw [hq, List.length_cons] at hle
    exact Nat.le_of_succ_le hle

variable {s₀ : State ι}

/-- **Until the pool is shut down no wake-up is lost.**  While a caller waits un-notified on `cv_`,
the queue has at most as many connections as there are callers that were woken and have not looked
yet, and deleters that have yet to notify; so a connection never lies in the queue with everybody
asleep. -/
theorem spokenFor {rounds : List (Addr × Net)} (h₀ : construct rounds = some s₀)
    (h : (lts ι).Reachable s₀ s) (hd : s.shutting_down_ = false) {i : ι}
    (hi : s.caller i = .blocked) : s.pool_.length ≤ s.looking + s.notifying := by
  have hbuilt := built_construct h₀
  have hawake : Awake s := by
    refine h.invariant ?_ fun _ hs hst => hs.step (step_move hst).2
    intro _ hpos
    obtain ⟨j, hj⟩ := count_pos_iff.1 hpos
    rw [hbuilt.caller] at hj
    cases hj
  exact hawake hd (count_pos_iff.2 ⟨i, by rw [hi]; rfl⟩)

/-- The first caller has the only connection when the second one calls. -/
def bothCall : List (Act Bool) :=
  [.call false, .lock false, .critical false, .call true, .lock true, .critical true]

/-- The connection comes back while the second caller waits. -/
theorem spokenFor_released : ∃ s₀ s : State Bool, construct [(0, allUp)] = some s₀ ∧
    (lts Bool).Reachable s₀ s ∧ s.caller true = .blocked ∧ s.pool_ = [0] ∧
    s.pool_.length ≤ s.looking + s.notifying := by
  obtain ⟨s₀, h₀⟩ : ∃ s₀ : State Bool, construct [(0, allUp)] = some s₀ := ⟨_, rfl⟩
  obtain ⟨s, hs, hd, hi, hq⟩ := Run.exists_reachable step s₀
    (bothCall ++ [.release false, .lock false, .giveBack false 0 allUp])
    (fun s => s.shutting_down_ = false ∧ s.caller true = .blocked ∧ s.pool_ = [0])
    (by cases h₀; decide)
  exact ⟨s₀, s, h₀, hs, hi, hq, spokenFor h₀ hs hd hi⟩

end DBConnectionPool

end LiteMonitor
