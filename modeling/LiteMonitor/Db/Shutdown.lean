import LiteMonitor.Db.LastRelease
import LiteMonitor.LTS.Path
import Mathlib.Algebra.Order.BigOperators.Group.Finset

/-!
# The destructor of the pool comes to its end

`~DBConnectionPool` waits for the connections that are out.  It comes to its end if the callers give
theirs back: then no thread waits for another one forever, and the threads cannot go on without it
either.

* `Act.advances` : the steps that threads take by themselves; not among them are new calls,
  statements, and waits that end without a notification.
* `Owned` : who has the lock stands where it can go on.
* `measure` : every step that advances makes it smaller (`measure_lt`).
* `exists_advance` : as long as the destructor is on its way, some thread can advance.
* `destructor_finishes` : **the destructor finishes, whatever the order of the steps**.
-/

namespace LiteMonitor

namespace DBConnectionPool

open LTS

/-- The steps other than new calls, statements, and waits that end by themselves. -/
def Act.advances {ι : Type*} : Act ι → Bool
  | .call _ | .wake _ _ | .execute _ _ | .query _ _ | .wakeDtor => false
  | _ => true

/-! ### The lock -/

/-- With the lock. -/
def Loc.locks : Loc → Bool
  | check _ | relWork _ | relUnlock => true
  | _ => false

/-- With the lock. -/
def DtorLoc.locks : DtorLoc → Bool
  | set | unlock | check | drain | unlockExit => true
  | _ => false

variable {ι : Type*} {s s' : State ι} {a : Act ι}

/-- The owner of the lock stands where it has it. -/
structure Owned (s : State ι) : Prop where
  caller : ∀ i, s.pool_mutex_ = some (.caller i) → (s.caller i).locks = true
  dtor : s.pool_mutex_ = some .dtor → s.dtor.locks = true

theorem Owned.of_free (h : s.pool_mutex_ = none) : Owned s :=
  ⟨fun _ hi => absurd (h.symm.trans hi) nofun, fun hd => absurd (h.symm.trans hd) nofun⟩

theorem Owned.of_eq (hs : Owned s) (hm : s'.pool_mutex_ = s.pool_mutex_)
    (hc : ∀ i, (s.caller i).locks = true → s'.caller i = s.caller i)
    (hd : s.dtor.locks = true → s'.dtor.locks = true) : Owned s' := by
  refine ⟨fun i hi => ?_, fun hi => ?_⟩
  · have hlocks := hs.caller i (hm ▸ hi)
    rw [hc i hlocks]
    exact hlocks
  · exact hd (hs.dtor (hm ▸ hi))

theorem Loc.locks_locked {l l' : Loc} (h : l.locked = some l') : l'.locks = true := by
  cases l <;> simp only [Loc.locked, Option.some.injEq, reduceCtorEq] at h <;> exact h ▸ rfl

theorem DtorLoc.locks_locked {l l' : DtorLoc} (h : l.locked = some l') : l'.locks = true := by
  cases l <;> simp only [DtorLoc.locked, Option.some.injEq, reduceCtorEq] at h <;> exact h ▸ rfl

theorem Loc.notified_of_locks {l : Loc} (h : l.locks = true) : l.notified = l := by
  cases l <;> first | rfl | cases h

theorem DtorLoc.notified_of_locks {l : DtorLoc} (h : l.locks = true) : l.notified = l := by
  cases l <;> first | rfl | cases h

variable [DecidableEq ι]

theorem Owned.of_goto (hs : Owned s) {i : ι} {l l' : Loc} (hi : s.caller i = l)
    (hl : l.locks = false) : Owned (s.goto i l') := by
  refine hs.of_eq rfl (fun j hj => ?_) id
  refine Function.update_of_ne ?_ ..
  rintro rfl
  rw [hi, hl] at hj
  cases hj

theorem Owned.step (hs : Owned s) (h : Move s a s') : Owned s' := by
  cases h with
  | call hi | wake _ hi | release hi | notifyNone hi | readFlag hi => exact hs.of_goto hi rfl
  | @lock i l hm hl =>
    refine ⟨fun j hj => ?_, nofun⟩
    obtain rfl := Owner.caller.inj (Option.some.inj hj)
    exact (congrArg Loc.locks (Function.update_self ..)).trans (Loc.locks_locked hl)
  | refuse | wait | take | unlock | dtorUnlock | dtorWait | dtorEnd => exact .of_free rfl
  | execute | query => exact hs.of_eq rfl (fun _ _ => rfl) id
  | @returned i conn fresh c n hi | @replaced i conn fresh c n hi =>
    refine ⟨fun j hj => ?_, hs.dtor⟩
    by_cases hji : j = i
    · have hself : (Function.update s.caller i .relUnlock i).locks = true := by
        rw [Function.update_self]
        rfl
      exact hji ▸ hself
    · exact (congrArg Loc.locks (Function.update_of_ne hji ..)).trans (hs.caller j hj)
  | @notify i j hi hj =>
    have hji : j ≠ i := by
      rintro rfl
      rw [hi] at hj
      cases hj
    exact (hs.of_goto hi rfl).of_goto ((Function.update_of_ne hji ..).trans hj) rfl
  | @notifyExit i hi =>
    have hgoto : Owned (s.goto i (.outside none)) := hs.of_goto hi rfl
    exact ⟨hgoto.caller, fun hm => by rw [DtorLoc.notified_of_locks (hs.dtor hm)]; exact hs.dtor hm⟩
  | dtorBegin hd | dtorWake hd =>
    refine hs.of_eq rfl (fun _ _ => rfl) fun h => ?_
    rw [hd] at h
    cases h
  | dtorLock hm hl => exact ⟨nofun, fun _ => DtorLoc.locks_locked hl⟩
  | dtorSet | dtorLeave | dtorDrained => exact hs.of_eq rfl (fun _ _ => rfl) fun _ => rfl
  | dtorNotifyAll hd =>
    refine hs.of_eq rfl (fun i hi => Loc.notified_of_locks hi) fun h => ?_
    rw [hd] at h
    cases h
  | dtorClose hd => exact hs.of_eq rfl (fun _ _ => rfl) id

/-! ### The measure -/

variable [Fintype ι]

/-- How far a caller still has to go: a waiting one may be woken and wait again, and the deleter may
wake one. -/
def Loc.rank : Loc → ℕ
  | outside _ => 0
  | relNotifyExit => 3
  | relCheck => 4
  | relNotify => 7
  | relUnlock => 8
  | relWork _ => 10
  | relEnter _ => 11
  | holding _ | blocked => 12
  | check _ => 13
  | enter | woken _ => 14

/-- How far the destructor still has to go; `n` callers may be waiting. -/
def DtorLoc.rank (n : ℕ) : DtorLoc → ℕ
  | finished => 0
  | unlockExit => 1
  | drain => 2
  | blocked => 3
  | check => 4
  | woken | enterExit => 5
  | notifyAll => 6 + 2 * n
  | unlock => 7 + 2 * n
  | set => 8 + 2 * n
  | enter => 9 + 2 * n
  | notStarted => 10 + 2 * n

/-- How far the threads still have to go. -/
def measure (s : State ι) : ℕ :=
  Finset.univ.sum (fun i => (s.caller i).rank) + s.dtor.rank (Fintype.card ι) + s.pool_.length

theorem measure_lt_of_goto {i : ι} {l l' : Loc} {q : List Addr} (hi : s.caller i = l)
    (hc : s'.caller = Function.update s.caller i l') (hd : s'.dtor = s.dtor) (hq : s'.pool_ = q)
    (hlt : l'.rank + q.length < l.rank + s.pool_.length) : measure s' < measure s := by
  have hsum := Threads.sum_update Loc.rank s.caller i l'
  rw [hi] at hsum
  rw [measure, measure, hc, hd, hq]
  omega

omit [DecidableEq ι] in
theorem measure_lt_of_dtor {d d' : DtorLoc} (hd : s.dtor = d) (hd' : s'.dtor = d')
    (hc : s'.caller = s.caller) (hq : s'.pool_.length ≤ s.pool_.length)
    (hlt : d'.rank (Fintype.card ι) < d.rank (Fintype.card ι)) : measure s' < measure s := by
  rw [measure, measure, hc, hd, hd']
  omega

theorem Loc.rank_locked {l l' : Loc} (h : l.locked = some l') : l'.rank < l.rank := by
  cases l <;> simp only [Loc.locked, Option.some.injEq, reduceCtorEq] at h <;>
    subst h <;> simp only [Loc.rank] <;> omega

theorem DtorLoc.rank_locked {l l' : DtorLoc} (n : ℕ) (h : l.locked = some l') :
    l'.rank n < l.rank n := by
  cases l <;> simp only [DtorLoc.locked, Option.some.injEq, reduceCtorEq] at h <;>
    subst h <;> simp only [DtorLoc.rank] <;> omega

theorem DtorLoc.rank_notified (l : DtorLoc) (n : ℕ) : l.notified.rank n ≤ l.rank n + 2 := by
  cases l <;> simp only [DtorLoc.notified, DtorLoc.rank] <;> omega

theorem Loc.rank_notified (l : Loc) : l.notified.rank ≤ l.rank + 2 := by
  cases l <;> simp only [Loc.notified, Loc.rank] <;> omega

/-- **A step that advances makes the measure smaller.** -/
theorem measure_lt (h : Move s a s') (ha : a.advances = true) : measure s' < measure s := by
  cases h with
  | call | wake | execute | query | dtorWake => cases ha
  | lock hm hl =>
    exact measure_lt_of_goto rfl rfl rfl rfl (Nat.add_lt_add_right (Loc.rank_locked hl) _)
  | refuse hi | wait hi | release hi | unlock hi | notifyNone hi =>
    refine measure_lt_of_goto (q := s.pool_) hi rfl rfl rfl ?_
    simp [Loc.rank]
  | readFlag hi =>
    refine measure_lt_of_goto (q := s.pool_) hi rfl rfl rfl ?_
    split_ifs <;> simp [Loc.rank]
  | @take i again conn q hi hd hq =>
    refine measure_lt_of_goto (q := q) hi rfl rfl rfl ?_
    simp only [Loc.rank, hq, List.length_cons]
    omega
  | @returned i conn fresh c n hi =>
    refine measure_lt_of_goto (q := s.pool_ ++ [conn]) hi rfl rfl rfl ?_
    simp only [Loc.rank, List.length_append, List.length_singleton]
    omega
  | @replaced i conn fresh c n hi =>
    refine measure_lt_of_goto (q := s.pool_ ++ [fresh]) hi rfl rfl rfl ?_
    simp only [Loc.rank, List.length_append, List.length_singleton]
    omega
  | @notify i j hi hj =>
    have hji : j ≠ i := by
      rintro rfl
      rw [hi] at hj
      cases hj
    -- the caller that is woken may wait once more
    have hsum₁ := Threads.sum_update Loc.rank s.caller i .relCheck
    have hsum₂ := Threads.sum_update Loc.rank (Function.update s.caller i .relCheck) j
      (.woken false)
    rw [Function.update_of_ne hji, hj] at hsum₂
    rw [hi] at hsum₁
    have hranks : Loc.relNotify.rank = 7 ∧ Loc.relCheck.rank = 4 ∧ Loc.blocked.rank = 12 ∧
      (Loc.woken false).rank = 14 := ⟨rfl, rfl, rfl, rfl⟩
    simp only [measure, State.goto]
    omega
  | @notifyExit i hi =>
    have hsum := Threads.sum_update Loc.rank s.caller i (.outside none)
    have hle := s.dtor.rank_notified (Fintype.card ι)
    rw [hi] at hsum
    have hranks : Loc.relNotifyExit.rank = 3 ∧ (Loc.outside none).rank = 0 := ⟨rfl, rfl⟩
    simp only [measure, State.goto]
    omega
  | dtorLock hm hl => exact measure_lt_of_dtor rfl rfl rfl le_rfl (DtorLoc.rank_locked _ hl)
  | dtorBegin hd | dtorSet hd | dtorUnlock hd | dtorLeave hd | dtorWait hd | dtorDrained hd
  | dtorEnd hd =>
    refine measure_lt_of_dtor hd rfl rfl le_rfl ?_
    simp only [DtorLoc.rank]
    omega
  | dtorNotifyAll hd =>
    -- every caller that waits is woken, and may wait once more
    have hle : Finset.univ.sum (fun i => ((s.caller i).notified).rank) ≤
        Finset.univ.sum (fun i => (s.caller i).rank + 2) :=
      Finset.sum_le_sum fun i _ => Loc.rank_notified _
    rw [Finset.sum_add_distrib, Finset.sum_const_nat fun _ _ => rfl, Finset.card_univ] at hle
    simp only [measure, hd, DtorLoc.rank]
    omega
  | dtorClose hd hq hc =>
    simp only [measure, hq, List.length_cons]
    omega

/-! ### No thread waits forever -/

/-- Some thread can advance. -/
def CanAdvance (s : State ι) : Prop := ∃ a s', (lts ι).step s a s' ∧ a.advances = true

theorem canAdvance_of_caller {a : Act ι} (hfin : s.dtor ≠ .finished)
    (h : (callerStep s a).isSome = true) (ha : a.advances = true) : CanAdvance s := by
  obtain ⟨s', hs'⟩ := Option.isSome_iff_exists.1 h
  refine ⟨a, s', ?_, ha⟩
  unfold lts step
  rw [ofFun_step, if_neg hfin]
  cases a <;> first | exact hs' | cases hs'

theorem canAdvance_of_dtor (hfin : s.dtor ≠ .finished) (h : s.dtorStep.isSome = true) :
    CanAdvance s := by
  obtain ⟨s', hs'⟩ := Option.isSome_iff_exists.1 h
  refine ⟨.dtor, s', ?_, rfl⟩
  rw [lts, ofFun_step, step, if_neg hfin]
  exact hs'

theorem canAdvance_of_locks (hsound : Sound s) (hfin : s.dtor ≠ .finished) {i : ι}
    (hi : (s.caller i).locks = true) : CanAdvance s := by
  cases hl : s.caller i with
  | check again => exact canAdvance_of_caller (a := .critical i) hfin (by simp [callerStep, hl]) rfl
  | relUnlock => exact canAdvance_of_caller (a := .unlock i) hfin (by simp [callerStep, hl]) rfl
  | relWork conn =>
    have hlent : s.lent i = some conn := lent_of_caller hl
    obtain ⟨c, hc⟩ := Option.ne_none_iff_exists'.1 (hsound.allocated (Or.inr ⟨i, hlent⟩))
    refine canAdvance_of_caller (a := .giveBack i conn allUp) hfin ?_ rfl
    -- a dead connection is deleted first, so that its address is free
    simp only [callerStep, hl, State.giveBack, hc, Option.bind_some, Function.update_self]
    split_ifs <;> first | rfl | simp_all
  | _ =>
    rw [hl] at hi
    cases hi

theorem canAdvance_of_dtor_locks (hsound : Sound s) (hfin : s.dtor ≠ .finished)
    (hlocks : s.dtor.locks = true) : CanAdvance s := by
  refine canAdvance_of_dtor hfin ?_
  cases hd : s.dtor with
  | set | unlock | unlockExit => simp [State.dtorStep, hd]
  | check =>
    simp only [State.dtorStep, hd]
    split_ifs <;> rfl
  | drain =>
    simp only [State.dtorStep, hd]
    cases hq : s.pool_ with
    | nil => rfl
    | cons conn q =>
      have hfront : conn ∈ s.pool_ := hq ▸ List.mem_cons_self
      have hmem : s.toLending.Mem conn := Or.inl hfront
      obtain ⟨c, hc⟩ := Option.ne_none_iff_exists'.1 (hsound.allocated hmem)
      simp [hc]
  | _ =>
    rw [hd] at hlocks
    cases hlocks

/-- If the lock is taken, its owner can advance. -/
theorem canAdvance_of_owner (hs : Owned s) (hsound : Sound s) (hfin : s.dtor ≠ .finished)
    (hm : s.pool_mutex_ ≠ none) : CanAdvance s := by
  obtain ⟨o, ho⟩ := Option.ne_none_iff_exists'.1 hm
  cases o with
  | caller i => exact canAdvance_of_locks hsound hfin (hs.caller i ho)
  | dtor => exact canAdvance_of_dtor_locks hsound hfin (hs.dtor ho)

/-- A caller that waits for the lock gets it, or its owner can advance. -/
theorem canAdvance_of_locked (hs : Owned s) (hsound : Sound s) (hfin : s.dtor ≠ .finished) {i : ι}
    {l : Loc} (hl : (s.caller i).locked = some l) : CanAdvance s := by
  by_cases hm : s.pool_mutex_ = none
  · exact canAdvance_of_caller (a := .lock i) hfin (by simp [callerStep, hm, hl]) rfl
  · exact canAdvance_of_owner hs hsound hfin hm

theorem canAdvance_of_lent (hs : Owned s) (hsound : Sound s) (hfin : s.dtor ≠ .finished) {i : ι}
    {conn : Addr} (hi : s.lent i = some conn) : CanAdvance s := by
  unfold State.lent at hi
  cases hl : s.caller i with
  | holding conn => exact canAdvance_of_caller (a := .release i) hfin (by simp [callerStep, hl]) rfl
  | relEnter conn => exact canAdvance_of_locked hs hsound hfin (i := i) (by rw [hl]; rfl)
  | relWork conn => exact canAdvance_of_locks hsound hfin (i := i) (by rw [hl]; rfl)
  | _ =>
    rw [hl] at hi
    cases hi

theorem canAdvance_of_goingToNotify (hsound : Sound s) (hfin : s.dtor ≠ .finished) {i : ι}
    (hi : GoingToNotify s i) : CanAdvance s := by
  rcases hi with hi | ⟨-, hi⟩
  · exact canAdvance_of_caller (a := .notifyExit i) hfin (by simp [callerStep, hi]) rfl
  cases hl : s.caller i with
  | relUnlock => exact canAdvance_of_locks hsound hfin (i := i) (by rw [hl]; rfl)
  | relCheck => exact canAdvance_of_caller (a := .readFlag i) hfin (by simp [callerStep, hl]) rfl
  | relNotify =>
    by_cases hall : ∀ j, s.caller j ≠ .blocked
    · exact canAdvance_of_caller (a := .notifyOne i none) hfin (by simp [callerStep, hl, hall]) rfl
    · push Not at hall
      obtain ⟨j, hj⟩ := hall
      exact canAdvance_of_caller (a := .notifyOne i (some j)) hfin
        (by simp [callerStep, hl, hj]) rfl
  | _ =>
    rw [hl] at hi
    cases hi

variable {s₀ : State ι}

theorem owned_reachable (hs₀ : Owned s₀) (h : (lts ι).Reachable s₀ s) : Owned s :=
  h.invariant hs₀ fun _ hs hst => hs.step (step_move hst).2

theorem awaited_reachable (hs₀ : Built s₀) (h : (lts ι).Reachable s₀ s) : Awaited s := by
  refine h.invariant ?_ fun hr hs hst => hs.step (closing_reachable hs₀ hr) (step_move hst).2
  intro hd
  rw [hs₀.dtor] at hd
  cases hd

/-- As long as the destructor is on its way, some thread can advance. -/
theorem exists_advance (hs₀ : Built s₀) (hfree : s₀.pool_mutex_ = none)
    (h : (lts ι).Reachable s₀ s) (hbegun : s.dtor ≠ .notStarted) (hfin : s.dtor ≠ .finished) :
    CanAdvance s := by
  have hsound := sound_reachable hs₀ h
  have howned := owned_reachable (.of_free hfree) h
  have hlock : ∀ {l}, s.dtor = l → l.locked.isSome = true → CanAdvance s := by
    intro l hd hl
    by_cases hm : s.pool_mutex_ = none
    · refine canAdvance_of_dtor hfin ?_
      cases l <;> simp_all [State.dtorStep, DtorLoc.locked]
    · exact canAdvance_of_owner howned hsound hfin hm
  cases hd : s.dtor with
  | notStarted => exact absurd hd hbegun
  | finished => exact absurd hd hfin
  | enter | enterExit | woken => exact hlock hd rfl
  | notifyAll => exact canAdvance_of_dtor hfin (by simp [State.dtorStep, hd])
  | blocked =>
    -- the destructor waits for a caller, or for a deleter that will notify it
    by_cases ha : s.active_connections_ = 0
    · obtain ⟨i, hi⟩ := (awaited_reachable hs₀ h hd).resolve_left (not_not.2 ha)
      exact canAdvance_of_goingToNotify hsound hfin hi
    · have hcounted := (counted_reachable hs₀ h).active
      have hpos : 0 < s.held := by omega
      obtain ⟨i, hi⟩ := Threads.count_pos_iff.1 hpos
      obtain ⟨conn, hconn⟩ := Option.isSome_iff_exists.1 hi
      exact canAdvance_of_lent howned hsound hfin hconn
  | set | unlock | check | drain | unlockExit =>
    exact canAdvance_of_dtor_locks hsound hfin (by rw [hd]; rfl)

omit [DecidableEq ι] [Fintype ι] in
theorem free_construct {rounds : List (Addr × Net)} (h : construct rounds = some s₀) :
    s₀.pool_mutex_ = none := by
  have hall : ∀ {s : State ι}, s.pool_mutex_ = none →
      rounds.foldlM State.addConnection s = some s₀ → s₀.pool_mutex_ = none := by
    clear h
    induction rounds with
    | nil =>
      intro s hs h
      exact Option.some.inj h ▸ hs
    | cons x rounds ih =>
      intro s hs h
      rw [List.foldlM_cons] at h
      obtain ⟨s₁, hadd, hrest⟩ := Option.bind_eq_some_iff.1 h
      refine ih ?_ hrest
      unfold State.addConnection at hadd
      dsimp only at hadd
      split_ifs at hadd <;> exact Option.some.inj hadd ▸ hs
  exact hall rfl h

theorem DtorLoc.begun_locked {l l' : DtorLoc} (h : l.locked = some l') : l' ≠ .notStarted := by
  rintro rfl
  cases l <;> simp [DtorLoc.locked] at h

theorem DtorLoc.begun_notified {l : DtorLoc} (h : l ≠ .notStarted) : l.notified ≠ .notStarted := by
  cases l <;> simp_all [DtorLoc.notified]

omit [Fintype ι] in
theorem Move.begun (h : Move s a s') (hs : s.dtor ≠ .notStarted) : s'.dtor ≠ .notStarted := by
  cases h with
  | dtorLock hm hl => exact DtorLoc.begun_locked hl
  | notifyExit hi => exact DtorLoc.begun_notified hs
  | dtorBegin | dtorSet | dtorUnlock | dtorNotifyAll | dtorLeave | dtorWait | dtorWake
  | dtorDrained | dtorEnd => simp
  | _ => exact hs

/-- **Once it has begun, the destructor finishes, whatever the order of the steps.**  From every
reachable state in which `~DBConnectionPool` has begun, the threads take at most `measure s` steps
by themselves, among them giving back the connections they have, and as long as the destructor
has not finished some thread can take one. -/
theorem destructor_finishes {rounds : List (Addr × Net)} (h₀ : construct rounds = some s₀)
    (h : (lts ι).Reachable s₀ s) (hbegun : s.dtor ≠ .notStarted) {tr : List (State ι × Act ι)}
    (hrun : (lts ι).Run s tr s') (hadvances : ∀ x ∈ tr, x.2.advances = true) :
    tr.length ≤ measure s ∧
      (s'.dtor = .finished ∨ ∃ a s'', (lts ι).step s' a s'' ∧ a.advances = true) := by
  have hbuilt := built_construct h₀
  constructor
  · have hlen := hrun.length_add_le (C := fun _ a => a.advances = true) measure hadvances
      fun _ hst ha => measure_lt (step_move hst).2 ha
    omega
  · by_cases hfin : s'.dtor = .finished
    · exact Or.inl hfin
    have hbegun' : s'.dtor ≠ .notStarted :=
      hrun.reachable.invariant (I := fun s => s.dtor ≠ .notStarted) hbegun
        fun _ hs hst => (step_move hst).2.begun hs
    exact Or.inr (exists_advance hbuilt (free_construct h₀) (h.trans hrun.reachable) hbegun' hfin)

/-- The connection goes out, and the destructor waits for it. -/
def awaitConnection : List (Act Unit) :=
  [.call (), .lock (), .critical (), .dtor, .dtor, .dtor, .dtor, .dtor, .dtor, .dtor]

/-- The destructor waits for the connection that is out. -/
def connectionOut : State Unit := ((trace step oneConnection awaitConnection).getD ([], .empty)).2

theorem connectionOut_reachable : (lts Unit).Reachable oneConnection connectionOut := by
  have htrace : trace step oneConnection awaitConnection =
      some ((trace step oneConnection awaitConnection).getD ([], .empty)) := rfl
  exact (Run.of_trace htrace).reachable

/-- The connection comes back, and the destructor finishes. -/
theorem destructor_finishes_released : ∃ (tr : List (State Unit × Act Unit)) (s : State Unit),
    connectionOut.dtor = .blocked ∧ (lts Unit).Run connectionOut tr s ∧ s.dtor = .finished ∧
      tr.length ≤ measure connectionOut := by
  obtain ⟨tr, s, hrun, hfin, hadvances⟩ := Run.exists_of_trace step connectionOut
    [.release (), .lock (), .giveBack () 0 allUp, .unlock (), .notifyOne () none, .readFlag (),
      .notifyExit (), .dtor, .dtor, .dtor, .dtor, .dtor]
    (fun tr s => s.dtor = .finished ∧ ∀ x ∈ tr, x.2.advances = true) (by decide)
  have hbegun : connectionOut.dtor ≠ .notStarted := by decide
  exact ⟨tr, s, by decide, hrun, hfin,
    (destructor_finishes construct_one connectionOut_reachable hbegun hrun hadvances).1⟩

end DBConnectionPool

end LiteMonitor
