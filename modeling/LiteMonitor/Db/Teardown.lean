import LiteMonitor.Db.Conservation

/-!
# The end of the pool

The destructor waits until no connection is out.  That says nothing of the callers that are inside
of the pool without a connection: those that wait in `getConnection`, and deleters that have
given their connection back and have not yet notified.

* `Loc.inside` : the caller is in `getConnection` or in the deleter.
* `LeavesEmpty s a` : the destructor leaves its wait only when nobody is inside.
* `nobody_inside` : **in a run in which it does so, it never finishes with a caller inside**.
* `Closing` : what the destructor has achieved; no connection is out when it drains the pool.
-/

namespace LiteMonitor

namespace DBConnectionPool

open LTS

namespace Loc

/-- In `getConnection`. -/
def inCall : Loc → Bool
  | enter | check _ | blocked | woken _ => true
  | _ => false

/-- In the deleter. -/
def inDeleter : Loc → Bool
  | relEnter _ | relWork _ | relUnlock | relNotify | relCheck | relNotifyExit => true
  | _ => false

/-- The caller still has to access the members of the pool. -/
def inside (l : Loc) : Bool := l.inCall || l.inDeleter

theorem outside_of_held {l : Loc} (hheld : l.held = none) (hin : l.inside = false) :
    ∃ r, l = outside r := by
  cases l with
  | outside r => exact ⟨r, rfl⟩
  | holding conn => cases hheld
  | _ => cases hin

end Loc

variable {ι : Type*} {s s' : State ι} {a : Act ι}

/-- The destructor leaves its wait only when nobody is inside. -/
def LeavesEmpty (s : State ι) (a : Act ι) : Prop :=
  a = .dtor → s.dtor = .check → s.active_connections_ = 0 → ∀ i, (s.caller i).inside = false

/-- A call of `getConnection` is made before the destructor begins. -/
def CalledBefore (s : State ι) (a : Act ι) : Prop := ∀ i, a = .call i → s.dtor = .notStarted

/-- Behind the wait of the destructor nobody is inside, and nobody has a connection. -/
def Deserted (s : State ι) : Prop := s.dtor.drains = true → ∀ i, ∃ r, s.caller i = .outside r

variable [DecidableEq ι] [Fintype ι]

omit [DecidableEq ι] in
theorem lent_eq_none (hs : s.active_connections_ = s.held) (ha : s.active_connections_ = 0)
    (i : ι) :
    s.lent i = none := by
  have hheld : s.held = 0 := by omega
  have hnone := Threads.count_eq_zero_iff.1 hheld i
  exact Option.isNone_iff_eq_none.1 (Option.isSome_eq_false_iff.1 hnone)

omit [Fintype ι] in
theorem Move.outside (h : Move s a s') (hcall : CalledBefore s a) (hd : s.dtor.drains = true)
    (hout : ∀ i, ∃ r, s.caller i = .outside r) : ∀ i, ∃ r, s'.caller i = .outside r := by
  have hne : ∀ {i l}, s.caller i = l → ∃ r, l = .outside r := fun {i _} hi =>
    have ⟨r, hr⟩ := hout i
    ⟨r, hi.symm.trans hr⟩
  cases h with
  | @call i r hi =>
    rw [hcall i rfl] at hd
    cases hd
  | @lock i l hm hl =>
    obtain ⟨r, hr⟩ := hout i
    rw [hr] at hl
    cases hl
  | dtorNotifyAll hs =>
    rw [hs] at hd
    cases hd
  | refuse hi | wait hi | take hi | wake _ hi | execute _ hi | query _ hi | release hi | returned hi
  | replaced hi | unlock hi | notify hi | notifyNone hi | readFlag hi | notifyExit hi =>
    obtain ⟨r, ⟨⟩⟩ := hne hi
  | _ => exact hout

omit [Fintype ι] in
theorem Move.leaves (h : Move s a s') (hd : s.dtor.drains = false) (hd' : s'.dtor.drains = true) :
    a = .dtor ∧ s.dtor = .check ∧ s.active_connections_ = 0 ∧ s'.caller = s.caller := by
  cases h with
  | dtorLeave hs ha => exact ⟨rfl, hs, ha, rfl⟩
  | dtorDrained hs | dtorClose hs | dtorEnd hs =>
    rw [hs] at hd
    cases hd
  | dtorBegin | dtorSet | dtorUnlock | dtorNotifyAll | dtorWait | dtorWake => cases hd'
  | dtorLock hm hl => cases hs : s.dtor <;> rw [hs] at hl <;> cases hl <;> cases hd'
  | notifyExit hi =>
    cases hs : s.dtor <;> simp [hs, DtorLoc.notified, DtorLoc.drains] at hd hd'
  | _ =>
    rw [← Bool.not_eq_true] at hd
    exact absurd hd' hd

theorem Deserted.step (hs : Deserted s) (hactive : s.active_connections_ = s.held)
    (h : Move s a s') (hcall : CalledBefore s a) (hleave : LeavesEmpty s a) : Deserted s' := by
  intro hd'
  by_cases hd : s.dtor.drains = true
  · exact h.outside hcall hd (hs hd)
  · obtain ⟨ha, hcheck, hzero, hsame⟩ := h.leaves (eq_false_of_ne_true hd) hd'
    intro i
    rw [hsame]
    exact Loc.outside_of_held (lent_eq_none hactive hzero i) (hleave ha hcheck hzero i)

/-- **The destructor never finishes with a caller inside, in a run in which it leaves its wait
only when nobody is inside** and nobody calls `getConnection` after it has begun. -/
theorem nobody_inside {rounds : List (Addr × Net)} {s₀ : State ι} {tr : List (State ι × Act ι)}
    (h₀ : construct rounds = some s₀) (hrun : (lts ι).Run s₀ tr s)
    (hcall : ∀ x ∈ tr, CalledBefore x.1 x.2) (hleave : ∀ x ∈ tr, LeavesEmpty x.1 x.2) :
    ∀ x ∈ states tr s, x.dtor = .finished → ∀ i, (x.caller i).inside = false := by
  have hbuilt := built_construct h₀
  let C : State ι → Act ι → Prop := fun s a => CalledBefore s a ∧ LeavesEmpty s a
  have hsteps : ∀ x ∈ tr, C x.1 x.2 := fun x hx => ⟨hcall x hx, hleave x hx⟩
  have hstart : Deserted s₀ := by
    intro hd
    rw [hbuilt.dtor] at hd
    cases hd
  have hall : ∀ x ∈ states tr s, Deserted x := hrun.forall_states (C := C) hsteps hstart <| by
    intro s a s' hr hs hst hc
    exact hs.step (counted_reachable hbuilt hr).active (step_move hst).2 hc.1 hc.2
  intro x hx hfin i
  obtain ⟨r, hr⟩ := hall x hx (by rw [hfin]; rfl) i
  rw [hr]
  rfl

/-- A pool with the connection 0. -/
def oneConnection : State Unit := (construct [(0, allUp)]).getD .empty

theorem construct_one : construct [(0, allUp)] = some oneConnection := rfl

/-- The connection is borrowed and given back. -/
def borrow : List (Act Unit) :=
  [.call (), .lock (), .critical (), .release (), .lock (), .giveBack () 0 allUp, .unlock ()]

/-- The destructor from its beginning to its end, without waiting. -/
def teardown : List (Act Unit) :=
  [.dtor, .dtor, .dtor, .dtor, .dtor, .dtor, .dtor, .dtor, .dtor, .dtor]

instance (s : State Unit) (a : Act Unit) : Decidable (CalledBefore s a) :=
  inferInstanceAs (Decidable (∀ i, a = .call i → s.dtor = .notStarted))

instance (s : State Unit) (a : Act Unit) : Decidable (LeavesEmpty s a) :=
  inferInstanceAs (Decidable (a = .dtor → s.dtor = .check → s.active_connections_ = 0 →
    ∀ i, (s.caller i).inside = false))

/-- The deleter notifies before the destructor begins. -/
theorem nobody_inside_notified : ∃ s : State Unit, (lts Unit).Reachable oneConnection s ∧
    s.dtor = .finished ∧ ∀ i, (s.caller i).inside = false := by
  obtain ⟨tr, s, hrun, hfin, hcall, hleave⟩ := Run.exists_of_trace step oneConnection
    (borrow ++ [.notifyOne () none, .readFlag ()] ++ teardown)
    (fun tr s => s.dtor = .finished ∧ (∀ x ∈ tr, CalledBefore x.1 x.2) ∧
      ∀ x ∈ tr, LeavesEmpty x.1 x.2) (by decide)
  exact ⟨s, hrun.reachable, hfin,
    nobody_inside construct_one hrun hcall hleave s (last_mem_states tr s) hfin⟩

/-- The deleter has unlocked and is about to notify when the destructor runs to its end. -/
theorem not_nobody_inside : ¬ ∀ (tr : List (State Unit × Act Unit)) (s : State Unit),
    (lts Unit).Run oneConnection tr s → (∀ x ∈ tr, CalledBefore x.1 x.2) →
      s.dtor = .finished → ∀ i, (s.caller i).inside = false := by
  intro hclaim
  obtain ⟨tr, s, hrun, hfin, hcall, hin⟩ := Run.exists_of_trace step oneConnection
    (borrow ++ teardown)
    (fun tr s => s.dtor = .finished ∧ (∀ x ∈ tr, CalledBefore x.1 x.2) ∧
      (s.caller ()).inside = true) (by decide)
  rw [hclaim tr s hrun hcall hfin ()] at hin
  simp at hin

/-! ### What the destructor achieves -/

/-- The destructor has set `shutting_down_`. -/
def DtorLoc.shut : DtorLoc → Bool
  | .notStarted | .enter | .set => false
  | _ => true

/-- What the destructor has achieved where it stands. -/
structure Closing (s : State ι) : Prop where
  shut : s.dtor.shut = true → s.shutting_down_ = true
  idle : s.dtor.drains = true → ∀ i, s.lent i = none
  empty : s.dtor = .unlockExit ∨ s.dtor = .finished → s.pool_ = []

omit [DecidableEq ι] [Fintype ι] in
theorem Built.closing (hs : Built s) : Closing s := by
  refine ⟨?_, ?_, ?_⟩
  · rw [hs.dtor]
    exact nofun
  · rw [hs.dtor]
    exact nofun
  · rw [hs.dtor]
    rintro (h | h) <;> cases h

theorem DtorLoc.shut_of_drains {d : DtorLoc} (h : d.drains = true) : d.shut = true := by
  cases d <;> first | rfl | cases h

omit [Fintype ι] in
theorem Closing.shut_step (hs : Closing s) (h : Move s a s') :
    s'.dtor.shut = true → s'.shutting_down_ = true := by
  cases h with
  | dtorSet => exact fun _ => rfl
  | dtorBegin => exact nofun
  | dtorLock hm hl =>
    intro hshut
    refine hs.shut ?_
    cases hd : s.dtor <;> rw [hd] at hl <;> cases hl <;> first | rfl | cases hshut
  | dtorUnlock hd | dtorNotifyAll hd | dtorLeave hd | dtorWait hd | dtorWake hd | dtorDrained hd
  | dtorEnd hd => exact fun _ => hs.shut (by rw [hd]; rfl)
  | notifyExit hi =>
    intro hshut
    refine hs.shut ?_
    cases hd : s.dtor <;> rw [hd] at hshut <;> first | rfl | cases hshut
  | _ => exact hs.shut

omit [Fintype ι] in
/-- Once the destructor has set the flag no connection goes out. -/
theorem Closing.lent_eq_none (hs : Closing s) (hshut : s.dtor.shut = true)
    (hnone : ∀ i, s.lent i = none) (h : Move s a s') :
    s'.lent = s.lent ∧ s'.pool_ ⊆ s.pool_ := by
  obtain ⟨calls, hdoes⟩ := h.does
  cases hdoes.effect with
  | quiet hq hl => exact ⟨hl, hq ▸ List.Subset.refl _⟩
  | take hi hd =>
    rw [hs.shut hshut] at hd
    simp at hd
  | giveBack hi | replace hi =>
    rw [hnone] at hi
    simp at hi
  | close hd hq hl => exact ⟨hl, hq ▸ List.subset_cons_self _ _⟩

theorem Closing.step (hs : Closing s) (hactive : s.active_connections_ = s.held)
    (h : Move s a s') : Closing s' := by
  have hidle : s'.dtor.drains = true → ∀ i, s'.lent i = none := by
    intro hd' i
    by_cases hd : s.dtor.drains = true
    · have hnone := hs.idle hd
      rw [(hs.lent_eq_none (DtorLoc.shut_of_drains hd) hnone h).1]
      exact hnone i
    · obtain ⟨-, -, hzero, hsame⟩ := h.leaves (eq_false_of_ne_true hd) hd'
      unfold State.lent
      rw [hsame]
      exact DBConnectionPool.lent_eq_none hactive hzero i
  refine ⟨hs.shut_step h, hidle, fun hend => ?_⟩
  by_cases hend₀ : s.dtor = .unlockExit ∨ s.dtor = .finished
  · have hd : s.dtor.drains = true := by
      rcases hend₀ with h | h <;> rw [h] <;> rfl
    have hsub := (hs.lent_eq_none (DtorLoc.shut_of_drains hd) (hs.idle hd) h).2
    rw [hs.empty hend₀] at hsub
    exact List.subset_nil.1 hsub
  · cases h with
    | dtorDrained hd hq => exact hq
    | dtorEnd hd => exact absurd (Or.inl hd) hend₀
    | dtorBegin | dtorSet | dtorUnlock | dtorNotifyAll | dtorLeave | dtorWait | dtorWake =>
      rcases hend with h | h <;> cases h
    | dtorLock hm hl =>
      cases hd : s.dtor <;> rw [hd] at hl <;> cases hl <;> rcases hend with h | h <;> cases h
    | notifyExit hi =>
      cases hd : s.dtor <;> simp [hd, DtorLoc.notified] at hend hend₀
    | _ => exact absurd hend hend₀

theorem closing_reachable {s₀ : State ι} (hs₀ : Built s₀) (h : (lts ι).Reachable s₀ s) :
    Closing s := by
  refine h.invariant hs₀.closing ?_
  intro s a s' hr hs hst
  exact hs.step (counted_reachable hs₀ hr).active (step_move hst).2

end DBConnectionPool

end LiteMonitor
