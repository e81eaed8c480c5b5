import LiteMonitor.Db.Steps
import LiteMonitor.Pool.Lending

/-!
# The pool lends each connection to one holder

The pool is a `Lending` of addresses: `getConnection` lends the front of the queue, the deleter
gives a connection back, the old one or a new one in its place, and the destructor retires those
that are left.

* `State.toLending` : the abstraction; `Move.toLending` : a step is an operation, or leaves the
  pool alone.
* `Sound` : every connection is in one place, and no pointer dangles.
* `conserves` : **the connections are conserved and each is lent to one holder**.
-/

namespace LiteMonitor

namespace DBConnectionPool

open LTS

variable {ι : Type*}

namespace State

/-- What each caller has. -/
def lent (s : State ι) (i : ι) : Option Addr := (s.caller i).held

/-- The pool, as a lending of connections. -/
def toLending (s : State ι) : Lending ι Addr := ⟨s.pool_, s.lent⟩

end State

/-- Every connection is in one place, and no pointer dangles. -/
structure Sound (s : State ι) : Prop where
  exclusive : s.toLending.Exclusive
  allocated : ∀ {a}, s.toLending.Mem a → s.heap a ≠ none

variable {s s' : State ι} {a : Act ι}

theorem lent_of_caller {i : ι} {l : Loc} (h : s.caller i = l) : s.lent i = l.held :=
  congrArg Loc.held h

theorem toLending_eq {q : List Addr} {f : ι → Option Addr} (hq : s.pool_ = q) (hl : s.lent = f) :
    s.toLending = ⟨q, f⟩ := by
  subst hq hl
  rfl

variable [DecidableEq ι]

theorem lent_update (s : State ι) (i : ι) (l : Loc) :
    (fun j => (Function.update s.caller i l j).held) = Function.update s.lent i l.held :=
  Function.comp_update Loc.held s.caller i l

theorem lent_update_of_eq {i : ι} {l : Loc} (h : l.held = (s.caller i).held) :
    (fun j => (Function.update s.caller i l j).held) = s.lent := by
  rw [lent_update, h]
  exact Function.update_eq_self i s.lent

/-- What a step that makes the calls `calls` does to the queue, the callers' connections, the
counter and the objects. -/
inductive Effect (s s' : State ι) (calls : List MysqlCall) : Prop
  /-- A call is made only for a connection that is out. -/
  | quiet (hq : s'.pool_ = s.pool_) (hl : s'.lent = s.lent)
      (ha : s'.active_connections_ = s.active_connections_) (hh : s'.heap = s.heap)
      (hcalls : calls = [] ∨ ∃ i conn, s.lent i = some conn)
  | take {i : ι} {conn : Addr} (hi : s.lent i = none) (hd : s.shutting_down_ = false)
      (hq : s.pool_ = conn :: s'.pool_) (hl : s'.lent = Function.update s.lent i (some conn))
      (ha : s'.active_connections_ = s.active_connections_ + 1) (hh : s'.heap = s.heap)
      (hcalls : calls = [])
  | giveBack {i : ι} {conn : Addr} (hi : s.lent i = some conn)
      (hq : s'.pool_ = s.pool_ ++ [conn]) (hl : s'.lent = Function.update s.lent i none)
      (ha : s'.active_connections_ = s.active_connections_ - 1) (hh : s'.heap = s.heap)
      (hcalls : ∃ c ∈ calls, c.usesLibrary = true)
  | replace {i : ι} {conn fresh : Addr} {c : DBConnection} (hi : s.lent i = some conn)
      (hfresh : Function.update s.heap conn none fresh = none)
      (hq : s'.pool_ = s.pool_ ++ [fresh]) (hl : s'.lent = Function.update s.lent i none)
      (ha : s'.active_connections_ = s.active_connections_ - 1)
      (hh : s'.heap = Function.update (Function.update s.heap conn none) fresh (some c))
      (hcalls : ∃ c ∈ calls, c.usesLibrary = true)
  | close {conn : Addr} {c : DBConnection} (hd : s.dtor = .drain)
      (hq : s.pool_ = conn :: s'.pool_) (hl : s'.lent = s.lent)
      (ha : s'.active_connections_ = s.active_connections_)
      (hh : s'.heap = Function.update s.heap conn none) (hc : s.heap conn = some c)
      (hcalls : calls = c.disconnect.2)

/-- The step makes the calls `calls`, and has this effect. -/
structure Does (s s' : State ι) (calls : List MysqlCall) : Prop where
  log : s'.log = s.log ++ calls
  noEnd : .mysql_library_end ∉ calls
  effect : Effect s s' calls

theorem Does.of_quiet (hq : s'.pool_ = s.pool_) (hl : s'.lent = s.lent)
    (ha : s'.active_connections_ = s.active_connections_) (hh : s'.heap = s.heap)
    (hlog : s'.log = s.log) : Does s s' [] :=
  ⟨by rw [hlog, List.append_nil], List.not_mem_nil, .quiet hq hl ha hh (Or.inl rfl)⟩

theorem Loc.held_locked {p l : Loc} (h : p.locked = some l) : l.held = p.held := by
  cases p <;> simp only [Loc.locked, Option.some.injEq, reduceCtorEq] at h <;> exact h ▸ rfl

theorem Loc.held_notified (p : Loc) : p.notified.held = p.held := by
  cases p <;> rfl

theorem Move.does (h : Move s a s') : ∃ calls, Does s s' calls := by
  cases h with
  | call hi | wake _ hi | release hi | notifyNone hi | refuse hi | wait hi | unlock hi
  | notifyExit hi =>
    exact ⟨_, .of_quiet rfl (lent_update_of_eq (by rw [hi]; rfl)) rfl rfl rfl⟩
  | lock hm hl => exact ⟨_, .of_quiet rfl (lent_update_of_eq (Loc.held_locked hl)) rfl rfl rfl⟩
  | @take i again conn q hi hd hq =>
    exact ⟨[], (List.append_nil _).symm, List.not_mem_nil,
      .take (lent_of_caller hi) hd hq (lent_update s i (.holding conn)) rfl rfl rfl⟩
  | @execute i conn c n hi =>
    exact ⟨_, rfl, c.execute_noEnd n,
      .quiet rfl rfl rfl rfl (Or.inr ⟨i, conn, lent_of_caller hi⟩)⟩
  | @query i conn c n hi =>
    exact ⟨_, rfl, c.query_noEnd n,
      .quiet rfl rfl rfl rfl (Or.inr ⟨i, conn, lent_of_caller hi⟩)⟩
  | @returned i conn fresh c n hi hc hup =>
    refine ⟨_, rfl, c.isConnected_noEnd n,
      .giveBack (lent_of_caller hi) rfl (lent_update s i .relUnlock) rfl rfl ?_⟩
    obtain rfl := c.mysql_of_isConnected n hup
    exact ⟨.mysql_ping, List.mem_singleton_self _, rfl⟩
  | @replaced i conn fresh c n hi hc hup hfresh =>
    refine ⟨(c.isConnected n).2 ++ c.disconnect.2 ++ (DBConnection.connect {} n).2.2, ?_, ?_,
      .replace (lent_of_caller hi) hfresh rfl (lent_update s i .relUnlock) rfl rfl ?_⟩
    · simp only [List.append_assoc]
    · rw [List.mem_append, List.mem_append, not_or, not_or]
      exact ⟨⟨c.isConnected_noEnd n, c.disconnect_noEnd⟩, DBConnection.connect_noEnd {} n⟩
    · exact ⟨.mysql_init, List.mem_append_right _ (DBConnection.connect_new n).2, rfl⟩
  | @notify i j hi hj =>
    have hij : j ≠ i := by
      rintro rfl
      rw [hi] at hj
      simp at hj
    have hfirst : (s.goto i .relCheck).lent = s.lent := lent_update_of_eq (by rw [hi]; rfl)
    refine ⟨_, .of_quiet rfl (Eq.trans ?_ hfirst) rfl rfl rfl⟩
    refine lent_update_of_eq ?_
    simp only [State.goto, Function.update_of_ne hij, hj]
    rfl
  | readFlag hi =>
    refine ⟨_, .of_quiet rfl (lent_update_of_eq ?_) rfl rfl rfl⟩
    rw [hi]
    split_ifs <;> rfl
  | dtorNotifyAll =>
    exact ⟨_, .of_quiet rfl (funext fun i => Loc.held_notified (s.caller i)) rfl rfl rfl⟩
  | dtorClose hd hq hc =>
    exact ⟨_, rfl, DBConnection.disconnect_noEnd _, .close hd hq rfl rfl rfl hc rfl⟩
  | dtorBegin | dtorLock | dtorSet | dtorUnlock | dtorLeave | dtorWait | dtorWake
  | dtorDrained | dtorEnd => exact ⟨_, .of_quiet rfl rfl rfl rfl rfl⟩

omit [DecidableEq ι] in
theorem Sound.fresh {i : ι} {conn fresh : Addr} (hs : Sound s) (hi : s.lent i = some conn)
    (hfresh : Function.update s.heap conn none fresh = none) :
    fresh ∉ s.pool_ ∧ ∀ j, j ≠ i → s.lent j ≠ some fresh := by
  have hnew : s.toLending.Mem fresh → fresh = conn := by
    intro hmem
    by_contra hfc
    rw [Function.update_of_ne hfc] at hfresh
    exact hs.allocated hmem hfresh
  constructor
  · intro hmem
    obtain rfl := hnew (Or.inl hmem)
    exact hs.exclusive.idle hi hmem
  · intro j hj hjl
    obtain rfl := hnew (Or.inr ⟨j, hjl⟩)
    exact hj (hs.exclusive.lent hjl hi)

/-- What a step means for the lending. -/
structure LendingStep (s s' : State ι) (op : Option (Lending.Op ι)) : Prop where
  step : Lending.lts.stutter s.toLending op s'.toLending
  balance : (s'.pool_.length : ℤ) + s'.active_connections_ +
    (if op = some .retire then 1 else 0) = s.pool_.length + s.active_connections_
  retire : op = some .retire → s.dtor = .drain

theorem lendingStep_giveBack {i : ι} {conn back : Addr} (hi : s.lent i = some conn)
    (hidle : back ∉ s.pool_) (hlent : ∀ j, j ≠ i → s.lent j ≠ some back)
    (hq : s'.pool_ = s.pool_ ++ [back]) (hl : s'.lent = Function.update s.lent i none)
    (ha : s'.active_connections_ = s.active_connections_ - 1) :
    LendingStep s s' (some (.giveBack i)) := by
  have hback : Lending.Step s.toLending (.giveBack i) ⟨s.pool_ ++ [back], _⟩ :=
    .giveBack hi hidle hlent
  refine ⟨?_, ?_, by rintro ⟨⟩⟩
  · rw [stutter, toLending_eq hq hl]
    exact hback
  · simp only [hq, ha, List.length_append, List.length_singleton, Option.some.injEq,
      reduceCtorEq, if_false]
    omega

/-- A step is an operation of the lending, or leaves it alone. -/
theorem Effect.toLending {calls : List MysqlCall} (hs : Sound s) (h : Effect s s' calls) :
    ∃ op, LendingStep s s' op := by
  cases h with
  | quiet hq hl ha =>
    exact ⟨none, toLending_eq hq hl, by simp [hq, ha], nofun⟩
  | @take i conn hi hd hq hl ha =>
    have hlend : Lending.Step s.toLending (.lend i) _ := .lend hi hq
    refine ⟨some (.lend i), ?_, ?_, by rintro ⟨⟩⟩
    · rw [stutter, toLending_eq rfl hl]
      exact hlend
    · simp only [hq, ha, List.length_cons, Option.some.injEq, reduceCtorEq, if_false]
      omega
  | @giveBack i conn hi hq hl ha =>
    have hother : ∀ j, j ≠ i → s.lent j ≠ some conn :=
      fun j hj hjl => hj (hs.exclusive.lent hjl hi)
    exact ⟨_, lendingStep_giveBack hi (hs.exclusive.idle hi) hother hq hl ha⟩
  | @replace i conn fresh c hi hfresh hq hl ha =>
    obtain ⟨hidle, hlent⟩ := hs.fresh hi hfresh
    exact ⟨_, lendingStep_giveBack hi hidle hlent hq hl ha⟩
  | close hd hq hl ha =>
    have hretire : Lending.Step s.toLending .retire _ := .retire hq
    refine ⟨some .retire, ?_, ?_, fun _ => hd⟩
    · rw [stutter, toLending_eq rfl hl]
      exact hretire
    · simp only [hq, ha, List.length_cons, if_true]
      omega

theorem Sound.step {calls : List MysqlCall} (hs : Sound s) (h : Effect s s' calls) : Sound s' := by
  obtain ⟨op, hop, -, -⟩ := h.toLending hs
  have hex : s'.toLending.Exclusive := by
    cases op with
    | none =>
      have heq : s'.toLending = s.toLending := hop
      exact heq ▸ hs.exclusive
    | some op => exact hs.exclusive.step hop
  refine ⟨hex, ?_⟩
  intro z hz
  cases h with
  | quiet hq hl ha hh =>
    rw [toLending_eq hq hl] at hz
    exact hh ▸ hs.allocated hz
  | take hi hd hq hl ha hh =>
    rw [toLending_eq rfl hl] at hz
    exact hh ▸ hs.allocated (Lending.mem_lend hq hz)
  | giveBack hi hq hl ha hh =>
    rw [toLending_eq hq hl] at hz
    rw [hh]
    rcases hs.exclusive.mem_giveBack hi hz with rfl | ⟨-, hz⟩
    · exact hs.allocated (Or.inr ⟨_, hi⟩)
    · exact hs.allocated hz
  | @replace i conn fresh c hi hfresh hq hl ha hh =>
    rw [toLending_eq hq hl] at hz
    rw [hh]
    by_cases hzf : z = fresh
    · rw [hzf, Function.update_self]
      exact nofun
    · obtain ⟨hne, hz⟩ := (hs.exclusive.mem_giveBack hi hz).resolve_left hzf
      rw [Function.update_of_ne hzf, Function.update_of_ne hne]
      exact hs.allocated hz
  | close hd hq hl ha hh =>
    rw [toLending_eq rfl hl] at hz
    obtain ⟨hne, hz⟩ := hs.exclusive.mem_retire hq hz
    rw [hh, Function.update_of_ne hne]
    exact hs.allocated hz

omit [DecidableEq ι] in
theorem Built.lent (hs : Built s) : s.lent = fun _ => none := by
  funext i
  unfold State.lent
  rw [hs.caller]
  rfl

omit [DecidableEq ι] in
theorem Built.sound (hs : Built s) : Sound s := by
  refine ⟨?_, ?_⟩
  · rw [toLending_eq rfl hs.lent]
    exact Lending.exclusive_of_none hs.nodup
  · rw [toLending_eq rfl hs.lent]
    rintro a (ha | ⟨i, ⟨⟩⟩)
    rw [hs.connected a ha]
    exact nofun

section Runs

variable [Fintype ι] {s₀ : State ι}

theorem sound_reachable (hs₀ : Built s₀) (h : (lts ι).Reachable s₀ s) : Sound s :=
  h.invariant hs₀.sound fun _ hs hst =>
    have ⟨_, hdoes⟩ := (step_move hst).2.does
    hs.step hdoes.effect

/-- The number of connections that callers have. -/
def State.held (s : State ι) : ℕ := s.toLending.out

/-- `active_connections_` counts the connections that callers have, and until the destructor
drains the pool none is lost. -/
structure Counted (n : ℕ) (s : State ι) : Prop where
  active : s.active_connections_ = s.held
  total : s.dtor.drains = false → s.pool_.length + s.held = n

omit [DecidableEq ι] in
theorem Built.counted (hs : Built s) : Counted s.pool_.length s := by
  have hheld : s.held = 0 := by
    unfold State.held
    rw [toLending_eq rfl hs.lent]
    exact Threads.count_const none Option.isSome rfl
  refine ⟨?_, fun _ => ?_⟩
  · rw [hs.active, hheld]
    rfl
  · rw [hheld, Nat.add_zero]

omit [Fintype ι] in
theorem Move.drains (h : Move s a s') (hd : s.dtor.drains = true) : s'.dtor.drains = true := by
  cases h with
  | notifyExit hi =>
    cases hs : s.dtor <;> rw [hs] at hd <;> first | rfl | cases hd
  | dtorLock hm hl => cases hs : s.dtor <;> simp [hs, DtorLoc.drains, DtorLoc.locked] at hd hl
  | dtorBegin hs | dtorSet hs | dtorUnlock hs | dtorNotifyAll hs | dtorWait hs | dtorWake hs =>
    rw [hs] at hd
    cases hd
  | dtorLeave | dtorDrained | dtorEnd => rfl
  | _ => exact hd

theorem LendingStep.total {op : Option (Lending.Op ι)} (h : LendingStep s s' op) :
    s'.pool_.length + s'.held + (if op = some .retire then 1 else 0) =
      s.pool_.length + s.held := by
  cases op with
  | none =>
    have heq : s'.toLending = s.toLending := h.step
    have hq : s'.pool_ = s.pool_ := congrArg Lending.idle heq
    have hheld : s'.held = s.held := congrArg Lending.out heq
    simp [hq, hheld]
  | some op =>
    have hstep : Lending.Step s.toLending op s'.toLending := h.step
    simp only [Option.some.injEq]
    exact hstep.total_eq

theorem LendingStep.active {op : Option (Lending.Op ι)} (h : LendingStep s s' op)
    (ha : s.active_connections_ = s.held) : s'.active_connections_ = s'.held := by
  have htotal := h.total
  have hbal := h.balance
  split_ifs at hbal htotal <;> omega

theorem Counted.step {n : ℕ} (hs : Counted n s) (hsound : Sound s) (h : Move s a s') :
    Counted n s' := by
  obtain ⟨calls, hdoes⟩ := h.does
  obtain ⟨op, hop⟩ := hdoes.effect.toLending hsound
  refine ⟨hop.active hs.active, fun hd => ?_⟩
  have hd' : s.dtor.drains = false := by
    rw [← Bool.not_eq_true] at hd ⊢
    exact fun h' => hd (h.drains h')
  have hne : op ≠ some .retire := by
    intro hretire
    rw [hop.retire hretire] at hd'
    cases hd'
  have htotal := hop.total
  rw [if_neg hne, Nat.add_zero] at htotal
  rw [htotal, hs.total hd']

theorem counted_reachable (hs₀ : Built s₀) (h : (lts ι).Reachable s₀ s) :
    Counted s₀.pool_.length s := by
  refine h.invariant (I := Counted s₀.pool_.length) hs₀.counted ?_
  intro s a s' hr hs hst
  exact hs.step (sound_reachable hs₀ hr) (step_move hst).2

/-- **The pool conserves its connections and lends each one to one holder.**  In every reachable
state before the destructor drains the pool, the queue and `active_connections_` add up to the
connections that the constructor pushed, `active_connections_` is the number of connections that
callers have, and every connection is in one place only. -/
theorem conserves {rounds : List (Addr × Net)} (h₀ : construct rounds = some s₀)
    (h : (lts ι).Reachable s₀ s) (hd : s.dtor.drains = false) :
    (s.pool_.length : ℤ) + s.active_connections_ = s₀.pool_.length ∧
      s.active_connections_ = (Finset.univ.filter fun i => (s.lent i).isSome = true).card ∧
      s.pool_.Nodup ∧ (∀ i conn, s.lent i = some conn → conn ∉ s.pool_) ∧
      ∀ i j conn, s.lent i = some conn → s.lent j = some conn → i = j := by
  have hbuilt := built_construct h₀
  obtain ⟨hactive, htotal⟩ := counted_reachable hbuilt h
  have hex := (sound_reachable hbuilt h).exclusive
  refine ⟨?_, hactive, hex.nodup, fun i conn => hex.idle, fun i j conn => hex.lent⟩
  have hsum := htotal hd
  omega

end Runs

/-- Every call succeeds. -/
def allUp : Net := ⟨true, true, true, true⟩

/-- A pool with the connections 0 and 1. -/
def twoConnections : State (Fin 2) :=
  (construct [(0, allUp), (1, allUp)]).getD .empty

/-- Both connections are lent; the first one dies, and is replaced without success. -/
def replaceDead : List (Act (Fin 2)) :=
  [.call 0, .lock 0, .critical 0, .query 0 allUp, .release 0, .call 1, .lock 1, .critical 1,
    .lock 0, .giveBack 0 7 ⟨true, false, false, true⟩, .unlock 0]

/-- The replacement is in the queue, and the other connection is still lent. -/
theorem conserves_replaced : ∃ s : State (Fin 2), (lts (Fin 2)).Reachable twoConnections s ∧
    s.pool_ = [7] ∧ s.lent 1 = some 1 ∧ s.active_connections_ = 1 ∧
      (∀ i conn, s.lent i = some conn → conn ∉ s.pool_) := by
  obtain ⟨s, hs, hq, hl, ha, hd⟩ := Run.exists_reachable step twoConnections replaceDead
    (fun s => s.pool_ = [7] ∧ s.lent 1 = some 1 ∧ s.active_connections_ = 1 ∧
      s.dtor.drains = false) (by decide)
  have h₀ : construct [(0, allUp), (1, allUp)] = some twoConnections := rfl
  exact ⟨s, hs, hq, hl, ha, (conserves h₀ hs hd).2.2.2.1⟩

end DBConnectionPool

end LiteMonitor
