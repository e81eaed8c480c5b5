import LiteMonitor.Db.Teardown

/-!
# The life of the operator

`class DBOperator`: the constructor initialises the MySQL library and makes the pool; the body of
the destructor ends the library, and only then the pool, a member, is destroyed.

* `State`, `lts` : the operator from its construction to its end.
* `WellTimed log` : every call for a connection is made while the library is initialised.
* `Silent` : no connection is out, and none in the queue has a handle.
* `wellTimed_iff` : **a whole life is well timed exactly if the constructor fails, or the pool is
  silent from the end of the library on**.
-/

namespace LiteMonitor

namespace DBOperator

open DBConnectionPool LTS

/-- Where the operator is in its life. -/
inductive Phase where
  /-- Before the constructor. -/
  | new
  /-- The constructor has thrown. -/
  | failed
  | live
  /-- `mysql_library_end` has returned, and the members are being destroyed. -/
  | ended
  deriving DecidableEq

/-- The operator; the calls made so far are in the log of the pool. -/
structure State (ι : Type*) where
  phase : Phase
  pool_ : DBConnectionPool.State ι

/-- The steps. -/
inductive Label (ι : Type*) where
  /-- The constructor, with the result of `mysql_library_init` and what the constructor of the
  pool gets. -/
  | construct (ok : Bool) (rounds : List (Addr × Net))
  /-- A step of the pool. -/
  | pool (a : Act ι)
  /-- The body of the destructor. -/
  | destroy
  deriving DecidableEq

variable {ι : Type*}

/-- Before the constructor. -/
def init : State ι := ⟨.new, .empty⟩

/-- `DBOperator::initDBPool`: whether there is a connection, and the pool. -/
def initDBPool (pool_size : ℕ) (ok : Bool) (rounds : List (Addr × Net)) :
    Option (Bool × DBConnectionPool.State ι) :=
  if !ok then some (false, { (.empty : DBConnectionPool.State ι) with
    log := [.mysql_library_init false] })
  else if rounds.length = pool_size then
    (DBConnectionPool.construct rounds).map fun p =>
      (decide (p.pool_.length > 0), { p with log := .mysql_library_init true :: p.log })
  else none

/-- The constructor; when it throws, the pool is destroyed without a connection in it. -/
def construct (pool_size : ℕ) (ok : Bool) (rounds : List (Addr × Net)) : Option (State ι) :=
  (initDBPool pool_size ok rounds).map fun
    | (true, p) => ⟨.live, p⟩
    | (false, p) => ⟨.failed, p⟩

/-- `DBOperator::~DBOperator`. -/
def destroy (s : State ι) : State ι :=
  ⟨.ended, { s.pool_ with log := s.pool_.log ++ [.mysql_library_end] }⟩

section Step

variable [DecidableEq ι] [Fintype ι]

/-- One step.  The pool is destroyed after the body of the destructor; from then on nobody
calls `queryDB` or `executeDB`, but calls under way go on. -/
def step (pool_size : ℕ) (s : State ι) (l : Label ι) : Option (State ι) :=
  match s.phase, l with
  | .new, .construct ok rounds => construct pool_size ok rounds
  | .live, .pool a =>
    if a = .dtor then none else (DBConnectionPool.step s.pool_ a).map fun p => { s with pool_ := p }
  | .live, .destroy => some (destroy s)
  | .ended, .pool a =>
    match a with
    | .call _ => none
    | a => (DBConnectionPool.step s.pool_ a).map fun p => { s with pool_ := p }
  | _, _ => none

/-- The operator as a transition system. -/
def lts (ι : Type*) [DecidableEq ι] [Fintype ι] (pool_size : ℕ) : LTS (State ι) (Label ι) :=
  .ofFun (step pool_size)

end Step

/-! ### Logs -/

/-- Every call for a connection comes after a successful `mysql_library_init` and before
`mysql_library_end`. -/
def WellTimed (log : List MysqlCall) : Prop :=
  ∀ pre c post, log = pre ++ c :: post → c.usesLibrary = true →
    .mysql_library_init true ∈ pre ∧ .mysql_library_end ∉ pre

/-- The calls after the first `mysql_library_end`. -/
def lateCalls : List MysqlCall → List MysqlCall
  | [] => []
  | c :: cs => if c = .mysql_library_end then cs else lateCalls cs

theorem lateCalls_append_of_mem {l : List MysqlCall} (h : .mysql_library_end ∈ l)
    (m : List MysqlCall) : lateCalls (l ++ m) = lateCalls l ++ m := by
  induction l with
  | nil => cases h
  | cons c l ih =>
    by_cases hc : c = .mysql_library_end
    · simp [lateCalls, hc]
    · have hmem : .mysql_library_end ∈ l := (List.mem_cons.1 h).resolve_left (Ne.symm hc)
      simp [lateCalls, hc, ih hmem]

theorem lateCalls_append_of_notMem {l : List MysqlCall} (h : .mysql_library_end ∉ l)
    (m : List MysqlCall) : lateCalls (l ++ m) = lateCalls m := by
  induction l with
  | nil => rfl
  | cons c l ih =>
    obtain ⟨hc, hmem⟩ := not_or.1 (fun h' => h (List.mem_cons.2 h'))
    simp [lateCalls, Ne.symm hc, ih hmem]

theorem mem_lateCalls_iff {l : List MysqlCall} {c : MysqlCall} :
    c ∈ lateCalls l ↔ ∃ pre post, l = pre ++ c :: post ∧ .mysql_library_end ∈ pre := by
  constructor
  · intro h
    induction l with
    | nil => cases h
    | cons x l ih =>
      by_cases hx : x = .mysql_library_end
      · rw [lateCalls, if_pos hx] at h
        obtain ⟨pre, post, rfl⟩ := List.append_of_mem h
        exact ⟨x :: pre, post, rfl, hx ▸ List.mem_cons_self⟩
      · rw [lateCalls, if_neg hx] at h
        obtain ⟨pre, post, rfl, hmem⟩ := ih h
        exact ⟨x :: pre, post, rfl, List.mem_cons_of_mem x hmem⟩
  · rintro ⟨pre, post, rfl, hmem⟩
    rw [lateCalls_append_of_mem hmem]
    exact List.mem_append_right _ List.mem_cons_self

/-- With an initialised library only the late calls matter. -/
theorem wellTimed_iff_late {l : List MysqlCall} (h : l.head? = some (.mysql_library_init true)) :
    WellTimed l ↔ ∀ c ∈ lateCalls l, c.usesLibrary = false := by
  constructor
  · intro hl c hc
    obtain ⟨pre, post, heq, hend⟩ := mem_lateCalls_iff.1 hc
    rw [← Bool.not_eq_true]
    exact fun huse => (hl pre c post heq huse).2 hend
  · intro hlate pre c post heq huse
    constructor
    · cases pre with
      | nil =>
        rw [heq] at h
        obtain rfl : c = _ := Option.some.inj h
        cases huse
      | cons x pre =>
        rw [heq] at h
        exact Option.some.inj h ▸ List.mem_cons_self
    · intro hend
      rw [hlate c (mem_lateCalls_iff.2 ⟨pre, post, heq, hend⟩)] at huse
      simp at huse

/-! ### The calls of a step -/

/-- No connection is out, and none in the queue has a handle. -/
def Silent (p : DBConnectionPool.State ι) : Prop :=
  (∀ i, p.lent i = none) ∧ ∀ a ∈ p.pool_, p.heap a = some ⟨false⟩

/-- The pool cannot be destroyed without a call: a connection is out, or one in the queue has a
handle. -/
def Pending (p : DBConnectionPool.State ι) : Prop :=
  (∃ i conn, p.lent i = some conn) ∨ ∃ a ∈ p.pool_, p.heap a = some ⟨true⟩

variable {p p' : DBConnectionPool.State ι} {calls : List MysqlCall}

theorem pending_of_not_silent (hs : Sound p) (h : ¬ Silent p) : Pending p := by
  by_contra hp
  obtain ⟨hlent, hpool⟩ := not_or.1 hp
  refine h ⟨fun i => ?_, fun a ha => ?_⟩
  · cases hi : p.lent i with
    | none => rfl
    | some conn => exact absurd ⟨i, conn, hi⟩ hlent
  · cases hc : p.heap a with
    | none => exact absurd hc (hs.allocated (Or.inl ha))
    | some c =>
      obtain ⟨up⟩ := c
      cases up with
      | false => rfl
      | true => exact absurd ⟨a, ha, hc⟩ hpool

variable [DecidableEq ι]

theorem Silent.calls_eq_nil (hs : Silent p) (h : Effect p p' calls) : calls = [] := by
  obtain ⟨hlent, hpool⟩ := hs
  cases h with
  | quiet hq hl ha hh hcalls =>
    rcases hcalls with hcalls | ⟨i, conn, hi⟩
    · exact hcalls
    · rw [hlent] at hi
      simp at hi
  | take hi hd hq hl ha hh hcalls => exact hcalls
  | giveBack hi | replace hi =>
    rw [hlent] at hi
    simp at hi
  | @close conn c hd hq hl ha hh hc hcalls =>
    have hnull := hpool conn (hq ▸ List.mem_cons_self)
    obtain rfl : c = ⟨false⟩ := Option.some.inj (hc.symm.trans hnull)
    exact hcalls

theorem Pending.step (hp : Pending p) (h : Effect p p' calls) :
    Pending p' ∨ ∃ c ∈ calls, c.usesLibrary = true := by
  cases h with
  | quiet hq hl ha hh =>
    refine Or.inl ?_
    unfold Pending
    rw [hq, hl, hh]
    exact hp
  | @take i conn hi hd hq hl =>
    exact Or.inl (Or.inl ⟨i, conn, by rw [hl, Function.update_self]⟩)
  | giveBack hi hq hl ha hh hcalls => exact Or.inr hcalls
  | replace hi hfresh hq hl ha hh hcalls => exact Or.inr hcalls
  | @close conn c hd hq hl ha hh hc hcalls =>
    rcases hp with ⟨i, x, hi⟩ | ⟨x, hx, hup⟩
    · exact Or.inl (Or.inl ⟨i, x, hl ▸ hi⟩)
    · by_cases hxc : x = conn
      · obtain rfl : c = ⟨true⟩ := Option.some.inj (hc.symm.trans (hxc ▸ hup))
        exact Or.inr ⟨.mysql_close, hcalls ▸ List.mem_singleton_self _, rfl⟩
      · refine Or.inl (Or.inr ⟨x, ?_, ?_⟩)
        · rw [hq] at hx
          exact (List.mem_cons.1 hx).resolve_left hxc
        · rw [hh, Function.update_of_ne hxc, hup]

/-! ### A whole life -/

/-- What holds of the pool of a constructed operator. -/
structure Kept (p : DBConnectionPool.State ι) [Fintype ι] : Prop where
  sound : Sound p
  active : p.active_connections_ = p.held
  closing : Closing p

variable [Fintype ι] {s s' : State ι} {l : Label ι} {pool_size : ℕ}

theorem Kept.step {a : Act ι} (hp : Kept p) (h : Move p a p') : Kept p' := by
  obtain ⟨calls, hdoes⟩ := h.does
  obtain ⟨op, hop⟩ := hdoes.effect.toLending hp.sound
  exact ⟨hp.sound.step hdoes.effect, hop.active hp.active, hp.closing.step hp.active h⟩

omit [DecidableEq ι] in
theorem Kept.withLog (hp : Kept p) (log : List MysqlCall) : Kept { p with log := log } :=
  ⟨⟨hp.sound.exclusive, hp.sound.allocated⟩, hp.active,
    ⟨hp.closing.shut, hp.closing.idle, hp.closing.empty⟩⟩

omit [DecidableEq ι] in
theorem kept_of_built (hp : Built p) : Kept p :=
  ⟨hp.sound, hp.counted.active, hp.closing⟩

/-- What the log of the operator looks like. -/
def Logged (s : State ι) : Prop :=
  match s.phase with
  | .new => True
  | .failed => WellTimed s.pool_.log
  | .live => s.pool_.log.head? = some (.mysql_library_init true) ∧ .mysql_library_end ∉ s.pool_.log
  | .ended => s.pool_.log.head? = some (.mysql_library_init true) ∧ .mysql_library_end ∈ s.pool_.log

theorem step_cases (h : (lts ι pool_size).step s l s') :
    (s.phase = .new ∧ ∃ ok rounds, construct pool_size ok rounds = some s') ∨
    (s.phase = .live ∧ s' = destroy s) ∨
    (s.phase = .live ∨ s.phase = .ended) ∧ s'.phase = s.phase ∧ ∃ a, Move s.pool_ a s'.pool_ := by
  simp only [lts, ofFun_step, step] at h
  split at h
  · exact Or.inl ⟨‹_›, _, _, h⟩
  · split_ifs at h
    obtain ⟨p, hp, rfl⟩ := Option.map_eq_some_iff.1 h
    exact Or.inr (Or.inr ⟨Or.inl ‹_›, rfl, _, (step_move hp).2⟩)
  · exact Or.inr (Or.inl ⟨‹_›, (Option.some.inj h).symm⟩)
  · split at h
    · simp at h
    · obtain ⟨p, hp, rfl⟩ := Option.map_eq_some_iff.1 h
      exact Or.inr (Or.inr ⟨Or.inr ‹_›, rfl, _, (step_move hp).2⟩)
  · simp at h

omit [DecidableEq ι] in
theorem construct_spec {ok : Bool} {rounds : List (Addr × Net)}
    (h : construct pool_size ok rounds = some s) :
    (s.phase = .failed ∨ s.phase = .live) ∧ Kept s.pool_ ∧ Logged s := by
  obtain ⟨⟨up, p⟩, hinit, rfl⟩ := Option.map_eq_some_iff.1 h
  unfold initDBPool at hinit
  split_ifs at hinit with hok hlen
  · cases hinit
    refine ⟨Or.inl rfl, (kept_of_built built_empty).withLog _, ?_⟩
    -- the one call made is not for a connection
    intro pre c post heq huse
    have hlog : [MysqlCall.mysql_library_init false] = pre ++ c :: post := heq
    have hmem : c ∈ [MysqlCall.mysql_library_init false] :=
      hlog ▸ List.mem_append_right _ List.mem_cons_self
    rw [List.mem_singleton.1 hmem] at huse
    cases huse
  · obtain ⟨q, hq, heq⟩ := Option.map_eq_some_iff.1 hinit
    obtain ⟨rfl, rfl⟩ := Prod.mk.inj heq
    have hbuilt := built_construct hq
    have hend : .mysql_library_end ∉ MysqlCall.mysql_library_init true :: q.log := by
      simpa using hbuilt.log
    have hkept := (kept_of_built hbuilt).withLog (.mysql_library_init true :: q.log)
    cases decide (q.pool_.length > 0) with
    | true => exact ⟨Or.inr rfl, hkept, rfl, hend⟩
    | false =>
      refine ⟨Or.inl rfl, hkept, (wellTimed_iff_late rfl).2 ?_⟩
      have hlate := lateCalls_append_of_notMem hend []
      rw [List.append_nil] at hlate
      rw [hlate]
      exact nofun

/-- What the run so far says about the pool and the log. -/
structure Told (tr : List (State ι × Label ι)) (s : State ι) : Prop where
  kept : Kept s.pool_
  logged : Logged s
  before : s.phase ≠ .ended → ∀ x ∈ tr, x.1.phase ≠ .ended
  silent : s.phase = .ended → (∀ x ∈ states tr s, x.phase = .ended → Silent x.pool_) →
    lateCalls s.pool_.log = []
  loud : s.phase = .ended → ¬ (∀ x ∈ states tr s, x.phase = .ended → Silent x.pool_) →
    Pending s.pool_ ∨ ∃ c ∈ lateCalls s.pool_.log, c.usesLibrary = true

omit [DecidableEq ι] in
theorem told_init : Told [] (init : State ι) :=
  ⟨kept_of_built built_empty, trivial, fun _ => List.forall_mem_nil _, nofun, nofun⟩

theorem head?_append {l : List MysqlCall} {c : MysqlCall} (h : l.head? = some c)
    (m : List MysqlCall) : (l ++ m).head? = some c := by
  rw [List.head?_append, h]
  rfl

omit [Fintype ι] [DecidableEq ι] in
theorem Logged.append (hs : Logged s) (hphase : s.phase = .live ∨ s.phase = .ended)
    (heq : s'.phase = s.phase) (hlog : s'.pool_.log = s.pool_.log ++ calls)
    (hend : .mysql_library_end ∉ calls) : Logged s' := by
  rcases hphase with hp | hp
  · simp only [Logged, hp] at hs
    simp only [Logged, heq, hp, hlog]
    exact ⟨head?_append hs.1 calls, by simp [hs.2, hend]⟩
  · simp only [Logged, hp] at hs
    simp only [Logged, heq, hp, hlog]
    exact ⟨head?_append hs.1 calls, List.mem_append_left _ hs.2⟩

omit [DecidableEq ι] in
theorem Told.destroy {tr : List (State ι × Label ι)} (ht : Told tr s) (hs : s.phase = .live) :
    Told (tr ++ [(s, l)]) (destroy s) := by
  have hlogged := ht.logged
  simp only [Logged, hs] at hlogged
  have hbefore : ∀ x ∈ tr ++ [(s, l)], x.1.phase ≠ .ended := by
    rw [List.forall_mem_append, List.forall_mem_singleton, hs]
    exact ⟨ht.before (by rw [hs]; exact nofun), nofun⟩
  have hpast : ∀ x ∈ states (tr ++ [(s, l)]) (DBOperator.destroy s), x.phase = .ended →
      x = DBOperator.destroy s := by
    intro x hx hended
    rcases List.mem_append.1 hx with hx | hx
    · obtain ⟨y, hy, rfl⟩ := List.mem_map.1 hx
      exact absurd hended (hbefore y hy)
    · exact List.mem_singleton.1 hx
  have hkept := ht.kept.withLog (s.pool_.log ++ [.mysql_library_end])
  refine ⟨hkept, ⟨head?_append hlogged.1 _, List.mem_append_right _ List.mem_cons_self⟩,
    fun h => absurd rfl h, fun _ _ => ?_, fun _ hloud => Or.inl ?_⟩
  · exact lateCalls_append_of_notMem hlogged.2 [.mysql_library_end]
  · refine pending_of_not_silent hkept.sound fun hsilent => hloud fun x hx hended => ?_
    rw [hpast x hx hended]
    exact hsilent

theorem Told.pool {tr : List (State ι × Label ι)} {a : Act ι} (ht : Told tr s)
    (hphase : s.phase = .live ∨ s.phase = .ended) (heq : s'.phase = s.phase)
    (h : Move s.pool_ a s'.pool_) : Told (tr ++ [(s, l)]) s' := by
  obtain ⟨calls, hdoes⟩ := h.does
  have hlogged := ht.logged.append hphase heq hdoes.log hdoes.noEnd
  have hlate : s.phase = .ended → lateCalls s'.pool_.log = lateCalls s.pool_.log ++ calls := by
    intro hs
    have hend := ht.logged
    simp only [Logged, hs] at hend
    rw [hdoes.log, lateCalls_append_of_mem hend.2]
  refine ⟨ht.kept.step h, hlogged, ?_, ?_, ?_⟩
  · intro hne
    rw [heq] at hne
    rw [List.forall_mem_append, List.forall_mem_singleton]
    exact ⟨ht.before hne, hne⟩
  · intro hended hall
    have hs := heq.symm.trans hended
    have hpast := (forall_states_snoc.1 hall).1
    have hsilent := hpast s (last_mem_states tr s) hs
    rw [hlate hs, ht.silent hs hpast, hsilent.calls_eq_nil hdoes.effect]
    rfl
  · intro hended hloud
    have hs := heq.symm.trans hended
    rw [hlate hs]
    by_cases hpast : ∀ x ∈ states tr s, x.phase = .ended → Silent x.pool_
    · refine Or.inl (pending_of_not_silent (ht.kept.step h).sound fun hsilent => ?_)
      exact hloud (forall_states_snoc.2 ⟨hpast, fun _ => hsilent⟩)
    · rcases ht.loud hs hpast with hp | ⟨c, hc, huse⟩
      · rcases hp.step hdoes.effect with hp' | ⟨c, hc, huse⟩
        · exact Or.inl hp'
        · exact Or.inr ⟨c, List.mem_append_right _ hc, huse⟩
      · exact Or.inr ⟨c, List.mem_append_left _ hc, huse⟩

theorem Told.step {tr : List (State ι × Label ι)} (ht : Told tr s)
    (h : (lts ι pool_size).step s l s') : Told (tr ++ [(s, l)]) s' := by
  rcases step_cases h with ⟨hnew, ok, rounds, hc⟩ | ⟨hlive, rfl⟩ | ⟨hphase, heq, a, hmove⟩
  · obtain ⟨hphase, hkept, hlogged⟩ := construct_spec hc
    have hended : s'.phase ≠ .ended := by
      rcases hphase with hp | hp <;> rw [hp] <;> exact nofun
    refine ⟨hkept, hlogged, fun _ => ?_, fun h => absurd h hended, fun h => absurd h hended⟩
    rw [List.forall_mem_append, List.forall_mem_singleton, hnew]
    exact ⟨ht.before (by rw [hnew]; exact nofun), nofun⟩
  · exact ht.destroy hlive
  · exact ht.pool hphase heq hmove

theorem told_run {tr : List (State ι × Label ι)} (h : (lts ι pool_size).Run init tr s) :
    Told tr s := by
  refine h.invariant told_init ?_
  intro tr s l s' _ ht hst
  exact ht.step hst

/-- **A whole life is well timed exactly if the constructor fails, or from the end of the library
on the pool is silent**: no connection is out, and none in the queue has a handle.  Otherwise
the deleter or the destructor of the pool makes a call after `mysql_library_end`. -/
theorem wellTimed_iff {tr : List (State ι × Label ι)} (hrun : (lts ι pool_size).Run init tr s)
    (hdone : s.phase = .failed ∨ s.phase = .ended ∧ s.pool_.dtor = .finished) :
    WellTimed s.pool_.log ↔
      s.phase = .failed ∨ ∀ x ∈ states tr s, x.phase = .ended → Silent x.pool_ := by
  have ht := told_run hrun
  have hlogged := ht.logged
  rcases hdone with hfailed | ⟨hended, hfin⟩
  · simp only [Logged, hfailed] at hlogged
    exact iff_of_true hlogged (Or.inl hfailed)
  simp only [Logged, hended] at hlogged
  have hlent := ht.kept.closing.idle (by rw [hfin]; rfl)
  have hempty := ht.kept.closing.empty (Or.inr hfin)
  have hpending : ¬ Pending s.pool_ := by
    rintro (⟨i, conn, hi⟩ | ⟨conn, hconn, -⟩)
    · rw [hlent] at hi
      simp at hi
    · rw [hempty] at hconn
      simp at hconn
  rw [wellTimed_iff_late hlogged.1, or_iff_right (by rw [hended]; exact nofun)]
  constructor
  · intro hlate
    by_contra hloud
    rcases ht.loud hended hloud with hp | ⟨c, hc, huse⟩
    · exact hpending hp
    · rw [hlate c hc] at huse
      simp at huse
  · intro hall
    rw [ht.silent hended hall]
    exact List.forall_mem_nil _

instance (p : DBConnectionPool.State Unit) : Decidable (Silent p) :=
  inferInstanceAs (Decidable ((∀ i, p.lent i = none) ∧ ∀ a ∈ p.pool_, p.heap a = some ⟨false⟩))

/-- The only connection dies on its holder, and cannot be replaced. -/
def loseConnection : List (Act Unit) :=
  [.call (), .lock (), .critical (), .execute () allUp, .release (), .lock (),
    .giveBack () 0 ⟨false, false, false, false⟩, .unlock (), .notifyOne () none, .readFlag ()]

/-- A life at whose end no connection has a handle. -/
theorem wellTimed_iff_lost : ∃ s : State Unit, (lts Unit 1).Reachable init s ∧
    s.phase = .ended ∧ s.pool_.dtor = .finished ∧ WellTimed s.pool_.log := by
  obtain ⟨tr, s, hrun, hended, hfin, hall⟩ := Run.exists_of_trace (step 1) init
    (.construct true [(0, allUp)] :: loseConnection.map .pool ++ .destroy :: teardown.map .pool)
    (fun tr s => s.phase = .ended ∧ s.pool_.dtor = .finished ∧
      ∀ x ∈ states tr s, x.phase = .ended → Silent x.pool_) (by decide)
  exact ⟨s, hrun.reachable, hended, hfin,
    (wellTimed_iff hrun (Or.inr ⟨hended, hfin⟩)).2 (Or.inr hall)⟩

/-- One connection is made and, after the end of the library, closed. -/
theorem not_wellTimed : ¬ ∀ s : State Unit, (lts Unit 1).Reachable init s →
    s.phase = .ended → s.pool_.dtor = .finished → WellTimed s.pool_.log := by
  intro hclaim
  obtain ⟨s, hs, hended, hfin, hlog⟩ := Run.exists_reachable (step 1) init
    (.construct true [(0, allUp)] :: .destroy :: teardown.map .pool)
    (fun s => s.phase = .ended ∧ s.pool_.dtor = .finished ∧
      s.pool_.log = [.mysql_library_init true, .mysql_init, .mysql_real_connect, .mysql_ping,
        .mysql_library_end, .mysql_close]) (by decide)
  have hlate := hclaim s hs hended hfin [.mysql_library_init true, .mysql_init,
    .mysql_real_connect, .mysql_ping, .mysql_library_end] .mysql_close [] hlog rfl
  exact hlate.2 (by decide)

end DBOperator

end LiteMonitor
