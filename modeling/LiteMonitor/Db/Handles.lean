import LiteMonitor.Db.Teardown
import LiteMonitor.Pool.Weight

/-!
# The handles of the connections

`mysql_init` makes a handle and `mysql_close` ends it.  `connect` overwrites `mysql_` without a look
at what it held, and a handle ends only in `disconnect` or when `connect` gives up; so it is the
pool that has to see to it that no handle is lost.

* `opened`, `closed` : the handles made and ended, as the calls tell.
* `State.handle` : whether the object at an address has a handle.
* `Balanced` : every object is in the queue or with a caller, and the handles add up.
* `handles_balanced` : **no handle is lost and none is closed twice**, up to the end of the pool.
-/

namespace LiteMonitor

/-- The handles that `mysql_init` has made: with these, and only with these, `connect` goes on to
`mysql_real_connect`. -/
def opened (log : List MysqlCall) : ℕ := log.count .mysql_real_connect

/-- The handles that were closed. -/
def closed (log : List MysqlCall) : ℕ := log.count .mysql_close

theorem opened_append (l l' : List MysqlCall) : opened (l ++ l') = opened l + opened l' :=
  List.count_append

theorem closed_append (l l' : List MysqlCall) : closed (l ++ l') = closed l + closed l' :=
  List.count_append

namespace DBConnection

variable (c : DBConnection) (n : Net)

theorem opened_isConnected : opened (c.isConnected n).2 = 0 ∧ closed (c.isConnected n).2 = 0 := by
  unfold isConnected
  split_ifs <;> exact ⟨rfl, rfl⟩

/-- A new object makes a handle, and keeps it or closes it. -/
theorem opened_connect : opened (connect {} n).2.2 =
    closed (connect {} n).2.2 + (connect {} n).2.1.mysql_.toNat := by
  unfold connect isConnected
  cases n.mysql_init <;> cases n.mysql_real_connect <;> rfl

theorem closed_disconnect : opened c.disconnect.2 = 0 ∧ closed c.disconnect.2 = c.mysql_.toNat := by
  obtain ⟨up⟩ := c
  cases up <;> exact ⟨rfl, rfl⟩

theorem opened_execute : opened (c.execute n).2 = 0 ∧ closed (c.execute n).2 = 0 := by
  obtain ⟨ho, hc⟩ := c.opened_isConnected n
  unfold execute
  dsimp only
  split_ifs
  · exact ⟨ho, hc⟩
  · rw [opened_append, closed_append, ho, hc]
    exact ⟨rfl, rfl⟩

theorem opened_query : opened (c.query n).2 = 0 ∧ closed (c.query n).2 = 0 := by
  obtain ⟨ho, hc⟩ := c.opened_isConnected n
  unfold query
  dsimp only
  split_ifs
  · exact ⟨ho, hc⟩
  · rw [opened_append, closed_append, ho, hc]
    exact ⟨rfl, rfl⟩
  · rw [opened_append, closed_append, ho, hc]
    exact ⟨rfl, rfl⟩

end DBConnection

namespace DBConnectionPool

open LTS Lending

variable {ι : Type*}

/-- The number of handles of the object at `conn`. -/
def State.handle (s : State ι) (conn : Addr) : ℕ := (s.heap conn).elim 0 fun c => c.mysql_.toNat

theorem State.handle_of_eq {s : State ι} {conn : Addr} {c : DBConnection}
    (h : s.heap conn = some c) : s.handle conn = c.mysql_.toNat := by
  rw [State.handle, h, Option.elim_some]

theorem State.handle_congr {s s' : State ι} {conn : Addr} (h : s'.heap conn = s.heap conn) :
    s'.handle conn = s.handle conn := by
  rw [State.handle, h, State.handle]

variable [Fintype ι]

/-- Every object is in the queue or with a caller, and every handle that was made is closed or
belongs to one of the objects. -/
structure Balanced (s : State ι) : Prop where
  placed : ∀ conn, s.heap conn ≠ none → s.toLending.Mem conn
  handles : opened s.log = closed s.log + s.toLending.weight s.handle

variable {s s' : State ι} {a : Act ι}

theorem Balanced.of_quiet (hs : Balanced s) {calls : List MysqlCall}
    (hlog : s'.log = s.log ++ calls) (hcalls : opened calls = 0 ∧ closed calls = 0)
    (hl : s'.toLending = s.toLending) (hh : s'.heap = s.heap) : Balanced s' := by
  have hhandle : s'.handle = s.handle := by
    funext conn
    exact State.handle_congr (by rw [hh])
  refine ⟨?_, ?_⟩
  · rw [hh, hl]
    exact hs.placed
  · rw [hlog, opened_append, closed_append, hcalls.1, hcalls.2, hl, hhandle]
    exact hs.handles

theorem balanced_empty : Balanced (State.empty : State ι) := by
  refine ⟨fun conn h => absurd rfl h, ?_⟩
  have hnone : (State.empty : State ι).toLending = ⟨[], fun _ => none⟩ := rfl
  rw [hnone, weight_none]
  rfl

theorem Balanced.addConnection {x : Addr × Net} (hs : Balanced s) (hbuilt : Built s)
    (h : s.addConnection x = some s') : Balanced s' := by
  have hbuilt' := hbuilt.addConnection h
  have hlent : s'.toLending = ⟨s'.pool_, fun _ => none⟩ := toLending_eq rfl hbuilt'.lent
  have hhandles := hs.handles
  rw [toLending_eq rfl hbuilt.lent, weight_none] at hhandles
  have hplaced : ∀ conn, s.heap conn ≠ none → conn ∈ s.pool_ := by
    intro conn hconn
    rcases hs.placed conn hconn with hmem | ⟨i, hi⟩
    · exact hmem
    · have hi' : s.lent i = some conn := hi
      rw [hbuilt.lent] at hi'
      cases hi'
  have hopen := DBConnection.opened_connect x.2
  unfold State.addConnection at h
  rcases hconnect : DBConnection.connect {} x.2 with ⟨ok, c, calls⟩
  rw [hconnect] at h hopen
  dsimp only at h hopen
  obtain ⟨hping₁, hping₂⟩ := c.opened_isConnected x.2
  obtain ⟨hclose₁, hclose₂⟩ := c.closed_disconnect
  split_ifs at h with hused hup
  · have hs' := Option.some.inj h
    have hpool : s'.pool_ = s.pool_ ++ [x.1] := by rw [← hs']
    have hlog : s'.log = s.log ++ calls ++ (c.isConnected x.2).2 := by rw [← hs']
    have hnew : s'.heap x.1 = some c := by
      rw [← hs']
      exact Function.update_self ..
    have hold : ∀ conn, conn ≠ x.1 → s'.heap conn = s.heap conn := by
      intro conn hconn
      rw [← hs']
      exact Function.update_of_ne hconn ..
    have hne : ∀ conn ∈ s.pool_, conn ≠ x.1 := by
      rintro conn hmem rfl
      rw [hbuilt.connected _ hmem] at hused
      exact hused nofun
    refine ⟨fun conn hconn => Or.inl ?_, ?_⟩
    · change conn ∈ s'.pool_
      rw [hpool]
      by_cases hx : conn = x.1
      · exact hx ▸ List.mem_append_right _ (List.mem_singleton_self _)
      · rw [hold conn hx] at hconn
        exact List.mem_append_left _ (hplaced conn hconn)
    · have hsame : s.pool_.map s'.handle = s.pool_.map s.handle :=
        List.map_congr_left fun conn hconn => State.handle_congr (hold conn (hne conn hconn))
      rw [hlent, weight_none, hpool, List.map_append, List.sum_append, hsame, List.map_singleton,
        List.sum_singleton, State.handle_of_eq hnew, hlog]
      simp only [opened_append, closed_append, hping₁, hping₂]
      omega
  · obtain rfl := Option.some.inj h
    refine ⟨fun conn hconn => Or.inl (hplaced conn hconn), ?_⟩
    rw [hlent, weight_none]
    simp only [opened_append, closed_append, hping₁, hping₂, hclose₁, hclose₂]
    change _ = _ + (s.pool_.map s.handle).sum
    omega

theorem balanced_construct {rounds : List (Addr × Net)} (h : construct rounds = some s) :
    Balanced s := by
  have hall : ∀ {s₀ : State ι}, Built s₀ → Balanced s₀ →
      rounds.foldlM State.addConnection s₀ = some s → Balanced s := by
    clear h
    induction rounds with
    | nil =>
      intro s₀ _ hs h
      exact Option.some.inj h ▸ hs
    | cons x rounds ih =>
      intro s₀ hbuilt hs h
      rw [List.foldlM_cons] at h
      obtain ⟨s₁, hadd, hrest⟩ := Option.bind_eq_some_iff.1 h
      exact ih (hbuilt.addConnection hadd) (hs.addConnection hbuilt hadd) hrest
  exact hall built_empty balanced_empty h

variable [DecidableEq ι]

omit [DecidableEq ι] in
theorem Balanced.close (hs : Balanced s) (hsound : Sound s) {conn : Addr} {c : DBConnection}
    (hlog : s'.log = s.log ++ c.disconnect.2) (hq : s.pool_ = conn :: s'.pool_)
    (hl : s'.lent = s.lent) (hh : s'.heap = Function.update s.heap conn none)
    (hc : s.heap conn = some c) : Balanced s' := by
  have hother : ∀ z, z ≠ conn → s'.heap z = s.heap z := by
    intro z hz
    rw [hh]
    exact Function.update_of_ne hz ..
  have hgone : s'.heap conn = none := by
    rw [hh]
    exact Function.update_self ..
  refine ⟨fun z hz => ?_, ?_⟩
  · have hne : z ≠ conn := fun h => hz (h ▸ hgone)
    rw [toLending_eq rfl hl]
    rw [hother z hne] at hz
    exact (hs.placed z hz).retire hq hne
  · have hsame : ∀ z, z ≠ conn → s.toLending.Mem z → s'.handle z = s.handle z :=
      fun z hz _ => State.handle_congr (hother z hz)
    have hweight := weight_retire hsound.exclusive hq hsame
    have hhandles := hs.handles
    obtain ⟨hopen, hclose⟩ := c.closed_disconnect
    rw [State.handle_of_eq hc] at hweight
    rw [hlog, opened_append, closed_append, hopen, hclose, toLending_eq rfl hl]
    change weight ⟨s'.pool_, s.lent⟩ s'.handle + _ = _ at hweight
    omega

theorem Balanced.giveBack (hs : Balanced s) (hsound : Sound s) {i : ι} {conn back : Addr}
    (calls : List MysqlCall) (hlog : s'.log = s.log ++ calls) (hi : s.lent i = some conn)
    (hq : s'.pool_ = s.pool_ ++ [back]) (hl : s'.lent = Function.update s.lent i none)
    (hother : ∀ z, z ≠ conn → z ≠ back → s'.heap z = s.heap z)
    (hgone : back ≠ conn → s'.heap conn = none) (hfresh : s.toLending.Mem back → back = conn)
    (hcalls : opened calls + s.handle conn = closed calls + s'.handle back) : Balanced s' := by
  refine ⟨fun z hz => ?_, ?_⟩
  · rw [toLending_eq hq hl]
    by_cases hzb : z = back
    · exact Or.inl (hzb ▸ List.mem_append_right _ (List.mem_singleton_self _))
    · have hzc : z ≠ conn := by
        rintro rfl
        exact hz (hgone (Ne.symm hzb))
      rw [hother z hzc hzb] at hz
      exact (hs.placed z hz).giveBack hi hzc
  · have hsame : ∀ z, z ≠ conn → s.toLending.Mem z → s'.handle z = s.handle z := by
      intro z hz hmem
      refine State.handle_congr (hother z hz ?_)
      rintro rfl
      exact hz (hfresh hmem)
    have hweight := weight_giveBack (y := back) hsound.exclusive hi hsame
    have hhandles := hs.handles
    rw [hlog, opened_append, closed_append, toLending_eq hq hl]
    change weight ⟨s.pool_ ++ [back], Function.update s.lent i none⟩ s'.handle + _ = _ at hweight
    omega

theorem Balanced.of_silent (hs : Balanced s) (hsound : Sound s) {calls : List MysqlCall}
    (hsame : s'.log = s.log) (hlog : s'.log = s.log ++ calls) (h : Effect s s' calls) :
    Balanced s' := by
  obtain rfl : calls = [] := List.self_eq_append_right.1 (hsame.symm.trans hlog)
  cases h with
  | quiet hq hl ha hh =>
    exact hs.of_quiet hlog ⟨rfl, rfl⟩ ((toLending_eq hq hl).trans (toLending_eq rfl rfl).symm) hh
  | take hi hd hq hl ha hh =>
    have hhandle : s'.handle = s.handle := funext fun conn => State.handle_congr (by rw [hh])
    refine ⟨fun z hz => ?_, ?_⟩
    · rw [toLending_eq rfl hl]
      rw [hh] at hz
      exact (hs.placed z hz).lend hi hq
    · rw [toLending_eq rfl hl, hsame, hhandle, hs.handles]
      exact congrArg _ (weight_lend hi hq).symm
  | giveBack _ _ _ _ _ hcalls | replace _ _ _ _ _ _ hcalls =>
    obtain ⟨c, hc, -⟩ := hcalls
    cases hc
  | close hd hq hl ha hh hc hcalls => exact hs.close hsound (hcalls ▸ hlog) hq hl hh hc

theorem Balanced.step (hs : Balanced s) (hsound : Sound s) (h : Move s a s') : Balanced s' := by
  obtain ⟨calls, hlog, -, heffect⟩ := h.does
  cases h with
  | execute n hi hc => exact hs.of_quiet rfl (DBConnection.opened_execute _ n) rfl rfl
  | query n hi hc => exact hs.of_quiet rfl (DBConnection.opened_query _ n) rfl rfl
  | @returned i conn fresh c n hi hc hup =>
    obtain ⟨hopen, hclose⟩ := c.opened_isConnected n
    refine hs.giveBack hsound _ rfl (lent_of_caller hi) rfl (lent_update s i .relUnlock)
      (fun _ _ _ => rfl) (fun h => absurd rfl h) (fun _ => rfl) ?_
    rw [hopen, hclose]
    rfl
  | @replaced i conn fresh c n hi hc hup hfresh =>
    -- the handle of the dead connection is closed, and the new connection makes its own
    obtain ⟨hping₁, hping₂⟩ := c.opened_isConnected n
    obtain ⟨hclose₁, hclose₂⟩ := c.closed_disconnect
    have hconnect := DBConnection.opened_connect n
    refine hs.giveBack hsound
      ((c.isConnected n).2 ++ c.disconnect.2 ++ (DBConnection.connect {} n).2.2) ?_
      (lent_of_caller hi) rfl (lent_update s i .relUnlock) ?_ ?_ ?_ ?_
    · simp only [List.append_assoc]
    · intro z hz hzf
      exact (Function.update_of_ne hzf ..).trans (Function.update_of_ne hz ..)
    · intro hne
      exact (Function.update_of_ne hne.symm ..).trans (Function.update_self ..)
    · intro hmem
      by_contra hne
      rw [Function.update_of_ne hne] at hfresh
      exact hsound.allocated hmem hfresh
    · rw [State.handle_of_eq hc, State.handle_of_eq (Function.update_self ..)]
      simp only [opened_append, closed_append, hping₁, hping₂, hclose₁, hclose₂]
      omega
  | dtorClose hd hq hc => exact hs.close hsound rfl hq rfl rfl hc
  | _ => exact hs.of_silent hsound rfl hlog heffect

/-- **No handle is lost, and none is closed twice.**  In every reachable state every object is in
the queue or with a caller, and the handles made are those closed and those of the objects; when the
destructor has finished, every handle is closed and no object is left. -/
theorem handles_balanced {rounds : List (Addr × Net)} {s₀ : State ι}
    (h₀ : construct rounds = some s₀) (h : (lts ι).Reachable s₀ s) :
    (∀ conn, s.heap conn ≠ none ↔ s.toLending.Mem conn) ∧
      opened s.log = closed s.log + s.toLending.weight s.handle ∧
      (s.dtor = .finished → opened s.log = closed s.log ∧ ∀ conn, s.heap conn = none) := by
  have hbuilt := built_construct h₀
  have hsound := sound_reachable hbuilt h
  have hs : Balanced s := by
    refine h.invariant (balanced_construct h₀) fun hr hs hst => ?_
    exact hs.step (sound_reachable hbuilt hr) (step_move hst).2
  refine ⟨fun conn => ⟨hs.placed conn, hsound.allocated⟩, hs.handles, fun hfin => ?_⟩
  have hclosing := closing_reachable hbuilt h
  have hlent : s.lent = fun _ => none := funext (hclosing.idle (by rw [hfin]; rfl))
  have hempty : s.toLending = ⟨[], fun _ => none⟩ :=
    toLending_eq (hclosing.empty (Or.inr hfin)) hlent
  refine ⟨?_, fun conn => ?_⟩
  · rw [hs.handles, hempty, weight_none]
    rfl
  · by_contra hconn
    have hmem := hs.placed conn hconn
    rw [hempty] at hmem
    rcases hmem with hmem | ⟨i, hi⟩
    · cases hmem
    · cases hi

/-- The connection dies while it is lent and is replaced, before the destructor runs. -/
theorem handles_balanced_replaced : ∃ s : State Unit, (lts Unit).Reachable oneConnection s ∧
    opened s.log = 2 ∧ opened s.log = closed s.log := by
  obtain ⟨s, hs, hfin, hopen⟩ := Run.exists_reachable step oneConnection
    ([.call (), .lock (), .critical (), .release (), .lock (),
      .giveBack () 7 ⟨true, true, false, true⟩, .unlock ()] ++ teardown)
    (fun s => s.dtor = .finished ∧ opened s.log = 2) (by decide)
  exact ⟨s, hs, hopen, ((handles_balanced construct_one hs).2.2 hfin).1⟩

end DBConnectionPool

end LiteMonitor
