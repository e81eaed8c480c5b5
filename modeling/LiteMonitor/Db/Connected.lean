import LiteMonitor.Db.Teardown

/-!
# Which connections enter the pool

The constructor pushes a connection only if it is connected.  The deleter pushes the connection it
gets if that is alive, and otherwise a new one, without looking whether it could be connected.

* `PushesConnected a s s'` : what the step pushes is connected at that moment.
* `Replaceable s a` : if the deleter finds its connection dead, the new one can be connected.
* `onlyConnected_iff` : **only connected handles enter the pool exactly if every dead connection can
  be replaced**.
-/

namespace LiteMonitor

namespace DBConnectionPool

open LTS

variable {ι : Type*} {s s' : State ι} {a : Act ι}

/-- The connection that the step pushes has a handle: its `mysql_ping` or its `connect` has just
succeeded. -/
def PushesConnected (a : Act ι) (s s' : State ι) : Prop :=
  ∀ conn, s'.pool_ = s.pool_ ++ [conn] → ∃ i fresh n c, a = .giveBack i fresh n ∧
    s'.heap conn = some c ∧ c.mysql_ = true ∧
    ((c.isConnected n).1 = true ∨ (DBConnection.connect {} n).1 = true)

/-- If the deleter finds its connection dead, `mysql_init` and `mysql_real_connect` succeed for the
new one. -/
def Replaceable (s : State ι) (a : Act ι) : Prop :=
  ∀ i fresh n conn c, a = .giveBack i fresh n → s.caller i = .relWork conn →
    s.heap conn = some c → (c.isConnected n).1 = false →
    n.mysql_init = true ∧ n.mysql_real_connect = true

/-- Every connection in the queue has a handle. -/
def Handles (s : State ι) : Prop := ∀ conn ∈ s.pool_, s.heap conn = some ⟨true⟩

theorem connect_iff (n : Net) : (DBConnection.connect {} n).1 = true ↔
    n.mysql_init = true ∧ n.mysql_real_connect = true := by
  unfold DBConnection.connect DBConnection.isConnected
  cases n.mysql_init <;> cases n.mysql_real_connect <;> simp

theorem ne_append_singleton {q q' : List Addr} (h : q'.length ≤ q.length) (conn : Addr) :
    q' ≠ q ++ [conn] := by
  rintro rfl
  rw [List.length_append, List.length_singleton] at h
  omega

/-- A step with which nothing enters the pool. -/
theorem pushes_of_length_le (hq : s'.pool_.length ≤ s.pool_.length)
    (ha : ∀ i fresh n, a ≠ .giveBack i fresh n) : PushesConnected a s s' ↔ Replaceable s a :=
  iff_of_true (fun conn h => absurd h (ne_append_singleton hq conn))
    fun i fresh n _ _ h => absurd h (ha i fresh n)

/-- A round of the constructor pushes only a connection that is connected. -/
theorem addConnection_connected {x : Addr × Net} {conn : Addr} (h : s.addConnection x = some s')
    (hpush : s'.pool_ = s.pool_ ++ [conn]) :
    ∃ c, s'.heap conn = some c ∧ c.mysql_ = true ∧ (c.isConnected x.2).1 = true := by
  unfold State.addConnection at h
  dsimp only at h
  split_ifs at h with hused hup
  · obtain rfl := Option.some.inj h
    obtain rfl : x.1 = conn := List.singleton_inj.1 (List.append_cancel_left hpush)
    have hconn := DBConnection.mysql_of_isConnected _ _ hup
    exact ⟨_, Function.update_self .., by rw [hconn], hup⟩
  · obtain rfl := Option.some.inj h
    exact absurd hpush (ne_append_singleton le_rfl conn)

variable [DecidableEq ι]

theorem Move.pushesConnected_iff (h : Move s a s') : PushesConnected a s s' ↔ Replaceable s a := by
  cases h with
  | @returned i conn fresh c n hi hc hup =>
    refine iff_of_true ?_ ?_
    · intro conn' heq
      obtain rfl : conn = conn' := List.singleton_inj.1 (List.append_cancel_left heq)
      obtain rfl := c.mysql_of_isConnected n hup
      exact ⟨i, fresh, n, _, rfl, hc, rfl, Or.inl hup⟩
    · rintro i' fresh' n' conn' c' ⟨⟩ hi' hc' hdead
      obtain rfl : conn = conn' := Loc.relWork.inj (hi.symm.trans hi')
      obtain rfl : c = c' := Option.some.inj (hc.symm.trans hc')
      rw [hup] at hdead
      simp at hdead
  | @replaced i conn fresh c n hi hc hdead hfresh =>
    constructor
    · intro hpush
      obtain ⟨-, -, -, c', -, hheap, hup, -⟩ := hpush fresh rfl
      rintro i' fresh' n' conn' c'' ⟨⟩ - - -
      have hnew : Function.update (Function.update s.heap conn none) fresh
          (some (DBConnection.connect {} n).2.1) fresh = some c' := hheap
      rw [Function.update_self, (DBConnection.connect_new n).1] at hnew
      obtain rfl := Option.some.inj hnew
      exact (connect_iff n).1 hup
    · intro hrep conn' heq
      obtain rfl : fresh = conn' := List.singleton_inj.1 (List.append_cancel_left heq)
      have hup := (connect_iff n).2 (hrep i fresh n conn c rfl hi hc hdead)
      refine ⟨i, fresh, n, _, rfl, Function.update_self .., ?_, Or.inr hup⟩
      rw [(DBConnection.connect_new n).1]
      exact hup
  | take hi hd hq => exact pushes_of_length_le (by simp [hq]) nofun
  | dtorClose hd hq => exact pushes_of_length_le (by simp [hq]) nofun
  | _ => exact pushes_of_length_le le_rfl nofun

/-- As long as every connection in the queue has a handle, a step keeps it so exactly if it replaces
no dead connection without success. -/
theorem Handles.step_iff (hs : Handles s) (hsound : Sound s) (h : Move s a s') :
    Handles s' ↔ Replaceable s a := by
  cases h with
  | @returned i conn fresh c n hi hc hup =>
    refine iff_of_true ?_ ?_
    · obtain rfl := c.mysql_of_isConnected n hup
      intro x hx
      rcases List.mem_append.1 hx with hx' | hx'
      · exact hs x hx'
      · rw [List.mem_singleton.1 hx']
        exact hc
    · rintro i' fresh' n' conn' c' ⟨⟩ hi' hc' hdead
      obtain rfl : conn = conn' := Loc.relWork.inj (hi.symm.trans hi')
      obtain rfl : c = c' := Option.some.inj (hc.symm.trans hc')
      rw [hup] at hdead
      simp at hdead
  | @replaced i conn fresh c n hi hc hdead hfresh =>
    have hlent : s.lent i = some conn := lent_of_caller hi
    have hnew : Function.update (Function.update s.heap conn none) fresh
        (some (DBConnection.connect {} n).2.1) fresh = some ⟨(DBConnection.connect {} n).1⟩ := by
      rw [Function.update_self, (DBConnection.connect_new n).1]
    constructor
    · rintro hs' i' fresh' n' conn' c' ⟨⟩ - - -
      have hfull := hs' fresh (List.mem_append_right _ (List.mem_singleton_self fresh))
      have hup := Option.some.inj (hnew.symm.trans hfull)
      exact (connect_iff n).1 (congrArg DBConnection.mysql_ hup)
    · intro hrep x hx
      have hup := (connect_iff n).2 (hrep i fresh n conn c rfl hi hc hdead)
      rcases List.mem_append.1 hx with hx | hx
      · have hxf : x ≠ fresh := fun heq => (hsound.fresh hlent hfresh).1 (heq ▸ hx)
        have hxc : x ≠ conn := fun heq => hsound.exclusive.idle hlent (heq ▸ hx)
        refine Eq.trans ?_ (hs x hx)
        exact (Function.update_of_ne hxf ..).trans (Function.update_of_ne hxc ..)
      · rw [List.mem_singleton.1 hx]
        exact hnew.trans (by rw [hup])
  | take hi hd hq =>
    refine iff_of_true (fun x hx => hs x ?_) nofun
    rw [hq]
    exact List.mem_cons_of_mem _ hx
  | @dtorClose conn q c hd hq hc =>
    refine iff_of_true (fun x hx => ?_) nofun
    have hnodup : (conn :: q).Nodup := hq ▸ hsound.exclusive.nodup
    have hxc : x ≠ conn := fun heq => (List.nodup_cons.1 hnodup).1 (heq ▸ hx)
    refine (Function.update_of_ne hxc ..).trans (hs x ?_)
    rw [hq]
    exact List.mem_cons_of_mem _ hx
  | _ => exact iff_of_true hs nofun

variable [Fintype ι] {s₀ : State ι}

/-- **Only connected handles enter the pool exactly if every dead connection can be replaced.**
What the constructor pushes is connected; what the deleters push is connected all along a run, and
every connection in the queue has a handle, if and only if whenever a deleter finds its connection
dead, `mysql_init` and `mysql_real_connect` succeed for the new one. -/
theorem onlyConnected_iff {rounds : List (Addr × Net)} {tr : List (State ι × Act ι)}
    (h₀ : construct rounds = some s₀) (hrun : (lts ι).Run s₀ tr s) :
    (∀ (s₁ s₂ : State ι) (x : Addr × Net) (conn : Addr), s₁.addConnection x = some s₂ →
      s₂.pool_ = s₁.pool_ ++ [conn] →
      ∃ c, s₂.heap conn = some c ∧ c.mysql_ = true ∧ (c.isConnected x.2).1 = true) ∧
    ((∀ x ∈ tr, ∀ s', (lts ι).step x.1 x.2 s' → PushesConnected x.2 x.1 s') ↔
      ∀ x ∈ tr, Replaceable x.1 x.2) ∧
    ((∀ x ∈ states tr s, Handles x) ↔ ∀ x ∈ tr, Replaceable x.1 x.2) := by
  have hbuilt := built_construct h₀
  refine ⟨fun s₁ s₂ x conn => addConnection_connected, ?_, ?_⟩
  · refine forall₂_congr fun x hx => ?_
    obtain ⟨-, s', hst⟩ := hrun.exists_step x hx
    constructor
    · intro h
      exact ((step_move hst).2.pushesConnected_iff).1 (h s' hst)
    · intro h s'' hst'
      exact ((step_move hst').2.pushesConnected_iff).2 h
  · refine
      hrun.forall_states_iff (J := fun _ => True) (C := Replaceable) hbuilt.connected trivial ?_
    intro s a s' hr hs _ hst
    exact ⟨hs.step_iff (sound_reachable hbuilt hr) (step_move hst).2, fun _ => trivial⟩

instance (s : State ι) : Decidable (Handles s) :=
  inferInstanceAs (Decidable (∀ conn ∈ s.pool_, s.heap conn = some ⟨true⟩))

/-- The connection dies while it is lent. -/
def loseAndReturn (n : Net) : List (Act Unit) :=
  [.call (), .lock (), .critical (), .release (), .lock (), .giveBack () 7 n]

/-- The new connection can be connected. -/
theorem onlyConnected_iff_replaced : ∃ tr s, (lts Unit).Run oneConnection tr s ∧ s.pool_ = [7] ∧
    ∀ x ∈ tr, ∀ s', (lts Unit).step x.1 x.2 s' → PushesConnected x.2 x.1 s' := by
  obtain ⟨tr, s, hrun, hq, hall⟩ := Run.exists_of_trace step oneConnection
    (loseAndReturn ⟨true, true, false, true⟩)
    (fun tr s => s.pool_ = [7] ∧ ∀ x ∈ states tr s, Handles x) (by decide)
  obtain ⟨-, hpush, hhandles⟩ := onlyConnected_iff construct_one hrun
  exact ⟨tr, s, hrun, hq, hpush.2 (hhandles.1 hall)⟩

/-- `mysql_real_connect` fails for the new connection, which has no handle then. -/
theorem not_onlyConnected : ¬ ∀ (tr : List (State Unit × Act Unit)) (s : State Unit),
    (lts Unit).Run oneConnection tr s →
      ∀ x ∈ tr, ∀ s', (lts Unit).step x.1 x.2 s' → PushesConnected x.2 x.1 s' := by
  intro hclaim
  obtain ⟨tr, s, hrun, x, hx, ha, hi, hc⟩ := Run.exists_of_trace step oneConnection
    (loseAndReturn ⟨true, false, false, true⟩)
    (fun tr _ => ∃ x ∈ tr, x.2 = .giveBack () 7 ⟨true, false, false, true⟩ ∧
      x.1.caller () = .relWork 0 ∧ x.1.heap 0 = some ⟨true⟩) (by decide)
  obtain ⟨-, s', hst⟩ := hrun.exists_step x hx
  have hrep := (step_move hst).2.pushesConnected_iff.1 (hclaim tr s hrun x hx s' hst)
  have hup := (hrep () 7 ⟨true, false, false, true⟩ 0 ⟨true⟩ ha hi hc rfl).2
  simp at hup

end DBConnectionPool

end LiteMonitor
