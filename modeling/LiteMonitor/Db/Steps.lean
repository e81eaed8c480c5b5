import LiteMonitor.Db.Pool

/-!
# What a step of the pool does

* `Built` : what the constructor leaves behind.
* `Move s a s'` : the steps, told apart; `step_move` : every step is one of them, the only place
  where `step` is taken apart.
-/

namespace LiteMonitor

namespace DBConnectionPool

variable {ι : Type*}

/-! ### The constructor -/

/-- No caller, no destructor, and every connection in the queue is connected. -/
structure Built (s : State ι) : Prop where
  caller : s.caller = fun _ => .outside none
  dtor : s.dtor = .notStarted
  shutting_down_ : s.shutting_down_ = false
  active : s.active_connections_ = 0
  nodup : s.pool_.Nodup
  connected : ∀ a ∈ s.pool_, s.heap a = some ⟨true⟩
  log : .mysql_library_end ∉ s.log

theorem built_empty : Built (State.empty : State ι) :=
  ⟨rfl, rfl, rfl, rfl, List.nodup_nil, nofun, nofun⟩

theorem Built.addConnection {s s' : State ι} {x : Addr × Net} (hs : Built s)
    (h : s.addConnection x = some s') : Built s' := by
  have hopen := DBConnection.connect_noEnd {} x.2
  have hping := (DBConnection.connect {} x.2).2.1.isConnected_noEnd x.2
  have hclose := (DBConnection.connect {} x.2).2.1.disconnect_noEnd
  unfold State.addConnection at h
  dsimp only at h
  by_cases hfree : s.heap x.1 = none
  · rw [if_neg (not_not.2 hfree)] at h
    have hnew : x.1 ∉ s.pool_ := by
      intro hmem
      rw [hs.connected _ hmem] at hfree
      simp at hfree
    split_ifs at h with hup
    · obtain rfl := Option.some.inj h
      refine ⟨hs.caller, hs.dtor, hs.shutting_down_, hs.active, ?_, ?_, ?_⟩
      · exact List.Nodup.append hs.nodup (List.nodup_singleton _) (by simpa using hnew)
      · intro a ha
        rcases List.mem_append.1 ha with ha | ha
        · have hne : a ≠ x.1 := fun h => hnew (h ▸ ha)
          exact (Function.update_of_ne hne ..).trans (hs.connected a ha)
        · rw [List.mem_singleton.1 ha]
          refine (Function.update_self ..).trans (congrArg some ?_)
          exact DBConnection.mysql_of_isConnected _ _ hup
      · simp [hs.log, hopen, hping]
    · obtain rfl := Option.some.inj h
      refine ⟨hs.caller, hs.dtor, hs.shutting_down_, hs.active, hs.nodup, hs.connected, ?_⟩
      simp [hs.log, hopen, hping, hclose]
  · rw [if_pos hfree] at h
    simp at h

theorem built_construct {rounds : List (Addr × Net)} {s : State ι}
    (h : construct rounds = some s) : Built s := by
  have hall : ∀ {s₀ : State ι}, Built s₀ → rounds.foldlM State.addConnection s₀ = some s →
      Built s := by
    clear h
    induction rounds with
    | nil =>
      intro s₀ hs h
      exact Option.some.inj h ▸ hs
    | cons x rounds ih =>
      intro s₀ hs h
      rw [List.foldlM_cons] at h
      obtain ⟨s₁, hadd, hrest⟩ := Option.bind_eq_some_iff.1 h
      exact ih (hs.addConnection hadd) hrest
  exact hall built_empty h

/-! ### The steps -/

variable [DecidableEq ι]

/-- The steps of the pool. -/
inductive Move (s : State ι) : Act ι → State ι → Prop
  | call {i : ι} {r : Option Refusal} (hi : s.caller i = .outside r) :
      Move s (.call i) (s.goto i .enter)
  | lock {i : ι} {l : Loc} (hm : s.pool_mutex_ = none) (hl : (s.caller i).locked = some l) :
      Move s (.lock i) { s.goto i l with pool_mutex_ := some (.caller i) }
  | refuse {i : ι} {again : Option Bool} {why : Refusal} (hi : s.caller i = .check again)
      (hwhy : why = .nullptr ∧ s.shutting_down_ = true ∨
        why = .runtime_error timeoutError ∧ s.pool_ = [] ∧ again = some true) :
      Move s (.critical i) { s.goto i (.outside (some why)) with pool_mutex_ := none }
  | wait {i : ι} {again : Option Bool} (hi : s.caller i = .check again) (hq : s.pool_ = [])
      (hout : again ≠ some true) (hd : again = none → s.shutting_down_ = false) :
      Move s (.critical i) { s.goto i .blocked with pool_mutex_ := none }
  | take {i : ι} {again : Option Bool} {conn : Addr} {q : List Addr}
      (hi : s.caller i = .check again) (hd : s.shutting_down_ = false) (hq : s.pool_ = conn :: q) :
      Move s (.critical i) { s.goto i (.holding conn) with
        pool_ := q
        active_connections_ := s.active_connections_ + 1
        pool_mutex_ := none }
  | wake {i : ι} (timedOut : Bool) (hi : s.caller i = .blocked) :
      Move s (.wake i timedOut) (s.goto i (.woken timedOut))
  | execute {i : ι} {conn : Addr} {c : DBConnection} (n : Net) (hi : s.caller i = .holding conn)
      (hc : s.heap conn = some c) :
      Move s (.execute i n) { s with log := s.log ++ (c.execute n).2 }
  | query {i : ι} {conn : Addr} {c : DBConnection} (n : Net) (hi : s.caller i = .holding conn)
      (hc : s.heap conn = some c) :
      Move s (.query i n) { s with log := s.log ++ (c.query n).2 }
  | release {i : ι} {conn : Addr} (hi : s.caller i = .holding conn) :
      Move s (.release i) (s.goto i (.relEnter conn))
  /-- The connection is alive. -/
  | returned {i : ι} {conn fresh : Addr} {c : DBConnection} {n : Net}
      (hi : s.caller i = .relWork conn) (hc : s.heap conn = some c)
      (hup : (c.isConnected n).1 = true) :
      Move s (.giveBack i fresh n) { s.push i conn with log := s.log ++ (c.isConnected n).2 }
  /-- The connection is dead, and replaced. -/
  | replaced {i : ι} {conn fresh : Addr} {c : DBConnection} {n : Net}
      (hi : s.caller i = .relWork conn) (hc : s.heap conn = some c)
      (hup : (c.isConnected n).1 = false)
      (hfresh : Function.update s.heap conn none fresh = none) :
      Move s (.giveBack i fresh n) { s.push i fresh with
        heap := Function.update (Function.update s.heap conn none) fresh
          (some (DBConnection.connect {} n).2.1)
        log := s.log ++ (c.isConnected n).2 ++ c.disconnect.2 ++ (DBConnection.connect {} n).2.2 }
  | unlock {i : ι} (hi : s.caller i = .relUnlock) :
      Move s (.unlock i) { s.goto i .relNotify with pool_mutex_ := none }
  | notify {i j : ι} (hi : s.caller i = .relNotify) (hj : s.caller j = .blocked) :
      Move s (.notifyOne i (some j)) ((s.goto i .relCheck).goto j (.woken false))
  | notifyNone {i : ι} (hi : s.caller i = .relNotify) (hall : ∀ j, s.caller j ≠ .blocked) :
      Move s (.notifyOne i none) (s.goto i .relCheck)
  | readFlag {i : ι} (hi : s.caller i = .relCheck) :
      Move s (.readFlag i)
        (s.goto i (if s.shutting_down_ then .relNotifyExit else .outside none))
  | notifyExit {i : ι} (hi : s.caller i = .relNotifyExit) :
      Move s (.notifyExit i) { s.goto i (.outside none) with dtor := s.dtor.notified }
  | dtorBegin (hd : s.dtor = .notStarted) : Move s .dtor { s with dtor := .enter }
  | dtorLock {l : DtorLoc} (hm : s.pool_mutex_ = none) (hl : s.dtor.locked = some l) :
      Move s .dtor { s with pool_mutex_ := some .dtor, dtor := l }
  | dtorSet (hd : s.dtor = .set) : Move s .dtor { s with shutting_down_ := true, dtor := .unlock }
  | dtorUnlock (hd : s.dtor = .unlock) :
      Move s .dtor { s with pool_mutex_ := none, dtor := .notifyAll }
  | dtorNotifyAll (hd : s.dtor = .notifyAll) :
      Move s .dtor { s with caller := fun i => (s.caller i).notified, dtor := .enterExit }
  /-- The predicate of the wait holds. -/
  | dtorLeave (hd : s.dtor = .check) (ha : s.active_connections_ = 0) :
      Move s .dtor { s with dtor := .drain }
  | dtorWait (hd : s.dtor = .check) (ha : s.active_connections_ ≠ 0) :
      Move s .dtor { s with pool_mutex_ := none, dtor := .blocked }
  | dtorWake (hd : s.dtor = .blocked) : Move s .wakeDtor { s with dtor := .woken }
  | dtorClose {conn : Addr} {q : List Addr} {c : DBConnection} (hd : s.dtor = .drain)
      (hq : s.pool_ = conn :: q) (hc : s.heap conn = some c) :
      Move s .dtor { s with
        pool_ := q
        heap := Function.update s.heap conn none
        log := s.log ++ c.disconnect.2 }
  | dtorDrained (hd : s.dtor = .drain) (hq : s.pool_ = []) :
      Move s .dtor { s with dtor := .unlockExit }
  | dtorEnd (hd : s.dtor = .unlockExit) :
      Move s .dtor { s with pool_mutex_ := none, dtor := .finished }

variable {s s' : State ι} {a : Act ι}

theorem getConnection_move {i : ι} {again : Option Bool} (hi : s.caller i = .check again) :
    Move s (.critical i) (s.getConnection i again) := by
  unfold State.getConnection
  by_cases hdown : again = none ∧ s.shutting_down_ = true
  · rw [if_pos hdown]
    exact .refuse hi (Or.inl ⟨rfl, hdown.2⟩)
  rw [if_neg hdown]
  split
  · rename_i hq
    by_cases hout : again = some true
    · rw [if_pos hout]
      exact .refuse hi (Or.inr ⟨rfl, hq, hout⟩)
    · rw [if_neg hout]
      exact .wait hi hq hout fun h => by simpa [h] using hdown
  · rename_i conn q hq
    by_cases hshut : s.shutting_down_ = true
    · rw [if_pos hshut]
      exact .refuse hi (Or.inl ⟨rfl, hshut⟩)
    · rw [if_neg hshut]
      exact .take hi (by simpa using hshut) hq

theorem giveBack_move {i : ι} {conn fresh : Addr} {n : Net} (hi : s.caller i = .relWork conn)
    (h : s.giveBack i conn fresh n = some s') : Move s (.giveBack i fresh n) s' := by
  obtain ⟨c, hc, h⟩ := Option.bind_eq_some_iff.1 h
  dsimp only at h
  split_ifs at h with hup hfresh
  · exact Option.some.inj h ▸ .returned hi hc hup
  · exact Option.some.inj h ▸ .replaced hi hc (by simpa using hup) (by simpa using hfresh)

theorem dtorStep_move (h : s.dtorStep = some s') : Move s .dtor s' := by
  unfold State.dtorStep at h
  split at h
  case h_1 hd => exact Option.some.inj h ▸ .dtorBegin hd
  case h_2 hd | h_3 hd | h_4 hd =>
    split_ifs at h with hm
    obtain ⟨l, hl, rfl⟩ := Option.map_eq_some_iff.1 h
    exact .dtorLock hm hl
  case h_5 hd => exact Option.some.inj h ▸ .dtorSet hd
  case h_6 hd => exact Option.some.inj h ▸ .dtorUnlock hd
  case h_7 hd => exact Option.some.inj h ▸ .dtorNotifyAll hd
  case h_8 hd =>
    split_ifs at h with ha
    · exact Option.some.inj h ▸ .dtorLeave hd ha
    · exact Option.some.inj h ▸ .dtorWait hd ha
  case h_9 => cases h
  case h_10 hd =>
    split at h
    · rename_i hq
      exact Option.some.inj h ▸ .dtorDrained hd hq
    · rename_i conn q hq
      obtain ⟨c, hc, rfl⟩ := Option.map_eq_some_iff.1 h
      exact .dtorClose hd hq hc
  case h_11 hd => exact Option.some.inj h ▸ .dtorEnd hd
  case h_12 => cases h

variable [Fintype ι]

theorem callerStep_move (h : callerStep s a = some s') : Move s a s' := by
  unfold callerStep at h
  split at h
  case h_1 i =>
    split at h
    · exact Option.some.inj h ▸ .call ‹_›
    · simp at h
  case h_2 i =>
    split at h
    · exact Option.some.inj h ▸ .lock ‹_› ‹_›
    · simp at h
  case h_3 i =>
    split at h
    · exact Option.some.inj h ▸ getConnection_move ‹_›
    · simp at h
  case h_4 i timedOut =>
    split at h
    · exact Option.some.inj h ▸ .wake timedOut ‹_›
    · simp at h
  case h_5 i n =>
    split at h
    · obtain ⟨c, hc, rfl⟩ := Option.map_eq_some_iff.1 h
      exact .execute n ‹_› hc
    · simp at h
  case h_6 i n =>
    split at h
    · obtain ⟨c, hc, rfl⟩ := Option.map_eq_some_iff.1 h
      exact .query n ‹_› hc
    · simp at h
  case h_7 i =>
    split at h
    · exact Option.some.inj h ▸ .release ‹_›
    · simp at h
  case h_8 i fresh n =>
    split at h
    · exact giveBack_move ‹_› h
    · simp at h
  case h_9 i =>
    split at h
    · exact Option.some.inj h ▸ .unlock ‹_›
    · simp at h
  case h_10 i target =>
    split at h
    · rename_i hi
      split at h
      · split_ifs at h with hj
        exact Option.some.inj h ▸ .notify hi hj
      · split_ifs at h with hall
        exact Option.some.inj h ▸ .notifyNone hi hall
    · simp at h
  case h_11 i =>
    split at h
    · exact Option.some.inj h ▸ .readFlag ‹_›
    · simp at h
  case h_12 i =>
    split at h
    · exact Option.some.inj h ▸ .notifyExit ‹_›
    · simp at h
  all_goals cases h

/-- **Every step is one of the moves**, and is taken before the destructor has finished. -/
theorem step_move (h : (lts ι).step s a s') : s.dtor ≠ .finished ∧ Move s a s' := by
  simp only [lts, LTS.ofFun_step, step] at h
  by_cases hfin : s.dtor = .finished
  · rw [if_pos hfin] at h
    simp at h
  rw [if_neg hfin] at h
  refine ⟨hfin, ?_⟩
  split at h
  · exact dtorStep_move h
  · split_ifs at h with hd
    exact Option.some.inj h ▸ .dtorWake hd
  · exact callerStep_move h

end DBConnectionPool

end LiteMonitor
