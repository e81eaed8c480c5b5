import LiteMonitor.Log.Sinks

/-!
# The calls of the logger

`logger::log` hands a message to the sinks one after the other, by their levels, and flushes all of
them if the message is severe enough.  A sink that throws is reported, and the next one is called.
Other threads may be at any sink in between.

* `SinkCall` : a call of a sink; `Logger.log`, `sink_it_`, `flush_` : the calls of one call.
* `LogState`, `Logger.lts` : the sinks, and for every thread the calls of sinks that it has yet to
  make.
* `handed_over` : **a message is handed to every sink that takes its level, once and in the order of
  its thread.**
* `Flushing`, `severe_flushed` : **when the logger is left, what is not in the files yet is not
  severe**, unless a flush has failed.
-/

namespace LiteMonitor

/-- The value of a level. -/
def LogLevel.toNat : LogLevel → ℕ
  | .trace => 0
  | .debug => 1
  | .info => 2
  | .warn => 3
  | .err => 4
  | .critical => 5
  | .off => 6

/-- `details::log_msg`, as the formatters of the sinks write it. -/
structure LogMsg where
  level : LogLevel
  formatted : Bytes
  deriving DecidableEq

/-- A call of a sink. -/
inductive SinkCall (ι : Type) where
  | log (k : ι) (msg : LogMsg)
  | flush (k : ι)
  deriving DecidableEq

/-- The sinks of a logger in their order, and the levels. -/
structure Logger (ι : Type) where
  sinks_ : List ι
  sink_level_ : ι → LogLevel
  level_ : LogLevel
  flush_level_ : LogLevel

namespace Logger

variable {ι : Type} (logger : Logger ι)

/-- `sink::should_log`. -/
def sinkTakes (msg : LogMsg) (k : ι) : Bool :=
  (logger.sink_level_ k).toNat ≤ msg.level.toNat

/-- `logger::should_log`. -/
def should_log (msg : LogMsg) : Bool := logger.level_.toNat ≤ msg.level.toNat

/-- `logger::should_flush_`. -/
def should_flush_ (msg : LogMsg) : Bool :=
  logger.flush_level_.toNat ≤ msg.level.toNat && msg.level ≠ .off

/-- The calls of `logger::flush_`. -/
def flush_ : List (SinkCall ι) := logger.sinks_.map .flush

/-- The calls of `logger::sink_it_`. -/
def sink_it_ (msg : LogMsg) : List (SinkCall ι) :=
  (logger.sinks_.filter (logger.sinkTakes msg)).map (.log · msg) ++
    if logger.should_flush_ msg then logger.flush_ else []

/-- The calls of `logger::log`, without a backtrace. -/
def log (msg : LogMsg) : List (SinkCall ι) :=
  if logger.should_log msg then logger.sink_it_ msg else []

/-- The sink takes the message. -/
def takes (k : ι) (msg : LogMsg) : Bool := logger.should_log msg && logger.sinkTakes msg k

end Logger

/-- The sinks, and the calls of them that the threads have yet to make. -/
structure LogState (ι T : Type) where
  world : LogWorld ι
  pending : T → List (SinkCall ι)

/-- What happens. -/
inductive LogLabel (ι T : Type) where
  /-- The thread calls `logger::log`. -/
  | log (t : T) (msg : LogMsg)
  /-- The thread calls `logger::flush`. -/
  | flush (t : T)
  /-- The thread makes its next call of a sink. -/
  | next (t : T) (os : Os)
  /-- A stream writes the front of its buffer. -/
  | settle (k : ι) (n : ℕ)

section Calls

variable {ι T : Type} [DecidableEq ι] [DecidableEq T]

/-- What the call does to its sink. -/
def SinkCall.act (os : Os) : SinkCall ι → ι × SinkAct
  | .log k msg => (k, .log os msg.formatted)
  | .flush k => (k, .flush os)

/-- The message that a call hands to the sink `k`. -/
def SinkCall.hands (k : ι) : SinkCall ι → Option LogMsg
  | .log l msg => if l = k then some msg else none
  | .flush _ => none

/-- The thread begins a call of the logger. -/
def LogState.begin (s : LogState ι T) (t : T) (calls : List (SinkCall ι)) :
    Option (LogState ι T) :=
  if s.pending t = [] then some { s with pending := Function.update s.pending t calls } else none

def Logger.step (logger : Logger ι) (s : LogState ι T) : LogLabel ι T → Option (LogState ι T)
  | .log t msg => s.begin t (logger.log msg)
  | .flush t => s.begin t logger.flush_
  | .next t os =>
    match s.pending t with
    | [] => none
    | c :: rest =>
      (s.world.act (c.act os)).map fun w => ⟨w, Function.update s.pending t rest⟩
  | .settle k n => (s.world.act (k, .settle n)).map fun w => { s with world := w }

/-- The logger as a transition system. -/
def Logger.lts (logger : Logger ι) : LTS (LogState ι T) (LogLabel ι T) := .ofFun logger.step

/-- What a step does. -/
inductive Steps (logger : Logger ι) (s : LogState ι T) : LogLabel ι T → LogState ι T → Prop
  | log {t : T} (msg : LogMsg) (hidle : s.pending t = []) :
      Steps logger s (.log t msg)
        { s with pending := Function.update s.pending t (logger.log msg) }
  | flush {t : T} (hidle : s.pending t = []) :
      Steps logger s (.flush t) { s with pending := Function.update s.pending t logger.flush_ }
  | next {t : T} {os : Os} {c : SinkCall ι} {rest : List (SinkCall ι)} {w : LogWorld ι}
      (hpending : s.pending t = c :: rest) (hact : s.world.act (c.act os) = some w) :
      Steps logger s (.next t os) ⟨w, Function.update s.pending t rest⟩
  | settle {k : ι} {n : ℕ} {w : LogWorld ι} (hact : s.world.act (k, .settle n) = some w) :
      Steps logger s (.settle k n) { s with world := w }

variable {logger : Logger ι} {s s' : LogState ι T} {l : LogLabel ι T}

omit [DecidableEq ι] in
theorem LogState.begin_eq_some {t : T} {calls : List (SinkCall ι)} (h : s.begin t calls = some s') :
    s.pending t = [] ∧ s' = { s with pending := Function.update s.pending t calls } := by
  unfold LogState.begin at h
  split_ifs at h with hidle
  exact ⟨hidle, (Option.some.inj h).symm⟩

theorem step_next {t : T} {os : Os} {c : SinkCall ι} {rest : List (SinkCall ι)} {w : LogWorld ι}
    (hpending : s.pending t = c :: rest) (hact : s.world.act (c.act os) = some w) :
    logger.step s (.next t os) = some ⟨w, Function.update s.pending t rest⟩ := by
  rw [Logger.step, hpending]
  exact Option.map_eq_some_iff.2 ⟨w, hact, rfl⟩

theorem steps_of_step (h : logger.lts.step s l s') : Steps logger s l s' := by
  have hstep : logger.step s l = some s' := h
  cases l with
  | log t msg =>
    obtain ⟨hidle, rfl⟩ := LogState.begin_eq_some hstep
    exact .log msg hidle
  | flush t =>
    obtain ⟨hidle, rfl⟩ := LogState.begin_eq_some hstep
    exact .flush hidle
  | next t os =>
    rw [Logger.step] at hstep
    cases hpending : s.pending t with
    | nil =>
      rw [hpending] at hstep
      cases hstep
    | cons c rest =>
      rw [hpending] at hstep
      obtain ⟨w, hact, rfl⟩ := Option.map_eq_some_iff.1 hstep
      exact .next hpending hact
  | settle k n =>
    rw [Logger.step] at hstep
    obtain ⟨w, hact, rfl⟩ := Option.map_eq_some_iff.1 hstep
    exact .settle hact

/-! ### Every message once -/

/-- The message that the step hands to the sink `k` for the thread `t`. -/
def LogState.hands (s : LogState ι T) (t : T) (k : ι) : LogLabel ι T → List LogMsg
  | .next u _ => if u = t then ((s.pending t).head?.bind (SinkCall.hands k)).toList else []
  | _ => []

/-- The message that the thread `t` calls the logger with. -/
def LogLabel.calledBy (t : T) : LogLabel ι T → List LogMsg
  | .log u msg => if u = t then [msg] else []
  | _ => []

/-- The messages that the thread has handed to the sink. -/
def handedTo (t : T) (k : ι) (tr : List (LogState ι T × LogLabel ι T)) : List LogMsg :=
  tr.flatMap fun x => x.1.hands t k x.2

/-- The messages that the thread has called the logger with. -/
def calledBy (t : T) (tr : List (LogState ι T × LogLabel ι T)) : List LogMsg :=
  tr.flatMap fun x => x.2.calledBy t

omit [DecidableEq T] in
theorem filterMap_hands (k : ι) (msg : LogMsg) {ks : List ι} (hnodup : ks.Nodup) :
    (ks.map (SinkCall.log · msg)).filterMap (SinkCall.hands k) = if k ∈ ks then [msg] else [] := by
  induction ks with
  | nil => rfl
  | cons j ks ih =>
    obtain ⟨hj, hnodup⟩ := List.nodup_cons.1 hnodup
    rw [List.map_cons, List.filterMap_cons, ih hnodup]
    by_cases hjk : j = k
    · subst hjk
      simp [SinkCall.hands, hj]
    · have hkj : k ≠ j := Ne.symm hjk
      simp [SinkCall.hands, hjk, hkj]

omit [DecidableEq T] in
theorem hands_flush_ (logger : Logger ι) (k : ι) :
    logger.flush_.filterMap (SinkCall.hands k) = [] := by
  simp [Logger.flush_, List.filterMap_map, SinkCall.hands, Function.comp_def]

omit [DecidableEq T] in
theorem hands_log (hnodup : logger.sinks_.Nodup) {k : ι} (hk : k ∈ logger.sinks_) (msg : LogMsg) :
    (logger.log msg).filterMap (SinkCall.hands k) = [msg].filter (logger.takes k) := by
  have hflush : (if logger.should_flush_ msg = true then logger.flush_ else []).filterMap
      (SinkCall.hands k) = [] := by
    split_ifs
    · exact hands_flush_ logger k
    · rfl
  unfold Logger.log
  cases hlog : logger.should_log msg with
  | false => simp [Logger.takes, hlog]
  | true =>
    rw [if_pos rfl, Logger.sink_it_, List.filterMap_append, hflush, List.append_nil,
      filterMap_hands k msg (hnodup.filter _)]
    simp [Logger.takes, hlog, List.filter_cons, hk]

/-- **Every message is handed over once, in order.** -/
theorem handed_run (hnodup : logger.sinks_.Nodup) {w₀ : LogWorld ι}
    {tr : List (LogState ι T × LogLabel ι T)} (h : logger.lts.Run ⟨w₀, fun _ => []⟩ tr s) (t : T)
    {k : ι} (hk : k ∈ logger.sinks_) :
    handedTo t k tr ++ (s.pending t).filterMap (SinkCall.hands k) =
      (calledBy t tr).filter (logger.takes k) := by
  refine h.invariant (I := fun tr s => handedTo t k tr ++
    (s.pending t).filterMap (SinkCall.hands k) = (calledBy t tr).filter (logger.takes k)) rfl ?_
  intro tr s l s' _ ih hst
  rw [handedTo, calledBy, List.flatMap_append, List.flatMap_append, List.flatMap_singleton,
    List.flatMap_singleton, List.filter_append, ← calledBy, ← handedTo, ← ih]
  cases steps_of_step hst with
  | @log u msg hidle =>
    by_cases hu : u = t
    · subst hu
      simp [LogState.hands, LogLabel.calledBy, hidle, hands_log hnodup hk]
    · have htu : t ≠ u := Ne.symm hu
      simp [LogState.hands, LogLabel.calledBy, hu, htu]
  | @flush u hidle =>
    by_cases hu : u = t
    · subst hu
      simp [LogState.hands, LogLabel.calledBy, hidle, hands_flush_]
    · have htu : t ≠ u := Ne.symm hu
      simp [LogState.hands, LogLabel.calledBy, htu]
  | @next u os c rest w hpending hact =>
    by_cases hu : u = t
    · subst hu
      cases hc : SinkCall.hands k c <;>
        simp [LogState.hands, LogLabel.calledBy, hpending, hc]
    · have htu : t ≠ u := Ne.symm hu
      simp [LogState.hands, LogLabel.calledBy, hu, htu]
  | settle hact => simp [LogState.hands, LogLabel.calledBy]

/-! ### What is not in the files yet -/

/-- The message that the step hands to the sink `k`. -/
def LogState.handsTo (s : LogState ι T) (k : ι) : LogLabel ι T → List LogMsg
  | .next t _ => ((s.pending t).head?.bind (SinkCall.hands k)).toList
  | _ => []

/-- The messages that are handed to the sink. -/
def handedMsgs (k : ι) (tr : List (LogState ι T × LogLabel ι T)) : List LogMsg :=
  tr.flatMap fun x => x.1.handsTo k x.2

/-- The step is a flush of the sink `k` that fails. -/
def LogState.flushFails (s : LogState ι T) (k : ι) : LogLabel ι T → Bool
  | .next t os => (s.pending t).head? = some (.flush k) && os.fflush.isSome
  | _ => false

/-- After a severe message its sink is flushed. -/
def FlushLast (logger : Logger ι) : List (SinkCall ι) → Prop
  | [] => True
  | .log k msg :: rest =>
    (logger.should_flush_ msg = true → .flush k ∈ rest) ∧ FlushLast logger rest
  | .flush _ :: rest => FlushLast logger rest

omit [DecidableEq ι] in
theorem FlushLast.tail {c : SinkCall ι} {rest : List (SinkCall ι)}
    (h : FlushLast logger (c :: rest)) : FlushLast logger rest := by
  cases c with
  | log k msg => exact h.2
  | flush k => exact h

omit [DecidableEq ι] in
theorem flushLast_flush (logger : Logger ι) (ks : List ι) :
    FlushLast logger (ks.map .flush) := by
  induction ks with
  | nil => trivial
  | cons k ks ih => exact ih

omit [DecidableEq ι] in
theorem FlushLast.logs {msg : LogMsg} {rest : List (SinkCall ι)} (h : FlushLast logger rest)
    {ks : List ι} (hks : logger.should_flush_ msg = true → ∀ k ∈ ks, .flush k ∈ rest) :
    FlushLast logger (ks.map (.log · msg) ++ rest) := by
  induction ks with
  | nil => exact h
  | cons k ks ih =>
    refine ⟨fun hflush => ?_, ih fun hflush j hj => hks hflush j (List.mem_cons_of_mem _ hj)⟩
    exact List.mem_append_right _ (hks hflush k List.mem_cons_self)

omit [DecidableEq ι] in
theorem flushLast_log (logger : Logger ι) (msg : LogMsg) : FlushLast logger (logger.log msg) := by
  unfold Logger.log
  split_ifs
  · refine FlushLast.logs ?_ fun hflush k hk => ?_
    · split_ifs
      · exact flushLast_flush logger _
      · trivial
    · rw [if_pos hflush]
      exact List.mem_map_of_mem (List.mem_filter.1 hk).1
  · trivial

/-- Behind every severe message in `recent` a flush of the sink has failed, unless one is `due`. -/
def FlushedBehind (logger : Logger ι) (k : ι) (recent : List (LogState ι T × LogLabel ι T))
    (due : Prop) : Prop :=
  ∀ a x b, recent = a ++ x :: b → ∀ msg ∈ x.1.handsTo k x.2, logger.should_flush_ msg = true →
    due ∨ ∃ y ∈ b, y.1.flushFails k y.2 = true

/-- In `recent` the messages have been handed to the sink whose bytes are in its buffer.  Behind
every severe one of them a flush has failed, unless a thread is still to flush the sink. -/
structure Flushing (logger : Logger ι) (k : ι) (recent : List (LogState ι T × LogLabel ι T))
    (s : LogState ι T) : Prop where
  calls : ∀ t, FlushLast logger (s.pending t)
  filename : (s.world.sink k).filename_ = (s.world.sink k).sink.base_filename_
  buffer : ((s.world.sink k).fd_.getD []).Sublist
    ((handedMsgs k recent).map LogMsg.formatted).flatten
  flushed : FlushedBehind logger k recent (∃ t, .flush k ∈ s.pending t)

omit [DecidableEq ι] in
/-- A call that is pending is so after a step of `t`, unless it is the one that `t` makes. -/
theorem exists_pending {c : SinkCall ι} {t : T} {calls : List (SinkCall ι)}
    (h : ∃ u, c ∈ s.pending u) (hc : c ∈ s.pending t → c ∈ calls) :
    ∃ u, c ∈ Function.update s.pending t calls u := by
  obtain ⟨u, hu⟩ := h
  by_cases hut : u = t
  · subst hut
    exact ⟨u, by rw [Function.update_self]; exact hc hu⟩
  · exact ⟨u, by rw [Function.update_of_ne hut]; exact hu⟩

omit [DecidableEq ι] in
theorem flushLast_update {t : T} {calls : List (SinkCall ι)}
    (h : ∀ u, FlushLast logger (s.pending u)) (hcalls : FlushLast logger calls) :
    ∀ u, FlushLast logger (Function.update s.pending t calls u) := by
  intro u
  by_cases hut : u = t
  · rw [hut, Function.update_self]
    exact hcalls
  · rw [Function.update_of_ne hut]
    exact h u

section Flushing

variable {k : ι} {recent : List (LogState ι T × LogLabel ι T)}

omit [DecidableEq T] in
theorem FlushedBehind.nil (due : Prop) :
    FlushedBehind logger k ([] : List (LogState ι T × LogLabel ι T)) due := by
  intro a x b hnil
  exact absurd hnil (by simp)

omit [DecidableEq T] in
theorem FlushedBehind.snoc {due due' : Prop} (h : FlushedBehind logger k recent due)
    {z : LogState ι T × LogLabel ι T} (hkeep : due → due' ∨ z.1.flushFails k z.2 = true)
    (hnew : ∀ msg ∈ z.1.handsTo k z.2, logger.should_flush_ msg = true → due') :
    FlushedBehind logger k (recent ++ [z]) due' := by
  intro a x b htr msg hmsg hflush
  rcases List.eq_nil_or_concat b with rfl | ⟨b, y, rfl⟩
  · obtain ⟨-, hz⟩ := List.append_inj' htr rfl
    obtain rfl : z = x := List.singleton_inj.1 hz
    exact Or.inl (hnew msg hmsg hflush)
  · rw [List.concat_eq_append, ← List.cons_append, ← List.append_assoc] at htr
    obtain ⟨hrecent, hz⟩ := List.append_inj' htr rfl
    obtain rfl : z = y := List.singleton_inj.1 hz
    simp only [List.concat_eq_append, List.mem_append, List.mem_singleton]
    rcases h a x b hrecent msg hmsg hflush with hdue | ⟨y, hy, hfails⟩
    · exact (hkeep hdue).imp_right fun hfails => ⟨z, Or.inr rfl, hfails⟩
    · exact Or.inr ⟨y, Or.inl hy, hfails⟩

omit [DecidableEq T] in
/-- A step that hands nothing to the sink. -/
theorem FlushedBehind.snoc_of_none {due due' : Prop} (h : FlushedBehind logger k recent due)
    {z : LogState ι T × LogLabel ι T} (hnone : z.1.handsTo k z.2 = [])
    (hkeep : due → due' ∨ z.1.flushFails k z.2 = true) :
    FlushedBehind logger k (recent ++ [z]) due' := by
  refine h.snoc hkeep fun msg hmsg => ?_
  rw [hnone] at hmsg
  cases hmsg

omit [DecidableEq T] in
theorem handedMsgs_snoc (x : LogState ι T × LogLabel ι T) :
    handedMsgs k (recent ++ [x]) = handedMsgs k recent ++ x.1.handsTo k x.2 := by
  rw [handedMsgs, List.flatMap_append, List.flatMap_singleton, ← handedMsgs]

omit [DecidableEq T] in
theorem Flushing.act (h : Flushing logger k recent s) {a : SinkAct} {v : SinkWorld}
    (hact : (s.world.sink k).act a = some v) : v.filename_ = v.sink.base_filename_ ∧
      (v.fd_.getD []).Sublist (((handedMsgs k recent).map LogMsg.formatted).flatten ++
        a.logged.flatten) := by
  obtain ⟨hacts, hframe⟩ := act_spec h.filename hact
  refine ⟨hframe.filename.trans (h.filename.trans hframe.base.symm), hacts.loses.fd.trans ?_⟩
  exact h.buffer.append (List.Sublist.refl _)

omit [DecidableEq T] in
theorem Flushing.of_same (h : Flushing logger k recent s) {l : LogLabel ι T} {w : LogWorld ι}
    {pending : T → List (SinkCall ι)} (hhands : s.handsTo k l = [])
    (hsink : w.sinks k = s.world.sinks k) (hcalls : ∀ t, FlushLast logger (pending t))
    (hkeep : (∃ t, .flush k ∈ s.pending t) → ∃ t, .flush k ∈ pending t) :
    Flushing logger k (recent ++ [(s, l)]) ⟨w, pending⟩ := by
  have hsame : handedMsgs k (recent ++ [(s, l)]) = handedMsgs k recent := by
    rw [handedMsgs_snoc, hhands, List.append_nil]
  refine ⟨hcalls, ?_, ?_, h.flushed.snoc_of_none hhands fun hdue => Or.inl (hkeep hdue)⟩
  · change (w.sinks k).file_helper_.filename_ = (w.sinks k).base_filename_
    rw [hsink]
    exact h.filename
  · change ((w.sinks k).file_helper_.fd_.getD []).Sublist _
    rw [hsink, hsame]
    exact h.buffer

theorem Flushing.log (h : Flushing logger k recent s) {t : T} {os : Os} {msg : LogMsg}
    {rest : List (SinkCall ι)} {w : LogWorld ι} (hpending : s.pending t = .log k msg :: rest)
    (hact : s.world.act (k, .log os msg.formatted) = some w) :
    Flushing logger k (recent ++ [(s, .next t os)])
      ⟨w, Function.update s.pending t rest⟩ := by
  obtain ⟨hname, hbuffer⟩ := h.act (sink_of_act hact)
  have hcalls := h.calls t
  rw [hpending] at hcalls
  have hhanded : handedMsgs k (recent ++ [(s, .next t os)]) = handedMsgs k recent ++ [msg] := by
    rw [handedMsgs_snoc]
    simp [LogState.handsTo, hpending, SinkCall.hands]
  have hrecord : (SinkAct.log os msg.formatted).logged.flatten = msg.formatted :=
    List.flatten_singleton
  refine ⟨flushLast_update h.calls hcalls.2, hname, ?_, h.flushed.snoc (fun hdue => Or.inl ?_) ?_⟩
  · rw [hhanded, List.map_append, List.flatten_append, List.map_singleton, List.flatten_singleton]
    rwa [hrecord] at hbuffer
  · exact exists_pending hdue (by simp [hpending])
  · -- the thread flushes the sink later in this call
    intro m hm hflush
    obtain rfl : m = msg := by simpa [LogState.handsTo, hpending, SinkCall.hands] using hm
    have hmem : .flush k ∈ Function.update s.pending t rest t := by
      rw [Function.update_self]
      exact hcalls.1 hflush
    exact ⟨t, hmem⟩

theorem Flushing.flush (h : Flushing logger k recent s) {t : T} {os : Os}
    {rest : List (SinkCall ι)} {w : LogWorld ι} (hpending : s.pending t = .flush k :: rest)
    (hact : s.world.act (k, .flush os) = some w) :
    Flushing logger k [] ⟨w, Function.update s.pending t rest⟩ ∨
      Flushing logger k (recent ++ [(s, .next t os)]) ⟨w, Function.update s.pending t rest⟩ := by
  have hcalls := h.calls t
  rw [hpending] at hcalls
  have hsink := sink_of_act hact
  obtain ⟨hname, hbuffer⟩ := h.act hsink
  cases hflush : os.fflush with
  | none =>
    rw [SinkWorld.act, flush_of_none hflush] at hsink
    have hflushed : (s.world.sink k).flushed = w.sink k := Option.some.inj hsink
    refine Or.inl ⟨flushLast_update h.calls hcalls, hname, ?_, .nil _⟩
    change ((w.sink k).fd_.getD []).Sublist []
    rw [← hflushed, fd_flushed]
    cases (s.world.sink k).fd_ <;> exact List.Sublist.refl _
  | some f =>
    have hnone : s.handsTo k (.next t os) = [] := by
      simp [LogState.handsTo, hpending, SinkCall.hands]
    have hfails : s.flushFails k (.next t os) = true := by
      simp [LogState.flushFails, hpending, hflush]
    refine Or.inr ⟨flushLast_update h.calls hcalls, hname, ?_,
      h.flushed.snoc_of_none hnone fun _ => Or.inr hfails⟩
    rw [handedMsgs_snoc, hnone, List.append_nil]
    have hrecord : (SinkAct.flush os).logged = [] := rfl
    rwa [hrecord, List.flatten_nil, List.append_nil] at hbuffer

/-- **A step keeps what is known of the buffer.** -/
theorem Flushing.step (h : Flushing logger k recent s) (hst : Steps logger s l s') :
    Flushing logger k [] s' ∨ Flushing logger k (recent ++ [(s, l)]) s' := by
  cases hst with
  | @log t msg hidle =>
    exact Or.inr (h.of_same rfl rfl (flushLast_update h.calls (flushLast_log logger msg))
      fun hu => exists_pending hu (by simp [hidle]))
  | @flush t hidle =>
    exact Or.inr (h.of_same rfl rfl (flushLast_update h.calls (flushLast_flush logger _))
      fun hu => exists_pending hu (by simp [hidle]))
  | @next t os c rest w hpending hact =>
    have hcalls := h.calls t
    rw [hpending] at hcalls
    cases c with
    | log j msg =>
      by_cases hj : j = k
      · subst hj
        exact Or.inr (h.log hpending hact)
      · have hnone : s.handsTo k (.next t os) = [] := by
          simp [LogState.handsTo, hpending, SinkCall.hands, hj]
        exact Or.inr (h.of_same hnone (sinks_of_act hact (Ne.symm hj))
          (flushLast_update h.calls hcalls.tail) fun hu => exists_pending hu (by simp [hpending]))
    | flush j =>
      by_cases hj : j = k
      · subst hj
        exact h.flush hpending hact
      · have hkj : k ≠ j := Ne.symm hj
        have hnone : s.handsTo k (.next t os) = [] := by
          simp [LogState.handsTo, hpending, SinkCall.hands]
        exact Or.inr (h.of_same hnone (sinks_of_act hact hkj)
          (flushLast_update h.calls hcalls.tail)
          fun hu => exists_pending hu (by simp [hpending, hkj]))
  | @settle j n w hact =>
    by_cases hj : j = k
    · subst hj
      obtain ⟨hname, hbuffer⟩ := h.act (sink_of_act hact)
      have hrecord : (SinkAct.settle n).logged = [] := rfl
      have hsame : handedMsgs j (recent ++ [(s, .settle j n)]) = handedMsgs j recent := by
        rw [handedMsgs_snoc]
        exact List.append_nil _
      rw [hrecord, List.flatten_nil, List.append_nil] at hbuffer
      refine Or.inr ⟨h.calls, hname, ?_, h.flushed.snoc_of_none rfl Or.inl⟩
      rw [hsame]
      exact hbuffer
    · exact Or.inr (h.of_same rfl (sinks_of_act hact (Ne.symm hj)) h.calls id)

/-- **What is known of the buffer in every run.** -/
theorem flushing_run {s₀ : LogState ι T} {tr : List (LogState ι T × LogLabel ι T)}
    (h₀ : Flushing logger k [] s₀) (h : logger.lts.Run s₀ tr s) :
    ∃ recent, recent <:+ tr ∧ Flushing logger k recent s := by
  refine h.invariant (I := fun tr s => ∃ recent, recent <:+ tr ∧ Flushing logger k recent s)
    ⟨[], List.nil_suffix, h₀⟩ ?_
  rintro tr s l s' - ⟨recent, hsuffix, hflushing⟩ hst
  rcases hflushing.step (steps_of_step hst) with hnew | hnew
  · exact ⟨[], List.nil_suffix, hnew⟩
  · exact ⟨_, List.suffix_append_self_iff.2 hsuffix, hnew⟩

end Flushing

end Calls

/-! ### The logger of `initLogger` -/

/-- The level of the new default logger. -/
def LoggerOutcome.level : LoggerOutcome → LogLevel
  | .ready level _ _ => level
  | _ => .off

/-- The logger of `initLogger` with its `n` files; `spdlog::flush_on` gets `warn`. -/
def LoggerOutcome.logger (outcome : LoggerOutcome) (n : ℕ) : Logger (Fin n) where
  sinks_ := List.finRange n
  sink_level_ k := (outcome.sinks[k.1]?).elim .off RotatingSink.level
  level_ := outcome.level
  flush_level_ := .warn

theorem exists_logged {outcome : LoggerOutcome} {sinks : List RotatingFile} {d₀ : Disk}
    (hinit : initLogger ⟨fun _ => true, fun _ => true, fun _ => .ok ()⟩
      ((initialParams 0).update shippedValues).log_params = some outcome)
    (hmake : makeSinks (fun _ => .fine) outcome.sinks (fun _ => none) = .ok (sinks, d₀))
    (hlen : 0 < sinks.length) :
    ∃ (s₁ s : LogState (Fin sinks.length) Unit), (outcome.logger sinks.length).lts.Run
      ⟨⟨sinks.get, d₀⟩, fun _ => []⟩ [(⟨⟨sinks.get, d₀⟩, fun _ => []⟩, .log () ⟨.critical, [120]⟩),
        (s₁, .next () .fine)] s := by
  have hlevel : outcome.level = .info := by
    have hmap : (initLogger ⟨fun _ => true, fun _ => true, fun _ => .ok ()⟩
      ((initialParams 0).update shippedValues).log_params).map LoggerOutcome.level =
        some .info := by decide
    rw [hinit, Option.map_some, Option.some.injEq] at hmap
    exact hmap
  -- the sinks are flushed in this call
  have hcalls : (outcome.logger sinks.length).log ⟨.critical, [120]⟩ ≠ [] := by
    have hlog : (outcome.logger sinks.length).should_log ⟨.critical, [120]⟩ = true := by
      rw [Logger.should_log, LoggerOutcome.logger, hlevel]
      rfl
    have hflush : (outcome.logger sinks.length).should_flush_ ⟨.critical, [120]⟩ = true := rfl
    rw [Logger.log, if_pos hlog, Logger.sink_it_, if_pos hflush]
    refine List.append_ne_nil_of_right_ne_nil _ ?_
    simpa [Logger.flush_, LoggerOutcome.logger] using Nat.pos_iff_ne_zero.1 hlen
  obtain ⟨c, rest, hc⟩ := List.exists_cons_of_ne_nil hcalls
  obtain ⟨w, hw⟩ : ∃ w, (LogWorld.mk sinks.get d₀).act (c.act .fine) = some w := by
    cases c with
    | log k msg => exact exists_act hinit hmake k (a := .log .fine msg.formatted) Os.fine_works
    | flush k => exact exists_act hinit hmake k (a := .flush .fine) rfl
  have hfirst : (outcome.logger sinks.length).step ⟨⟨sinks.get, d₀⟩, fun _ => []⟩
      (.log () ⟨.critical, [120]⟩) = some ⟨⟨sinks.get, d₀⟩,
        Function.update (fun _ => []) () (c :: rest)⟩ := by
    rw [Logger.step, hc]
    rfl
  have hpending : (LogState.mk ⟨sinks.get, d₀⟩
      (Function.update (fun _ => []) () (c :: rest))).pending () = c :: rest := by simp
  exact ⟨_, _, (LTS.Run.nil.snoc hfirst).snoc (step_next hpending hw)⟩

/-- **Every message is handed to every sink once.**  Whatever the threads do in between and the
system answers, a thread has handed to a sink the messages that it called the logger with and that
the level of the sink lets pass, in this order, up to those it has yet to hand over in the call it
is in. -/
theorem handed_over (outcome : LoggerOutcome) {n : ℕ} {T : Type} [DecidableEq T]
    {w₀ : LogWorld (Fin n)} {tr : List (LogState (Fin n) T × LogLabel (Fin n) T)}
    {s : LogState (Fin n) T} (h : (outcome.logger n).lts.Run ⟨w₀, fun _ => []⟩ tr s) (t : T)
    (k : Fin n) : handedTo t k tr ++ (s.pending t).filterMap (SinkCall.hands k) =
      (calledBy t tr).filter ((outcome.logger n).takes k) :=
  handed_run (List.nodup_finRange n) h t (List.mem_finRange k)

/-- The logger of the repository. -/
theorem handed_over_shipped : ∃ (outcome : LoggerOutcome) (sinks : List RotatingFile) (d₀ : Disk)
    (s₁ s : LogState (Fin sinks.length) Unit), 0 < sinks.length ∧ ∀ k,
      handedTo () k [(⟨⟨sinks.get, d₀⟩, fun _ => []⟩, .log () ⟨.critical, [120]⟩),
        (s₁, .next () .fine)] ++ (s.pending ()).filterMap (SinkCall.hands k) =
          ([⟨.critical, [120]⟩] : List LogMsg).filter ((outcome.logger sinks.length).takes k) := by
  obtain ⟨outcome, sinks, d₀, hinit, hmake, hlen⟩ := exists_shipped
  obtain ⟨s₁, s, hrun⟩ := exists_logged hinit hmake hlen
  exact ⟨outcome, sinks, d₀, s₁, s, hlen, fun k => handed_over outcome hrun () k⟩

/-- **What is not in the files yet.**  In every run of the logger that `initLogger` makes, with any
number of threads and whatever the system answers, the buffer of a sink holds bytes of the messages
that were handed to it lately, in this order.  If one of these is a warning or worse, some thread is
in a call in which it has yet to flush the sink, or a flush of the sink has failed since the message
was handed to it. -/
theorem severe_flushed {files : LogFiles} {params : LogParams} {outcome : LoggerOutcome}
    {os : RotatingSink → Os} {d d₀ : Disk} {sinks : List RotatingFile}
    (hinit : initLogger files params = some outcome)
    (hmake : makeSinks os outcome.sinks d = .ok (sinks, d₀)) {T : Type} [DecidableEq T]
    {tr : List (LogState (Fin sinks.length) T × LogLabel (Fin sinks.length) T)}
    {s : LogState (Fin sinks.length) T}
    (h : (outcome.logger sinks.length).lts.Run ⟨⟨sinks.get, d₀⟩, fun _ => []⟩ tr s)
    (k : Fin sinks.length) :
    ∃ recent, recent <:+ tr ∧
      ((s.world.sink k).fd_.getD []).Sublist
        ((handedMsgs k recent).map LogMsg.formatted).flatten ∧
      ∀ a x b, recent = a ++ x :: b → ∀ msg ∈ x.1.handsTo k x.2,
        LogLevel.warn.toNat ≤ msg.level.toNat → msg.level ≠ .off →
          (∃ t, .flush k ∈ s.pending t) ∨ ∃ y ∈ b, y.1.flushFails k y.2 = true := by
  obtain ⟨sink, -, hstarted⟩ := started_of_makeSinks hinit hmake k
  have h₀ : Flushing (outcome.logger sinks.length) k []
      (⟨⟨sinks.get, d₀⟩, fun _ => []⟩ : LogState (Fin sinks.length) T) := by
    refine ⟨fun _ => trivial, hstarted.filename.trans hstarted.base.symm, ?_, .nil _⟩
    have hfd : ((LogWorld.mk sinks.get d₀).sink k).fd_ = some [] := hstarted.fd
    change (((LogWorld.mk sinks.get d₀).sink k).fd_.getD []).Sublist []
    rw [hfd]
    exact List.Sublist.refl _
  obtain ⟨recent, hsuffix, hflushing⟩ := flushing_run h₀ h
  refine ⟨recent, hsuffix, hflushing.buffer, fun a x b htr msg hmsg hlevel hoff => ?_⟩
  refine hflushing.flushed a x b htr msg hmsg ?_
  rw [Logger.should_flush_, Bool.and_eq_true]
  exact ⟨decide_eq_true hlevel, decide_eq_true hoff⟩

/-- The logger of the repository. -/
theorem severe_flushed_shipped : ∃ (sinks : List RotatingFile) (d₀ : Disk)
    (s₁ s : LogState (Fin sinks.length) Unit), 0 < sinks.length ∧ ∀ k,
      ∃ recent, recent <:+ [(⟨⟨sinks.get, d₀⟩, fun _ => []⟩, .log () ⟨.critical, [120]⟩),
        (s₁, .next () .fine)] ∧
      ((s.world.sink k).fd_.getD []).Sublist
        ((handedMsgs k recent).map LogMsg.formatted).flatten ∧
      ∀ a (x : LogState (Fin sinks.length) Unit × LogLabel (Fin sinks.length) Unit) b,
        recent = a ++ x :: b → ∀ msg ∈ x.1.handsTo k x.2,
        LogLevel.warn.toNat ≤ msg.level.toNat → msg.level ≠ .off →
          (∃ t, .flush k ∈ s.pending t) ∨ ∃ y ∈ b, y.1.flushFails k y.2 = true := by
  obtain ⟨outcome, sinks, d₀, hinit, hmake, hlen⟩ := exists_shipped
  obtain ⟨s₁, s, hrun⟩ := exists_logged hinit hmake hlen
  exact ⟨sinks, d₀, s₁, s, hlen, fun k => severe_flushed hinit hmake hrun k⟩

end LiteMonitor
