import LiteMonitor.Log.FileHelper
import LiteMonitor.Queue.Generations

/-!
# The rotating files

`rotating_file_sink`, over its `file_helper`.

* `RotatingFile.rename_file_`, `rotate_`, `sink_it_` : the functions.
* `slots_renameLoop` : **the loop of `rotate_` moves generations up.**
* `Rotates`, `Sinks` : what `rotate_` and `sink_it_` can do; `rotate_spec`, `sink_it_spec`.
* `Sinks.loses` : whatever they do, the bytes stay in order.
-/

namespace LiteMonitor

open Generations Throwing

/-! ### `rotating_file_sink` -/

namespace RotatingFile

open FileHelper

/-- `rotating_file_sink::rename_file_`. -/
def rename_file_ (a : Attempt) (src_filename target_filename : StdString) (d : Disk) :
    Bool × Disk :=
  let d := if a.cleared then Function.update d target_filename none else d
  if a.moved then
    (true, Function.update (Function.update d target_filename (d src_filename)) src_filename none)
  else (false, d)

/-- The loop of `rotate_`, from `i` files down; the number of the file that could not be renamed. -/
def renameLoop (os : Os) (base : StdString) : ℕ → Disk → Option ℕ × Disk
  | 0, d => (none, d)
  | i + 1, d =>
    let src := calc_filename base i
    if (d src).isNone then renameLoop os base i d
    else
      let target := calc_filename base (i + 1)
      let (renamed, d) := rename_file_ (os.rename_file_ i).1 src target d
      if renamed then renameLoop os base i d
      else
        let (renamed, d) := rename_file_ (os.rename_file_ i).2 src target d
        if renamed then renameLoop os base i d else (some i, d)

/-- `rotating_file_sink::rotate_`. -/
def rotate_ (os : Os) : SinkM Unit := do
  close os
  let s := (← get).sink
  let (failed, d) := renameLoop os s.base_filename_ s.max_files_ (← get).disk
  modify fun w => { w with disk := d }
  match failed with
  | some i =>
    reopen os true
    modify fun w => { w with sink.current_size_ := 0 }
    throw (.spdlog_ex ⟨"rotating_file_sink: failed renaming {} to {}",
      [.str (calc_filename s.base_filename_ i), .str (calc_filename s.base_filename_ (i + 1))]⟩)
  | none => reopen os true

/-- The end of `sink_it_`. -/
def writeSized (os : Os) (formatted : Bytes) (new_size : ℕ) : SinkM Unit := do
  write os formatted
  modify fun w => { w with sink.current_size_ := new_size }

/-- `rotating_file_sink::sink_it_`, when the message is formatted. -/
def sink_it_ (os : Os) (formatted : Bytes) : SinkM Unit := do
  let s := (← get).sink
  let new_size := s.current_size_ + formatted.length
  if new_size > s.max_size_ then
    flush os
    -- the real size is looked at only now
    if (← size os) > 0 then
      rotate_ os
      writeSized os formatted formatted.length
    else writeSized os formatted new_size
  else writeSized os formatted new_size

/-- The constructor of `rotating_file_sink`; `rotate_on_open` is false. -/
def openSink (os : Os) (sink : RotatingSink) (d : Disk) : Except LogFault Unit × SinkWorld :=
  on (if sink.max_size = 0 then
      throw (.spdlog_ex ⟨"rotating sink constructor: max_size arg cannot be zero", []⟩)
    else if sink.max_files > 200000 then
      throw (.spdlog_ex ⟨"rotating sink constructor: max_files arg cannot exceed 200000", []⟩)
    else do
      openFile os (calc_filename sink.base_filename 0) false
      let n ← size os
      modify fun w => { w with sink.current_size_ := n })
    ⟨⟨sink.base_filename, sink.max_size.toNat, sink.max_files.toNat, 0, ⟨[], none⟩⟩, d⟩

end RotatingFile

/-! ### `rotate_` -/

section Rotate

open RotatingFile FileHelper

theorem slots_rename_file (a : Attempt) (base : StdString) (i : ℕ) (d : Disk) :
    (rename_file_ a (calc_filename base i) (calc_filename base (i + 1)) d).1 = a.moved ∧
      slots base (rename_file_ a (calc_filename base i) (calc_filename base (i + 1)) d).2 =
        attempt a i (slots base d) := by
  have hsrc : ∀ d : Disk, d (calc_filename base i) = slots base d i := fun _ => rfl
  unfold rename_file_ attempt
  dsimp only
  split_ifs with hcleared hmoved hmoved <;> simp_all

theorem rename_file_of_ne (a : Attempt) {src target p : StdString} (hs : p ≠ src) (ht : p ≠ target)
    (d : Disk) : (rename_file_ a src target d).2 p = d p := by
  unfold rename_file_
  dsimp only
  split_ifs <;> simp [hs, ht]

/-- **The loop of `rotate_` moves the generations up.** -/
theorem slots_renameLoop (os : Os) (base : StdString) (n : ℕ) (d : Disk) :
    (renameLoop os base n d).1.isNone = (moveUp os.rename_file_ n (slots base d)).1 ∧
      slots base (renameLoop os base n d).2 = (moveUp os.rename_file_ n (slots base d)).2 := by
  induction n generalizing d with
  | zero => exact ⟨rfl, rfl⟩
  | succ i ih =>
    obtain ⟨hfst, hslots⟩ := slots_rename_file (os.rename_file_ i).1 base i d
    obtain ⟨hsnd, hslots'⟩ := slots_rename_file (os.rename_file_ i).2 base i
      (rename_file_ (os.rename_file_ i).1 (calc_filename base i) (calc_filename base (i + 1)) d).2
    have hnone : (d (calc_filename base i)).isNone = (slots base d i).isNone := rfl
    rw [hslots] at hslots'
    simp only [renameLoop, moveUp, moveOne, hnone, hfst, hsnd]
    by_cases hempty : (slots base d i).isNone = true
    · simp only [hempty, if_true]
      exact ih d
    by_cases h₁ : (os.rename_file_ i).1.moved = true
    · simp only [hempty, h₁, if_true, if_false, Bool.false_eq_true, ← hslots]
      exact ih _
    by_cases h₂ : (os.rename_file_ i).2.moved = true
    · simp only [hempty, h₁, h₂, if_true, if_false, Bool.false_eq_true, ← hslots']
      exact ih _
    · simp only [hempty, h₁, h₂, if_false, Bool.false_eq_true, ← hslots']
      exact ⟨rfl, trivial⟩

theorem renameLoop_of_ne (os : Os) (base : StdString) (n : ℕ) (d : Disk) {p : StdString}
    (hp : ∀ i ≤ n, p ≠ calc_filename base i) : (renameLoop os base n d).2 p = d p := by
  induction n generalizing d with
  | zero => rfl
  | succ i ih =>
    have hi := hp i (by omega)
    have hs := hp (i + 1) le_rfl
    have hrest := fun d => ih d fun j hj => hp j (by omega)
    rw [renameLoop]
    dsimp only
    split_ifs <;> simp only [hrest, rename_file_of_ne _ hi hs]

/-- What `rotate_` does to the generations, once the stream is closed. -/
inductive Rotates (os : Os) (w : SinkWorld) : Except LogFault Unit × SinkWorld → Prop
  | rotated {w' : SinkWorld} (hmoved : (moveUp os.rename_file_ w.sink.max_files_ w.view).1 = true)
      (hfd : w'.fd_ = some []) (hcurrent : w'.sink.current_size_ = w.sink.current_size_)
      (hview : w'.view = Function.update
        (moveUp os.rename_file_ w.sink.max_files_ w.view).2 0 (some [])) :
      Rotates os w (.ok (), w')
  | renameFailed {w' : SinkWorld} (what : LogLine)
      (hmoved : (moveUp os.rename_file_ w.sink.max_files_ w.view).1 = false)
      (hfd : w'.fd_ = some []) (hcurrent : w'.sink.current_size_ = 0)
      (hview : w'.view = Function.update
        (moveUp os.rename_file_ w.sink.max_files_ w.view).2 0 (some [])) :
      Rotates os w (.error (.spdlog_ex what), w')
  | reopenFailed {w' : SinkWorld} (what : LogLine) (hclosed : w.filename_ ≠ [] → os.opens = false)
      (hfd : w'.fd_ = none)
      (hview : w'.view = (moveUp os.rename_file_ w.sink.max_files_ w.view).2 ∨
        w'.view = Function.update (moveUp os.rename_file_ w.sink.max_files_ w.view).2 0 (some [])) :
      Rotates os w (.error (.spdlog_ex what), w')

/-- All that `rotate_` does to the bytes is to lose some. -/
theorem Rotates.loses {os : Os} {w w' : SinkWorld} {r : Except LogFault Unit}
    (h : Rotates os w (r, w')) : Loses w.sink.max_files_ [] w w' := by
  have hmoved : (kept w.sink.max_files_ (moveUp os.rename_file_ w.sink.max_files_ w.view).2).Sublist
      (kept w.sink.max_files_ w.view) := kept_moveUp_sublist
  have hcleared := (kept_clear_sublist w.sink.max_files_
    (moveUp os.rename_file_ w.sink.max_files_ w.view).2).trans hmoved
  have hbuffer : w'.fd_.getD [] = [] := by
    cases h with
    | rotated _ hfd => rw [hfd, Option.getD_some]
    | renameFailed _ _ hfd => rw [hfd, Option.getD_some]
    | reopenFailed _ _ hfd => rw [hfd, Option.getD_none]
  refine ⟨?_, by rw [hbuffer]; exact List.nil_sublist _⟩
  rw [List.append_nil]
  cases h with
  | rotated _ _ _ hview => exact hview ▸ hcleared
  | renameFailed _ _ _ _ hview => exact hview ▸ hcleared
  | reopenFailed _ _ _ hview =>
    rcases hview with hview | hview
    · exact hview ▸ hmoved
    · exact hview ▸ hcleared

theorem rotate_on (os : Os) (w : SinkWorld) {c : SinkWorld} (hc : w.closed os = c) :
    on (rotate_ os) w =
      on (match (renameLoop os c.sink.base_filename_ c.sink.max_files_ c.disk).1 with
        | some i => do
          reopen os true
          modify fun w => { w with sink.current_size_ := 0 }
          throw (.spdlog_ex ⟨"rotating_file_sink: failed renaming {} to {}",
            [.str (calc_filename c.sink.base_filename_ i),
              .str (calc_filename c.sink.base_filename_ (i + 1))]⟩)
        | none => reopen os true)
      { c with disk := (renameLoop os c.sink.base_filename_ c.sink.max_files_ c.disk).2 } := by
  subst hc
  rfl

theorem view_reopened {w w' : SinkWorld} (hfd : w.fd_.getD [] = []) (hfd' : w'.fd_.getD [] = [])
    (hname : w.filename_ = w.sink.base_filename_)
    (hsink : w'.sink.base_filename_ = w.sink.base_filename_)
    (hd : ∀ p, p ≠ w.filename_ → w'.disk p = w.disk p) :
    w'.view = Function.update w.view 0 (w'.disk w.filename_) := by
  rw [w'.view_of_closed hfd', w.view_of_closed hfd, hsink]
  funext i
  by_cases hi : i = 0
  · subst hi
    rw [Function.update_self, hname]
    exact congrArg w'.disk (calc_filename_zero _)
  · rw [Function.update_of_ne hi]
    refine hd _ ?_
    rw [hname]
    intro heq
    exact hi (calc_filename_injective _ (heq.trans (calc_filename_zero _).symm))

theorem framed_reopened {w w' : SinkWorld} (hname : w.filename_ = w.sink.base_filename_)
    (hsink : w'.sink = { (w.withFd w'.fd_).sink with current_size_ := w'.sink.current_size_ })
    (hd : ∀ p, p ≠ w.filename_ → w'.disk p = w.disk p) : Framed w w' := by
  refine ⟨?_, ?_, ?_, ?_, fun p hp => hd p ?_⟩
  · rw [hsink]
    rfl
  · rw [hsink]
    rfl
  · rw [hsink]
    rfl
  · rw [SinkWorld.filename_, hsink]
    rfl
  · rw [hname, ← calc_filename_zero w.sink.base_filename_]
    exact hp 0 (Nat.zero_le _)

/-- What is left of the call when `reopen` has returned or thrown. -/
theorem rotates_of_reopens (os : Os) {w v : SinkWorld} (hfd : v.fd_ = none)
    (hname : v.filename_ = v.sink.base_filename_) (hframe : Framed w v)
    (hview : v.view = (moveUp os.rename_file_ w.sink.max_files_ w.view).2)
    {r : Except LogFault Unit × SinkWorld} (h : Reopens os v r) :
    (∃ v', r = (.ok (), v') ∧ v'.fd_ = some [] ∧ v'.sink.current_size_ = v.sink.current_size_ ∧
      v'.view = Function.update (moveUp os.rename_file_ w.sink.max_files_ w.view).2 0 (some []) ∧
      Framed w v') ∨
    (∃ what v', r = (.error (.spdlog_ex what), v') ∧ Rotates os w r ∧ Framed w v') := by
  cases h with
  | opened d hd hfile =>
    have hview' : SinkWorld.view { v.withFd (some []) with disk := d } =
        Function.update v.view 0 (d v.filename_) :=
      view_reopened (by rw [hfd]; rfl) rfl hname rfl hd
    refine Or.inl ⟨_, rfl, rfl, rfl, ?_, hframe.trans (framed_reopened hname rfl hd)⟩
    rw [hview', hview, hfile]
  | failed what d hclosed hd hfile =>
    have hview' : SinkWorld.view { v.withFd none with disk := d } =
        Function.update v.view 0 (d v.filename_) :=
      view_reopened (by rw [hfd]; rfl) rfl hname rfl hd
    refine Or.inr ⟨what, _, rfl, .reopenFailed what (hframe.filename ▸ hclosed) rfl ?_,
      hframe.trans (framed_reopened hname rfl hd)⟩
    rw [hview', hview]
    rcases hfile with hfile | hfile
    · exact Or.inr (by rw [hfile])
    · -- the file is as the moves have left it
      refine Or.inl ?_
      have hzero : v.disk v.filename_ = v.view 0 := by
        rw [v.view_of_closed (by rw [hfd]; rfl), hname]
        exact congrArg v.disk (calc_filename_zero _).symm
      rw [hfile, hzero, hview, Function.update_eq_self]

theorem rotate_spec (os : Os) {w c : SinkWorld} (hc : w.closed os = c) (hfd : c.fd_ = none)
    (hname : c.filename_ = c.sink.base_filename_) :
    Rotates os c (on (rotate_ os) w) ∧ Framed c (on (rotate_ os) w).2 := by
  rw [rotate_on os w hc]
  obtain ⟨hfailed, hmoved⟩ := slots_renameLoop os c.sink.base_filename_ c.sink.max_files_ c.disk
  have hothers := fun p =>
    renameLoop_of_ne os c.sink.base_filename_ c.sink.max_files_ c.disk (p := p)
  have hslots : slots c.sink.base_filename_ c.disk = c.view :=
    (c.view_of_closed (by rw [hfd]; rfl)).symm
  generalize renameLoop os c.sink.base_filename_ c.sink.max_files_ c.disk = failed
    at hfailed hmoved hothers ⊢
  obtain ⟨failed, d⟩ := failed
  dsimp only at hfailed hmoved hothers ⊢
  rw [hslots] at hfailed hmoved
  have hview : SinkWorld.view { c with disk := d } =
      (moveUp os.rename_file_ c.sink.max_files_ c.view).2 := by
    rw [SinkWorld.view_of_closed _ (by rw [hfd]; rfl), ← hmoved]
  have hframe : Framed c { c with disk := d } := ⟨rfl, rfl, rfl, rfl, hothers⟩
  have hreopens := rotates_of_reopens os (v := { c with disk := d }) hfd hname hframe hview
    (reopen_spec os hfd)
  cases failed with
  | none =>
    have hall : (moveUp os.rename_file_ c.sink.max_files_ c.view).1 = true := hfailed.symm
    rcases hreopens with ⟨v', hr, hfd', hcurrent, hview', hframe⟩ | ⟨what, v', hr, hrot, hframe⟩
    · rw [hr]
      exact ⟨.rotated hall hfd' hcurrent hview', hframe⟩
    · rw [hr] at hrot ⊢
      exact ⟨hrot, hframe⟩
  | some i =>
    have hsome : (moveUp os.rename_file_ c.sink.max_files_ c.view).1 = false := hfailed.symm
    dsimp only
    rcases hreopens with ⟨v', hr, hfd', -, hview', hframe⟩ | ⟨what, v', hr, hrot, hframe⟩
    · rw [on_bind_ok hr, on_modify_bind]
      exact ⟨.renameFailed _ hsome hfd' rfl hview',
        hframe.trans ⟨rfl, rfl, rfl, rfl, fun _ _ => rfl⟩⟩
    · rw [on_bind_error hr]
      rw [hr] at hrot
      exact ⟨hrot, hframe⟩

end Rotate

/-! ### `sink_it_` -/

section SinkIt

open RotatingFile FileHelper

variable {w : SinkWorld}

theorem writeSized_of_none (os : Os) (formatted : Bytes) (n : ℕ) (hfd : w.fd_ = none) :
    on (writeSized os formatted n) w = (.error .undefined, w) := by
  rw [writeSized, on_bind_error (write_of_none formatted hfd)]

theorem writeSized_of_some {os : Os} {formatted : Bytes} (n : ℕ) {b : Bytes} (hfd : w.fd_ = some b)
    (h : os.shortWrite formatted = none) :
    on (writeSized os formatted n) w =
      (.ok (), { w with
        sink := { (w.withFd (some (b ++ formatted))).sink with current_size_ := n } }) := by
  rw [writeSized, on_bind_ok (write_of_some hfd h)]
  rfl

theorem view_written {formatted b : Bytes} (n : ℕ) (hfd : w.fd_ = some b) :
    SinkWorld.view
      { w with sink := { (w.withFd (some (b ++ formatted))).sink with current_size_ := n } } =
      Function.update w.view 0 ((w.view 0).map (· ++ formatted)) := by
  have hmap : ((w.disk w.sink.base_filename_).map (· ++ w.fd_.getD [])).map (· ++ formatted) =
      (w.disk w.sink.base_filename_).map (· ++ (b ++ formatted)) := by
    rw [Option.map_map, hfd]
    exact congrArg (Option.map · _) (funext fun c => List.append_assoc ..)
  rw [w.view_zero, hmap, SinkWorld.view, SinkWorld.view, Function.update_idem]
  rfl

theorem writeSized_of_short {os : Os} {formatted : Bytes} (m : ℕ) {n : ℕ} {f : Failure} {b : Bytes}
    (hname : w.filename_ = w.sink.base_filename_) (hfd : w.fd_ = some b)
    (h : os.shortWrite formatted = some (n, f)) :
    ∃ what v, on (writeSized os formatted m) w = (.error (.spdlog_ex what), v) ∧
      (∀ n, Loses n formatted w v) ∧ Framed w v := by
  obtain ⟨what, hwrite⟩ := write_of_short hfd h
  have hname' : (w.withFd (some (b ++ formatted.take n))).filename_ =
    (w.withFd (some (b ++ formatted.take n))).sink.base_filename_ := hname
  refine ⟨what, _, by rw [writeSized, on_bind_error hwrite], fun k => ?_, ?_⟩
  · have htaken : Loses k formatted w (w.withFd (some (b ++ formatted.take n))) := by
      refine loses_withFd ?_
      rw [hfd, Option.getD_some, Option.getD_some]
      exact (List.Sublist.refl b).append (List.take_sublist n formatted)
    exact htaken.snoc (loses_losing hname' f)
  · exact (framed_withFd w _).trans (framed_losing hname' f)

/-- What `sink_it_` does to the generations. -/
inductive Sinks (os : Os) (formatted : Bytes) (w : SinkWorld) :
    Except LogFault Unit × SinkWorld → Prop
  /-- The message fits, or the file is empty. -/
  | appended {w' : SinkWorld} {b : Bytes} (hfd : w.fd_ ≠ none) (hfd' : w'.fd_ = some b)
      (hbuffer : b <:+ w.fd_.getD [] ++ formatted)
      (hroom : w.sink.current_size_ + formatted.length ≤ w.sink.max_size_ ∨
        (w.view 0).getD [] = [])
      (hcurrent : w'.sink.current_size_ = w.sink.current_size_ + formatted.length)
      (hview : w'.view = Function.update w.view 0 ((w.view 0).map (· ++ formatted))) :
      Sinks os formatted w (.ok (), w')
  /-- Before the rotation the world is `c`, with the stream closed. -/
  | rotated {c w' : SinkWorld} (hfd : w.fd_ ≠ none) (hfd' : w'.fd_ = some formatted)
      (hfull : w.sink.max_size_ < w.sink.current_size_ + formatted.length)
      (hcloses : Closes os w c)
      (hmoved : (moveUp os.rename_file_ w.sink.max_files_ c.view).1 = true)
      (hcurrent : w'.sink.current_size_ = formatted.length)
      (hview : w'.view = Function.update
        (moveUp os.rename_file_ w.sink.max_files_ c.view).2 0 (some formatted)) :
      Sinks os formatted w (.ok (), w')
  | renameFailed {c w' : SinkWorld} (what : LogLine) (hfd : w.fd_ ≠ none) (hfd' : w'.fd_ = some [])
      (hcloses : Closes os w c)
      (hmoved : (moveUp os.rename_file_ w.sink.max_files_ c.view).1 = false)
      (hcurrent : w'.sink.current_size_ = 0)
      (hview : w'.view = Function.update
        (moveUp os.rename_file_ w.sink.max_files_ c.view).2 0 (some [])) :
      Sinks os formatted w (.error (.spdlog_ex what), w')
  | reopenFailed {c w' : SinkWorld} (what : LogLine) (hfd : w.fd_ ≠ none) (hfd' : w'.fd_ = none)
      (hcloses : Closes os w c) (hclosed : w.filename_ ≠ [] → os.opens = false)
      (hview : w'.view = (moveUp os.rename_file_ w.sink.max_files_ c.view).2 ∨
        w'.view = Function.update (moveUp os.rename_file_ w.sink.max_files_ c.view).2 0 (some [])) :
      Sinks os formatted w (.error (.spdlog_ex what), w')
  /-- A call on the stream fails, and a part of the message may be left. -/
  | streamFailed {w' : SinkWorld} (what : LogLine) (hstreams : ¬ os.Streams)
      (hloses : Loses w.sink.max_files_ formatted w w') :
      Sinks os formatted w (.error (.spdlog_ex what), w')
  /-- The file could not be opened earlier, and its size is asked for. -/
  | closed (what : LogLine) (hfd : w.fd_ = none) :
      Sinks os formatted w (.error (.spdlog_ex what), w)
  /-- The file could not be opened earlier, and is written to. -/
  | undefined (hfd : w.fd_ = none) : Sinks os formatted w (.error .undefined, w)

theorem shortWrite_streams {os : Os} {formatted : Bytes} {a : ℕ × Failure}
    (h : os.shortWrite formatted = some a) : ¬ os.Streams := by
  intro hstreams
  rw [hstreams.shortWrite] at h
  cases h

theorem sinks_append (os : Os) (formatted : Bytes) {v : SinkWorld} (hframe : Framed w v)
    (hname : v.filename_ = v.sink.base_filename_) (hview : v.view = w.view)
    (hfd : v.fd_ = none ↔ w.fd_ = none) (hbuffer : v.fd_.getD [] <:+ w.fd_.getD [])
    (hroom : w.sink.current_size_ + formatted.length ≤ w.sink.max_size_ ∨ (w.view 0).getD [] = [])
    (hsame : w.fd_ = none → v = w) :
    Sinks os formatted w
        (on (writeSized os formatted (w.sink.current_size_ + formatted.length)) v) ∧
      Framed w (on (writeSized os formatted (w.sink.current_size_ + formatted.length)) v).2 := by
  cases hb : v.fd_ with
  | none =>
    rw [writeSized_of_none _ _ _ hb, hsame (hfd.1 hb)]
    exact ⟨.undefined (hfd.1 hb), .refl w⟩
  | some b =>
    have hne : w.fd_ ≠ none := fun h => by rw [hfd.2 h] at hb; cases hb
    cases hshort : os.shortWrite formatted with
    | none =>
      rw [writeSized_of_some _ hb hshort]
      rw [hb, Option.getD_some] at hbuffer
      refine ⟨.appended hne rfl (List.suffix_append_self_iff.2 hbuffer) hroom rfl ?_,
        hframe.trans ⟨rfl, rfl, rfl, rfl, fun _ _ => rfl⟩⟩
      rw [view_written _ hb, hview]
    | some a =>
      obtain ⟨what, v', hr, hloses, hframe'⟩ := writeSized_of_short
        (w.sink.current_size_ + formatted.length) hname hb hshort
      rw [hr]
      refine ⟨.streamFailed what (shortWrite_streams hshort) ?_, hframe.trans hframe'⟩
      have hloses₀ : Loses w.sink.max_files_ [] w v := by
        refine ⟨by rw [hview, List.append_nil], ?_⟩
        rw [List.append_nil]
        exact hbuffer.sublist
      exact hloses₀.trans (hloses _)

theorem sinks_rotate (os : Os) (formatted : Bytes) {v : SinkWorld}
    (hname : v.filename_ = v.sink.base_filename_) (hcloses : Closes os w (v.closed os))
    (hfd : w.fd_ ≠ none)
    (hfull : w.sink.max_size_ < w.sink.current_size_ + formatted.length) :
    Sinks os formatted w
        (on (rotate_ os >>= fun _ => writeSized os formatted formatted.length) v) ∧
      Framed w (on (rotate_ os >>= fun _ => writeSized os formatted formatted.length) v).2 := by
  have hclosed := closes_closed os hname
  have hname' : (v.closed os).filename_ = (v.closed os).sink.base_filename_ :=
    hclosed.framed.filename.trans (hname.trans hclosed.framed.base.symm)
  obtain ⟨hrot, hframe'⟩ := rotate_spec os rfl hclosed.fd hname'
  rcases hr : on (rotate_ os) v with ⟨r, v'⟩
  rw [hr] at hrot hframe'
  have hmax : (v.closed os).sink.max_files_ = w.sink.max_files_ := hcloses.framed.max_files
  have hloses : Loses w.sink.max_files_ [] w v' := by
    have hrotloses := hrot.loses
    rw [hmax] at hrotloses
    exact (hcloses.loses _).trans hrotloses
  have hframed : Framed w v' := hcloses.framed.trans hframe'
  cases hrot with
  | rotated hmoved hfd' hcurrent hview' =>
    rw [hmax] at hmoved hview'
    rw [on_bind_ok hr]
    cases hshort : os.shortWrite formatted with
    | none =>
      rw [writeSized_of_some _ hfd' hshort]
      refine ⟨.rotated hfd rfl hfull hcloses hmoved rfl ?_,
        hframed.trans ⟨rfl, rfl, rfl, rfl, fun _ _ => rfl⟩⟩
      rw [view_written _ hfd', hview', Function.update_idem, Function.update_self, Option.map_some,
        List.nil_append]
    | some a =>
      have hname'' : v'.filename_ = v'.sink.base_filename_ :=
        hframe'.filename.trans (hname'.trans hframe'.base.symm)
      obtain ⟨what, v'', hr', hloses', hframe''⟩ :=
        writeSized_of_short formatted.length hname'' hfd' hshort
      rw [hr']
      exact ⟨.streamFailed what (shortWrite_streams hshort) (hloses.trans (hloses' _)),
        hframed.trans hframe''⟩
  | renameFailed what hmoved hfd' hcurrent hview' =>
    rw [hmax] at hmoved hview'
    rw [on_bind_error hr]
    exact ⟨.renameFailed what hfd hfd' hcloses hmoved hcurrent hview', hframed⟩
  | reopenFailed what hclosed hfd' hview' =>
    rw [hmax] at hview'
    rw [on_bind_error hr]
    exact ⟨.reopenFailed what hfd hfd' hcloses (hcloses.framed.filename ▸ hclosed) hview', hframed⟩

/-- **What one message does**, and that it does not touch other files. -/
theorem sink_it_spec (os : Os) (formatted : Bytes) (hname : w.filename_ = w.sink.base_filename_) :
    Sinks os formatted w (on (sink_it_ os formatted) w) ∧
      Framed w (on (sink_it_ os formatted) w).2 := by
  have hframe : Framed w w.flushed := framed_drained hname _
  have hview : w.flushed.view = w.view := view_drained hname _
  have hname' : w.flushed.filename_ = w.flushed.sink.base_filename_ :=
    hframe.filename.trans (hname.trans hframe.base.symm)
  have hflushed : ∀ n, Loses n [] w w.flushed := fun n => loses_drained hname _
  rw [sink_it_, on_get_bind]
  dsimp only
  split_ifs with hfull
  · cases hflush : os.fflush with
    | some f =>
      have hstreams : ¬ os.Streams := fun h => by rw [h.fflush] at hflush; cases hflush
      rw [on_bind_error (flush_of_some hflush)]
      exact ⟨.streamFailed _ hstreams ((loses_losing hname f).trans (.refl _ _ _)),
        framed_losing hname f⟩
    | none =>
      rw [on_bind_ok (flush_of_none hflush)]
      cases hb : w.fd_ with
      | none =>
        rw [flushed_of_none hb, on_bind_error (size_of_none hb)]
        exact ⟨.closed _ hb, .refl w⟩
      | some b =>
        have hb' : w.flushed.fd_ = some [] := by rw [fd_flushed, hb, Option.map_some]
        have hne : w.fd_ ≠ none := by rw [hb]; exact nofun
        have hlen : ((w.flushed.disk w.flushed.filename_).getD []).length =
            ((w.view 0).getD []).length := by
          rw [← hview, w.flushed.view_of_closed (by rw [hb']; rfl), hname']
          exact congrArg (fun c => (Option.getD (w.flushed.disk c) []).length)
            (calc_filename_zero _).symm
        cases hstat : os.fstat with
        | true =>
          rw [on_bind_ok (size_of_some hb' hstat), hlen]
          split_ifs with hpos
          · have hclosed := closes_closed os hname'
            refine sinks_rotate os formatted hname' ⟨hclosed.fd, hframe.trans hclosed.framed,
              fun n => (hflushed n).trans (hclosed.loses n),
              hclosed.current.trans (current_size_drained _), fun h => ?_⟩ hne hfull
            rw [hclosed.view h, hview]
          · have hempty : (w.view 0).getD [] = [] :=
              List.eq_nil_of_length_eq_zero (Nat.eq_zero_of_not_pos hpos)
            refine sinks_append os formatted hframe hname' hview ?_ ?_ (Or.inr hempty)
              fun h => absurd h hne
            · rw [hb', hb]
              simp
            · rw [hb']
              exact List.nil_suffix
        | false =>
          have hstreams : ¬ os.Streams := fun h => by rw [h.fstat] at hstat; cases hstat
          rw [on_bind_error (size_of_failed hb' hstat)]
          exact ⟨.streamFailed _ hstreams ((hflushed _).trans (.refl _ _ _)), hframe⟩
  · exact sinks_append os formatted (.refl w) hname rfl Iff.rfl List.suffix_rfl
      (Or.inl (not_lt.1 hfull)) fun _ => rfl

/-- **Whatever happens, the bytes stay in order.** -/
theorem Sinks.loses {os : Os} {formatted : Bytes} {r : Except LogFault Unit} {w' : SinkWorld}
    (h : Sinks os formatted w (r, w')) : Loses w.sink.max_files_ formatted w w' := by
  have hmoved : ∀ {c : SinkWorld}, Closes os w c →
      (kept w.sink.max_files_ (moveUp os.rename_file_ w.sink.max_files_ c.view).2).Sublist
        (kept w.sink.max_files_ w.view) := by
    intro c hcloses
    have hkept := (hcloses.loses w.sink.max_files_).kept
    rw [List.append_nil] at hkept
    exact kept_moveUp_sublist.trans hkept
  have hcleared : ∀ {c : SinkWorld}, Closes os w c → (kept w.sink.max_files_ (Function.update
      (moveUp os.rename_file_ w.sink.max_files_ c.view).2 0 (some []))).Sublist
        (kept w.sink.max_files_ w.view ++ formatted) := fun hcloses =>
    ((kept_clear_sublist _ _).trans (hmoved hcloses)).trans (List.sublist_append_left _ _)
  cases h with
  | appended hfd hfd' hbuffer hroom hcurrent hview =>
    refine ⟨?_, by rw [hfd']; exact hbuffer.sublist⟩
    rw [hview]
    refine kept_update_sublist _ ?_
    cases w.view 0 with
    | none => exact List.nil_sublist _
    | some b => exact List.Sublist.refl _
  | rotated hfd hfd' hfull hcloses hall hcurrent hview =>
    refine ⟨?_, by rw [hfd']; exact List.sublist_append_right _ _⟩
    rw [hview]
    exact (kept_update_sublist _ (List.sublist_append_right _ _)).trans
      ((hmoved hcloses).append (List.Sublist.refl _))
  | renameFailed what hfd hfd' hcloses hfailed hcurrent hview =>
    refine ⟨?_, by rw [hfd']; exact List.nil_sublist _⟩
    rw [hview]
    exact hcleared hcloses
  | reopenFailed what hfd hfd' hcloses hclosed hview =>
    refine ⟨?_, by rw [hfd']; exact List.nil_sublist _⟩
    rcases hview with hview | hview
    · rw [hview]
      exact (hmoved hcloses).trans (List.sublist_append_left _ _)
    · rw [hview]
      exact hcleared hcloses
  | streamFailed what hstreams hloses => exact hloses
  | closed what hfd => exact .refl _ _ _
  | undefined hfd => exact .refl _ _ _

end SinkIt

/-! ### The constructor -/

section Open

open RotatingFile FileHelper

/-- The world after the constructor: the base file is open, and the files are as they were. -/
structure Started (sink : RotatingSink) (d : Disk) (w : SinkWorld) : Prop where
  base : w.sink.base_filename_ = sink.base_filename
  max_size : w.sink.max_size_ = sink.max_size.toNat
  max_files : w.sink.max_files_ = sink.max_files.toNat
  filename : w.filename_ = sink.base_filename
  fd : w.fd_ = some []
  current : w.sink.current_size_ = ((d sink.base_filename).getD []).length
  file : w.disk sink.base_filename = some ((d sink.base_filename).getD [])
  files : ∀ i ≠ 0, w.disk (calc_filename sink.base_filename i) =
    d (calc_filename sink.base_filename i)

theorem openSink_spec {os : Os} {sink : RotatingSink} {d : Disk} {w : SinkWorld}
    (h : openSink os sink d = (.ok (), w)) :
    Started sink d w ∧ ∀ p, p ≠ sink.base_filename → w.disk p = d p := by
  unfold openSink at h
  split_ifs at h
  · cases congrArg Prod.fst h
  · cases congrArg Prod.fst h
  rw [calc_filename_zero] at h
  generalize hw₀ : SinkWorld.mk _ d = w₀ at h
  have hopen := openFile_on os sink.base_filename false (w := w₀) (by rw [← hw₀])
  by_cases hloop : (openLoop false sink.base_filename os.tries w₀.disk).1 = true
  · have hfile := openLoop_append sink.base_filename os.tries w₀.disk hloop
    have hne := fun p hp => openLoop_of_ne false sink.base_filename os.tries w₀.disk (p := p) hp
    rw [if_pos hloop] at hopen
    rw [on_bind_ok hopen] at h
    have hstat : os.fstat = true := by
      by_contra hno
      rw [on_bind_error (size_of_failed rfl (by simpa using hno))] at h
      cases congrArg Prod.fst h
    rw [on_bind_ok (size_of_some rfl hstat)] at h
    generalize openLoop false sink.base_filename os.tries w₀.disk = opened at hfile hne h
    obtain rfl : _ = w := congrArg Prod.snd h
    subst hw₀
    have hlen : ((opened.2 sink.base_filename).getD []).length =
        ((d sink.base_filename).getD []).length := by
      rw [hfile]
      rfl
    refine ⟨⟨rfl, rfl, rfl, rfl, rfl, hlen, hfile, fun i hi => hne _ fun heq => hi ?_⟩, hne⟩
    exact calc_filename_injective _ (heq.trans (calc_filename_zero _).symm)
  · rw [if_neg hloop] at hopen
    rw [on_bind_error hopen] at h
    cases congrArg Prod.fst h

end Open

end LiteMonitor
