import LiteMonitor.Control.Throwing
import LiteMonitor.Log.FileNames
import LiteMonitor.Queue.Generations

/-!
# The file of a sink

`file_helper`, with the files it works on.  The system's side is part of the calls: which calls of
`remove`, `rename`, `fopen`, `fflush`, `fclose`, `fwrite` and `fstat` succeed.  What is written
stands in the buffer of the stream until it is flushed.

* `FileHelper`, `RotatingFile`, `Disk` : the objects and the files; `SinkWorld` : both.
* `FileHelper.flush`, `close`, `openFile`, `reopen`, `size`, `write` : the functions.
* `Os.Streams` : the calls on the stream succeed.
* `SinkWorld.view` : the contents of the sink's files, with what is in the buffer.
* `Framed w w'` : the other files, and what does not change in the sink.
* `view_drained`, `Loses`, `Reopens` : what the functions do to the contents.
-/

namespace LiteMonitor

open Generations Throwing

/-- The files, by their names. -/
abbrev Disk := StdString → Option Bytes

/-- What the two calls of `fopen` in one round of `file_helper::open` answer. -/
structure OpenTry where
  wb : Bool
  ab : Bool
  deriving DecidableEq

/-- A call on a stream that fails: the first `written` bytes of the buffer have got to the file, and
the `lost` bytes behind them get there no more. -/
structure Failure where
  written : ℕ
  lost : ℕ
  deriving DecidableEq

/-- What the system answers during one call: to `remove` and `rename`, for the file that gets the
number `i + 1` and both attempts, to `fopen`, and to the calls on the stream. -/
structure Os where
  rename_file_ : ℕ → Attempt × Attempt
  fopen : ℕ → OpenTry
  fflush : Option Failure
  /-- The stream is closed all the same; what of its buffer has not got to the file is lost. -/
  fclose : Option ℕ
  /-- How many bytes are taken into the buffer before the failure. -/
  fwrite : Option (ℕ × Failure)
  fstat : Bool

/-- What `fopen` answers in the rounds of one call of `file_helper::open`; `open_tries_` is 5. -/
def Os.tries (os : Os) : List OpenTry := (List.range 5).map os.fopen

/-- One of the rounds truncates and opens the file. -/
def Os.opens (os : Os) : Bool := os.tries.any fun t => t.wb && t.ab

/-- `fwrite` returns less than the size of `buf`. -/
def Os.shortWrite (os : Os) (buf : Bytes) : Option (ℕ × Failure) :=
  os.fwrite.filter fun a => a.1 < buf.length

/-- The calls on the stream succeed. -/
structure Os.Streams (os : Os) : Prop where
  fflush : os.fflush = none
  fclose : os.fclose = none
  fwrite : os.fwrite = none
  fstat : os.fstat = true

theorem Os.Streams.shortWrite {os : Os} (h : os.Streams) (buf : Bytes) :
    os.shortWrite buf = none := by
  rw [Os.shortWrite, h.fwrite, Option.filter_none]

/-- What is thrown. -/
inductive LogFault where
  | spdlog_ex (what : LogLine)
  /-- The behaviour is undefined. -/
  | undefined
  deriving DecidableEq

/-- `file_helper`; `fd_` is the buffer of the stream, `none` for a null pointer. -/
structure FileHelper where
  filename_ : StdString
  fd_ : Option Bytes

/-- `rotating_file_sink`. -/
structure RotatingFile where
  base_filename_ : StdString
  max_size_ : ℕ
  max_files_ : ℕ
  current_size_ : ℕ
  file_helper_ : FileHelper

/-- A sink among the files. -/
structure SinkWorld where
  sink : RotatingFile
  disk : Disk

/-- The member functions change the world and may throw. -/
abbrev SinkM := ExceptT LogFault (StateM SinkWorld)

namespace SinkWorld

variable (w : SinkWorld)

/-- The name of the file that is open. -/
abbrev filename_ : StdString := w.sink.file_helper_.filename_

/-- The buffer of the stream. -/
abbrev fd_ : Option Bytes := w.sink.file_helper_.fd_

def withFd (fd_ : Option Bytes) : SinkWorld := { w with sink.file_helper_.fd_ := fd_ }

/-- The first `k` bytes in the buffer are written to the file. -/
def drained (k : ℕ) : SinkWorld :=
  match w.fd_ with
  | none => w
  | some b => { w.withFd (some (b.drop k)) with
      disk := Function.update w.disk w.filename_ ((w.disk w.filename_).map (· ++ b.take k)) }

/-- Everything in the buffer is written to the file. -/
def flushed : SinkWorld := w.drained (w.fd_.getD []).length

/-- A part of the buffer is written to the file, and a part of it is lost. -/
def losing (f : Failure) : SinkWorld :=
  (w.drained f.written).withFd ((w.drained f.written).fd_.map (List.drop f.lost))

/-- The stream is closed. -/
def closed (os : Os) : SinkWorld :=
  (match os.fclose with
    | none => w.flushed
    | some k => w.drained k).withFd none

end SinkWorld

/-! ### `file_helper` -/

namespace FileHelper

/-- `file_helper::flush`; `fflush` of a null pointer does nothing to this stream. -/
def flush (os : Os) : SinkM Unit := do
  match os.fflush with
  | none => modify SinkWorld.flushed
  | some f => do
    modify fun w => w.losing f
    throw (.spdlog_ex ⟨"Failed flush to file {}", [.str (← get).filename_]⟩)

/-- `file_helper::close`; what `fclose` returns is not looked at. -/
def close (os : Os) : SinkM Unit := modify fun w => w.closed os

/-- The rounds of `file_helper::open`. -/
def openLoop (truncate : Bool) (fname : StdString) : List OpenTry → Disk → Bool × Disk
  | [], d => (false, d)
  | t :: tries, d =>
    if truncate && !t.wb then openLoop truncate fname tries d
    else
      let d := if truncate then Function.update d fname (some []) else d
      if t.ab then (true, Function.update d fname (some ((d fname).getD [])))
      else openLoop truncate fname tries d

/-- `file_helper::open`. -/
def openFile (os : Os) (fname : StdString) (truncate : Bool) : SinkM Unit := do
  close os
  modify fun w => { w with sink.file_helper_.filename_ := fname }
  let (opened, d) := openLoop truncate fname os.tries (← get).disk
  modify fun w => { w with disk := d }
  if opened then modify fun w => w.withFd (some [])
  else throw (.spdlog_ex ⟨"Failed opening file {} for writing", [.str fname]⟩)

/-- `file_helper::reopen`. -/
def reopen (os : Os) (truncate : Bool) : SinkM Unit := do
  if (← get).filename_.isEmpty then
    throw (.spdlog_ex ⟨"Failed re opening file - was not opened before", []⟩)
  openFile os (← get).filename_ truncate

/-- `file_helper::size`, and `os::filesize` under it. -/
def size (os : Os) : SinkM ℕ := do
  if (← get).fd_.isNone then
    throw (.spdlog_ex ⟨"Cannot use size() on closed file {}", [.str (← get).filename_]⟩)
  if os.fstat then return (((← get).disk (← get).filename_).getD []).length
  else throw (.spdlog_ex ⟨"Failed getting file size from fd", []⟩)

/-- `file_helper::write`; `fwrite` to a null pointer is undefined. -/
def write (os : Os) (buf : Bytes) : SinkM Unit := do
  match (← get).fd_ with
  | none => throw .undefined
  | some b =>
    match os.shortWrite buf with
    | none => modify fun w => w.withFd (some (b ++ buf))
    | some (n, f) => do
      modify fun w => (w.withFd (some (b ++ buf.take n))).losing f
      throw (.spdlog_ex ⟨"Failed writing to file {}", [.str (← get).filename_]⟩)

end FileHelper

/-! ### The files of a sink -/

/-- The files with the base name `base`, by their numbers. -/
def slots (base : StdString) (d : Disk) : ℕ → Option Bytes := d ∘ calc_filename base

@[simp] theorem slots_update (base : StdString) (d : Disk) (i : ℕ) (c : Option Bytes) :
    slots base (Function.update d (calc_filename base i) c) = Function.update (slots base d) i c :=
  Function.update_comp_eq_of_injective d (calc_filename_injective base) i c

theorem slots_update_base (base : StdString) (d : Disk) (c : Option Bytes) :
    slots base (Function.update d base c) = Function.update (slots base d) 0 c :=
  slots_update base d 0 c

namespace SinkWorld

variable (w : SinkWorld)

/-- The contents of the files, with what is still in the buffer. -/
def view : ℕ → Option Bytes :=
  Function.update (slots w.sink.base_filename_ w.disk) 0
    ((w.disk w.sink.base_filename_).map (· ++ w.fd_.getD []))

theorem view_zero : w.view 0 = (w.disk w.sink.base_filename_).map (· ++ w.fd_.getD []) :=
  Function.update_self ..

theorem view_of_closed (h : w.fd_.getD [] = []) :
    w.view = slots w.sink.base_filename_ w.disk := by
  have hsame : (w.disk w.sink.base_filename_).map (· ++ w.fd_.getD []) =
      slots w.sink.base_filename_ w.disk 0 := by
    rw [h]
    simp [slots, calc_filename]
  rw [view, hsame, Function.update_eq_self]

end SinkWorld

/-- What a call leaves as it is: the other files, and the sink's names and limits. -/
structure Framed (w w' : SinkWorld) : Prop where
  base : w'.sink.base_filename_ = w.sink.base_filename_
  max_size : w'.sink.max_size_ = w.sink.max_size_
  max_files : w'.sink.max_files_ = w.sink.max_files_
  filename : w'.filename_ = w.filename_
  disk : ∀ p, (∀ i ≤ w.sink.max_files_, p ≠ calc_filename w.sink.base_filename_ i) →
    w'.disk p = w.disk p

theorem Framed.refl (w : SinkWorld) : Framed w w := ⟨rfl, rfl, rfl, rfl, fun _ _ => rfl⟩

theorem Framed.trans {w w' w'' : SinkWorld} (h : Framed w w') (h' : Framed w' w'') :
    Framed w w'' := by
  refine ⟨h'.base.trans h.base, h'.max_size.trans h.max_size, h'.max_files.trans h.max_files,
    h'.filename.trans h.filename, fun p hp => ?_⟩
  rw [h'.disk p (by rw [h.base, h.max_files]; exact hp), h.disk p hp]

/-! ### `flush` and `close` -/

section Buffer

variable {w : SinkWorld} (hname : w.filename_ = w.sink.base_filename_)
include hname

theorem view_drained (k : ℕ) : (w.drained k).view = w.view := by
  unfold SinkWorld.drained
  split
  · rfl
  · next b hb =>
    have hslots := slots_update_base w.sink.base_filename_ w.disk
      ((w.disk w.sink.base_filename_).map (· ++ b.take k))
    simp only [SinkWorld.view, SinkWorld.withFd, hname, hslots, Function.update_idem,
      Function.update_self, hb, Option.getD_some, Option.map_map]
    refine congrArg _ (congrArg (Option.map · _) (funext fun c => ?_))
    change c ++ b.take k ++ b.drop k = c ++ b
    rw [List.append_assoc, List.take_append_drop]

theorem framed_drained (k : ℕ) : Framed w (w.drained k) := by
  unfold SinkWorld.drained
  split
  · exact .refl w
  · refine ⟨rfl, rfl, rfl, rfl, fun p hp => ?_⟩
    refine Function.update_of_ne ?_ ..
    rw [hname]
    exact hp 0 (Nat.zero_le _)

omit hname in
theorem fd_drained (k : ℕ) : (w.drained k).fd_ = w.fd_.map (List.drop k) := by
  unfold SinkWorld.drained
  split
  · next h => rw [h, Option.map_none]
  · next b hb => rw [hb, Option.map_some]; rfl

omit hname in
theorem fd_flushed : w.flushed.fd_ = w.fd_.map fun _ => [] := by
  rw [SinkWorld.flushed, fd_drained]
  cases h : w.fd_ with
  | none => rfl
  | some b => simp

omit hname in
theorem current_size_drained (k : ℕ) :
    (w.drained k).sink.current_size_ = w.sink.current_size_ := by
  unfold SinkWorld.drained
  split <;> rfl

end Buffer

section Buffer

variable {w : SinkWorld}

theorem framed_withFd (w : SinkWorld) (fd_ : Option Bytes) : Framed w (w.withFd fd_) :=
  ⟨rfl, rfl, rfl, rfl, fun _ _ => rfl⟩

theorem view_withFd (w : SinkWorld) (fd_ : Option Bytes) : (w.withFd fd_).view =
    Function.update w.view 0 ((w.disk w.sink.base_filename_).map (· ++ fd_.getD [])) := by
  rw [SinkWorld.view, SinkWorld.view, Function.update_idem]
  rfl

/-- What a call does to the bytes in the files up to the number `n` and to those in the buffer: some
of them get lost, and some of those in `c` are added. -/
structure Loses (n : ℕ) (c : Bytes) (w w' : SinkWorld) : Prop where
  kept : (kept n w'.view).Sublist (kept n w.view ++ c)
  fd : (w'.fd_.getD []).Sublist (w.fd_.getD [] ++ c)

variable {n : ℕ} {c : Bytes} {v w' : SinkWorld}

theorem Loses.refl (n : ℕ) (c : Bytes) (w : SinkWorld) : Loses n c w w :=
  ⟨List.sublist_append_left _ _, List.sublist_append_left _ _⟩

theorem Loses.trans (h : Loses n [] w v) (h' : Loses n c v w') : Loses n c w w' := by
  obtain ⟨hkept, hfd⟩ := h
  rw [List.append_nil] at hkept hfd
  exact ⟨h'.kept.trans (hkept.append (List.Sublist.refl c)),
    h'.fd.trans (hfd.append (List.Sublist.refl c))⟩

theorem Loses.snoc (h : Loses n c w v) (h' : Loses n [] v w') : Loses n c w w' := by
  obtain ⟨hkept, hfd⟩ := h'
  rw [List.append_nil] at hkept hfd
  exact ⟨hkept.trans h.kept, hfd.trans h.fd⟩

theorem loses_withFd {fd_ : Option Bytes} (h : (fd_.getD []).Sublist (w.fd_.getD [] ++ c)) :
    Loses n c w (w.withFd fd_) := by
  refine ⟨?_, h⟩
  rw [view_withFd]
  refine kept_update_sublist n ?_
  rw [w.view_zero]
  cases w.disk w.sink.base_filename_ with
  | none => exact List.nil_sublist _
  | some file =>
    rw [Option.map_some, Option.map_some, Option.getD_some, Option.getD_some, List.append_assoc]
    exact (List.Sublist.refl file).append h

theorem loses_drained (hname : w.filename_ = w.sink.base_filename_) (k : ℕ) :
    Loses n [] w (w.drained k) := by
  refine ⟨?_, ?_⟩
  · rw [view_drained hname, List.append_nil]
  · rw [fd_drained, List.append_nil]
    cases w.fd_ with
    | none => exact List.Sublist.refl _
    | some b => exact List.drop_sublist k b

theorem loses_losing (hname : w.filename_ = w.sink.base_filename_) (f : Failure) :
    Loses n [] w (w.losing f) := by
  refine (loses_drained hname f.written).trans (loses_withFd ?_)
  rw [List.append_nil]
  cases (w.drained f.written).fd_ with
  | none => exact List.Sublist.refl _
  | some b => exact List.drop_sublist f.lost b

theorem framed_losing (hname : w.filename_ = w.sink.base_filename_) (f : Failure) :
    Framed w (w.losing f) :=
  (framed_drained hname f.written).trans (framed_withFd _ _)

theorem flushed_of_none (hfd : w.fd_ = none) : w.flushed = w := by
  unfold SinkWorld.flushed SinkWorld.drained
  rw [hfd]

theorem closed_of_none (os : Os) (hfd : w.fd_ = none) : w.closed os = w := by
  have hsame : w.withFd none = w := by rw [SinkWorld.withFd, ← hfd]
  unfold SinkWorld.closed
  cases os.fclose with
  | none =>
    dsimp only
    rw [flushed_of_none hfd, hsame]
  | some k =>
    have hdrained : w.drained k = w := by
      unfold SinkWorld.drained
      rw [hfd]
    dsimp only
    rw [hdrained, hsame]

/-- What `close` does. -/
structure Closes (os : Os) (w c : SinkWorld) : Prop where
  fd : c.fd_ = none
  framed : Framed w c
  loses : ∀ n, Loses n [] w c
  current : c.sink.current_size_ = w.sink.current_size_
  /-- If `fclose` succeeds, nothing gets lost. -/
  view : os.fclose = none → c.view = w.view

theorem closes_closed (os : Os) (hname : w.filename_ = w.sink.base_filename_) :
    Closes os w (w.closed os) := by
  obtain ⟨k, hk⟩ : ∃ k, w.closed os = (w.drained k).withFd none := by
    unfold SinkWorld.closed
    cases os.fclose with
    | none => exact ⟨_, rfl⟩
    | some k => exact ⟨k, rfl⟩
  refine ⟨rfl, ?_, fun n => ?_, ?_, fun hclose => ?_⟩
  · rw [hk]
    exact (framed_drained hname k).trans (framed_withFd _ _)
  · rw [hk]
    exact (loses_drained hname k).trans (loses_withFd (List.nil_sublist _))
  · rw [hk]
    exact current_size_drained k
  · -- there is nothing left in the buffer
    have hflushed : w.closed os = w.flushed.withFd none := by
      unfold SinkWorld.closed
      rw [hclose]
    have hbuf : w.flushed.fd_.getD [] = [] := by
      rw [fd_flushed]
      cases w.fd_ <;> rfl
    have hview : w.flushed.view = w.view := view_drained hname _
    rw [hflushed, SinkWorld.view_of_closed _ rfl, ← hview, w.flushed.view_of_closed hbuf]
    rfl

end Buffer

/-! ### `flush`, `size` and `write` -/

section Stream

variable {w : SinkWorld} {os : Os} {b : Bytes}

open FileHelper

theorem flush_of_none (h : os.fflush = none) : on (flush os) w = (.ok (), w.flushed) := by
  rw [flush, h]
  rfl

theorem flush_of_some {f : Failure} (h : os.fflush = some f) : on (flush os) w =
    (.error (.spdlog_ex ⟨"Failed flush to file {}", [.str (w.losing f).filename_]⟩),
      w.losing f) := by
  rw [flush, h]
  rfl

theorem size_of_none (hfd : w.fd_ = none) : on (size os) w =
    (.error (.spdlog_ex ⟨"Cannot use size() on closed file {}", [.str w.filename_]⟩), w) := by
  have hnone : (none : Option Bytes).isNone = true := rfl
  rw [size, on_get_bind, hfd]
  dsimp only
  rw [if_pos hnone, on_get_bind, on_throw_bind]

theorem size_of_some (hfd : w.fd_ = some b) (hstat : os.fstat = true) :
    on (size os) w = (.ok ((w.disk w.filename_).getD []).length, w) := by
  have hsome : ¬ (some b).isNone = true := by simp
  rw [size, on_get_bind, hfd]
  dsimp only
  rw [if_neg hsome, hstat]
  rfl

theorem size_of_failed (hfd : w.fd_ = some b) (hstat : os.fstat = false) : on (size os) w =
    (.error (.spdlog_ex ⟨"Failed getting file size from fd", []⟩), w) := by
  have hsome : ¬ (some b).isNone = true := by simp
  rw [size, on_get_bind, hfd]
  dsimp only
  rw [if_neg hsome, hstat]
  rfl

theorem write_of_none (buf : Bytes) (hfd : w.fd_ = none) :
    on (write os buf) w = (.error .undefined, w) := by
  rw [write, on_get_bind, hfd]
  rfl

theorem write_of_some {buf : Bytes} (hfd : w.fd_ = some b) (h : os.shortWrite buf = none) :
    on (write os buf) w = (.ok (), w.withFd (some (b ++ buf))) := by
  rw [write, on_get_bind, hfd]
  dsimp only
  rw [h]
  rfl

theorem write_of_short {buf : Bytes} {n : ℕ} {f : Failure} (hfd : w.fd_ = some b)
    (h : os.shortWrite buf = some (n, f)) :
    ∃ what, on (write os buf) w =
      (.error (.spdlog_ex what), (w.withFd (some (b ++ buf.take n))).losing f) := by
  rw [write, on_get_bind, hfd]
  dsimp only
  rw [h]
  exact ⟨_, rfl⟩

end Stream

/-! ### `reopen` -/

section Open

open FileHelper

theorem openLoop_of_ne (truncate : Bool) (fname : StdString) (tries : List OpenTry) (d : Disk)
    {p : StdString} (hp : p ≠ fname) : (openLoop truncate fname tries d).2 p = d p := by
  induction tries generalizing d with
  | nil => rfl
  | cons t tries ih =>
    unfold openLoop
    dsimp only
    split_ifs <;> simp [ih, hp]

theorem openLoop_fst (truncate : Bool) (fname : StdString) (tries : List OpenTry) (d : Disk) :
    (openLoop truncate fname tries d).1 = tries.any fun t => (!truncate || t.wb) && t.ab := by
  induction tries generalizing d with
  | nil => rfl
  | cons t tries ih =>
    unfold openLoop
    rw [List.any_cons]
    dsimp only
    cases truncate <;> cases t.wb <;> cases t.ab <;> simp [ih]

theorem openLoop_append (fname : StdString) (tries : List OpenTry) (d : Disk)
    (h : (openLoop false fname tries d).1 = true) :
    (openLoop false fname tries d).2 fname = some ((d fname).getD []) := by
  induction tries generalizing d with
  | nil => cases h
  | cons t tries ih =>
    unfold openLoop at h ⊢
    simp only [Bool.false_and, Bool.false_eq_true, if_false] at h ⊢
    split_ifs at h ⊢
    · exact Function.update_self ..
    · exact ih d h

/-- A file that was opened after it was truncated is empty; if it could not be opened it may still
have been truncated. -/
theorem openLoop_truncate (fname : StdString) (tries : List OpenTry) (d : Disk) :
    (openLoop true fname tries d).2 fname = some [] ∨
      (openLoop true fname tries d).1 = false ∧
        (openLoop true fname tries d).2 fname = d fname := by
  induction tries generalizing d with
  | nil => exact Or.inr ⟨rfl, rfl⟩
  | cons t tries ih =>
    unfold openLoop
    simp only [Bool.true_and, if_true]
    split_ifs
    · exact ih d
    · exact Or.inl (by simp)
    · rcases ih (Function.update d fname (some [])) with h | ⟨-, h⟩
      · exact Or.inl h
      · exact Or.inl (by rw [h, Function.update_self])

/-- What `reopen(true)` does when the stream is closed. -/
inductive Reopens (os : Os) (w : SinkWorld) : Except LogFault Unit × SinkWorld → Prop
  | opened (d : Disk) (hd : ∀ p, p ≠ w.filename_ → d p = w.disk p)
      (hfile : d w.filename_ = some []) :
      Reopens os w (.ok (), { w.withFd (some []) with disk := d })
  | failed (what : LogLine) (d : Disk) (hclosed : w.filename_ ≠ [] → os.opens = false)
      (hd : ∀ p, p ≠ w.filename_ → d p = w.disk p)
      (hfile : d w.filename_ = some [] ∨ d w.filename_ = w.disk w.filename_) :
      Reopens os w (.error (.spdlog_ex what), { w.withFd none with disk := d })

theorem openFile_on (os : Os) (fname : StdString) (truncate : Bool) {w : SinkWorld}
    (hfd : w.fd_ = none) :
    on (openFile os fname truncate) w =
      if (openLoop truncate fname os.tries w.disk).1 = true then
        (.ok (), ⟨{ w.sink with file_helper_ := ⟨fname, some []⟩ },
          (openLoop truncate fname os.tries w.disk).2⟩)
      else
        (.error (.spdlog_ex ⟨"Failed opening file {} for writing", [.str fname]⟩),
          ⟨{ w.sink with file_helper_ := ⟨fname, none⟩ },
            (openLoop truncate fname os.tries w.disk).2⟩) := by
  have hclosed := closed_of_none os hfd
  have hnull : w.sink.file_helper_.fd_ = none := hfd
  have hrest : on (openFile os fname truncate) w =
      on (if (openLoop truncate fname os.tries (w.closed os).disk).1 = true then
          modify fun w => w.withFd (some [])
        else throw (.spdlog_ex ⟨"Failed opening file {} for writing", [.str fname]⟩))
        ⟨{ (w.closed os).sink with
            file_helper_ := ⟨fname, (w.closed os).sink.file_helper_.fd_⟩ },
          (openLoop truncate fname os.tries (w.closed os).disk).2⟩ := rfl
  rw [hrest, hclosed, hnull]
  split_ifs <;> rfl

theorem reopen_spec (os : Os) {w : SinkWorld} (hfd : w.fd_ = none) :
    Reopens os w (on (reopen os true) w) := by
  rw [reopen, on_get_bind]
  by_cases hempty : w.filename_.isEmpty = true
  · rw [if_pos hempty, on_throw_bind]
    have hsame : w = { w.withFd none with disk := w.disk } := by rw [SinkWorld.withFd, ← hfd]
    rw [hsame]
    exact .failed _ w.disk (absurd (List.isEmpty_iff.1 hempty)) (fun _ _ => rfl) (Or.inr rfl)
  rw [if_neg hempty, on_get_bind, openFile_on os _ _ hfd]
  have hne := fun p hp => openLoop_of_ne true w.filename_ os.tries w.disk
    (p := p) hp
  have htrunc := openLoop_truncate w.filename_ os.tries w.disk
  split_ifs with hopen
  · refine .opened _ hne (htrunc.resolve_right ?_)
    rintro ⟨hfail, -⟩
    rw [hopen] at hfail
    cases hfail
  · refine .failed _ _ (fun _ => ?_) hne (htrunc.imp_right And.right)
    rw [openLoop_fst] at hopen
    simpa [Os.opens] using hopen

end Open

end LiteMonitor
