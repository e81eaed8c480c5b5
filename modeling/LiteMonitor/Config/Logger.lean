import LiteMonitor.Config.Document
import LiteMonitor.Control.Traversal
import Mathlib.Algebra.Group.Int.Defs
import Mathlib.Tactic.SplitIfs

/-!
# The logger

`initLogger`, which takes the log parameters that the loader has left.  It multiplies the size of a
log file as an `int`, and passes the product on as a `size_t`.

* `mulInt a b` : the product of two `int`s; it is undefined if it overflows.
* `fileSize params`, `initLogger files params` : the size of a file, and the function.
* `SizeUsable params` : the size is defined and positive, and the sinks get so many mebibytes.
* `sizeUsable_iff` : **valid parameters have a usable size exactly up to 2047 mebibytes.**
-/

namespace LiteMonitor

/-- The product of two `int`s; an overflow is undefined. -/
def mulInt (a b : Int32) : Option Int32 :=
  if -2 ^ 31 ≤ a.toInt * b.toInt ∧ a.toInt * b.toInt < 2 ^ 31 then
    some (Int32.ofInt (a.toInt * b.toInt))
  else none

theorem mulInt_eq_some_iff {a b c : Int32} :
    mulInt a b = some c ↔ c.toInt = a.toInt * b.toInt := by
  unfold mulInt
  split_ifs with h
  · rw [Option.some_inj, ← Int32.toInt_inj, Int32.toInt_ofInt_of_le h.1 h.2, eq_comm]
  · refine iff_of_false (by rintro ⟨⟩) fun heq => h ?_
    rw [← heq]
    exact ⟨c.le_toInt, c.toInt_lt⟩

/-- The conversion of an `int` to `size_t`. -/
def sizeT (n : Int32) : UInt64 := UInt64.ofInt n.toInt

/-- `spdlog::level::level_enum`. -/
inductive LogLevel where
  | trace
  | debug
  | info
  | warn
  | err
  | critical
  | off
  deriving DecidableEq

/-- `spdlog::level::from_str`. -/
def LogLevel.from_str (name : StdString) : LogLevel :=
  if name = stdString "trace" then .trace
  else if name = stdString "debug" then .debug
  else if name = stdString "info" then .info
  else if name = stdString "warning" then .warn
  else if name = stdString "error" then .err
  else if name = stdString "critical" then .critical
  else if name = stdString "off" then .off
  else if name = stdString "warn" then .warn
  else if name = stdString "err" then .err
  else .off

/-- What the logger asks about files. -/
structure LogFiles where
  /-- `access(path, F_OK) == 0`. -/
  access : StdString → Bool
  /-- `mkdir(path, 0755) == 0`. -/
  mkdir : StdString → Bool
  /-- `file_helper::open`, which may throw. -/
  open_file : StdString → Except String Unit

/-- A `rotating_file_sink`. -/
structure RotatingSink where
  base_filename : StdString
  max_size : UInt64
  max_files : UInt64
  level : LogLevel
  deriving DecidableEq

/-- The constructor of a `rotating_file_sink`, and `set_level`. -/
def LogFiles.rotatingSink (files : LogFiles) (base_filename : StdString)
    (max_size max_files : UInt64) (level : LogLevel) : Except String RotatingSink :=
  if max_size = 0 then .error "rotating sink constructor: max_size arg cannot be zero"
  else if max_files > 200000 then
    .error "rotating sink constructor: max_files arg cannot exceed 200000"
  else do
    files.open_file base_filename
    return ⟨base_filename, max_size, max_files, level⟩

/-- A line of the log, with what stands for `{}`. -/
structure LogLine where
  format : String
  args : List LogArg
  deriving DecidableEq

/-- How `initLogger` comes out. -/
inductive LoggerOutcome where
  /-- The directory cannot be made. -/
  | noDirectory (line : LogLine)
  /-- An exception is printed. -/
  | failed (what : String)
  /-- There is a new default logger, with these sinks besides the console. -/
  | ready (level : LogLevel) (sinks : List RotatingSink) (line : LogLine)
  deriving DecidableEq

namespace LoggerOutcome

def sinks : LoggerOutcome → List RotatingSink
  | .ready _ sinks _ => sinks
  | _ => []

end LoggerOutcome

/-- `params.max_log_file_size * 1024 * 1024`. -/
def fileSize (params : LogParams) : Option Int32 := do
  mulInt (← mulInt params.max_log_file_size 1024) 1024

/-- The sinks and the new default logger. -/
def LogFiles.makeLogger (files : LogFiles) (params : LogParams) (max_log_file_size : Int32) :
    Except String LoggerOutcome := do
  let global_level := LogLevel.from_str params.log_level
  let size := sizeT max_log_file_size
  let num := sizeT params.max_log_file_num
  let info_sink ← files.rotatingSink (params.log_dir ++ stdString "/lite_monitor.log") size num
    global_level
  let warn_sink ← files.rotatingSink (params.log_dir ++ stdString "/lite_monitor.warn") size num
    .warn
  let error_sink ← files.rotatingSink (params.log_dir ++ stdString "/lite_monitor.error") size num
    .err
  return .ready global_level [info_sink, warn_sink, error_sink]
    ⟨"[initLogger] dir={}, level={}, max_size={}MB, max_files={}",
      [.str params.log_dir, .str params.log_level, .int params.max_log_file_size,
        .int params.max_log_file_num]⟩

def initLogger (files : LogFiles) (params : LogParams) : Option LoggerOutcome := do
  let max_log_file_size ← fileSize params
  if !files.access params.log_dir && !files.mkdir params.log_dir then
    return .noDirectory ⟨"[initLogger] Failed to create log directory: {}", [.str params.log_dir]⟩
  else
    return match files.makeLogger params max_log_file_size with
      | .ok outcome => outcome
      | .error what => .failed what

/-! ### Sizes -/

theorem fileSize_eq_some_iff {params : LogParams} {size : Int32} :
    fileSize params = some size ↔ size.toInt = params.max_log_file_size.toInt * 2 ^ 20 := by
  have hkib : (1024 : Int32).toInt = 1024 := by decide
  unfold fileSize
  simp only [Option.bind_eq_bind, Option.bind_eq_some_iff, mulInt_eq_some_iff, hkib]
  constructor
  · rintro ⟨kib, hk, hsize⟩
    omega
  · intro hsize
    -- the first product is smaller than the second one
    have hlow := size.le_toInt
    have hhigh := size.toInt_lt
    have hk : (Int32.ofInt (params.max_log_file_size.toInt * 1024)).toInt =
        params.max_log_file_size.toInt * 1024 :=
      Int32.toInt_ofInt_of_le (by omega) (by omega)
    exact ⟨_, hk, by omega⟩

theorem exists_fileSize_iff {params : LogParams} (h : 0 < params.max_log_file_size) :
    (∃ size, fileSize params = some size) ↔ params.max_log_file_size ≤ 2047 := by
  rw [Int32.lt_iff_toInt_lt] at h
  rw [Int32.le_iff_toInt_le]
  have hbound : (2047 : Int32).toInt = 2047 := by decide
  have hzero : (0 : Int32).toInt = 0 := by decide
  simp only [fileSize_eq_some_iff, hbound]
  constructor
  · rintro ⟨size, hsize⟩
    have hhigh := size.toInt_lt
    omega
  · intro hle
    exact ⟨Int32.ofInt _, Int32.toInt_ofInt_of_le (by omega) (by omega)⟩

theorem toNat_sizeT {n : Int32} (h : 0 ≤ n.toInt) : ((sizeT n).toNat : ℤ) = n.toInt := by
  have hhigh := n.toInt_lt
  have hmod : n.toInt % 2 ^ 64 = n.toInt := Int.emod_eq_of_lt h (by omega)
  rw [sizeT, UInt64.ofInt, hmod, UInt64.toNat_ofNat', Nat.mod_eq_of_lt (by omega),
    Int.toNat_of_nonneg h]

theorem max_size_of_rotatingSink {files : LogFiles} {name : StdString} {size num : UInt64}
    {level : LogLevel} {sink : RotatingSink}
    (h : files.rotatingSink name size num level = .ok sink) : sink.max_size = size := by
  unfold LogFiles.rotatingSink at h
  split_ifs at h
  obtain ⟨-, -, hsink⟩ := bind_eq_ok_iff.1 h
  rw [← Except.ok.inj hsink]

theorem max_size_of_makeLogger {files : LogFiles} {params : LogParams} {size : Int32}
    {outcome : LoggerOutcome} (h : files.makeLogger params size = .ok outcome) :
    ∀ sink ∈ outcome.sinks, sink.max_size = sizeT size := by
  obtain ⟨info_sink, hinfo, h⟩ := bind_eq_ok_iff.1 h
  obtain ⟨warn_sink, hwarn, h⟩ := bind_eq_ok_iff.1 h
  obtain ⟨error_sink, herror, h⟩ := bind_eq_ok_iff.1 h
  rw [← Except.ok.inj h]
  simp only [LoggerOutcome.sinks, List.forall_mem_cons]
  exact ⟨max_size_of_rotatingSink hinfo, max_size_of_rotatingSink hwarn,
    max_size_of_rotatingSink herror, List.forall_mem_nil _⟩

/-- With a size the function comes to an end, and every sink gets the size. -/
theorem initLogger_spec (files : LogFiles) {params : LogParams} {size : Int32}
    (hsize : fileSize params = some size) : ∃ outcome, initLogger files params = some outcome ∧
      ∀ sink ∈ outcome.sinks, sink.max_size = sizeT size := by
  rw [initLogger, hsize]
  change ∃ outcome, (if (!files.access params.log_dir && !files.mkdir params.log_dir) = true
    then _ else _) = some outcome ∧ _
  split_ifs
  · exact ⟨_, rfl, List.forall_mem_nil _⟩
  · refine ⟨_, rfl, ?_⟩
    cases hmake : files.makeLogger params size with
    | ok outcome => exact max_size_of_makeLogger hmake
    | error what => exact List.forall_mem_nil _

/-- The size of a log file is defined and positive, and the sinks get so many mebibytes. -/
structure SizeUsable (params : LogParams) : Prop where
  no_overflow : ∃ size, fileSize params = some size
  positive : ∀ size, fileSize params = some size →
    0 < size ∧ ((sizeT size).toNat : ℤ) = params.max_log_file_size.toInt * 2 ^ 20
  logger : ∀ files, ∃ outcome, initLogger files params = some outcome ∧
    ∀ sink ∈ outcome.sinks,
      (sink.max_size.toNat : ℤ) = params.max_log_file_size.toInt * 2 ^ 20

/-- **Valid log sizes are usable exactly up to 2047 mebibytes.** -/
theorem sizeUsable_iff {p : Parameters} (h : (validateConfigs p).1 = none) :
    SizeUsable p.log_params ↔ p.log_params.max_log_file_size ≤ 2047 := by
  have hvalid : Field.Valid .max_log_file_size p.log_params.max_log_file_size :=
    validateConfigs_fst_eq_none_iff.1 h .max_log_file_size
  have hpos : 0 < p.log_params.max_log_file_size :=
    Int32.not_le.1 (of_decide_eq_false hvalid)
  rw [← exists_fileSize_iff hpos]
  refine ⟨SizeUsable.no_overflow, fun hsome => ?_⟩
  have hsizes : ∀ size, fileSize p.log_params = some size →
      0 < size ∧ ((sizeT size).toNat : ℤ) = p.log_params.max_log_file_size.toInt * 2 ^ 20 := by
    intro size hsize
    rw [fileSize_eq_some_iff] at hsize
    rw [Int32.lt_iff_toInt_lt] at hpos ⊢
    have hzero : (0 : Int32).toInt = 0 := by decide
    rw [hzero] at hpos ⊢
    exact ⟨by omega, by rw [toNat_sizeT (by omega), hsize]⟩
  refine ⟨hsome, hsizes, fun files => ?_⟩
  obtain ⟨size, hsize⟩ := hsome
  obtain ⟨outcome, houtcome, hsinks⟩ := initLogger_spec files hsize
  refine ⟨outcome, houtcome, fun sink hsink => ?_⟩
  rw [hsinks sink hsink]
  exact (hsizes size hsize).2

/-- The parameters of the repository. -/
theorem sizeUsable_shipped : SizeUsable ((initialParams 0).update shippedValues).log_params :=
  (sizeUsable_iff rfl).2 (by decide)

/-- With 2048 mebibytes the parameters are valid, and the size overflows. -/
theorem not_sizeUsable : ∃ p : Parameters, p.log_params.max_log_file_size = 2048 ∧
    (validateConfigs p).1 = none ∧ ¬ SizeUsable p.log_params := by
  refine ⟨((initialParams 0).update shippedValues).set .max_log_file_size (2048 : Int32), rfl, rfl,
    fun h => ?_⟩
  obtain ⟨size, hsize⟩ := h.no_overflow
  have hnone : fileSize (((initialParams 0).update shippedValues).set .max_log_file_size
      (2048 : Int32)).log_params = none := by decide
  rw [hnone] at hsize
  simp at hsize

end LiteMonitor
