import LiteMonitor.Config.Logger
import LiteMonitor.Text.Numeral
import LiteMonitor.Text.Utf8
import LiteMonitor.Trapper.Buffer
import Mathlib.Data.List.Nodup

/-!
# The names of the log files

A rotating sink keeps its files under names that it makes from its base name: the file that is
written to has the base name, and older ones have a number before the extension.

* `split_by_extension`, `calc_filename` : the functions of `file_helper` and `rotating_file_sink`.
* `calc_filename_injective` : **the files of a sink have different names**, whatever the base name.
* `sinkNames_disjoint` : the last character of a name tells the sink.
* `logFiles_distinct` : **the three sinks of `initLogger` never share a file**, whatever the
  directory.
-/

namespace LiteMonitor

open StdString

namespace StdString

/-- `s.rfind(c)`. -/
def rfind (s : Bytes) (c : UInt8) : Option ℕ :=
  (s.reverse.findIdx? (· == c)).map fun k => s.length - 1 - k

theorem rfind_append_cons {e : Bytes} {c : UInt8} (he : c ∉ e) (g : Bytes) :
    rfind (g ++ c :: e) c = some g.length := by
  have hrev : (g ++ c :: e).reverse = e.reverse ++ c :: g.reverse := by simp
  rw [rfind, hrev, findIdx?_append_cons (mt List.mem_reverse.1 he), Option.map_some]
  simp only [List.length_append, List.length_cons, List.length_reverse, Option.some.injEq]
  omega

theorem rfind_eq_none {s : Bytes} {c : UInt8} (h : c ∉ s) : rfind s c = none := by
  rw [rfind, Option.map_eq_none_iff, List.findIdx?_eq_none_iff]
  intro x hx
  simpa using fun heq : x = c => h (heq ▸ List.mem_reverse.1 hx)

theorem getElem?_of_rfind {s : Bytes} {c : UInt8} {k : ℕ} (h : rfind s c = some k) :
    s[k]? = some c := by
  by_cases hc : c ∈ s
  · obtain ⟨e, g, hs, he⟩ := List.eq_append_cons_of_mem (List.mem_reverse.2 hc)
    obtain rfl : s = g.reverse ++ c :: e.reverse := by simpa using congrArg List.reverse hs
    rw [rfind_append_cons (mt List.mem_reverse.1 he), Option.some.injEq] at h
    simp [← h]
  · rw [rfind_eq_none hc] at h
    cases h

end StdString

/-- `file_helper::split_by_extension`. -/
def split_by_extension (fname : StdString) : StdString × StdString :=
  match rfind fname 46 with
  | none => (fname, [])
  | some ext_index =>
    if ext_index = 0 ∨ ext_index = fname.length - 1 then (fname, [])
    else match rfind fname 47 with
      | some folder_index =>
        if folder_index ≥ ext_index - 1 then (fname, [])
        else (fname.take ext_index, fname.drop ext_index)
      | none => (fname.take ext_index, fname.drop ext_index)

/-- A number in a file name. -/
def decimal (n : ℕ) : StdString := Utf8.bytes (Nat.toDigits 10 n)

/-- `rotating_file_sink::calc_filename`. -/
def calc_filename (filename : StdString) (index : ℕ) : StdString :=
  if index = 0 then filename
  else (split_by_extension filename).1 ++ [46] ++ decimal index ++ (split_by_extension filename).2

/-! ### The files of one sink -/

theorem calc_filename_zero (filename : StdString) : calc_filename filename 0 = filename :=
  if_pos rfl

theorem split_append (fname : StdString) :
    (split_by_extension fname).1 ++ (split_by_extension fname).2 = fname := by
  unfold split_by_extension
  split
  · exact List.append_nil _
  split_ifs
  · exact List.append_nil _
  split
  · split_ifs
    · exact List.append_nil _
    · exact List.take_append_drop ..
  · exact List.take_append_drop ..

theorem decimal_injective : Function.Injective decimal := by
  intro m n h
  have hdigits := Utf8.bytes_injective h
  rw [← Numeral.value_toDigits m, hdigits, Numeral.value_toDigits]

theorem length_lt_calc_filename (filename : StdString) {index : ℕ} (h : index ≠ 0) :
    filename.length < (calc_filename filename index).length := by
  have hlen := congrArg List.length (split_append filename)
  rw [calc_filename, if_neg h]
  simp only [List.length_append, List.length_singleton] at hlen ⊢
  omega

/-- **The files of a sink have different names.** -/
theorem calc_filename_injective (filename : StdString) :
    Function.Injective (calc_filename filename) := by
  intro i j h
  by_cases hi : i = 0 <;> by_cases hj : j = 0
  · rw [hi, hj]
  · have hlt := length_lt_calc_filename filename hj
    rw [← h, hi, calc_filename, if_pos rfl] at hlt
    exact absurd hlt (lt_irrefl _)
  · have hlt := length_lt_calc_filename filename hi
    rw [h, hj, calc_filename, if_pos rfl] at hlt
    exact absurd hlt (lt_irrefl _)
  · rw [calc_filename, calc_filename, if_neg hi, if_neg hj] at h
    exact decimal_injective (List.append_cancel_left (List.append_cancel_right h))

/-! ### The files of several sinks -/

/-- The extension is what follows the last point, unless it is in a directory or begins the name. -/
theorem split_of_extension {base e : StdString} {x : UInt8} (hbase : base ≠ [])
    (hlast : base.getLast? ≠ some 47) (hpoint : 46 ∉ x :: e) (hslash : 47 ∉ x :: e) :
    split_by_extension (base ++ 46 :: x :: e) = (base, 46 :: x :: e) := by
  have hpos := List.length_pos_iff.2 hbase
  unfold split_by_extension
  rw [rfind_append_cons hpoint]
  have hindex : ¬ (base.length = 0 ∨ base.length = (base ++ 46 :: x :: e).length - 1) := by
    simp only [List.length_append, List.length_cons]
    omega
  simp only [if_neg hindex, List.take_left', List.drop_left']
  split
  next k hk =>
    have hget := getElem?_of_rfind hk
    -- the directory ends before the last character of the base
    have hlt : k < base.length := by
      by_contra hle
      rw [List.getElem?_append_right (not_lt.1 hle)] at hget
      have hmem := List.mem_of_getElem? hget
      rcases List.mem_cons.1 hmem with h46 | hmem
      · exact absurd h46 (by decide)
      · exact hslash hmem
    rw [List.getElem?_append_left hlt] at hget
    have hne : k ≠ base.length - 1 := by
      rintro rfl
      rw [← List.getLast?_eq_getElem?] at hget
      exact hlast hget
    rw [if_neg (by omega)]
  · rfl

theorem getLast?_calc_filename {filename : StdString}
    (h : (split_by_extension filename).2 ≠ []) (index : ℕ) :
    (calc_filename filename index).getLast? = filename.getLast? := by
  have hend : ∀ base : StdString, (base ++ (split_by_extension filename).2).getLast? =
      (split_by_extension filename).2.getLast? := fun base => List.getLast?_append_of_ne_nil _ h
  unfold calc_filename
  split_ifs
  · rfl
  · rw [hend, ← hend (split_by_extension filename).1, split_append]

/-- The base name with the extension `e`. -/
def sinkName (log_dir e : StdString) : StdString :=
  log_dir ++ stdString "/lite_monitor" ++ 46 :: e

/-- The base names of the sinks of `initLogger`. -/
def sinkNames (log_dir : StdString) : List StdString :=
  [stdString "log", stdString "warn", stdString "error"].map (sinkName log_dir)

theorem sinkNames_eq (log_dir : StdString) : sinkNames log_dir =
    [log_dir ++ stdString "/lite_monitor.log", log_dir ++ stdString "/lite_monitor.warn",
      log_dir ++ stdString "/lite_monitor.error"] := by
  have hlog : stdString "/lite_monitor.log" =
    stdString "/lite_monitor" ++ 46 :: stdString "log" := by decide
  have hwarn : stdString "/lite_monitor.warn" =
    stdString "/lite_monitor" ++ 46 :: stdString "warn" := by decide
  have herror : stdString "/lite_monitor.error" =
    stdString "/lite_monitor" ++ 46 :: stdString "error" := by decide
  rw [hlog, hwarn, herror]
  simp only [sinkNames, sinkName, List.map_cons, List.map_nil, List.append_assoc]

theorem split_sinkName (log_dir : StdString) {x : UInt8} {e : StdString} (hpoint : 46 ∉ x :: e)
    (hslash : 47 ∉ x :: e) :
    split_by_extension (sinkName log_dir (x :: e)) =
      (log_dir ++ stdString "/lite_monitor", 46 :: x :: e) := by
  have hname : stdString "/lite_monitor" ≠ [] := by decide
  refine split_of_extension (List.append_ne_nil_of_right_ne_nil _ hname) ?_ hpoint hslash
  rw [List.getLast?_append_of_ne_nil _ hname]
  decide

theorem getLast?_sinkName (log_dir : StdString) {e : StdString}
    (h : e ∈ [stdString "log", stdString "warn", stdString "error"]) (index : ℕ) :
    (calc_filename (sinkName log_dir e) index).getLast? = e.getLast? := by
  have hsplit : (split_by_extension (sinkName log_dir e)).2 = 46 :: e ∧ e ≠ [] := by
    simp only [List.mem_cons, List.not_mem_nil, or_false] at h
    rcases h with rfl | rfl | rfl <;>
      exact ⟨congrArg Prod.snd (split_sinkName log_dir (by decide) (by decide)), by decide⟩
  rw [getLast?_calc_filename (by rw [hsplit.1]; exact List.cons_ne_nil _ _), sinkName,
    List.getLast?_append_of_ne_nil _ (List.cons_ne_nil _ _),
    List.getLast?_cons_of_ne_nil hsplit.2]

/-- Two files of the sinks have one name only if they are the same file of the same sink. -/
theorem sinkNames_disjoint (log_dir : StdString) {f g : StdString} (hf : f ∈ sinkNames log_dir)
    (hg : g ∈ sinkNames log_dir) {i j : ℕ} (h : calc_filename f i = calc_filename g j) :
    f = g ∧ i = j := by
  obtain ⟨e, he, rfl⟩ := List.mem_map.1 hf
  obtain ⟨e', he', rfl⟩ := List.mem_map.1 hg
  have hlast : e.getLast? = e'.getLast? := by
    rw [← getLast?_sinkName log_dir he i, h, getLast?_sinkName log_dir he' j]
  have hext : e = e' := by
    revert hlast
    clear h hf hg
    revert e e'
    decide
  subst hext
  exact ⟨rfl, calc_filename_injective _ h⟩

/-! ### The sinks of `initLogger` -/

theorem base_filename_of_rotatingSink {files : LogFiles} {name : StdString} {size num : UInt64}
    {level : LogLevel} {sink : RotatingSink}
    (h : files.rotatingSink name size num level = .ok sink) : sink.base_filename = name := by
  unfold LogFiles.rotatingSink at h
  split_ifs at h
  obtain ⟨-, -, hsink⟩ := bind_eq_ok_iff.1 h
  rw [← Except.ok.inj hsink]

theorem base_filenames_of_makeLogger {files : LogFiles} {params : LogParams} {size : Int32}
    {outcome : LoggerOutcome} (h : files.makeLogger params size = .ok outcome) :
    outcome.sinks.map RotatingSink.base_filename = sinkNames params.log_dir := by
  obtain ⟨info_sink, hinfo, h⟩ := bind_eq_ok_iff.1 h
  obtain ⟨warn_sink, hwarn, h⟩ := bind_eq_ok_iff.1 h
  obtain ⟨error_sink, herror, h⟩ := bind_eq_ok_iff.1 h
  rw [← Except.ok.inj h, sinkNames_eq]
  simp only [LoggerOutcome.sinks, List.map_cons, List.map_nil,
    base_filename_of_rotatingSink hinfo, base_filename_of_rotatingSink hwarn,
    base_filename_of_rotatingSink herror]

theorem sinkNames_nodup (log_dir : StdString) : (sinkNames log_dir).Nodup := by
  refine List.Nodup.map (fun e e' h => ?_) (by decide)
  exact (List.cons.inj (List.append_cancel_left h)).2

theorem base_filenames_of_initLogger {files : LogFiles} {params : LogParams}
    {outcome : LoggerOutcome} (h : initLogger files params = some outcome) :
    outcome.sinks = [] ∨
      outcome.sinks.map RotatingSink.base_filename = sinkNames params.log_dir := by
  obtain ⟨size, -, h⟩ := Option.bind_eq_some_iff.1 h
  split_ifs at h
  · exact Or.inl (by rw [← Option.some.inj h]; rfl)
  · cases hmake : files.makeLogger params size with
    | ok ready =>
      rw [hmake] at h
      exact Or.inr (by rw [← Option.some.inj h]; exact base_filenames_of_makeLogger hmake)
    | error what =>
      rw [hmake] at h
      exact Or.inl (by rw [← Option.some.inj h]; rfl)

/-- **No two log files have one name.**  Whatever the directory, its dots and slashes included, the
files of all sinks that `initLogger` makes, at all numbers, have different names. -/
theorem logFiles_distinct {files : LogFiles} {params : LogParams} {outcome : LoggerOutcome}
    (h : initLogger files params = some outcome) :
    ∀ a ∈ outcome.sinks, ∀ b ∈ outcome.sinks, ∀ i j,
      calc_filename a.base_filename i = calc_filename b.base_filename j → a = b ∧ i = j := by
  intro a ha b hb i j hname
  rcases base_filenames_of_initLogger h with hnil | hnames
  · rw [hnil] at ha
    cases ha
  have hmem : ∀ c ∈ outcome.sinks, c.base_filename ∈ sinkNames params.log_dir := fun c hc =>
    hnames ▸ List.mem_map_of_mem hc
  obtain ⟨hbase, hij⟩ := sinkNames_disjoint params.log_dir (hmem a ha) (hmem b hb) hname
  have hnodup := sinkNames_nodup params.log_dir
  rw [← hnames] at hnodup
  exact ⟨List.inj_on_of_nodup_map hnodup ha hb hbase, hij⟩

/-- The parameters of the repository, where every file can be opened. -/
theorem logFiles_distinct_shipped : ∃ outcome : LoggerOutcome,
    initLogger ⟨fun _ => true, fun _ => true, fun _ => .ok ()⟩
      ((initialParams 0).update shippedValues).log_params = some outcome ∧
    outcome.sinks.length = 3 ∧
    ∀ a ∈ outcome.sinks, ∀ b ∈ outcome.sinks, ∀ i j,
      calc_filename a.base_filename i = calc_filename b.base_filename j → a = b ∧ i = j := by
  have hsinks : ((initLogger ⟨fun _ => true, fun _ => true, fun _ => .ok ()⟩
      ((initialParams 0).update shippedValues).log_params).map fun outcome =>
        outcome.sinks.length) = some 3 := by decide
  obtain ⟨outcome, houtcome, hlen⟩ := Option.map_eq_some_iff.1 hsinks
  exact ⟨outcome, houtcome, hlen, logFiles_distinct houtcome⟩

end LiteMonitor
