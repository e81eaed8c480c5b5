import LiteMonitor.Config.Loader

/-!
# What a configuration file gives

The fields that are loaded from a file, whatever the parameters were before.

* `Gives files path given` : the file has all sections, and `given` are the values in it.
* `loadConfigs_updates`, `loadConfigs_throws` : the values are assigned, or **the file is rejected
  whatever the parameters are**.
* `validateConfigs_cases` : the parameters pass, or the first invalid value is replaced.
* `ofValues given` : a file that gives these values; `shippedValues` : those of the repository.
-/

namespace LiteMonitor

open Throwing

theorem Section.mem_fields (f : Field) : f ∈ f.path.1.fields := by
  cases f <;> decide

theorem Section.mem_all (s : Section) : s ∈ all := by
  cases s <;> decide

namespace ConfigFiles

variable {N : Type} (files : ConfigFiles N)

/-- What the file says about a field, if its key is there. -/
def value (config : N) (f : Field) : Except String (Option f.Ty) := do
  let node ← files.lookup config f.path
  if files.isDefined node then some <$> files.as f.kind node else pure none

/-- The section is there. -/
def HasSection (config : N) (s : Section) : Prop :=
  ∃ node, files.subscript config s.name = .ok node ∧ files.isDefined node = true

/-- The file has all sections, every value in it converts to the type of its field, and `given`
are the values. -/
def Gives (config_file_path : StdString) (given : (f : Field) → Option f.Ty) : Prop :=
  ∃ config, files.LoadFile config_file_path = .ok config ∧
    (∀ s, files.HasSection config s) ∧ ∀ f, files.value config f = .ok (given f)

variable {files} {config : N} {config_file_path : StdString} {given : (f : Field) → Option f.Ty}

theorem on_loadField (f : Field) (p : Parameters) :
    on (files.loadField config f) p =
      match files.value config f with
      | .ok v => (.ok (), v.elim p (p.set f))
      | .error what => (.error (caught what), p) := by
  cases hnode : files.lookup config f.path with
  | error what =>
    have hvalue : files.value config f = .error what := by
      rw [value, hnode]
      rfl
    rw [hvalue, loadField, hnode]
    rfl
  | ok node =>
    have hvalue : files.value config f =
        if files.isDefined node then some <$> files.as f.kind node else pure none := by
      rw [value, hnode]
      rfl
    have hload : files.loadField config f =
        if files.isDefined node then
          trying (files.as f.kind node) >>= fun v => modify fun p => p.set f v
        else pure () := by
      rw [loadField, hnode]
      rfl
    rw [hvalue, hload]
    cases files.isDefined node with
    | false => rfl
    | true => cases files.as f.kind node <;> rfl

theorem loadField_updates {f : Field} (h : files.value config f = .ok (given f)) :
    Updates (files.loadField config f) (Parameters.update (Form.restrict [f] given)) := by
  intro p
  rw [on_loadField, h, Parameters.update_restrict_singleton]

/-- What does not convert is thrown, whatever the parameters are. -/
theorem loadField_cases (f : Field) :
    (∃ v, files.value config f = .ok v) ∨ Throws (files.loadField config f) := by
  cases hv : files.value config f with
  | ok v => exact Or.inl ⟨v, rfl⟩
  | error what =>
    refine Or.inr ⟨caught what, fun p => ?_⟩
    rw [on_loadField, hv]

/-- The section is there, and the values in it convert. -/
def Readable (files : ConfigFiles N) (config : N) (s : Section) : Prop :=
  files.HasSection config s ∧ ∀ f ∈ s.fields, ∃ v, files.value config f = .ok v

/-- The values that convert. -/
def values (files : ConfigFiles N) (config : N) (f : Field) : Option f.Ty :=
  match files.value config f with
  | .ok v => v
  | .error _ => none

theorem value_eq_values {f : Field} (h : ∃ v, files.value config f = .ok v) :
    files.value config f = .ok (files.values config f) := by
  obtain ⟨v, hv⟩ := h
  rw [values, hv]

theorem forM_update {ι : Type} {l : List ι} {m : ι → Load Unit} {fs : ι → List Field}
    (h : ∀ x ∈ l, Updates (m x) (Parameters.update (Form.restrict (fs x) given))) :
    Updates (l.forM m) (Parameters.update (Form.restrict (l.flatMap fs) given)) := by
  intro p
  rw [forM_updates h p, ← Parameters.foldl_update]

theorem loadSection_eq {s : Section} (h : files.HasSection config s) :
    files.loadSection config s = s.fields.forM (files.loadField config) := by
  obtain ⟨node, hnode, hdefined⟩ := h
  rw [loadSection, hnode]
  change (if !files.isDefined node then _ else _) = _
  rw [hdefined]
  rfl

theorem loadSection_updates {s : Section} (hs : files.HasSection config s)
    (h : ∀ f ∈ s.fields, files.value config f = .ok (given f)) :
    Updates (files.loadSection config s) (Parameters.update (Form.restrict s.fields given)) := by
  have hloop := forM_update fun f hf => loadField_updates (h f hf)
  rw [List.flatMap_singleton'] at hloop
  rw [loadSection_eq hs]
  exact hloop

theorem loadSection_throws {s : Section} (h : ¬ files.Readable config s) :
    Throws (files.loadSection config s) := by
  by_cases hs : files.HasSection config s
  · rw [loadSection_eq hs]
    have hthrows : ∃ f ∈ s.fields, Throws (files.loadField config f) := by
      by_contra hnone
      push Not at hnone
      exact h ⟨hs, fun f hf => (loadField_cases f).resolve_right (hnone f hf)⟩
    refine forM_throws (fun f _ => (loadField_cases f).imp_left fun hv => ?_) hthrows
    exact ⟨_, loadField_updates (value_eq_values hv)⟩
  · cases hnode : files.subscript config s.name with
    | error what =>
      refine ⟨caught what, fun p => ?_⟩
      rw [loadSection, hnode]
      rfl
    | ok node =>
      have hdefined : files.isDefined node = false := by
        by_contra hne
        exact hs ⟨node, hnode, by simpa using hne⟩
      have heq : files.loadSection config s = throw ⟨s.missing, none⟩ := by
        rw [loadSection, hnode]
        change (if !files.isDefined node then _ else _) = _
        rw [hdefined]
        rfl
      rw [heq]
      exact throws_throw _

theorem loadConfigs_eq (h : files.LoadFile config_file_path = .ok config) :
    files.loadConfigs config_file_path = Section.all.forM (files.loadSection config) := by
  rw [loadConfigs, h]
  rfl

/-- **What is loaded from a file.** -/
theorem loadConfigs_updates (h : files.Gives config_file_path given) :
    Updates (files.loadConfigs config_file_path) (Parameters.update given) := by
  obtain ⟨config, hfile, hsections, hvalues⟩ := h
  have hloop := forM_update fun s (_ : s ∈ Section.all) =>
    loadSection_updates (hsections s) fun f _ => hvalues f
  have hall : ∀ f, f ∈ Section.all.flatMap Section.fields := fun f =>
    List.mem_flatMap.2 ⟨f.path.1, Section.mem_all _, Section.mem_fields f⟩
  rw [Form.restrict_eq_self hall] at hloop
  rw [loadConfigs_eq hfile]
  exact hloop

/-- **A file that does not load is rejected whatever the parameters are.** -/
theorem loadConfigs_throws (h : ∀ given, ¬ files.Gives config_file_path given) :
    Throws (files.loadConfigs config_file_path) := by
  cases hfile : files.LoadFile config_file_path with
  | error what =>
    refine ⟨caught what, fun p => ?_⟩
    rw [loadConfigs, hfile]
    rfl
  | ok config =>
    have hsome : ∃ s, ¬ files.Readable config s := by
      by_contra hall
      push Not at hall
      refine h (files.values config) ⟨config, hfile, fun s => (hall s).1, fun f => ?_⟩
      exact value_eq_values ((hall f.path.1).2 f (Section.mem_fields f))
    have hcases : ∀ s, (∃ u, Updates (files.loadSection config s) u) ∨
        Throws (files.loadSection config s) := by
      intro s
      by_cases hs : files.Readable config s
      · exact Or.inl ⟨_, loadSection_updates hs.1 fun f hf => value_eq_values (hs.2 f hf)⟩
      · exact Or.inr (loadSection_throws hs)
    obtain ⟨s, hs⟩ := hsome
    rw [loadConfigs_eq hfile]
    exact forM_throws (fun s _ => hcases s) ⟨s, Section.mem_all s, loadSection_throws hs⟩

end ConfigFiles

/-! ### What is checked -/

variable {p : Parameters}

theorem eq_of_mem_checks {c : Check Parameters ErrorLine} (h : c ∈ checks) :
    c = retentionCheck ∨ ∃ f text shown, c = Field.check f text shown := by
  simp only [checks, List.mem_cons, List.not_mem_nil, or_false] at h
  rcases h with h | h | h | h | h | h | h | h | h | h | h | h | h | h
  all_goals first
    | exact Or.inl h
    | exact Or.inr ⟨_, _, _, h⟩

theorem checks_good_iff :
    (∀ c ∈ checks, c.bad p = false) ↔ Form.Accepts Field.Valid p.get := by
  constructor
  · intro h f
    simp only [checks, List.forall_mem_cons] at h
    obtain ⟨h₁, h₂, h₃, h₄, h₅, h₆, h₇, h₈, h₉, hretention, h₁₀, h₁₁, h₁₂, h₁₃, -⟩ := h
    cases f with
    | history_retention_days => exact (Bool.or_eq_false_iff.1 hretention).1
    | trend_retention_days => exact (Bool.or_eq_false_iff.1 hretention).2
    | _ => assumption
  · intro h c hc
    rcases eq_of_mem_checks hc with rfl | ⟨f, text, shown, rfl⟩
    · exact Bool.or_eq_false_iff.2 ⟨h .history_retention_days, h .trend_retention_days⟩
    · exact h f

theorem validateConfigs_fst_eq_none_iff :
    (validateConfigs p).1 = none ↔ Form.Accepts Field.Valid p.get :=
  Check.run_fst_eq_none_iff.trans checks_good_iff

theorem validateConfigs_of_accepts (h : Form.Accepts Field.Valid p.get) :
    validateConfigs p = (none, p) :=
  Check.run_of_good (checks_good_iff.2 h)

/-- **If the values without a fallback are valid**, then the parameters pass, or one value is
replaced by its fallback. -/
theorem validateConfigs_cases (h : ∀ f : Field, f.fallback = none → f.Valid (p.get f)) :
    (Form.Accepts Field.Valid p.get ∧ (validateConfigs p).2 = p) ∨
      ∃ f v, f.fallback = some v ∧ ¬ f.Valid (p.get f) ∧ (validateConfigs p).2 = p.set f v := by
  rcases Check.run_cases checks p with ⟨hgood, hrun⟩ | ⟨a, c, b, hchecks, -, hbad, hrun⟩
  · exact Or.inl ⟨checks_good_iff.1 hgood, by rw [validateConfigs, hrun]⟩
  · have hc : c ∈ checks := by
      rw [hchecks]
      simp
    rcases eq_of_mem_checks hc with rfl | ⟨f, text, shown, rfl⟩
    · have hgood : retentionCheck.bad p = false :=
        Bool.or_eq_false_iff.2 ⟨h .history_retention_days rfl, h .trend_retention_days rfl⟩
      rw [hgood] at hbad
      simp at hbad
    · have hinvalid : ¬ f.Valid (p.get f) := Field.not_valid_iff.2 hbad
      cases hv : f.fallback with
      | none => exact absurd (h f hv) hinvalid
      | some v =>
        refine Or.inr ⟨f, v, hv, hinvalid, ?_⟩
        rw [validateConfigs, hrun]
        simp only [Field.check, hv, Option.elim_some]

/-! ### How the loader comes out -/

namespace ConfigFiles

variable {N : Type} {files : ConfigFiles N} {config_file_path : StdString}
  {given : (f : Field) → Option f.Ty}

theorem initConfigs_ret_of_not_access (h : files.access config_file_path = false)
    (p : Parameters) : (files.initConfigs config_file_path p).ret = false := by
  rw [initConfigs, if_pos h]

theorem initConfigs_ret_of_not_gives (h : ∀ given, ¬ files.Gives config_file_path given)
    (p : Parameters) : (files.initConfigs config_file_path p).ret = false := by
  obtain ⟨line, hline⟩ := loadConfigs_throws h
  have hp : on (files.loadConfigs config_file_path) p =
      (.error line, (on (files.loadConfigs config_file_path) p).2) := by
    rw [← hline p]
  rw [initConfigs]
  split
  · rfl
  · rw [hp]

/-- **The parameters after the file has been loaded are checked.** -/
theorem initConfigs_of_gives (haccess : files.access config_file_path = true)
    (h : files.Gives config_file_path given) (p : Parameters) :
    (files.initConfigs config_file_path p).ret = (validateConfigs (p.update given)).1.isNone ∧
      (files.initConfigs config_file_path p).params = (validateConfigs (p.update given)).2 := by
  rw [initConfigs, if_neg (by rw [haccess]; decide), loadConfigs_updates h p]
  cases hcheck : validateConfigs (p.update given) with
  | mk line q =>
    simp only [hcheck]
    cases line with
    | none => exact ⟨rfl, rfl⟩
    | some line => exact ⟨rfl, rfl⟩

theorem initConfigs_ret_iff (haccess : files.access config_file_path = true)
    (h : files.Gives config_file_path given) (p : Parameters) :
    (files.initConfigs config_file_path p).ret = true ↔
      Form.Accepts Field.Valid (Form.overlay given p.get) := by
  rw [(initConfigs_of_gives haccess h p).1, Option.isNone_iff_eq_none,
    validateConfigs_fst_eq_none_iff, Parameters.get_update]

theorem initConfigs_params_of_ret (haccess : files.access config_file_path = true)
    (h : files.Gives config_file_path given) {p : Parameters}
    (hret : (files.initConfigs config_file_path p).ret = true) :
    (files.initConfigs config_file_path p).params = p.update given := by
  rw [initConfigs_ret_iff haccess h, ← Parameters.get_update] at hret
  rw [(initConfigs_of_gives haccess h p).2, validateConfigs_of_accepts hret]

end ConfigFiles

/-! ### Files with given values -/

/-- The nodes of a file, as far as the loader asks for them. -/
inductive FileNode where
  | root
  | part (s : Section)
  | leaf (f : Field)
  | undefined
  deriving DecidableEq

namespace FileNode

def subscript : FileNode → String → Except String FileNode
  | .root, key => .ok ((Section.all.find? fun s => s.name == key).elim .undefined .part)
  | .part s, key => .ok ((s.fields.find? fun f => f.path.2 == key).elim .undefined .leaf)
  | .leaf _, _ => .error "operator[] call on a scalar"
  | .undefined, _ => .error "invalid node"

def isDefined (given : (f : Field) → Option f.Ty) : FileNode → Bool
  | .root | .part _ => true
  | .leaf f => (given f).isSome
  | .undefined => false

def as (given : (f : Field) → Option f.Ty) (k : Kind) : FileNode → Except String k.Ty
  | .leaf f =>
    if h : f.kind = k then
      (given f).elim (.error "invalid node") fun v => .ok (cast (congrArg Kind.Ty h) v)
    else .error "bad conversion"
  | _ => .error "bad conversion"

end FileNode

/-- A file with these values. -/
def ConfigFiles.ofValues (given : (f : Field) → Option f.Ty) : ConfigFiles FileNode where
  access _ := true
  LoadFile _ := .ok .root
  subscript := FileNode.subscript
  isDefined := FileNode.isDefined given
  as := FileNode.as given

/-- The values in `configs/lite_monitor.yaml`. -/
def shippedValues : (f : Field) → Option f.Ty
  | .db_host => some (stdString "localhost")
  | .db_port => some (3306 : Int32)
  | .db_user => some (stdString "lite_monitor")
  | .db_password => some (stdString "lite_monitor")
  | .db_name => some (stdString "lite_monitor")
  | .history_retention_days => some (14 : Int32)
  | .trend_retention_days => some (3 : Int32)
  | .log_dir => some (stdString "../logs")
  | .log_level => some (stdString "info")
  | .max_log_file_size => some (100 : Int32)
  | .max_log_file_num => some (10 : Int32)
  | .http_host => some (stdString "localhost")
  | .http_port => some (20317 : Int32)
  | .tcp_host => some (stdString "localhost")
  | .tcp_port => some (21210 : Int32)

/-- The parameters that `main` passes: the texts are empty, and here all the numbers are `n`. -/
def initialParams (n : Int32) : Parameters :=
  ⟨⟨[], n, [], [], []⟩, ⟨n, n⟩, ⟨[], n, n, []⟩, ⟨[], n⟩, ⟨[], n⟩⟩

theorem ConfigFiles.gives_ofValues (given : (f : Field) → Option f.Ty) (path : StdString) :
    (ofValues given).Gives path given := by
  have hlookup : ∀ f, (ofValues given).lookup .root f.path = .ok (.leaf f) := by
    intro f
    cases f <;> rfl
  refine ⟨.root, rfl, fun s => ⟨.part s, by cases s <;> rfl, rfl⟩, fun f => ?_⟩
  rw [value, hlookup]
  change (if (given f).isSome then some <$> FileNode.as given f.kind (.leaf f) else pure none) = _
  rw [FileNode.as, dif_pos rfl]
  cases given f <;> rfl

end LiteMonitor
