import LiteMonitor.Config.Document

/-!
# The fallbacks of invalid values

`validateConfigs` returns after the first value that is not valid, also where it has put a
fallback in its place.  `main` goes on with the parameters whatever has been returned.

* `Repaired q p` : the parameters `p` are `q` with a fallback for every value that needs one.
* `repaired_iff` : **for a file with valid database and retention values, this is what comes out
  exactly if at most one of the other values is invalid.**
* `repaired_emptyDir`, `not_repaired` : an empty `log_dir`, and an empty `log_level` as well.
-/

namespace LiteMonitor

/-- Where there is a fallback, it has replaced an invalid value, and a valid one is kept. -/
structure Repaired (q p : Parameters) : Prop where
  kept : ∀ f : Field, f.fallback.isSome = true → f.Valid (q.get f) → p.get f = q.get f
  replaced : ∀ (f : Field) (v : f.Ty), f.fallback = some v → ¬ f.Valid (q.get f) → p.get f = v
  valid : ∀ f : Field, f.fallback.isSome = true → f.Valid (p.get f)

/-- At most one value that has a fallback needs it. -/
def OneInvalid (q : Parameters) : Prop :=
  ∀ f g : Field, f.fallback.isSome = true → g.fallback.isSome = true → ¬ f.Valid (q.get f) →
    ¬ g.Valid (q.get g) → f = g

variable {q : Parameters}

theorem repaired_self (h : Form.Accepts Field.Valid q.get) : Repaired q q where
  kept _ _ _ := rfl
  replaced f _ _ hinvalid := absurd (h f) hinvalid
  valid f _ := h f

/-- If a value has been replaced, no other may need it. -/
theorem repaired_set_iff {f : Field} {v : f.Ty} (hv : f.fallback = some v)
    (hinvalid : ¬ f.Valid (q.get f)) : Repaired q (q.set f v) ↔ OneInvalid q := by
  have hf : f.fallback.isSome = true := by
    rw [hv]
    rfl
  constructor
  · intro h g g' hg hg' hginvalid hginvalid'
    -- a field other than `f` is as before, and what is left is valid
    have hall : ∀ g : Field, g.fallback.isSome = true → ¬ g.Valid (q.get g) → g = f := by
      intro g hg hginvalid
      by_contra hne
      have hvalid := h.valid g hg
      rw [Parameters.get_set_of_ne q hne] at hvalid
      exact hginvalid hvalid
    rw [hall g hg hginvalid, hall g' hg' hginvalid']
  · intro hone
    have hvalid : ∀ g : Field, g.fallback.isSome = true → g ≠ f → g.Valid (q.get g) := by
      intro g hg hne
      by_contra hginvalid
      exact hne (hone g f hg hf hginvalid hinvalid)
    constructor
    · intro g hg hgvalid
      have hne : g ≠ f := by
        rintro rfl
        exact hinvalid hgvalid
      exact Parameters.get_set_of_ne q hne v
    · intro g w hw hginvalid
      have hg : g = f := hone g f (by rw [hw]; rfl) hf hginvalid hinvalid
      subst hg
      rw [Parameters.get_set_self]
      exact Option.some.inj (hv.symm.trans hw)
    · intro g hg
      by_cases hgf : g = f
      · subst hgf
        rw [Parameters.get_set_self]
        exact Field.fallback_valid hv
      · rw [Parameters.get_set_of_ne q hgf]
        exact hvalid g hg hgf

/-- **When the fallbacks are applied to all the values that need one.** -/
theorem repaired_iff {N : Type} {files : ConfigFiles N} {config_file_path : StdString}
    {given : (f : Field) → Option f.Ty} {p : Parameters}
    (haccess : files.access config_file_path = true) (hgives : files.Gives config_file_path given)
    (hvalid : ∀ f : Field, f.fallback = none → f.Valid ((p.update given).get f)) :
    Repaired (p.update given) (files.initConfigs config_file_path p).params ↔
      OneInvalid (p.update given) := by
  rw [(ConfigFiles.initConfigs_of_gives haccess hgives p).2]
  rcases validateConfigs_cases hvalid with ⟨haccepts, heq⟩ | ⟨f, v, hv, hinvalid, heq⟩
  · rw [heq]
    refine iff_of_true (repaired_self haccepts) ?_
    intro f g _ _ hinvalid _
    exact absurd (haccepts f) hinvalid
  · rw [heq]
    exact repaired_set_iff hv hinvalid

/-- The repository's values with an empty `log_dir`. -/
def emptyDir : (f : Field) → Option f.Ty := Function.update shippedValues .log_dir (some [])

/-- An empty `log_level` as well. -/
def emptyDirAndLevel : (f : Field) → Option f.Ty := Function.update emptyDir .log_level (some [])

theorem repaired_emptyDir :
    Repaired ((initialParams 0).update emptyDir)
      ((ConfigFiles.ofValues emptyDir).initConfigs (stdString "lite_monitor.yaml")
        (initialParams 0)).params := by
  refine (repaired_iff rfl (ConfigFiles.gives_ofValues _ _) fun f hf => ?_).2 ?_
  · cases f <;> first | rfl | cases hf
  · have hdir : ∀ f : Field, ¬ f.Valid (((initialParams 0).update emptyDir).get f) →
        f = .log_dir := by
      intro f hinvalid
      cases f <;> first | rfl | exact absurd rfl hinvalid
    intro f g _ _ hf hg
    rw [hdir f hf, hdir g hg]

/-- Only the first of two invalid values is replaced. -/
theorem not_repaired :
    (ConfigFiles.ofValues emptyDirAndLevel).Gives (stdString "lite_monitor.yaml")
        emptyDirAndLevel ∧
      (∀ f : Field, f.fallback = none →
        f.Valid (((initialParams 0).update emptyDirAndLevel).get f)) ∧
      ¬ Repaired ((initialParams 0).update emptyDirAndLevel)
        ((ConfigFiles.ofValues emptyDirAndLevel).initConfigs (stdString "lite_monitor.yaml")
          (initialParams 0)).params := by
  refine ⟨ConfigFiles.gives_ofValues _ _, fun f hf => ?_, fun h => ?_⟩
  · cases f <;> first | rfl | cases hf
  · have hlevel := h.valid .log_level rfl
    exact absurd hlevel (Field.not_valid_iff.2 rfl)

end LiteMonitor
