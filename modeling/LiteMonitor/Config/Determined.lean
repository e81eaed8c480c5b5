import LiteMonitor.Config.Document

/-!
# A configuration is judged by its file

`initConfigs` on one file with two initial contents of the parameters.  A field whose key is not
in the file keeps what was in the parameters, and is checked like the others.

* `JudgedByDocument files path` : the result, and the parameters of an accepted file, are the same.
* `judgedByDocument_iff` : **so it is exactly for a file that does not load, that gives an invalid
  value, or that gives all the values.**
* `not_judgedByDocument` : a file without `max_log_file_num`.
-/

namespace LiteMonitor

namespace ConfigFiles

variable {N : Type} {files : ConfigFiles N} {config_file_path : StdString}
  {given : (f : Field) → Option f.Ty}

/-- The initial parameters make no difference for what is returned, and none for the parameters
if the file is accepted. -/
def JudgedByDocument (files : ConfigFiles N) (config_file_path : StdString) : Prop :=
  ∀ p p', (files.initConfigs config_file_path p).ret = (files.initConfigs config_file_path p').ret ∧
    ((files.initConfigs config_file_path p).ret = true →
      (files.initConfigs config_file_path p).params =
        (files.initConfigs config_file_path p').params)

theorem judged_of_ret_eq_false (h : ∀ p, (files.initConfigs config_file_path p).ret = false) :
    files.JudgedByDocument config_file_path := by
  intro p p'
  refine ⟨by rw [h p, h p'], fun hret => ?_⟩
  rw [h p] at hret
  simp at hret

/-- For a file that loads, it is the question whether a form is judged by the values given. -/
theorem judged_iff_determined (haccess : files.access config_file_path = true)
    (h : files.Gives config_file_path given) :
    files.JudgedByDocument config_file_path ↔ Form.Determined Field.Valid given := by
  have hret := initConfigs_ret_iff haccess h
  constructor
  · intro hjudged v v'
    obtain ⟨hsame, hparams⟩ := hjudged (Parameters.ofFields v) (Parameters.ofFields v')
    have hv := hret (Parameters.ofFields v)
    have hv' := hret (Parameters.ofFields v')
    rw [Parameters.get_ofFields] at hv hv'
    refine ⟨by rw [← hv, ← hv', hsame], fun haccepts => ?_⟩
    have hret₁ := hv.2 haccepts
    have hret₂ := hsame ▸ hret₁
    have heq := hparams hret₁
    rw [initConfigs_params_of_ret haccess h hret₁, initConfigs_params_of_ret haccess h hret₂] at heq
    have hget := congrArg Parameters.get heq
    rw [Parameters.get_update, Parameters.get_update, Parameters.get_ofFields,
      Parameters.get_ofFields] at hget
    exact hget
  · intro hdet p p'
    obtain ⟨hsame, hvalues⟩ := hdet p.get p'.get
    rw [← hret p, ← hret p'] at hsame
    refine ⟨Bool.eq_iff_iff.2 hsame, fun hp => ?_⟩
    have hp' := hsame.1 hp
    rw [initConfigs_params_of_ret haccess h hp, initConfigs_params_of_ret haccess h hp']
    apply Parameters.get_injective
    rw [Parameters.get_update, Parameters.get_update]
    exact hvalues ((hret p).1 hp)

/-- **When a configuration is judged by its file alone.** -/
theorem judgedByDocument_iff (files : ConfigFiles N) (config_file_path : StdString) :
    files.JudgedByDocument config_file_path ↔
      files.access config_file_path = false ∨
        ∀ given, files.Gives config_file_path given →
          (∃ f v, given f = some v ∧ f.invalid v = true) ∨ ∀ f, (given f).isSome = true := by
  cases haccess : files.access config_file_path with
  | false =>
    have hret := initConfigs_ret_of_not_access haccess
    exact iff_of_true (judged_of_ret_eq_false hret) (Or.inl rfl)
  | true =>
    simp only [Bool.true_eq_false, false_or]
    by_cases hgives : ∃ given, files.Gives config_file_path given
    · have hiff : ∀ given, files.Gives config_file_path given →
          (files.JudgedByDocument config_file_path ↔
            (∃ f v, given f = some v ∧ f.invalid v = true) ∨ ∀ f, (given f).isSome = true) := by
        intro given h
        rw [judged_iff_determined haccess h,
          Form.determined_iff Field.exists_valid Field.exists_not_valid]
        simp only [Field.not_valid_iff]
      obtain ⟨given, h⟩ := hgives
      constructor
      · intro hjudged given h
        exact (hiff given h).1 hjudged
      · intro hall
        exact (hiff given h).2 (hall given h)
    · push Not at hgives
      have hret := initConfigs_ret_of_not_gives hgives
      exact iff_of_true (judged_of_ret_eq_false hret) fun given h => absurd h (hgives given)

/-- Without the key `max_log_file_num`, the number that was in the parameters decides. -/
theorem not_judgedByDocument :
    ¬ (ofValues (Function.update shippedValues .max_log_file_num none)).JudgedByDocument
      (stdString "lite_monitor.yaml") := by
  intro h
  have hsame := (h (initialParams 10) (initialParams 0)).1
  revert hsame
  decide

end ConfigFiles

end LiteMonitor
