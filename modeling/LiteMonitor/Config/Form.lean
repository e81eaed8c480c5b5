import Mathlib.Logic.Function.Basic
import Mathlib.Tactic.Choose
import Mathlib.Tactic.Push

/-!
# Forms that are filled in over old values

A form has fields with values, and every field has its valid values.  A document gives values for
some of the fields; the others keep what was there before.  The form is accepted if all its values
are valid then.

* `overlay given p` : the values after the document; `Accepts valid p`.
* `Determined valid given` : what is accepted, and with which values, depends on the document alone.
* `determined_iff` : **this is so exactly if the document gives an invalid value or all values.**
-/

namespace LiteMonitor

namespace Form

variable {F : Type*} {V : F → Type*} {valid : ∀ f, V f → Prop} {given : ∀ f, Option (V f)}
  {p p' : ∀ f, V f}

/-- The values given, and the old ones elsewhere. -/
def overlay (given : ∀ f, Option (V f)) (p : ∀ f, V f) : ∀ f, V f := fun f => (given f).getD (p f)

/-- Every value is valid. -/
def Accepts (valid : ∀ f, V f → Prop) (p : ∀ f, V f) : Prop := ∀ f, valid f (p f)

/-- Whether the form is accepted, and its values if it is, do not depend on the old values. -/
def Determined (valid : ∀ f, V f → Prop) (given : ∀ f, Option (V f)) : Prop :=
  ∀ p p', (Accepts valid (overlay given p) ↔ Accepts valid (overlay given p')) ∧
    (Accepts valid (overlay given p) → overlay given p = overlay given p')

theorem overlay_of_some {f : F} {v : V f} (h : given f = some v) (p : ∀ f, V f) :
    overlay given p f = v := by
  rw [overlay, h, Option.getD_some]

theorem overlay_of_none {f : F} (h : given f = none) (p : ∀ f, V f) : overlay given p f = p f := by
  rw [overlay, h, Option.getD_none]

theorem overlay_overlay (given' : ∀ f, Option (V f)) :
    overlay given' (overlay given p) = overlay (fun f => (given' f).or (given f)) p := by
  funext f
  simp only [overlay]
  cases given' f <;> rfl

/-- What is given for the fields of a list. -/
def restrict [DecidableEq F] (fs : List F) (given : ∀ f, Option (V f)) : ∀ f, Option (V f) :=
  fun f => if f ∈ fs then given f else none

theorem restrict_eq_self [DecidableEq F] {fs : List F} (h : ∀ f, f ∈ fs) :
    restrict fs given = given := by
  funext f
  rw [restrict, if_pos (h f)]

theorem overlay_restrict_append [DecidableEq F] (fs fs' : List F) :
    overlay (restrict fs' given) (overlay (restrict fs given) p) =
      overlay (restrict (fs ++ fs') given) p := by
  rw [overlay_overlay]
  congr 1
  funext f
  by_cases hf : f ∈ fs <;> by_cases hf' : f ∈ fs' <;> simp [restrict, hf, hf']

theorem not_accepts {f : F} {v : V f} (h : given f = some v) (hv : ¬ valid f v) :
    ¬ Accepts valid (overlay given p) := by
  intro hall
  have hf := hall f
  rw [overlay_of_some h] at hf
  exact hv hf

/-- **When a form is judged by the document alone.** -/
theorem determined_iff [DecidableEq F] (hgood : ∀ f, ∃ v, valid f v)
    (hbad : ∀ f, ∃ v, ¬ valid f v) :
    Determined valid given ↔
      (∃ f v, given f = some v ∧ ¬ valid f v) ∨ ∀ f, (given f).isSome = true := by
  constructor
  · intro hdet
    by_cases hinv : ∃ f v, given f = some v ∧ ¬ valid f v
    · exact Or.inl hinv
    push Not at hinv
    refine Or.inr fun f₀ => ?_
    by_contra hnone
    rw [Option.not_isSome_iff_eq_none] at hnone
    choose good hgood using hgood
    obtain ⟨bad, hbad⟩ := hbad f₀
    -- the old values are all valid, or all but one for which there is no new value
    have haccepts : Accepts valid (overlay given good) := by
      intro f
      cases hf : given f with
      | none =>
        rw [overlay_of_none hf]
        exact hgood f
      | some v =>
        rw [overlay_of_some hf]
        exact hinv f v hf
    have hf₀ := ((hdet good (Function.update good f₀ bad)).1.1 haccepts) f₀
    rw [overlay_of_none hnone, Function.update_self] at hf₀
    exact hbad hf₀
  · rintro (⟨f, v, hf, hv⟩ | hall) p p'
    · exact ⟨iff_of_false (not_accepts hf hv) (not_accepts hf hv), fun h =>
        absurd h (not_accepts hf hv)⟩
    · have heq : overlay given p = overlay given p' := by
        funext f
        obtain ⟨v, hf⟩ := Option.isSome_iff_exists.1 (hall f)
        rw [overlay_of_some hf, overlay_of_some hf]
      exact ⟨by rw [heq], fun _ => heq⟩

end Form

end LiteMonitor
