import Mathlib.Algebra.Order.Field.Rat
import Mathlib.Tactic.FieldSimp
import Mathlib.Tactic.Ring

/-!
# Numerals

The numbers of JSON texts: digits, with a sign, a fraction and an exponent, and what they stand for.

* `readDigits s` : the digits at the beginning of `s`, and what follows.
* `readFraction`, `readExponent`, `readNumber` : the parts, and the number with all of them.
* `Integral int` : the digits are those of an integer, without a zero in front.
* `Ends rest` : nothing in front of `rest` goes on in `rest`.
* `readUnsigned_parts` : **a numeral stands for its digits, times a power of ten.**
-/

namespace LiteMonitor

namespace Numeral

def isDigit (c : Char) : Bool := '0' ≤ c && c ≤ '9'

/-- The digits at the beginning, and what follows. -/
def readDigits (s : List Char) : List Char × List Char := s.span isDigit

/-- The number that the digits stand for. -/
def value (ds : List Char) : ℕ := Nat.ofDigitChars 10 ds 0

/-- The digits of an integer: a zero stands only alone in front. -/
def Integral (int : List Char) : Prop :=
  int ≠ [] ∧ (∀ c ∈ int, isDigit c = true) ∧ (int.head? = some '0' → int = ['0'])

/-- A point and digits behind it, or nothing. -/
def readFraction : List Char → Option (List Char × List Char)
  | '.' :: s =>
    match readDigits s with
    | ([], _) => none
    | (ds, s) => some (ds, s)
  | s => some ([], s)

/-- The sign of an exponent. -/
def readSign : List Char → ℤ × List Char
  | '+' :: s => (1, s)
  | '-' :: s => (-1, s)
  | s => (1, s)

/-- An exponent, or nothing. -/
def readExponent : List Char → Option (ℤ × List Char)
  | c :: s =>
    if c = 'e' ∨ c = 'E' then
      let (sign, s) := readSign s
      match readDigits s with
      | ([], _) => none
      | (ds, s) => some (sign * value ds, s)
    else some (0, c :: s)
  | [] => some (0, [])

/-- A number without its sign. -/
def readUnsigned (s : List Char) : Option (ℚ × List Char) :=
  match readDigits s with
  | ([], _) => none
  | ('0' :: _ :: _, _) => none
  | (int, s) => do
    let (frac, s) ← readFraction s
    let (e, s) ← readExponent s
    return (value (int ++ frac) * 10 ^ (e - frac.length), s)

/-- A number. -/
def readNumber : List Char → Option (ℚ × List Char)
  | '-' :: s => (readUnsigned s).map fun (q, s) => (-q, s)
  | s => readUnsigned s

/-- No numeral goes on with `rest`. -/
def Ends (rest : List Char) : Prop :=
  ∀ c ∈ rest.head?, isDigit c = false ∧ c ≠ '.' ∧ c ≠ 'e' ∧ c ≠ 'E'

theorem ends_nil : Ends [] := by simp [Ends]

theorem ends_cons {c : Char} {rest : List Char} (h : isDigit c = false)
    (hc : c ≠ '.' ∧ c ≠ 'e' ∧ c ≠ 'E') : Ends (c :: rest) := by
  intro c' hc'
  obtain rfl : c = c' := by simpa using hc'
  exact ⟨h, hc⟩

/-! ### Digits -/

theorem isDigit_digitChar : ∀ n < 10, isDigit (Nat.digitChar n) = true := by decide

theorem isDigit_toDigits (n : ℕ) : ∀ c ∈ Nat.toDigits 10 n, isDigit c = true := by
  induction n using Nat.strong_induction_on with
  | _ n ih =>
    by_cases h : n < 10
    · rw [Nat.toDigits_of_lt_base h]
      simpa using isDigit_digitChar n h
    · rw [Nat.toDigits_of_base_le (by decide) (by omega)]
      intro c hc
      rcases List.mem_append.1 hc with hc | hc
      · exact ih _ (by omega) c hc
      · rw [List.mem_singleton.1 hc]
        exact isDigit_digitChar _ (by omega)

theorem isDigit_singleton {c : Char} (h : isDigit c = true) : ∀ d ∈ [c], isDigit d = true := by
  intro d hd
  rwa [List.mem_singleton.1 hd]

theorem readDigits_append {ds rest : List Char} (hds : ∀ c ∈ ds, isDigit c = true)
    (hrest : ∀ c ∈ rest.head?, isDigit c = false) : readDigits (ds ++ rest) = (ds, rest) := by
  rw [readDigits, List.span_eq_takeWhile_dropWhile]
  have htake : rest.takeWhile isDigit = [] := by
    cases rest with
    | nil => rfl
    | cons c rest => rw [List.takeWhile_cons_of_neg (by simp [hrest c rfl])]
  have hdrop : rest.dropWhile isDigit = rest := by
    cases rest with
    | nil => rfl
    | cons c rest => rw [List.dropWhile_cons_of_neg (by simp [hrest c rfl])]
  rw [List.takeWhile_append_of_pos hds, List.dropWhile_append_of_pos hds, htake, hdrop,
    List.append_nil]

theorem value_toDigits (n : ℕ) : value (Nat.toDigits 10 n) = n := Nat.ofDigitChars_ten_toDigits

theorem value_append (a b : List Char) : value (a ++ b) = value a * 10 ^ b.length + value b := by
  rw [value, Nat.ofDigitChars_append, Nat.ofDigitChars_eq_ofDigitChars_zero, Nat.mul_comm]
  rfl

theorem value_zeros (n : ℕ) : value (List.replicate n '0') = 0 := by
  rw [value, Nat.ofDigitChars_replicate_zero, Nat.mul_zero]

theorem toDigits_ne_nil (n : ℕ) : Nat.toDigits 10 n ≠ [] := by
  by_cases h : n < 10
  · rw [Nat.toDigits_of_lt_base h]
    exact List.cons_ne_nil _ _
  · rw [Nat.toDigits_of_base_le (by decide) (by omega)]
    exact List.append_ne_nil_of_right_ne_nil _ (List.cons_ne_nil _ _)

theorem eq_zero_of_head {n : ℕ} (h : (Nat.toDigits 10 n).head? = some '0') : n = 0 := by
  have hdigit : ∀ m < 10, Nat.digitChar m = '0' → m = 0 := by decide
  induction n using Nat.strong_induction_on with
  | _ n ih =>
    by_cases hn : n < 10
    · rw [Nat.toDigits_of_lt_base hn] at h
      exact hdigit n hn (Option.some.inj h)
    · rw [Nat.toDigits_of_base_le (by decide) (by omega),
        List.head?_append_of_ne_nil _ (toDigits_ne_nil _)] at h
      have hzero := ih (n / 10) (by omega) h
      omega

theorem integral_toDigits (n : ℕ) : Integral (Nat.toDigits 10 n) := by
  refine ⟨toDigits_ne_nil n, isDigit_toDigits n, fun h => ?_⟩
  rw [eq_zero_of_head h]
  rfl

/-! ### Numerals from their parts -/

theorem Ends.head {rest : List Char} (h : Ends rest) : ∀ c ∈ rest.head?, isDigit c = false :=
  fun c hc => (h c hc).1

theorem readFraction_of_ends {s : List Char} (h : ∀ c ∈ s.head?, c ≠ '.') :
    readFraction s = some ([], s) := by
  unfold readFraction
  split
  · exact absurd rfl (h '.' rfl)
  · rfl

theorem readFraction_cons {l rest : List Char} (hne : l ≠ [])
    (hl : ∀ c ∈ l, isDigit c = true) (hrest : ∀ c ∈ rest.head?, isDigit c = false) :
    readFraction ('.' :: (l ++ rest)) = some (l, rest) := by
  obtain ⟨d, ds, rfl⟩ := List.exists_cons_of_ne_nil hne
  simp only [readFraction, readDigits_append hl hrest]

theorem readExponent_of_ends {rest : List Char} (h : ∀ c ∈ rest.head?, c ≠ 'e' ∧ c ≠ 'E') :
    readExponent rest = some (0, rest) := by
  cases rest with
  | nil => rfl
  | cons c rest =>
    obtain ⟨he, hE⟩ := h c rfl
    rw [readExponent, if_neg (by simp [he, hE])]

theorem readExponent_cons {sign : Char} {ds rest : List Char} (hsign : sign = '+' ∨ sign = '-')
    (hne : ds ≠ []) (hds : ∀ c ∈ ds, isDigit c = true)
    (hrest : ∀ c ∈ rest.head?, isDigit c = false) :
    readExponent ('e' :: sign :: (ds ++ rest)) =
      some ((if sign = '-' then -1 else 1) * (value ds : ℤ), rest) := by
  have hread := readDigits_append hds hrest
  obtain ⟨d, ds, rfl⟩ := List.exists_cons_of_ne_nil hne
  rw [List.cons_append] at hread ⊢
  rw [readExponent, if_pos (Or.inl rfl)]
  rcases hsign with rfl | rfl <;> simp [readSign, hread]

/-- **A numeral stands for its digits**, the point moved by the exponent. -/
theorem readUnsigned_parts {int s frac s' rest : List Char} {e : ℤ} (hint : Integral int)
    (hs : ∀ c ∈ s.head?, isDigit c = false) (hfrac : readFraction s = some (frac, s'))
    (hexp : readExponent s' = some (e, rest)) :
    readUnsigned (int ++ s) =
      some ((value (int ++ frac) : ℚ) * 10 ^ (e - frac.length), rest) := by
  obtain ⟨hne, hds, hzero⟩ := hint
  rw [readUnsigned, readDigits_append hds hs]
  obtain ⟨d, ds, rfl⟩ := List.exists_cons_of_ne_nil hne
  split
  · next heq => cases heq
  · next heq =>
    obtain ⟨rfl, rfl⟩ := List.cons.inj (Prod.mk.inj heq).1
    cases hzero rfl
  · next int' s₁ _ _ heq =>
    obtain ⟨rfl, rfl⟩ := Prod.mk.inj heq
    simp [hfrac, hexp]

theorem readDigits_cons {c : Char} (s : List Char) (h : isDigit c = false) :
    readDigits (c :: s) = ([], c :: s) := by
  have hread : readDigits ([] ++ c :: s) = ([], c :: s) :=
    readDigits_append (by simp) (by simpa using h)
  rwa [List.nil_append] at hread

theorem readNumber_of_readUnsigned {s : List Char} {p : ℚ × List Char}
    (h : readUnsigned s = some p) : readNumber s = some p := by
  unfold readNumber
  split
  · rw [readUnsigned, readDigits_cons _ rfl] at h
    cases h
  · exact h

theorem readNumber_eq_none {c : Char} (s : List Char) (hd : isDigit c = false) (hc : c ≠ '-') :
    readNumber (c :: s) = none := by
  unfold readNumber
  split
  · next heq => exact absurd (List.cons.inj heq).1 hc
  · rw [readUnsigned, readDigits_cons s hd]

theorem readUnsigned_toDigits (n : ℕ) {rest : List Char} (h : Ends rest) :
    readUnsigned (Nat.toDigits 10 n ++ rest) = some ((n : ℚ), rest) := by
  have hfrac := readFraction_of_ends fun c hc => (h c hc).2.1
  have hexp := readExponent_of_ends fun c hc => (h c hc).2.2
  rw [readUnsigned_parts (integral_toDigits n) h.head hfrac hexp, List.append_nil,
    value_toDigits]
  simp

end Numeral

end LiteMonitor
