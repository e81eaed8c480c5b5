import Mathlib.Algebra.CharP.Two
import Mathlib.Algebra.Field.ZMod
import Mathlib.Algebra.Polynomial.Div
import Mathlib.Algebra.Polynomial.FieldDivision
import Mathlib.Data.List.Induction
import Mathlib.Tactic.Ring
import Mathlib.Tactic.SplitIfs

/-!
# Bit strings as polynomials over GF(2)

The first bit of a string is the coefficient of the highest degree.

* `ofBits bs` : the polynomial; `ofBits_append`, `ofBits_xor` : concatenation and exclusive or.
* `ofBits_eq_zero_iff` : no bit is lost.
* `InWindow n bs` : the ones lie within `n` positions in a row.
* `not_dvd_of_inWindow` : a generator with a constant term divides **no short window of ones**.
* `not_dvd_of_odd` : a generator with an even number of terms divides **no odd number of ones**.
-/

namespace LiteMonitor

namespace BitString

open Polynomial

/-- A bit as an element of the field. -/
def bit (b : Bool) : ZMod 2 := if b then 1 else 0

theorem bit_xor (a b : Bool) : bit (a ^^ b) = bit a + bit b := by
  cases a <;> cases b <;> decide

theorem bit_eq_zero_iff {b : Bool} : bit b = 0 ↔ b = false := by
  cases b <;> decide

/-- The polynomial whose coefficients are the bits, from the highest degree on. -/
noncomputable def ofBits : List Bool → (ZMod 2)[X]
  | [] => 0
  | b :: bs => C (bit b) * X ^ bs.length + ofBits bs

@[simp] theorem ofBits_nil : ofBits [] = 0 := rfl

theorem ofBits_cons (b : Bool) (bs : List Bool) :
    ofBits (b :: bs) = C (bit b) * X ^ bs.length + ofBits bs := rfl

theorem ofBits_append (a b : List Bool) :
    ofBits (a ++ b) = X ^ b.length * ofBits a + ofBits b := by
  induction a with
  | nil => simp
  | cons x a ih =>
    rw [List.cons_append, ofBits_cons, ofBits_cons, ih, List.length_append, pow_add]
    ring

theorem ofBits_replicate_false (n : ℕ) : ofBits (List.replicate n false) = 0 := by
  induction n with
  | zero => rfl
  | succ n ih =>
    rw [List.replicate_succ, ofBits_cons, ih]
    simp [bit]

theorem ofBits_of_forall_false {bs : List Bool} (h : ∀ b ∈ bs, b = false) : ofBits bs = 0 := by
  rw [List.eq_replicate_of_mem h, ofBits_replicate_false]

theorem ofBits_of_no_one {bs : List Bool} (h : ∀ i : ℕ, bs[i]? ≠ some true) : ofBits bs = 0 := by
  refine ofBits_of_forall_false fun b hb => ?_
  obtain ⟨i, hi⟩ := List.mem_iff_getElem?.1 hb
  cases b with
  | false => rfl
  | true => exact absurd hi (h i)

theorem degree_ofBits_lt (bs : List Bool) : (ofBits bs).degree < bs.length := by
  induction bs with
  | nil => simp
  | cons b bs ih =>
    have hle : (ofBits bs).degree < ((bs.length + 1 : ℕ) : WithBot ℕ) :=
      ih.trans (by exact_mod_cast Nat.lt_succ_self _)
    refine (degree_add_le _ _).trans_lt (max_lt ?_ hle)
    exact (degree_C_mul_X_pow_le _ _).trans_lt (by exact_mod_cast Nat.lt_succ_self _)

/-- The coefficients are the bits, from the last one on. -/
theorem coeff_ofBits {bs : List Bool} {i : ℕ} (hi : i < bs.length) :
    (ofBits bs).coeff i = bit (bs[bs.length - 1 - i]) := by
  induction bs with
  | nil => exact absurd hi (Nat.not_lt_zero i)
  | cons b bs ih =>
    rw [ofBits_cons, coeff_add, coeff_C_mul, coeff_X_pow]
    rw [List.length_cons] at hi
    by_cases hlast : i = bs.length
    · subst hlast
      have htail : (ofBits bs).coeff bs.length = 0 :=
        coeff_eq_zero_of_degree_lt (degree_ofBits_lt bs)
      simp [htail]
    · have hlt : i < bs.length := by omega
      have hindex : (b :: bs).length - 1 - i = bs.length - 1 - i + 1 := by
        rw [List.length_cons]
        omega
      rw [if_neg hlast, mul_zero, zero_add, ih hlt]
      simp only [hindex, List.getElem_cons_succ]

theorem ofBits_xor {a b : List Bool} (h : a.length = b.length) :
    ofBits (List.zipWith xor a b) = ofBits a + ofBits b := by
  induction a generalizing b with
  | nil =>
    rw [List.eq_nil_of_length_eq_zero h.symm]
    simp
  | cons x a ih =>
    cases b with
    | nil => simp at h
    | cons y b =>
      have hlen : a.length = b.length := Nat.succ.inj h
      rw [List.zipWith_cons_cons, ofBits_cons, ofBits_cons, ofBits_cons, ih hlen, bit_xor,
        List.length_zipWith, hlen, Nat.min_self, C_add]
      ring

theorem ofBits_eq_zero_iff {bs : List Bool} : ofBits bs = 0 ↔ ∀ b ∈ bs, b = false := by
  refine ⟨fun h => ?_, ofBits_of_forall_false⟩
  induction bs with
  | nil => exact List.forall_mem_nil _
  | cons b bs ih =>
    have hhead : bit b = 0 := by
      have hcoeff := congrArg (coeff · bs.length) h
      have htail : (ofBits bs).coeff bs.length = 0 :=
        coeff_eq_zero_of_degree_lt (degree_ofBits_lt bs)
      simpa [ofBits_cons, htail] using hcoeff
    rw [ofBits_cons, hhead, C_0, zero_mul, zero_add] at h
    exact List.forall_mem_cons.2 ⟨bit_eq_zero_iff.1 hhead, ih h⟩

theorem eq_of_ofBits_xor {a b : List Bool} (hlen : a.length = b.length)
    (h : ofBits (List.zipWith xor a b) = 0) : a = b := by
  rw [ofBits_eq_zero_iff] at h
  induction a generalizing b with
  | nil => exact (List.eq_nil_of_length_eq_zero hlen.symm).symm
  | cons x a ih =>
    cases b with
    | nil => simp at hlen
    | cons y b =>
      rw [List.zipWith_cons_cons, List.forall_mem_cons] at h
      rw [bne_eq_false_iff_eq.1 h.1, ih (Nat.succ.inj hlen) h.2]

theorem eval_one_ofBits (bs : List Bool) : (ofBits bs).eval 1 = (bs.count true : ZMod 2) := by
  induction bs with
  | nil => simp
  | cons b bs ih =>
    rw [ofBits_cons, eval_add, ih]
    cases b <;> simp [bit, add_comm]

/-! ### What a generator detects -/

/-- The ones lie within `n` positions in a row. -/
def InWindow (n : ℕ) (bs : List Bool) : Prop :=
  ∃ p, ∀ i, bs[i]? = some true → p ≤ i ∧ i < p + n

theorem exists_ofBits_eq {n : ℕ} {bs : List Bool} (h : InWindow n bs) :
    ∃ w k, ofBits bs = X ^ k * ofBits w ∧ w.length ≤ n := by
  obtain ⟨p, hp⟩ := h
  have hsplit : bs = bs.take p ++ ((bs.drop p).take n ++ (bs.drop p).drop n) := by
    rw [List.take_append_drop, List.take_append_drop]
  have hfront : ofBits (bs.take p) = 0 := by
    refine ofBits_of_no_one fun i hone => ?_
    rw [List.getElem?_take] at hone
    split_ifs at hone with hlt
    exact absurd (hp i hone).1 (Nat.not_le.2 hlt)
  have hback : ofBits ((bs.drop p).drop n) = 0 := by
    refine ofBits_of_no_one fun i hone => ?_
    rw [List.getElem?_drop, List.getElem?_drop] at hone
    have hlt := (hp _ hone).2
    omega
  refine ⟨(bs.drop p).take n, ((bs.drop p).drop n).length, ?_, List.length_take_le n _⟩
  rw [hsplit, ofBits_append, hfront, ofBits_append, hback]
  simp

variable {G : (ZMod 2)[X]}

theorem isCoprime_X_pow (hG : G.coeff 0 ≠ 0) (k : ℕ) : IsCoprime G (X ^ k) := by
  have hirr : Irreducible (X : (ZMod 2)[X]) := irreducible_X
  exact (hirr.coprime_iff_not_dvd.2 fun hX => hG (X_dvd_iff.1 hX)).symm.pow_right

/-- **A window of ones that is no longer than the degree is not divided.** -/
theorem not_dvd_of_inWindow (hG : G.coeff 0 ≠ 0) {n : ℕ} {bs : List Bool} (hn : n ≤ G.natDegree)
    (h : InWindow n bs) (hne : ofBits bs ≠ 0) : ¬ G ∣ ofBits bs := by
  intro hdvd
  obtain ⟨w, k, heq, hw⟩ := exists_ofBits_eq h
  have hw0 : ofBits w = 0 := by
    refine eq_zero_of_dvd_of_degree_lt ((isCoprime_X_pow hG k).dvd_of_dvd_mul_left (heq ▸ hdvd)) ?_
    have hG0 : G ≠ 0 := by
      rintro rfl
      exact hG (coeff_zero 0)
    rw [degree_eq_natDegree hG0]
    exact (degree_ofBits_lt w).trans_le (by exact_mod_cast hw.trans hn)
  rw [heq, hw0, mul_zero] at hne
  exact hne rfl

/-- **An odd number of ones is not divided** by a generator with an even number of terms. -/
theorem not_dvd_of_odd (hG : G.eval 1 = 0) {bs : List Bool} (h : Odd (bs.count true)) :
    ¬ G ∣ ofBits bs := by
  rintro ⟨q, hq⟩
  have heval := eval_one_ofBits bs
  rw [hq, eval_mul, hG, zero_mul] at heval
  have htwo : 2 ∣ bs.count true := (ZMod.natCast_eq_zero_iff _ 2).1 heval.symm
  exact Nat.not_even_iff_odd.2 h (even_iff_two_dvd.2 htwo)

end BitString

end LiteMonitor
