import LiteMonitor.Control.Traversal
import LiteMonitor.Protocol.Message
import LiteMonitor.Text.Utf8

/-!
# Integers as text

`serializer::dump_integer`.  It counts the digits of a number, and fills a buffer with them from the
end, two at a time.  The buffer is a member of the serializer, and still holds what was written
before.

* `Integer` : a signed or unsigned number of 64 bits.
* `countDigits x`, `fillDigits number_buffer ptr x` : the two loops.
* `dumpInteger o number_buffer x` : the output and the buffer after `x`.
* `decimal z` : the decimal text of an integer.
* `dumpInteger_spec` : **every number is written in decimal, whatever the buffer holds.**
-/

namespace LiteMonitor

namespace Serializer

open Utf8

/-- `number_integer_t` and `number_unsigned_t`. -/
inductive Integer where
  | signed (x : Int64)
  | unsigned (x : UInt64)
  deriving DecidableEq

namespace Integer

/-- The number. -/
def val : Integer → ℤ
  | .signed x => x.toInt
  | .unsigned x => x.toNat

/-- `is_negative_number`. -/
def isNegativeNumber : Integer → Bool
  | .signed x => x < 0
  | .unsigned _ => false

end Integer

/-- `remove_sign`. -/
def removeSign (x : Int64) : UInt64 := (-(x + 1)).toUInt64 + 1

/-- `abs_value` in `dump_integer`. -/
def Integer.absValue : Integer → UInt64
  | .signed x => if x < 0 then removeSign x else x.toUInt64
  | .unsigned x => x

/-- The loop of `count_digits`, with the digits counted so far. -/
def countDigitsFrom (n_digits : ℕ) (x : UInt64) : ℕ :=
  if x < 10 then n_digits
  else if x < 100 then n_digits + 1
  else if x < 1000 then n_digits + 2
  else if h : x < 10000 then n_digits + 3
  else countDigitsFrom (n_digits + 4) (x / 10000)
  termination_by x.toNat
  decreasing_by
    rw [UInt64.lt_iff_toNat_lt] at h
    rw [UInt64.toNat_div]
    exact Nat.div_lt_self (Nat.lt_of_lt_of_le (by decide) (Nat.not_lt.1 h)) (by decide)

/-- `count_digits`. -/
def countDigits (x : UInt64) : ℕ := countDigitsFrom 1 x

/-- `'0' + n`. -/
def digit (n : ℕ) : UInt8 := UInt8.ofNat (0x30 + n)

/-- `*(--buffer_ptr) = byte`. -/
def storeBack (number_buffer : List UInt8) (ptr : ℕ) (byte : UInt8) :
    Except Fault (List UInt8 × ℕ) :=
  match ptr with
  | 0 => .error .outOfBounds
  | ptr + 1 => do
    let number_buffer ← store number_buffer ptr [byte]
    return (number_buffer, ptr)

/-- The two digits of `digits_to_99[n]`, from the end. -/
def storeTwo (number_buffer : List UInt8) (ptr : ℕ) (n : ℕ) : Except Fault (List UInt8 × ℕ) := do
  let (number_buffer, ptr) ← storeBack number_buffer ptr (digit (n % 10))
  storeBack number_buffer ptr (digit (n / 10))

/-- The digits of `abs_value` are written to the buffer, from the end. -/
def fillDigits (number_buffer : List UInt8) (ptr : ℕ) (abs_value : UInt64) :
    Except Fault (List UInt8 × ℕ) :=
  if 100 ≤ abs_value then do
    let (number_buffer, ptr) ← storeTwo number_buffer ptr (abs_value % 100).toNat
    fillDigits number_buffer ptr (abs_value / 100)
  else if 10 ≤ abs_value then storeTwo number_buffer ptr abs_value.toNat
  else storeBack number_buffer ptr (digit abs_value.toNat)
  termination_by abs_value.toNat
  decreasing_by
    have h : 100 ≤ abs_value.toNat := UInt64.le_iff_toNat_le.1 ‹100 ≤ abs_value›
    rw [UInt64.toNat_div]
    exact Nat.div_lt_self (Nat.lt_of_lt_of_le (by decide) h) (by decide)

/-- `serializer::dump_integer`. -/
def dumpInteger (o number_buffer : List UInt8) (x : Integer) :
    Except Fault (List UInt8 × List UInt8) := do
  if x.val = 0 then return (o ++ [0x30], number_buffer)
  let abs_value := x.absValue
  let (number_buffer, n_chars) ←
    if x.isNegativeNumber then do
      let number_buffer ← store number_buffer 0 [0x2D]
      pure (number_buffer, 1 + countDigits abs_value)
    else pure (number_buffer, countDigits abs_value)
  let (number_buffer, _) ← fillDigits number_buffer n_chars abs_value
  let text ← loadBytes number_buffer 0 n_chars
  return (o ++ text, number_buffer)

/-! ### Decimal texts -/

/-- The decimal digits of a number. -/
def digits (n : ℕ) : List UInt8 := bytes (Nat.toDigits 10 n)

/-- The decimal text of an integer. -/
def decimal (z : ℤ) : List Char :=
  if z < 0 then '-' :: Nat.toDigits 10 z.natAbs else Nat.toDigits 10 z.natAbs

theorem bytes_digitChar : ∀ n < 10, bytes [Nat.digitChar n] = [digit n] := by decide

theorem digits_of_lt {n : ℕ} (h : n < 10) : digits n = [digit n] := by
  rw [digits, Nat.toDigits_of_lt_base h, bytes_digitChar n h]

theorem digits_of_le {n : ℕ} (h : 10 ≤ n) : digits n = digits (n / 10) ++ [digit (n % 10)] := by
  rw [digits, Nat.toDigits_of_base_le (by decide) h, bytes_append, bytes_digitChar _ (by omega)]
  rfl

theorem digits_of_hundred_le {n : ℕ} (h : 100 ≤ n) :
    digits n = digits (n / 100) ++ [digit (n % 100 / 10), digit (n % 100 % 10)] := by
  have htens : n / 10 % 10 = n % 100 / 10 := by omega
  have hones : n % 10 = n % 100 % 10 := by omega
  rw [digits_of_le (by omega), digits_of_le (by omega), Nat.div_div_eq_div_mul, htens, hones]
  simp

theorem length_digits_of_lt {n : ℕ} (h : n < 10) : (digits n).length = 1 := by
  rw [digits_of_lt h]
  rfl

theorem length_digits_of_le {n : ℕ} (h : 10 ≤ n) :
    (digits n).length = (digits (n / 10)).length + 1 := by
  rw [digits_of_le h, List.length_append, List.length_singleton]

theorem length_digits_of_10000_le {n : ℕ} (h : 10000 ≤ n) :
    (digits n).length = (digits (n / 10000)).length + 4 := by
  rw [length_digits_of_le (by omega), length_digits_of_le (by omega),
    length_digits_of_le (by omega), length_digits_of_le (by omega)]
  simp only [Nat.div_div_eq_div_mul]

theorem length_digits_le {n : ℕ} (h : n < 2 ^ 64) : (digits n).length ≤ 20 := by
  have hlen : ∀ k m, m < 10 ^ (k + 1) → (digits m).length ≤ k + 1 := by
    intro k
    induction k with
    | zero =>
      intro m hm
      rw [length_digits_of_lt (by omega)]
    | succ k ih =>
      intro m hm
      by_cases hten : m < 10
      · rw [length_digits_of_lt hten]
        omega
      · rw [length_digits_of_le (by omega)]
        exact Nat.succ_le_succ (ih _ (by omega))
  exact hlen 19 n (Nat.lt_trans h (by decide))

/-! ### The two loops -/

/-- **The digits are counted right.** -/
theorem countDigitsFrom_eq (n : ℕ) (x : UInt64) :
    countDigitsFrom n x + 1 = n + (digits x.toNat).length := by
  induction n, x using countDigitsFrom.induct with
  | case1 n x h1 =>
    rw [countDigitsFrom, if_pos h1]
    rw [UInt64.lt_iff_toNat_lt] at h1
    rw [length_digits_of_lt h1]
  | case2 n x h1 h2 =>
    rw [countDigitsFrom, if_neg h1, if_pos h2]
    simp only [UInt64.lt_iff_toNat_lt, UInt64.reduceToNat] at h1 h2
    rw [length_digits_of_le (by omega), length_digits_of_lt (by omega)]
  | case3 n x h1 h2 h3 =>
    rw [countDigitsFrom, if_neg h1, if_neg h2, if_pos h3]
    simp only [UInt64.lt_iff_toNat_lt, UInt64.reduceToNat] at h1 h2 h3
    rw [length_digits_of_le (by omega), length_digits_of_le (by omega),
      length_digits_of_lt (by omega)]
  | case4 n x h1 h2 h3 h4 =>
    rw [countDigitsFrom, if_neg h1, if_neg h2, if_neg h3, dif_pos h4]
    simp only [UInt64.lt_iff_toNat_lt, UInt64.reduceToNat] at h1 h2 h3 h4
    rw [length_digits_of_le (by omega), length_digits_of_le (by omega),
      length_digits_of_le (by omega), length_digits_of_lt (by omega)]
  | case5 n x h1 h2 h3 h4 ih =>
    have hdiv : (x / 10000).toNat = x.toNat / 10000 := UInt64.toNat_div x 10000
    rw [countDigitsFrom, if_neg h1, if_neg h2, if_neg h3, dif_neg h4, ih, hdiv]
    simp only [UInt64.lt_iff_toNat_lt, UInt64.reduceToNat] at h4
    rw [length_digits_of_10000_le (Nat.not_lt.1 h4)]
    omega

theorem countDigits_eq (x : UInt64) : countDigits x = (digits x.toNat).length := by
  have h := countDigitsFrom_eq 1 x
  unfold countDigits
  omega

section Fill

variable (a d : List UInt8)

theorem storeBack_append (x byte : UInt8) :
    storeBack (a ++ x :: d) (a.length + 1) byte = .ok (a ++ byte :: d, a.length) := by
  have hstore : store (a ++ [x] ++ d) a.length [byte] = .ok (a ++ [byte] ++ d) :=
    store_append a rfl
  rw [List.append_assoc, List.append_assoc] at hstore
  simp only [List.singleton_append] at hstore
  rw [storeBack, hstore]
  rfl

theorem storeTwo_append (x y : UInt8) (n : ℕ) :
    storeTwo (a ++ x :: y :: d) (a.length + 2) n =
      .ok (a ++ digit (n / 10) :: digit (n % 10) :: d, a.length) := by
  have hlast : storeBack (a ++ x :: y :: d) (a.length + 2) (digit (n % 10)) =
      .ok (a ++ x :: digit (n % 10) :: d, a.length + 1) := by
    have h := storeBack_append (a ++ [x]) d y (digit (n % 10))
    simpa using h
  rw [storeTwo, hlast]
  exact storeBack_append a _ x _

theorem exists_last_two {c : List UInt8} {m : ℕ} (h : c.length = m + 2) :
    ∃ c' x y, c = c' ++ [x, y] ∧ c'.length = m := by
  obtain rfl | ⟨c₁, y, rfl⟩ := List.eq_nil_or_concat' c
  · simp at h
  obtain rfl | ⟨c', x, rfl⟩ := List.eq_nil_or_concat' c₁
  · simp at h
  refine ⟨c', x, y, by simp, ?_⟩
  simpa using h

/-- **The buffer is filled from the end**, up to where the digits begin. -/
theorem fillDigits_append (v : UInt64) (c : List UInt8)
    (hc : c.length = (digits v.toNat).length) :
    fillDigits (a ++ c ++ d) (a.length + c.length) v =
      .ok (a ++ digits v.toNat ++ d, a.length) := by
  induction hn : v.toNat using Nat.strong_induction_on generalizing v c d with
  | _ n ih =>
    subst hn
    rw [fillDigits]
    by_cases h100 : 100 ≤ v
    · have hle : 100 ≤ v.toNat := UInt64.le_iff_toNat_le.1 h100
      have hdiv : (v / 100).toNat = v.toNat / 100 := UInt64.toNat_div v 100
      have hmod : (v % 100).toNat = v.toNat % 100 := UInt64.toNat_mod v 100
      rw [digits_of_hundred_le hle, List.length_append] at hc
      obtain ⟨c', x, y, rfl, hc'⟩ := exists_last_two hc
      rw [← hdiv] at hc'
      have htwo := storeTwo_append (a ++ c') d x y (v % 100).toNat
      have hrest := ih (v / 100).toNat (by rw [hdiv]; omega)
        (digit ((v % 100).toNat / 10) :: digit ((v % 100).toNat % 10) :: d) (v / 100) c' hc' rfl
      simp only [List.append_assoc, List.length_append, List.cons_append, List.nil_append,
        List.length_cons, List.length_nil, Nat.zero_add, ← Nat.add_assoc] at htwo hrest ⊢
      rw [if_pos h100, htwo]
      show fillDigits _ _ _ = _
      rw [hrest, digits_of_hundred_le hle, hdiv, hmod]
      simp
    · have hlt : v.toNat < 100 := by
        simpa only [UInt64.le_iff_toNat_le, UInt64.reduceToNat, Nat.not_le] using h100
      rw [if_neg h100]
      by_cases h10 : 10 ≤ v
      · have hle : 10 ≤ v.toNat := UInt64.le_iff_toNat_le.1 h10
        have hten : v.toNat / 10 < 10 := by omega
        rw [length_digits_of_le hle, length_digits_of_lt hten] at hc
        obtain ⟨x, y, rfl⟩ := List.length_eq_two.1 hc
        have htwo := storeTwo_append a d x y v.toNat
        rw [if_pos h10, digits_of_le hle, digits_of_lt hten]
        simpa using htwo
      · have hone : v.toNat < 10 := by
          simpa only [UInt64.le_iff_toNat_le, UInt64.reduceToNat, Nat.not_le] using h10
        rw [length_digits_of_lt hone] at hc
        obtain ⟨x, rfl⟩ := List.length_eq_one_iff.1 hc
        have hback := storeBack_append a d x (digit v.toNat)
        rw [if_neg h10, digits_of_lt hone]
        simpa using hback

end Fill

/-! ### The function -/

theorem toNat_absValue (x : Integer) : x.absValue.toNat = x.val.natAbs := by
  cases x with
  | unsigned x => rfl
  | signed x =>
    have hlt := x.toUInt64.toNat_lt
    have hx : x.toInt = if 2 * x.toUInt64.toNat < 2 ^ 64 then (x.toUInt64.toNat : ℤ)
        else (x.toUInt64.toNat : ℤ) - 2 ^ 64 := BitVec.toInt_eq_toNat_cond x.toBitVec
    have hsign : x < 0 ↔ x.toInt < 0 := Int64.lt_iff_toInt_lt
    simp only [Integer.absValue, Integer.val]
    by_cases hneg : x < 0
    · have hremove : removeSign x = -x.toUInt64 := by
        unfold removeSign
        have hone : (1 : Int64).toUInt64 = 1 := rfl
        rw [Int64.toUInt64_neg, Int64.toUInt64_add, hone]
        grind
      rw [hsign] at hneg
      rw [if_pos (hsign.2 hneg), hremove, UInt64.toNat_neg]
      simp only [UInt64.size]
      split_ifs at hx <;> omega
    · rw [hsign] at hneg
      rw [if_neg (fun h => hneg (hsign.1 h))]
      split_ifs at hx <;> omega

theorem fillDigits_load (a rest : List UInt8) (v : UInt64)
    (hroom : (digits v.toNat).length ≤ rest.length) :
    ∃ number_buffer, number_buffer.length = (a ++ rest).length ∧
      fillDigits (a ++ rest) (a.length + countDigits v) v = .ok (number_buffer, a.length) ∧
      loadBytes number_buffer 0 (a.length + countDigits v) = .ok (a ++ digits v.toNat) := by
  have hc : (rest.take (digits v.toNat).length).length = (digits v.toNat).length := by
    rw [List.length_take, Nat.min_eq_left hroom]
  have hfill := fillDigits_append a (rest.drop (digits v.toNat).length) v _ hc
  rw [List.append_assoc, List.take_append_drop, hc, ← countDigits_eq] at hfill
  have hlen : (a ++ digits v.toNat).length = a.length + countDigits v := by
    rw [List.length_append, countDigits_eq]
  refine ⟨_, ?_, hfill, ?_⟩
  · simp only [List.length_append, List.length_drop, countDigits_eq]
    omega
  · rw [← hlen, loadBytes_of_le (by simp), List.drop_zero, List.take_left]

theorem isNegativeNumber_iff (x : Integer) : x.isNegativeNumber = true ↔ x.val < 0 := by
  cases x with
  | signed x => simp [Integer.isNegativeNumber, Integer.val, Int64.lt_iff_toInt_lt]
  | unsigned x => simp [Integer.isNegativeNumber, Integer.val]

/-- **Every number is written in decimal**, whatever the buffer holds. -/
theorem dumpInteger_spec (o : List UInt8) {number_buffer : List UInt8}
    (h : number_buffer.length = 64) (x : Integer) :
    ∃ number_buffer', number_buffer'.length = 64 ∧
      dumpInteger o number_buffer x = .ok (o ++ bytes (decimal x.val), number_buffer') := by
  have hlen := length_digits_le x.absValue.toNat_lt
  unfold dumpInteger
  by_cases hzero : x.val = 0
  · refine ⟨number_buffer, h, ?_⟩
    rw [if_pos hzero, hzero]
    rfl
  rw [if_neg hzero]
  by_cases hneg : x.val < 0
  · -- the sign takes the first place of the buffer
    have hdec : bytes (decimal x.val) = [0x2D] ++ digits x.absValue.toNat := by
      rw [decimal, if_pos hneg, toNat_absValue]
      rfl
    cases number_buffer with
    | nil => simp at h
    | cons b rest =>
      rw [List.length_cons] at h
      have hstore : store (b :: rest) 0 [0x2D] = .ok ([0x2D] ++ rest) :=
        store_append [] (c := [b]) rfl
      obtain ⟨number_buffer', hkept, hfill, hload⟩ :=
        fillDigits_load [0x2D] rest x.absValue (by omega)
      refine ⟨number_buffer', by rw [hkept]; simpa using h, ?_⟩
      rw [List.length_singleton] at hfill hload
      simp only [(isNegativeNumber_iff x).2 hneg, if_true, hstore, pure_bind, ok_bind, hfill,
        hload, hdec]
      rfl
  · have hdec : bytes (decimal x.val) = digits x.absValue.toNat := by
      rw [decimal, if_neg hneg, toNat_absValue]
      rfl
    have hplus : ¬ x.isNegativeNumber = true := fun hminus =>
      hneg ((isNegativeNumber_iff x).1 hminus)
    obtain ⟨number_buffer', hkept, hfill, hload⟩ :=
      fillDigits_load [] number_buffer x.absValue (by omega)
    refine ⟨number_buffer', by rw [hkept]; exact h, ?_⟩
    rw [List.length_nil, Nat.zero_add] at hfill hload
    rw [List.nil_append] at hfill hload
    simp only [if_neg hplus, pure_bind, ok_bind, hfill, hload, hdec]
    rfl

/-- The least number has no absolute value of its own type. -/
theorem dumpInteger_spec_min : ∃ number_buffer', number_buffer'.length = 64 ∧
    dumpInteger [] (List.replicate 64 0) (.signed Int64.minValue) =
      .ok ([] ++ bytes (decimal (Integer.signed Int64.minValue).val), number_buffer') :=
  dumpInteger_spec [] List.length_replicate (.signed Int64.minValue)

end Serializer

end LiteMonitor
