import LiteMonitor.Config.Parameters
import LiteMonitor.Json.Integer
import LiteMonitor.Text.Numeral

/-!
# Floating-point numbers as text

`serializer::dump_float` and `to_chars`, `format_buffer` and `append_exponent` under it.  The
floating-point operations are parameters, and so is `grisu2`, which yields the decimal digits of a
positive number and the exponent of the last of them.

* `Floats F` : the operations of the type `F`; `Floats.Lawful` : what `to_chars` relies on;
  `Floats.Accurate` : the digits that `grisu2` yields round to the number.
* `formatBuffer`, `appendExponent` : the digits are moved to make room for the point, and the
  exponent is written behind them.
* `toChars`, `dumpFloat`.
* `formatText ds e` : the text that `formatBuffer` leaves in the buffer; `readUnsigned_formatText` :
  **it stands for the digits, times a power of ten**, whichever notation is used.
* `dumpFloat_spec` : **a finite number is written as a numeral for its digits, anything else as
  `null`, and the buffer is not overrun.**
* `rounds_decimal` : the numeral is nearer to the number than to any other.
-/

namespace LiteMonitor

namespace Serializer

open Utf8 Numeral

/-- The operations on a floating-point type. -/
structure Floats (F : Type) where
  isfinite : F → Bool
  signbit : F → Bool
  /-- `-value` -/
  neg : F → F
  /-- `value == 0` -/
  isZero : F → Bool
  /-- The digits that `grisu2` writes to its buffer, and `decimal_exponent`. -/
  grisu2 : F → List Char × ℤ
  /-- What a finite value is. -/
  number : F → ℚ

/-- `memset`. -/
def memset (s : List UInt8) (pos : ℕ) (byte : UInt8) (n : ℕ) : Except Fault (List UInt8) :=
  store s pos (List.replicate n byte)

/-- `memmove` within a buffer. -/
def memmove (s : List UInt8) (dst src n : ℕ) : Except Fault (List UInt8) := do
  let bs ← loadBytes s src n
  store s dst bs

/-- `append_exponent`. -/
def appendExponent (number_buffer : List UInt8) (buf : ℕ) (e : ℤ) :
    Except Fault (List UInt8 × ℕ) := do
  let number_buffer ← store number_buffer buf [if e < 0 then 0x2D else 0x2B]
  let k := e.natAbs
  let text :=
    if k < 10 then [0x30, digit k]
    else if k < 100 then [digit (k / 10), digit (k % 10)]
    else [digit (k / 100), digit (k % 100 / 10), digit (k % 100 % 10)]
  let number_buffer ← store number_buffer (buf + 1) text
  return (number_buffer, buf + 1 + text.length)

/-- `format_buffer`. -/
def formatBuffer (number_buffer : List UInt8) (buf len : ℕ)
    (decimal_exponent min_exp max_exp : ℤ) : Except Fault (List UInt8 × ℕ) :=
  let k : ℤ := len
  let n := k + decimal_exponent
  if k ≤ n ∧ n ≤ max_exp then do
    let number_buffer ← memset number_buffer (buf + len) 0x30 (n - k).toNat
    let number_buffer ← store number_buffer (buf + n.toNat) [0x2E, 0x30]
    return (number_buffer, buf + n.toNat + 2)
  else if 0 < n ∧ n ≤ max_exp then do
    let number_buffer ← memmove number_buffer (buf + n.toNat + 1) (buf + n.toNat) (k - n).toNat
    let number_buffer ← store number_buffer (buf + n.toNat) [0x2E]
    return (number_buffer, buf + len + 1)
  else if min_exp < n ∧ n ≤ 0 then do
    let number_buffer ← memmove number_buffer (buf + (2 + (-n).toNat)) buf len
    let number_buffer ← store number_buffer buf [0x30, 0x2E]
    let number_buffer ← memset number_buffer (buf + 2) 0x30 (-n).toNat
    return (number_buffer, buf + (2 + (-n).toNat + len))
  else do
    let (number_buffer, buf) ←
      if len = 1 then pure (number_buffer, buf + 1)
      else do
        let number_buffer ← memmove number_buffer (buf + 2) (buf + 1) (len - 1)
        let number_buffer ← store number_buffer (buf + 1) [0x2E]
        pure (number_buffer, buf + (1 + len))
    let number_buffer ← store number_buffer buf [0x65]
    appendExponent number_buffer (buf + 1) (n - 1)

namespace Floats

variable {F : Type} (ops : Floats F)

/-- `to_chars`, at the beginning of the buffer; `-4` and `15` are `kMinExp` and `kMaxExp` for
numbers of 64 bits. -/
def toChars (number_buffer : List UInt8) (value : F) : Except Fault (List UInt8 × ℕ) := do
  let (number_buffer, first, value) ←
    if ops.signbit value then do
      let number_buffer ← store number_buffer 0 [0x2D]
      pure (number_buffer, 1, ops.neg value)
    else pure (number_buffer, 0, value)
  if ops.isZero value then do
    let number_buffer ← store number_buffer first [0x30, 0x2E, 0x30]
    return (number_buffer, first + 3)
  else do
    let (ds, decimal_exponent) := ops.grisu2 value
    let number_buffer ← store number_buffer first (bytes ds)
    formatBuffer number_buffer first ds.length decimal_exponent (-4) 15

/-- `serializer::dump_float`. -/
def dumpFloat (o number_buffer : List UInt8) (x : F) :
    Except Fault (List UInt8 × List UInt8) :=
  if ops.isfinite x then do
    let (number_buffer, n) ← ops.toChars number_buffer x
    let text ← loadBytes number_buffer 0 n
    return (o ++ text, number_buffer)
  else return (o ++ stdString "null", number_buffer)

end Floats

/-! ### The texts -/

/-- An exponent: its sign, and at least two digits. -/
def exponentText (e : ℤ) : List Char :=
  (if e < 0 then '-' else '+') ::
    if e.natAbs < 10 then ['0', Nat.digitChar e.natAbs] else Nat.toDigits 10 e.natAbs

/-- A point behind the first digit, if there are more. -/
def pointed : List Char → List Char
  | d :: d' :: ds => d :: '.' :: d' :: ds
  | ds => ds

/-- The digits `ds`, the last of them worth `10 ^ e`, in the notation of `formatBuffer`. -/
def formatText (ds : List Char) (e : ℤ) : List Char :=
  let n := ds.length + e
  if 0 ≤ e ∧ n ≤ 15 then ds ++ List.replicate e.toNat '0' ++ ['.', '0']
  else if 0 < n ∧ n ≤ 15 then ds.take n.toNat ++ '.' :: ds.drop n.toNat
  else if -4 < n ∧ n ≤ 0 then '0' :: '.' :: List.replicate (-n).toNat '0' ++ ds
  else pointed ds ++ 'e' :: exponentText (n - 1)

/-- The digits of a positive number, none of them a zero in front. -/
structure Digits (ds : List Char) (e : ℤ) : Prop where
  integral : Integral ds
  pos : ds.head? ≠ some '0'
  length_le : ds.length ≤ 17
  exponent : (ds.length + e - 1).natAbs < 1000

example : formatText "12345".toList (-3) = "12.345".toList := by decide

section Value

variable {ds rest : List Char} {e : ℤ}

theorem readExponent_exponentText (h : Ends rest) :
    readExponent ('e' :: (exponentText e ++ rest)) = some (e, rest) := by
  have hsign : (if e < 0 then '-' else '+') = '+' ∨ (if e < 0 then '-' else '+') = '-' := by
    split_ifs <;> simp
  have hval : (if (if e < 0 then '-' else '+') = '-' then -1 else 1) * (e.natAbs : ℤ) = e := by
    split_ifs with h₁ h₂ h₂ <;> first | omega | (exact absurd h₂ (by decide))
  unfold exponentText
  by_cases hlt : e.natAbs < 10
  · have hds : ∀ c ∈ ['0', Nat.digitChar e.natAbs], isDigit c = true := by
      intro c hc
      rcases List.mem_cons.1 hc with rfl | hc
      · rfl
      · rw [List.mem_singleton.1 hc]
        exact isDigit_digitChar _ hlt
    have hvalue : value ['0', Nat.digitChar e.natAbs] = e.natAbs := by
      have hzero : value ['0'] = 0 := rfl
      rw [← List.singleton_append, value_append, ← Nat.toDigits_of_lt_base hlt, value_toDigits,
        hzero, Nat.zero_mul, Nat.zero_add]
    rw [if_pos hlt, List.cons_append, readExponent_cons hsign (List.cons_ne_nil _ _) hds h.head,
      hvalue, hval]
  · rw [if_neg hlt, List.cons_append,
      readExponent_cons hsign (toDigits_ne_nil _) (isDigit_toDigits _) h.head, value_toDigits,
      hval]

theorem isDigit_zeros (n : ℕ) : ∀ c ∈ List.replicate n '0', isDigit c = true := by
  intro c hc
  rw [List.eq_of_mem_replicate hc]
  rfl

/-- **The text stands for the digits**, the last of them worth `10 ^ e`. -/
theorem readUnsigned_formatText (h : Digits ds e) (hrest : Ends rest) :
    readUnsigned (formatText ds e ++ rest) = some ((value ds : ℚ) * 10 ^ e, rest) := by
  obtain ⟨⟨hne, hds, hzero⟩, hpos, -, -⟩ := h
  have hexp := readExponent_of_ends fun c hc => (hrest c hc).2.2
  have hpoint : ∀ t : List Char, ∀ c ∈ ('.' :: t).head?, isDigit c = false := by simp; decide
  unfold formatText
  simp only
  split_ifs with h₁ h₂ h₃
  · -- zeros behind the digits
    have hint : Integral (ds ++ List.replicate e.toNat '0') := by
      refine ⟨List.append_ne_nil_of_left_ne_nil hne _, ?_, ?_⟩
      · intro c hc
        rcases List.mem_append.1 hc with hc | hc
        · exact hds c hc
        · exact isDigit_zeros _ c hc
      · rw [List.head?_append_of_ne_nil _ hne]
        exact fun hhead => absurd hhead hpos
    have hfrac := readFraction_cons (List.cons_ne_nil _ _) (isDigit_singleton (c := '0') rfl)
      hrest.head
    have hread := readUnsigned_parts hint (hpoint _) hfrac hexp
    rw [List.append_assoc]
    refine hread.trans ?_
    obtain ⟨m, rfl⟩ := Int.eq_ofNat_of_zero_le h₁.1
    have hlast : value ['0'] = 0 := rfl
    rw [value_append, value_append, value_zeros, hlast, List.length_replicate]
    simp
  · -- the point among the digits
    obtain ⟨m, hm⟩ := Int.eq_ofNat_of_zero_le (Int.le_of_lt h₂.1)
    rw [hm, Int.toNat_natCast]
    have hlt : m < ds.length := by omega
    have htake : ds.take m ≠ [] := by
      simp only [ne_eq, List.take_eq_nil_iff, hne, or_false]
      omega
    have hdrop : ds.drop m ≠ [] := by
      rw [ne_eq, List.drop_eq_nil_iff]
      omega
    have hint : Integral (ds.take m) := by
      refine ⟨htake, fun c hc => hds c (List.mem_of_mem_take hc), fun hhead => absurd ?_ hpos⟩
      rwa [List.head?_take, if_neg (by omega)] at hhead
    have hfrac := readFraction_cons hdrop (fun c hc => hds c (List.mem_of_mem_drop hc)) hrest.head
    have hread := readUnsigned_parts hint (hpoint _) hfrac hexp
    have he : (0 : ℤ) - (ds.drop m).length = e := by
      rw [List.length_drop]
      omega
    rw [List.append_assoc, List.cons_append, hread, List.take_append_drop, he]
  · -- zeros in front of the digits
    have hint : Integral ['0'] := ⟨List.cons_ne_nil _ _, isDigit_singleton rfl, fun _ => rfl⟩
    have hall : ∀ c ∈ List.replicate (-(ds.length + e)).toNat '0' ++ ds, isDigit c = true := by
      intro c hc
      rcases List.mem_append.1 hc with hc | hc
      · exact isDigit_zeros _ c hc
      · exact hds c hc
    have hfrac := readFraction_cons (List.append_ne_nil_of_right_ne_nil _ hne) hall hrest.head
    have hread := readUnsigned_parts hint (hpoint _) hfrac hexp
    have hlast : value ['0'] = 0 := rfl
    have he : (0 : ℤ) - (List.replicate (-(ds.length + e)).toNat '0' ++ ds).length = e := by
      rw [List.length_append, List.length_replicate]
      omega
    rw [he, value_append, value_append, hlast, value_zeros] at hread
    simpa using hread
  · -- an exponent behind the digits
    have hscientific := readExponent_exponentText (e := ds.length + e - 1) hrest
    have hletter : ∀ t : List Char, ∀ c ∈ ('e' :: t).head?, isDigit c = false := by simp; decide
    match ds, hne, hds, hzero, hpos, hscientific with
    | [d], _, hds, hzero, hpos, hscientific =>
      have hint : Integral [d] := ⟨List.cons_ne_nil _ _, hds, hzero⟩
      have hfrac := readFraction_of_ends (s := 'e' :: (exponentText (1 + e - 1) ++ rest))
        (by simp)
      have hread := readUnsigned_parts hint (hletter _) hfrac hscientific
      simpa [pointed] using hread
    | d :: d' :: ds, _, hds, hzero, hpos, hscientific =>
      have hint : Integral [d] := ⟨List.cons_ne_nil _ _,
        isDigit_singleton (hds d List.mem_cons_self), fun hhead => absurd hhead hpos⟩
      have hfrac := readFraction_cons (l := d' :: ds) (List.cons_ne_nil _ _)
        (fun c hc => hds c (List.mem_cons_of_mem _ hc))
        (hletter (exponentText ((d :: d' :: ds).length + e - 1) ++ rest))
      have hread := readUnsigned_parts hint (hpoint _) hfrac hscientific
      have he : ((d :: d' :: ds).length : ℤ) + e - 1 - (d' :: ds).length = e := by
        simp only [List.length_cons]
        omega
      rw [he] at hread
      simpa [pointed] using hread

end Value

/-! ### The buffer -/

/-- What `m` yields is a buffer where `text` stands behind `a`, in place of the beginning of `d`,
and the place behind the text. -/
def Writes (m : Except Fault (List UInt8 × ℕ)) (a text d : List UInt8) : Prop :=
  ∃ d', (text ++ d').length = d.length ∧ m = .ok (a ++ text ++ d', (a ++ text).length)

section Buffer

variable (a : List UInt8) {d m s : List UInt8}

theorem store_room (h : s.length ≤ d.length) :
    store (a ++ d) a.length s = .ok (a ++ s ++ d.drop s.length) := by
  have hlen : (d.take s.length).length = s.length := by
    rw [List.length_take, Nat.min_eq_left h]
  have hsplit := store_append a (d := d.drop s.length) hlen
  rwa [List.append_assoc, List.take_append_drop] at hsplit

theorem memmove_up {j : ℕ} (hj : j ≤ d.length) :
    memmove (a ++ (m ++ d)) (a.length + j) a.length m.length =
      .ok (a ++ (m ++ d).take j ++ m ++ d.drop j) := by
  have hload : loadBytes (a ++ (m ++ d)) a.length m.length = .ok m := by
    rw [loadBytes_of_le (by simp), List.drop_left, List.take_left]
  have hlen : (a ++ (m ++ d).take j).length = a.length + j := by
    simp only [List.length_append, List.length_take]
    omega
  have hstore := store_room (a ++ (m ++ d).take j) (d := (m ++ d).drop j) (s := m)
    (by simp only [List.length_drop, List.length_append]; omega)
  rw [hlen, List.append_assoc a, List.take_append_drop, List.drop_drop,
    Nat.add_comm j m.length, List.drop_length_add_append] at hstore
  rw [memmove, hload]
  exact hstore

theorem bytes_digits {ds : List Char} (hds : ∀ c ∈ ds, isDigit c = true) :
    (bytes ds).length = ds.length := by
  induction ds with
  | nil => rfl
  | cons c ds ih =>
    have hc : c.toNat < 0x80 := by
      have h := hds c List.mem_cons_self
      simp only [isDigit, Bool.and_eq_true, decide_eq_true_eq, Char.le_def,
        UInt32.le_iff_toNat_le] at h
      exact Nat.lt_of_le_of_lt h.2 (by decide)
    rw [bytes_cons, List.length_append, ih fun c hc => hds c (List.mem_cons_of_mem _ hc),
      encode_ascii hc, List.length_singleton, List.length_cons, Nat.add_comm]

theorem bytes_exponent {k : ℕ} (hk : k < 1000) :
    bytes (if k < 10 then ['0', Nat.digitChar k] else Nat.toDigits 10 k) =
      if k < 10 then [0x30, digit k]
      else if k < 100 then [digit (k / 10), digit (k % 10)]
      else [digit (k / 100), digit (k % 100 / 10), digit (k % 100 % 10)] := by
  split_ifs with h₁ h₂
  · have hdigit := bytes_digitChar k h₁
    rw [bytes_cons, hdigit]
    rfl
  · show digits k = _
    rw [digits_of_le (by omega), digits_of_lt (by omega)]
    rfl
  · show digits k = _
    rw [digits_of_hundred_le (by omega), digits_of_lt (by omega)]
    rfl

theorem appendExponent_writes {e : ℤ} (he : e.natAbs < 1000) (hd : 4 ≤ d.length) :
    Writes (appendExponent (a ++ d) a.length e) a (bytes (exponentText e)) d := by
  have hsign : bytes [if e < 0 then '-' else '+'] = [if e < 0 then 0x2D else 0x2B] := by
    split_ifs <;> decide
  have hlen : (bytes (if e.natAbs < 10 then ['0', Nat.digitChar e.natAbs]
      else Nat.toDigits 10 e.natAbs)).length ≤ 3 := by
    rw [bytes_exponent he]
    split_ifs <;> simp
  have htext : bytes (exponentText e) = [if e < 0 then 0x2D else 0x2B] ++
      bytes (if e.natAbs < 10 then ['0', Nat.digitChar e.natAbs]
        else Nat.toDigits 10 e.natAbs) := by
    rw [← hsign, ← bytes_append]
    rfl
  unfold appendExponent
  simp only [← bytes_exponent he]
  generalize bytes (if e.natAbs < 10 then ['0', Nat.digitChar e.natAbs]
    else Nat.toDigits 10 e.natAbs) = text at hlen htext
  generalize (if e < 0 then (0x2D : UInt8) else 0x2B) = sign at htext
  have hfirst := store_room a (d := d) (s := [sign]) (by rw [List.length_singleton]; omega)
  have hsecond := store_room (a ++ [sign]) (d := d.drop 1) (s := text)
    (by rw [List.length_drop]; omega)
  rw [List.length_append, List.length_singleton] at hsecond
  rw [List.length_singleton] at hfirst
  refine ⟨(d.drop 1).drop text.length, ?_, ?_⟩
  · rw [htext]
    simp only [List.length_append, List.length_drop, List.length_singleton]
    omega
  · rw [hfirst, ok_bind, hsecond, ok_bind, htext, ← List.append_assoc, List.length_append,
      List.length_append, List.length_singleton]
    rfl

theorem bytes_zeros (n : ℕ) : bytes (List.replicate n '0') = List.replicate n 0x30 := by
  induction n with
  | zero => rfl
  | succ n ih =>
    rw [List.replicate_succ, bytes_cons, ih]
    rfl

theorem writes_zeros {z : ℕ} (hd : z + 2 ≤ d.length) :
    Writes (do
      let number_buffer ← memset (a ++ (m ++ d)) (a.length + m.length) 0x30 z
      let number_buffer ← store number_buffer (a.length + (m.length + z)) [0x2E, 0x30]
      return (number_buffer, a.length + (m.length + z) + 2)) a
      (m ++ List.replicate z 0x30 ++ [0x2E, 0x30]) (m ++ d) := by
  have hzeros := store_room (a ++ m) (d := d) (s := List.replicate z 0x30)
    (by rw [List.length_replicate]; omega)
  have hpoint := store_room (a ++ m ++ List.replicate z 0x30) (d := d.drop z)
    (s := [0x2E, 0x30]) (by simp only [List.length_drop, List.length_cons, List.length_nil]; omega)
  simp only [List.length_append, List.length_replicate, List.append_assoc] at hzeros hpoint
  refine ⟨(d.drop z).drop 2, ?_, ?_⟩
  · simp only [List.length_append, List.length_drop, List.length_replicate, List.length_cons,
      List.length_nil]
    omega
  · rw [memset, hzeros, ok_bind, hpoint, ok_bind]
    simp [Nat.add_assoc, pure, Except.pure]

theorem move_point {n : List UInt8} (hm : n ≠ []) (hd : 1 ≤ d.length) :
    ∃ s, memmove (a ++ (m ++ n ++ d)) (a.length + m.length + 1) (a.length + m.length)
        n.length = .ok s ∧
      store s (a.length + m.length) [0x2E] = .ok (a ++ (m ++ 0x2E :: n) ++ d.drop 1) := by
  obtain ⟨b, n, rfl⟩ := List.exists_cons_of_ne_nil hm
  have hmove := memmove_up (a ++ m) (m := b :: n) (d := d) hd
  have hpoint : store (a ++ m ++ [b] ++ (b :: n ++ d.drop 1)) (a ++ m).length [0x2E] =
      .ok (a ++ m ++ [0x2E] ++ (b :: n ++ d.drop 1)) := store_append (a ++ m) rfl
  simp only [List.length_append, List.append_assoc, List.cons_append, List.take_succ_cons,
    List.take_zero, List.nil_append] at hmove hpoint
  refine ⟨a ++ (m ++ b :: b :: (n ++ d.drop 1)), ?_, ?_⟩
  · simpa only [List.append_assoc, List.cons_append] using hmove
  · simpa only [List.append_assoc, List.cons_append] using hpoint

theorem writes_point {n : List UInt8} (hm : n ≠ []) (hd : 1 ≤ d.length) :
    Writes (do
      let number_buffer ← memmove (a ++ (m ++ n ++ d)) (a.length + m.length + 1)
        (a.length + m.length) n.length
      let number_buffer ← store number_buffer (a.length + m.length) [0x2E]
      return (number_buffer, a.length + (m.length + n.length) + 1)) a
      (m ++ 0x2E :: n) (m ++ n ++ d) := by
  obtain ⟨s, hmove, hpoint⟩ := move_point a (m := m) hm hd
  refine ⟨d.drop 1, ?_, ?_⟩
  · simp only [List.length_append, List.length_drop, List.length_cons]
    omega
  · rw [hmove, ok_bind, hpoint, ok_bind]
    simp [Nat.add_assoc, pure, Except.pure]

theorem writes_fraction {z : ℕ} (hd : 2 + z ≤ d.length) :
    Writes (do
      let number_buffer ← memmove (a ++ (m ++ d)) (a.length + (2 + z)) a.length m.length
      let number_buffer ← store number_buffer a.length [0x30, 0x2E]
      let number_buffer ← memset number_buffer (a.length + 2) 0x30 z
      return (number_buffer, a.length + (2 + z + m.length))) a
      ([0x30, 0x2E] ++ List.replicate z 0x30 ++ m) (m ++ d) := by
  have hmove := memmove_up a (m := m) hd
  have hroom : ((m ++ d).take (2 + z)).length = 2 + z := by
    simp only [List.length_take, List.length_append]
    omega
  generalize (m ++ d).take (2 + z) = c at hmove hroom
  have hzero := store_room a (d := c ++ (m ++ d.drop (2 + z))) (s := [0x30, 0x2E])
    (by simp only [List.length_append, List.length_cons, List.length_nil]; omega)
  have hzeros := store_room (a ++ [0x30, 0x2E]) (d := c.drop 2 ++ (m ++ d.drop (2 + z)))
    (s := List.replicate z 0x30)
    (by simp only [List.length_append, List.length_drop, List.length_replicate]; omega)
  have hdrop : (c ++ (m ++ d.drop (2 + z))).drop 2 = c.drop 2 ++ (m ++ d.drop (2 + z)) :=
    List.drop_append_of_le_length (by omega)
  have hdrop' : (c.drop 2 ++ (m ++ d.drop (2 + z))).drop z = m ++ d.drop (2 + z) := by
    rw [List.drop_left']
    rw [List.length_drop]
    omega
  have hlen : [(0x30 : UInt8), 0x2E].length = 2 := rfl
  rw [hlen, hdrop] at hzero
  rw [List.length_append, hlen, List.length_replicate, hdrop'] at hzeros
  refine ⟨d.drop (2 + z), ?_, ?_⟩
  · simp only [List.length_append, List.length_drop, List.length_replicate, hlen]
    omega
  · rw [hmove, ok_bind, List.append_assoc, List.append_assoc, hzero, ok_bind, memset, hzeros,
      ok_bind]
    simp only [pure, Except.pure, List.append_assoc, List.length_append, List.length_replicate,
      hlen, Nat.add_assoc]

theorem Writes.behind {r : Except Fault (List UInt8 × ℕ)} {p text : List UInt8}
    (h : Writes r (a ++ p) text d) : Writes r a (p ++ text) (p ++ d) := by
  obtain ⟨d', hlen, hr⟩ := h
  refine ⟨d', ?_, ?_⟩
  · simp only [List.length_append] at hlen ⊢
    omega
  · simpa only [List.append_assoc] using hr

theorem writes_exponent {e : ℤ} (he : e.natAbs < 1000) (hd : 5 ≤ d.length) :
    Writes (do
      let number_buffer ← store (a ++ d) a.length [0x65]
      appendExponent number_buffer (a.length + 1) e) a (0x65 :: bytes (exponentText e)) d := by
  have hletter := store_room a (d := d) (s := [0x65]) (by rw [List.length_singleton]; omega)
  have hexp := appendExponent_writes (a ++ [0x65]) (d := d.drop 1) he
    (by rw [List.length_drop]; omega)
  obtain ⟨d', hlen, hr⟩ := hexp
  rw [List.length_append, List.length_singleton] at hr
  refine ⟨d', ?_, ?_⟩
  · simp only [List.length_append, List.length_drop, List.length_cons] at hlen ⊢
    omega
  · rw [hletter, ok_bind, List.length_singleton, hr]
    simp

theorem writes_first {ds : List Char} (hne : ds ≠ []) (hds : ∀ c ∈ ds, isDigit c = true)
    {e : ℤ} (he : e.natAbs < 1000) (hd : 6 ≤ d.length) :
    Writes (do
      let (number_buffer, buf) ←
        if ds.length = 1 then pure (a ++ (bytes ds ++ d), a.length + 1)
        else do
          let number_buffer ← memmove (a ++ (bytes ds ++ d)) (a.length + 2) (a.length + 1)
            (ds.length - 1)
          let number_buffer ← store number_buffer (a.length + 1) [0x2E]
          pure (number_buffer, a.length + (1 + ds.length))
      let number_buffer ← store number_buffer buf [0x65]
      appendExponent number_buffer (buf + 1) e) a
      (bytes (pointed ds ++ 'e' :: exponentText e)) (bytes ds ++ d) := by
  have hletter : ∀ t, bytes ('e' :: t) = 0x65 :: bytes t := fun _ => rfl
  have hpoint : ∀ t, bytes ('.' :: t) = 0x2E :: bytes t := fun _ => rfl
  match ds, hne with
  | [c], _ =>
    obtain ⟨b, hb⟩ := List.length_eq_one_iff.1 (bytes_digits hds)
    have h := (writes_exponent (a ++ [b]) (d := d) he (by omega)).behind
    rw [List.length_append, List.length_singleton, List.append_assoc] at h
    rw [if_pos List.length_singleton, pure_bind]
    rw [pointed, bytes_append, hletter, hb]
    · exact h
    · rintro _ _ _ ⟨⟩
  | c :: c' :: ds, _ =>
    have hc : (bytes [c]).length = 1 :=
      bytes_digits fun x hx => hds x (List.mem_cons.2 (Or.inl (List.mem_singleton.1 hx)))
    have hm : (bytes (c' :: ds)).length = ds.length + 1 :=
      bytes_digits fun x hx => hds x (List.mem_cons_of_mem _ hx)
    obtain ⟨b, hb⟩ := List.length_eq_one_iff.1 hc
    have hcons : ∀ t, bytes (c :: t) = b :: bytes t := by
      intro t
      rw [← List.singleton_append, bytes_append, hb, List.singleton_append]
    obtain ⟨s, hmove, hfirst⟩ := move_point a (m := [b]) (n := bytes (c' :: ds)) (d := d)
      (List.ne_nil_of_length_pos (by omega)) (by omega)
    have h := (writes_exponent (a ++ ([b] ++ 0x2E :: bytes (c' :: ds))) (d := d.drop 1) he
      (by rw [List.length_drop]; omega)).behind
    have hlen : (a ++ ([b] ++ 0x2E :: bytes (c' :: ds))).length =
        a.length + (1 + (c :: c' :: ds).length) := by
      simp only [List.length_append, List.length_cons, List.length_nil, hm, Nat.zero_add]
    obtain ⟨d', hroom, hr⟩ := h
    rw [hlen] at hr
    rw [hm, List.length_singleton] at hmove
    rw [List.length_singleton] at hfirst
    have htext : bytes (pointed (c :: c' :: ds) ++ 'e' :: exponentText e) =
        [b] ++ 0x2E :: bytes (c' :: ds) ++ 0x65 :: bytes (exponentText e) := by
      rw [pointed, bytes_append, hletter, hcons, hpoint]
      rfl
    refine ⟨d', ?_, ?_⟩
    · rw [htext, hcons]
      simp only [List.length_append, List.length_drop, List.length_cons, List.length_nil] at hroom ⊢
      omega
    · rw [if_neg (by simp), hcons, htext, ← hr]
      show (memmove (a ++ ([b] ++ bytes (c' :: ds) ++ d)) (a.length + 1 + 1) (a.length + 1)
        (ds.length + 1) >>= _) = _
      rw [hmove, ok_bind, hfirst, ok_bind, pure_bind]

/-- **The digits in the buffer are brought into the form of `formatText`.** -/
theorem formatBuffer_writes {ds : List Char} {e : ℤ} (h : Digits ds e) (hd : 17 ≤ d.length) :
    Writes (formatBuffer (a ++ (bytes ds ++ d)) a.length ds.length e (-4) 15) a
      (bytes (formatText ds e)) (bytes ds ++ d) := by
  obtain ⟨⟨hne, hds, -⟩, -, hle, hexp⟩ := h
  have hlen := bytes_digits hds
  have hpos : 0 < ds.length := List.length_pos_of_ne_nil hne
  unfold formatBuffer formatText
  simp only
  by_cases h₁ : 0 ≤ e ∧ ds.length + e ≤ 15
  · obtain ⟨m, rfl⟩ := Int.eq_ofNat_of_zero_le h₁.1
    have hz : ((ds.length : ℤ) + m - ds.length).toNat = m := by omega
    have hn : ((ds.length : ℤ) + m).toNat = ds.length + m := by omega
    have hw := writes_zeros a (m := bytes ds) (d := d) (z := m) (by omega)
    rw [hlen] at hw
    rw [if_pos ⟨by omega, h₁.2⟩, if_pos h₁, hz, hn, bytes_append, bytes_append, Int.toNat_natCast,
      bytes_zeros]
    exact hw
  rw [if_neg (by omega), if_neg h₁]
  by_cases h₂ : 0 < ds.length + e ∧ ds.length + e ≤ 15
  · obtain ⟨m, hm⟩ := Int.eq_ofNat_of_zero_le (Int.le_of_lt h₂.1)
    have hlt : m < ds.length := by omega
    have hk : ((ds.length : ℤ) - m).toNat = ds.length - m := by omega
    have htake : (bytes (ds.take m)).length = m := by
      rw [bytes_digits fun c hc => hds c (List.mem_of_mem_take hc), List.length_take]
      omega
    have hdrop : (bytes (ds.drop m)).length = ds.length - m := by
      rw [bytes_digits fun c hc => hds c (List.mem_of_mem_drop hc), List.length_drop]
    have hw := writes_point a (m := bytes (ds.take m)) (n := bytes (ds.drop m)) (d := d)
      (List.ne_nil_of_length_pos (by omega)) (by omega)
    have hsum : m + (ds.length - m) = ds.length := by omega
    rw [htake, hdrop, ← bytes_append, List.take_append_drop, hsum] at hw
    rw [if_pos h₂, if_pos h₂, hm, hk, Int.toNat_natCast, bytes_append]
    exact hw
  rw [if_neg h₂, if_neg h₂]
  by_cases h₃ : -4 < ds.length + e ∧ ds.length + e ≤ 0
  · have hw := writes_fraction a (m := bytes ds) (d := d) (z := (-(ds.length + e)).toNat) (by omega)
    rw [hlen] at hw
    rw [if_pos h₃, if_pos h₃, bytes_append, bytes_cons, bytes_cons, bytes_zeros]
    exact hw
  rw [if_neg h₃, if_neg h₃]
  exact writes_first a (d := d) hne hds hexp (by omega)

end Buffer

/-! ### The function -/

namespace Floats

variable {F : Type} {ops : Floats F}

/-- The number without its sign. -/
def abs (ops : Floats F) (x : F) : F := if ops.signbit x then ops.neg x else x

/-- `grisu2` yields digits for every finite number other than zero. -/
structure Lawful (ops : Floats F) : Prop where
  digits : ∀ x, ops.isfinite x = true → ops.isZero (ops.abs x) = false →
    Digits (ops.grisu2 (ops.abs x)).1 (ops.grisu2 (ops.abs x)).2

/-- The decimal number that is written for a finite number, without its sign. -/
def decimalAbs (ops : Floats F) (x : F) : ℚ :=
  if ops.isZero (ops.abs x) then 0
  else value (ops.grisu2 (ops.abs x)).1 * 10 ^ (ops.grisu2 (ops.abs x)).2

def decimal (ops : Floats F) (x : F) : ℚ :=
  if ops.signbit x then -ops.decimalAbs x else ops.decimalAbs x

/-- The text for a finite number, without its sign. -/
def textAbs (ops : Floats F) (x : F) : List Char :=
  if ops.isZero (ops.abs x) then ['0', '.', '0']
  else formatText (ops.grisu2 (ops.abs x)).1 (ops.grisu2 (ops.abs x)).2

def text (ops : Floats F) (x : F) : List Char :=
  if ops.signbit x then '-' :: ops.textAbs x else ops.textAbs x

theorem writes_abs (hops : ops.Lawful) {x : F} (hx : ops.isfinite x = true) (a : List UInt8)
    {d : List UInt8} (hd : 34 ≤ d.length) :
    Writes (if ops.isZero (ops.abs x) = true then do
        let number_buffer ← store (a ++ d) a.length [0x30, 0x2E, 0x30]
        return (number_buffer, a.length + 3)
      else do
        let (ds, decimal_exponent) := ops.grisu2 (ops.abs x)
        let number_buffer ← store (a ++ d) a.length (bytes ds)
        formatBuffer number_buffer a.length ds.length decimal_exponent (-4) 15) a
      (bytes (ops.textAbs x)) d := by
  unfold textAbs
  by_cases hz : ops.isZero (ops.abs x) = true
  · have htext : bytes ['0', '.', '0'] = [0x30, 0x2E, 0x30] := by decide
    have hstore := store_room a (d := d) (s := [0x30, 0x2E, 0x30])
      (by simp only [List.length_cons, List.length_nil]; omega)
    rw [if_pos hz, if_pos hz, htext, hstore, ok_bind]
    refine ⟨d.drop 3, ?_, ?_⟩
    · simp only [List.length_append, List.length_drop, List.length_cons, List.length_nil]
      omega
    · rw [List.length_append]
      rfl
  · rw [if_neg hz, if_neg hz]
    have hdigits := hops.digits x hx (by simpa using hz)
    generalize ops.grisu2 (ops.abs x) = p at hdigits
    obtain ⟨ds, e⟩ := p
    change Digits ds e at hdigits
    have hlen := bytes_digits hdigits.integral.2.1
    have hle := hdigits.length_le
    have hstore := store_room a (d := d) (s := bytes ds) (by omega)
    obtain ⟨d', hroom, hr⟩ := formatBuffer_writes a hdigits (d := d.drop (bytes ds).length)
      (by rw [List.length_drop]; omega)
    dsimp only
    rw [hstore, ok_bind, List.append_assoc]
    refine ⟨d', ?_, hr⟩
    rw [hroom, List.length_append, List.length_drop]
    omega

/-- The number is written at the beginning of the buffer. -/
theorem toChars_writes (hops : ops.Lawful) {x : F} (hx : ops.isfinite x = true)
    {number_buffer : List UInt8} (h : number_buffer.length = 64) :
    Writes (ops.toChars number_buffer x) [] (bytes (ops.text x)) number_buffer := by
  unfold toChars text
  by_cases hsign : ops.signbit x = true
  · have habs : ops.neg x = ops.abs x := by rw [abs, if_pos hsign]
    have hstore := store_room [] (d := number_buffer) (s := [0x2D])
      (by rw [List.length_singleton]; omega)
    rw [List.length_nil, List.nil_append, List.nil_append, List.length_singleton] at hstore
    have hminus : ∀ t, bytes ('-' :: t) = [0x2D] ++ bytes t := fun _ => rfl
    obtain ⟨d', hroom, hr⟩ := writes_abs hops hx [0x2D] (d := number_buffer.drop 1)
      (by rw [List.length_drop]; omega)
    refine ⟨d', ?_, ?_⟩
    · rw [if_pos hsign, hminus, List.append_assoc, List.length_append, hroom, List.length_drop,
        List.length_singleton]
      omega
    · simp only [if_pos hsign, hminus, hstore, ok_bind, pure_bind, habs, List.nil_append]
      exact hr
  · have habs : ops.abs x = x := by rw [abs, if_neg hsign]
    have hw := writes_abs hops hx [] (d := number_buffer) (by omega)
    rw [habs] at hw
    simp only [if_neg hsign, pure_bind]
    exact hw

theorem readNumber_text (hops : ops.Lawful) {x : F} (hx : ops.isfinite x = true)
    {rest : List Char} (hrest : Ends rest) :
    readNumber (ops.text x ++ rest) = some (ops.decimal x, rest) := by
  have habs : readUnsigned (ops.textAbs x ++ rest) = some (ops.decimalAbs x, rest) := by
    unfold textAbs decimalAbs
    by_cases hz : ops.isZero (ops.abs x) = true
    · have hint : Integral ['0'] := ⟨List.cons_ne_nil _ _, isDigit_singleton rfl, fun _ => rfl⟩
      have hfrac := readFraction_cons (List.cons_ne_nil _ _) (isDigit_singleton (c := '0') rfl)
        hrest.head
      have hexp := readExponent_of_ends fun c hc => (hrest c hc).2.2
      have hread := readUnsigned_parts hint (by simp; decide) hfrac hexp
      have hzero : value (['0'] ++ ['0']) = 0 := rfl
      rw [hzero, Nat.cast_zero, zero_mul] at hread
      rw [if_pos hz, if_pos hz]
      exact hread
    · rw [if_neg hz, if_neg hz]
      exact readUnsigned_formatText (hops.digits x hx (by simpa using hz)) hrest
  unfold text decimal
  by_cases hsign : ops.signbit x = true
  · rw [if_pos hsign, if_pos hsign, List.cons_append, readNumber, habs]
    rfl
  · rw [if_neg hsign, if_neg hsign]
    exact readNumber_of_readUnsigned habs

/-- **A finite number is written as a numeral for its digits, anything else as `null`**, and the
buffer is not overrun. -/
theorem dumpFloat_spec (hops : ops.Lawful) (o : List UInt8) {number_buffer : List UInt8}
    (h : number_buffer.length = 64) (x : F) :
    ∃ number_buffer', number_buffer'.length = 64 ∧ ops.dumpFloat o number_buffer x =
      .ok (o ++ bytes (if ops.isfinite x then ops.text x else "null".toList), number_buffer') := by
  unfold dumpFloat
  by_cases hx : ops.isfinite x = true
  · obtain ⟨d', hroom, hr⟩ := toChars_writes hops hx h
    rw [List.nil_append] at hr
    refine ⟨bytes (ops.text x) ++ d', by rw [hroom, h], ?_⟩
    have hload : loadBytes (bytes (ops.text x) ++ d') 0 (bytes (ops.text x)).length =
        .ok (bytes (ops.text x)) := by
      rw [loadBytes_of_le (by simp), List.drop_zero, List.take_left]
    simp only [if_pos hx, hr, ok_bind, hload]
    rfl
  · exact ⟨number_buffer, h, by rw [if_neg hx, if_neg hx]; rfl⟩

/-- However ties are broken, `q` rounds to `x` and to no other finite number. -/
def Rounds (ops : Floats F) (q : ℚ) (x : F) : Prop :=
  ∀ y, ops.isfinite y = true → ops.number y ≠ ops.number x →
    |q - ops.number x| < |q - ops.number y|

/-- The digits that `grisu2` yields lie between the numbers that are halfway to the neighbors. -/
structure Accurate (ops : Floats F) : Prop extends Lawful ops where
  neg : ∀ x, ops.isfinite x = true →
    ops.isfinite (ops.neg x) = true ∧ ops.number (ops.neg x) = -ops.number x
  zero : ∀ x, ops.isfinite x = true → ops.isZero x = true → ops.number x = 0
  rounds : ∀ x, ops.isfinite x = true → ops.isZero (ops.abs x) = false →
    ops.Rounds (value (ops.grisu2 (ops.abs x)).1 * 10 ^ (ops.grisu2 (ops.abs x)).2) (ops.abs x)

theorem Rounds.neg (hops : ops.Accurate) {q : ℚ} {x x' : F} (h : ops.Rounds q x)
    (hx : ops.number x' = -ops.number x) : ops.Rounds (-q) x' := by
  intro y hy hne
  obtain ⟨hfinite, hneg⟩ := hops.neg y hy
  have hne' : ops.number (ops.neg y) ≠ ops.number x := by
    intro heq
    rw [hx, ← heq, hneg, neg_neg] at hne
    exact hne rfl
  have hlt := h (ops.neg y) hfinite hne'
  have hleft : -q - ops.number x' = -(q - ops.number x) := by rw [hx]; ring
  have hright : -q - ops.number y = -(q - ops.number (ops.neg y)) := by rw [hneg]; ring
  rwa [hleft, hright, abs_neg, abs_neg]

theorem isfinite_abs (hops : ops.Accurate) {x : F} (hx : ops.isfinite x = true) :
    ops.isfinite (ops.abs x) = true := by
  unfold abs
  split_ifs
  · exact (hops.neg x hx).1
  · exact hx

/-- **A finite number can be read back**: what is written rounds to it. -/
theorem rounds_decimal (hops : ops.Accurate) {x : F} (hx : ops.isfinite x = true) :
    ops.Rounds (ops.decimal x) x := by
  have habs : ops.Rounds (ops.decimalAbs x) (ops.abs x) := by
    unfold decimalAbs
    split_ifs with hz
    · intro y _ hne
      have hzero := hops.zero _ (isfinite_abs hops hx) hz
      rw [hzero] at hne ⊢
      simpa using hne
    · exact hops.rounds x hx (by simpa using hz)
  unfold decimal
  split_ifs with hsign
  · refine habs.neg hops ?_
    have hneg := (hops.neg x hx).2
    rw [abs, if_pos hsign, hneg, neg_neg]
  · rwa [abs, if_neg hsign] at habs

/-- The numbers one and zero with their signs: whether there is a minus, and whether it is one. -/
def ones : Floats (Bool × Bool) where
  isfinite _ := true
  signbit x := x.1
  neg x := (!x.1, x.2)
  isZero x := !x.2
  grisu2 _ := (['1'], 0)
  number x := if x.2 then if x.1 then -1 else 1 else 0

theorem digits_one : Digits ['1'] 0 :=
  ⟨⟨by decide, isDigit_singleton rfl, by decide⟩, by decide, by decide, by decide⟩

theorem ones_lawful : ones.Lawful := ⟨fun _ _ _ => digits_one⟩

theorem ones_accurate : ones.Accurate where
  toLawful := ones_lawful
  neg := by
    rintro ⟨_ | _, _ | _⟩ - <;> simp [ones]
  zero := by
    rintro ⟨_ | _, _ | _⟩ - h <;> simp_all [ones]
  rounds := by
    -- the digits are exact
    rintro x - hz y - hne
    have hval : Numeral.value ['1'] = 1 := rfl
    have hone : (value (ones.grisu2 (ones.abs x)).1 : ℚ) * 10 ^ (ones.grisu2 (ones.abs x)).2 =
        ones.number (ones.abs x) := by
      obtain ⟨_ | _, _ | _⟩ := x <;> simp_all [ones, abs]
    rw [hone, sub_self, abs_zero, abs_pos]
    exact sub_ne_zero.2 (Ne.symm hne)

/-- `-1.0` is written to the buffer. -/
theorem dumpFloat_spec_one : ∃ number_buffer', number_buffer'.length = 64 ∧
    ones.dumpFloat [] (List.replicate 64 0) (true, true) =
      .ok ([] ++ bytes (if ones.isfinite (true, true) then ones.text (true, true)
        else "null".toList), number_buffer') :=
  dumpFloat_spec ones_lawful [] List.length_replicate (true, true)

end Floats

end Serializer

end LiteMonitor
