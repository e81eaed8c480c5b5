import LiteMonitor.Crc.BitString
import Mathlib.Algebra.Polynomial.Div
import Mathlib.Tactic.LinearCombination

/-!
# Shift registers that divide

A register is read from its least significant bit, which is the coefficient of the highest degree.
It is shifted to the right, and `g` is added whenever a one falls out.

* `toBits r` : the bits of a register or of a block, the least significant one first.
* `shift g r`, `feed g r block`, `feedAll g r blocks` : one shift; the shifts for a block, which is
  added first; the blocks of a message.
* `generator g` : the polynomial that a register with the constant `g` divides by.
* `ofBits_feedAll` : **a register holds the remainder** of what has been fed.
* `coeffs w p`, `dividend w blocks` : coefficients as a number; a message with its first bits
  inverted, as a register that starts with ones takes them.
* `feedAll_allOnes` : the register is the remainder of the dividend, in reverse.
* `dvd_of_feedAll_eq` : what two messages with the same register differ in.
-/

namespace LiteMonitor

namespace ShiftRegister

open Polynomial BitString

variable {w n : ℕ}

/-- The bits, the least significant one first. -/
def toBits (r : BitVec w) : List Bool := (List.range w).map r.getLsbD

/-- One shift to the right. -/
def shift (g r : BitVec w) : BitVec w := if r.getLsbD 0 then (r >>> 1) ^^^ g else r >>> 1

/-- A block is added at the lower end, and shifted out. -/
def feed (g r : BitVec w) (block : BitVec n) : BitVec w := (shift g)^[n] (r ^^^ block.setWidth w)

/-- The blocks of a message in order. -/
def feedAll (g r : BitVec w) (blocks : List (BitVec n)) : BitVec w := blocks.foldl (feed g) r

/-- The bits of a message. -/
def messageBits (blocks : List (BitVec n)) : List Bool := blocks.flatMap toBits

/-- What the register divides by. -/
noncomputable def generator (g : BitVec w) : (ZMod 2)[X] := X ^ w + ofBits (toBits g)

@[simp] theorem length_toBits (r : BitVec w) : (toBits r).length = w := by
  simp [toBits]

theorem length_messageBits (blocks : List (BitVec n)) :
    (messageBits blocks).length = n * blocks.length := by
  induction blocks with
  | nil => rfl
  | cons b blocks ih =>
    rw [messageBits, List.flatMap_cons, List.length_append, length_toBits]
    rw [messageBits] at ih
    rw [ih, List.length_cons]
    ring

theorem toBits_xor (r s : BitVec w) :
    toBits (r ^^^ s) = List.zipWith xor (toBits r) (toBits s) := by
  simp only [toBits, List.zipWith_map, List.zipWith_self]
  exact List.map_congr_left fun i _ => BitVec.getLsbD_xor

theorem ofBits_toBits_xor (r s : BitVec w) :
    ofBits (toBits (r ^^^ s)) = ofBits (toBits r) + ofBits (toBits s) := by
  rw [toBits_xor, ofBits_xor (by simp)]

theorem degree_ofBits_toBits_lt (r : BitVec w) : (ofBits (toBits r)).degree < w := by
  have h := degree_ofBits_lt (toBits r)
  rwa [length_toBits] at h

/-- The lowest bit falls out, and a zero comes in. -/
theorem X_mul_ofBits_toBits (r : BitVec w) :
    X * ofBits (toBits r) =
      C (bit (r.getLsbD 0)) * X ^ w + ofBits (toBits (r >>> 1)) := by
  cases w with
  | zero => simp [toBits, bit]
  | succ w =>
    have hr : toBits r = r.getLsbD 0 :: (List.range w).map fun i => r.getLsbD (i + 1) := by
      simp [toBits, List.range_succ_eq_map, Function.comp_def]
    have hshift : toBits (r >>> 1) =
        ((List.range w).map fun i => r.getLsbD (i + 1)) ++ [false] := by
      simp [toBits, List.range_succ, Nat.add_comm]
    have hzero : ofBits [false] = 0 := ofBits_replicate_false 1
    rw [hr, hshift, ofBits_cons, ofBits_append, hzero, List.length_map, List.length_range,
      List.length_singleton]
    ring

/-- **One shift multiplies by `X`**, and takes the generator off if there is a one to fall out. -/
theorem ofBits_shift (g r : BitVec w) :
    ofBits (toBits (shift g r)) =
      X * ofBits (toBits r) + C (bit (r.getLsbD 0)) * generator g := by
  rw [X_mul_ofBits_toBits, generator]
  cases hlow : r.getLsbD 0 with
  | false => simp [shift, hlow, bit]
  | true =>
    rw [shift, if_pos hlow, ofBits_toBits_xor]
    have hsum : (X ^ w + X ^ w : (ZMod 2)[X]) = 0 := CharTwo.add_self_eq_zero (X ^ w)
    simp only [bit, if_true, C_1, one_mul]
    linear_combination -hsum

/-- A block stands at the lower end, where the high degrees are. -/
theorem ofBits_setWidth (block : BitVec n) (h : n ≤ w) :
    X ^ n * ofBits (toBits (block.setWidth w)) = X ^ w * ofBits (toBits block) := by
  obtain ⟨k, rfl⟩ := Nat.exists_eq_add_of_le h
  have hlow : (List.range n).map (block.setWidth (n + k)).getLsbD = toBits block := by
    refine List.map_congr_left fun i hi => ?_
    have hlt := List.mem_range.1 hi
    rw [BitVec.getLsbD_setWidth, decide_eq_true (by omega), Bool.true_and]
  have hhigh : (List.range k).map ((block.setWidth (n + k)).getLsbD ∘ (n + ·)) =
      List.replicate k false := by
    refine List.eq_replicate_iff.2 ⟨by simp, fun b hb => ?_⟩
    obtain ⟨i, -, rfl⟩ := List.mem_map.1 hb
    rw [Function.comp_apply, BitVec.getLsbD_setWidth, BitVec.getLsbD_of_ge block _ (by omega),
      Bool.and_false]
  have hbits : toBits (block.setWidth (n + k)) = toBits block ++ List.replicate k false := by
    rw [toBits, List.range_add, List.map_append, List.map_map, hlow, hhigh]
  rw [hbits, ofBits_append, ofBits_replicate_false, List.length_replicate, add_zero, ← mul_assoc,
    ← pow_add]

theorem ofBits_iterate_shift (g r : BitVec w) (k : ℕ) :
    ∃ q, ofBits (toBits ((shift g)^[k] r)) = X ^ k * ofBits (toBits r) + q * generator g := by
  induction k with
  | zero => exact ⟨0, by simp⟩
  | succ k ih =>
    obtain ⟨q, hq⟩ := ih
    refine ⟨X * q + C (bit (((shift g)^[k] r).getLsbD 0)), ?_⟩
    rw [Function.iterate_succ_apply', ofBits_shift, hq]
    ring

theorem ofBits_feed (g r : BitVec w) (block : BitVec n) (h : n ≤ w) :
    ∃ q, ofBits (toBits (feed g r block)) =
      X ^ n * ofBits (toBits r) + X ^ w * ofBits (toBits block) + q * generator g := by
  obtain ⟨q, hq⟩ := ofBits_iterate_shift g (r ^^^ block.setWidth w) n
  refine ⟨q, ?_⟩
  rw [feed, hq, ofBits_toBits_xor, mul_add, ofBits_setWidth block h]

theorem ofBits_foldl (g r : BitVec w) (blocks : List (BitVec n)) (h : n ≤ w) :
    ∃ q, ofBits (toBits (feedAll g r blocks)) =
      X ^ (n * blocks.length) * ofBits (toBits r) + X ^ w * ofBits (messageBits blocks) +
        q * generator g := by
  induction blocks using List.reverseRecOn with
  | nil => exact ⟨0, by simp [feedAll, messageBits]⟩
  | append_singleton blocks block ih =>
    obtain ⟨q, hq⟩ := ih
    obtain ⟨q', hq'⟩ := ofBits_feed g (feedAll g r blocks) block h
    refine ⟨X ^ n * q + q', ?_⟩
    have hstep : feedAll g r (blocks ++ [block]) = feed g (feedAll g r blocks) block := by
      rw [feedAll, List.foldl_concat]
      rfl
    have hbits : messageBits (blocks ++ [block]) = messageBits blocks ++ toBits block := by
      simp [messageBits]
    rw [hstep, hq', hq, hbits, ofBits_append, length_toBits, List.length_append,
      List.length_singleton, Nat.mul_add, Nat.mul_one, pow_add]
    ring

theorem degree_generator (g : BitVec w) : (generator g).degree = w := by
  rw [generator, degree_add_eq_left_of_degree_lt, degree_X_pow]
  rw [degree_X_pow]
  exact degree_ofBits_toBits_lt g

theorem monic_generator (g : BitVec w) : (generator g).Monic :=
  monic_X_pow_add (degree_ofBits_toBits_lt g)

/-- **A register holds the remainder** of what it held and of the message, shifted by its width. -/
theorem ofBits_feedAll (g r : BitVec w) (blocks : List (BitVec n)) (h : n ≤ w) :
    ofBits (toBits (feedAll g r blocks)) =
      (X ^ (n * blocks.length) * ofBits (toBits r) + X ^ w * ofBits (messageBits blocks)) %ₘ
        generator g := by
  obtain ⟨q, hq⟩ := ofBits_foldl g r blocks h
  refine (div_modByMonic_unique (-q) _ (monic_generator g) ⟨?_, ?_⟩).2.symm
  · rw [hq]
    ring
  · rw [degree_generator]
    exact degree_ofBits_toBits_lt _

/-! ### The remainder as a number -/

/-- The coefficients of the degrees below `w` as the bits of a number, the constant term as the
least significant one. -/
def coeffs (w : ℕ) (p : (ZMod 2)[X]) : BitVec w :=
  (BitVec.ofBoolListLE ((List.range w).map fun i => decide (p.coeff i = 1))).cast (by simp)

theorem getLsbD_coeffs (p : (ZMod 2)[X]) {i : ℕ} (hi : i < w) :
    (coeffs w p).getLsbD i = decide (p.coeff i = 1) := by
  rw [coeffs, BitVec.getLsbD_cast, BitVec.getLsbD_ofBoolListLE]
  simp [hi]

/-- The bits of a register are the coefficients in reverse. -/
theorem reverse_coeffs_ofBits (r : BitVec w) : (coeffs w (ofBits (toBits r))).reverse = r := by
  apply BitVec.eq_of_getLsbD_eq
  intro i hi
  have hlt : w - 1 - i < (toBits r).length := by
    rw [length_toBits]
    omega
  have hbit : (toBits r)[(toBits r).length - 1 - (w - 1 - i)] = r.getLsbD i := by
    simp only [toBits, List.getElem_map, List.getElem_range, List.length_map, List.length_range]
    congr 1
    omega
  rw [BitVec.getLsbD_reverse, BitVec.getMsbD_eq_getLsbD, decide_eq_true hi, Bool.true_and,
    getLsbD_coeffs _ (by omega), coeff_ofBits hlt, hbit]
  cases r.getLsbD i <;> decide

theorem toBits_injective : Function.Injective (toBits : BitVec w → List Bool) := by
  intro r s h
  rw [← reverse_coeffs_ofBits r, h, reverse_coeffs_ofBits]

theorem messageBits_inj {blocks blocks' : List (BitVec n)} (hlen : blocks.length = blocks'.length)
    (h : messageBits blocks = messageBits blocks') : blocks = blocks' := by
  induction blocks generalizing blocks' with
  | nil => exact (List.eq_nil_of_length_eq_zero hlen.symm).symm
  | cons b blocks ih =>
    cases blocks' with
    | nil => simp at hlen
    | cons b' blocks' =>
      obtain ⟨hhead, htail⟩ := List.append_inj h (by rw [length_toBits, length_toBits])
      rw [toBits_injective hhead, ih (Nat.succ.inj hlen) htail]

/-- The first `k` bits inverted. -/
def complementTop (k : ℕ) (bs : List Bool) : List Bool := (bs.take k).map (! ·) ++ bs.drop k

theorem map_not (bs : List Bool) :
    bs.map (! ·) = List.zipWith xor bs (List.replicate bs.length true) := by
  induction bs with
  | nil => rfl
  | cons b bs ih =>
    rw [List.map_cons, ih, List.length_cons, List.replicate_succ, List.zipWith_cons_cons,
      Bool.xor_true]

theorem ofBits_complementTop {k : ℕ} {bs : List Bool} (h : k ≤ bs.length) :
    ofBits (complementTop k bs) =
      ofBits bs + X ^ (bs.length - k) * ofBits (List.replicate k true) := by
  have htake : (bs.take k).length = k := by
    rw [List.length_take, Nat.min_eq_left h]
  have hones : (bs.take k).map (! ·) = List.zipWith xor (bs.take k) (List.replicate k true) := by
    rw [map_not, htake]
  have hlen : (bs.take k).length = (List.replicate k true).length := by
    rw [htake, List.length_replicate]
  have hsplit : ofBits bs = X ^ (bs.length - k) * ofBits (bs.take k) + ofBits (bs.drop k) := by
    rw [← List.length_drop, ← ofBits_append, List.take_append_drop]
  rw [complementTop, ofBits_append, hones, ofBits_xor hlen, List.length_drop, hsplit]
  ring

/-- The dividend of a message: its bits, then `w` zeros, and the first `w` of all these inverted. -/
noncomputable def dividend (w : ℕ) (blocks : List (BitVec n)) : (ZMod 2)[X] :=
  ofBits (complementTop w (messageBits blocks ++ List.replicate w false))

/-- **A register that starts with ones holds the remainder of the dividend, reversed.** -/
theorem feedAll_allOnes (g : BitVec w) (blocks : List (BitVec n)) (h : n ≤ w) :
    feedAll g (BitVec.allOnes w) blocks =
      (coeffs w (dividend w blocks %ₘ generator g)).reverse := by
  have hones : toBits (BitVec.allOnes w) = List.replicate w true := by
    refine List.eq_replicate_iff.2 ⟨length_toBits _, fun b hb => ?_⟩
    obtain ⟨i, hi, rfl⟩ := List.mem_map.1 hb
    rw [BitVec.getLsbD_allOnes, decide_eq_true (List.mem_range.1 hi)]
  have hdividend : X ^ (n * blocks.length) * ofBits (toBits (BitVec.allOnes w)) +
      X ^ w * ofBits (messageBits blocks) = dividend w blocks := by
    rw [dividend, ofBits_complementTop (by simp), ofBits_append, ofBits_replicate_false, hones,
      List.length_append, List.length_replicate, Nat.add_sub_cancel, length_messageBits]
    ring
  rw [← hdividend, ← ofBits_feedAll g _ blocks h, reverse_coeffs_ofBits]

/-! ### What a register detects -/

/-- Two messages of one length leave the same register only if the generator divides their
difference. -/
theorem dvd_of_feedAll_eq {g r : BitVec w} (hg : (generator g).coeff 0 ≠ 0)
    {blocks blocks' : List (BitVec n)} (h : n ≤ w) (hlen : blocks.length = blocks'.length)
    (heq : feedAll g r blocks = feedAll g r blocks') :
    generator g ∣ ofBits (List.zipWith xor (messageBits blocks) (messageBits blocks')) := by
  obtain ⟨q, hq⟩ := ofBits_foldl g r blocks h
  obtain ⟨q', hq'⟩ := ofBits_foldl g r blocks' h
  rw [heq, hq', hlen] at hq
  have hbits : (messageBits blocks).length = (messageBits blocks').length := by
    rw [length_messageBits, length_messageBits, hlen]
  rw [ofBits_xor hbits, ← CharTwo.sub_eq_add]
  refine ((isCoprime_X_pow hg w).dvd_of_dvd_mul_left ⟨q' - q, ?_⟩)
  have hdiff : X ^ w * ofBits (messageBits blocks) - X ^ w * ofBits (messageBits blocks') =
      q' * generator g - q * generator g := by
    linear_combination -hq
  rw [mul_sub, hdiff]
  ring

end ShiftRegister

end LiteMonitor
