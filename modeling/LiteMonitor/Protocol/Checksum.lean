import LiteMonitor.Crc.Register

/-!
# Checksums

`ChecksumUtils`: the CRC-16/MODBUS of a byte string.

* `crc16`, `verifyCRC` : the member functions.
* `crc16_eq` : **the checksum is the remainder of a polynomial division, in reverse.**
* `crc16_detects` : **no change in 16 consecutive bits, and none of an odd number of bits, leaves
  the checksum as it was.**
-/

namespace LiteMonitor

namespace ChecksumUtils

open Polynomial BitString ShiftRegister

/-- The body of the inner loop. -/
def crc16Bit (crc : UInt16) : UInt16 :=
  if crc &&& 0x0001 ≠ 0 then (crc >>> 1) ^^^ 0xA001 else crc >>> 1

/-- The body of the outer loop. -/
def crc16Byte (crc : UInt16) (b : UInt8) : UInt16 := crc16Bit^[8] (crc ^^^ b.toUInt16)

def crc16 (data : List UInt8) : UInt16 := data.foldl crc16Byte 0xFFFF

def verifyCRC (data : List UInt8) (expected_crc : UInt16) : Bool := crc16 data == expected_crc

example : crc16 [0x31, 0x32, 0x33, 0x34, 0x35, 0x36, 0x37, 0x38, 0x39] = 0x4B37 := by decide +kernel

/-- The bits of a byte string, the least significant bit of each byte first. -/
def bits (data : List UInt8) : List Bool := messageBits (data.map UInt8.toBitVec)

/-! ### The loops as a shift register -/

theorem and_one_ne_zero_iff (crc : UInt16) :
    crc &&& 0x0001 ≠ 0 ↔ crc.toBitVec.getLsbD 0 = true := by
  rw [ne_eq, ← UInt16.toBitVec_inj, UInt16.toBitVec_and]
  change ¬ crc.toBitVec &&& 1#16 = 0#16 ↔ _
  rw [BitVec.and_one_eq_setWidth_ofBool_getLsbD]
  cases crc.toBitVec.getLsbD 0 <;> decide

theorem toBitVec_crc16Bit (crc : UInt16) :
    (crc16Bit crc).toBitVec = shift 0xA001#16 crc.toBitVec := by
  unfold crc16Bit shift
  rw [if_congr (and_one_ne_zero_iff crc) rfl rfl]
  split_ifs
  · rfl
  · rfl

theorem toBitVec_crc16Byte (crc : UInt16) (b : UInt8) :
    (crc16Byte crc b).toBitVec = feed 0xA001#16 crc.toBitVec b.toBitVec := by
  have hiterate : ∀ (k : ℕ) (c : UInt16),
      (crc16Bit^[k] c).toBitVec = (shift 0xA001#16)^[k] c.toBitVec := by
    intro k
    induction k with
    | zero => exact fun c => rfl
    | succ k ih =>
      intro c
      rw [Function.iterate_succ_apply, Function.iterate_succ_apply, ih, toBitVec_crc16Bit]
  exact hiterate 8 (crc ^^^ b.toUInt16)

theorem toBitVec_crc16 (data : List UInt8) :
    (crc16 data).toBitVec = feedAll 0xA001#16 (BitVec.allOnes 16) (data.map UInt8.toBitVec) := by
  have hloop : ∀ crc : UInt16, (data.foldl crc16Byte crc).toBitVec =
      feedAll 0xA001#16 crc.toBitVec (data.map UInt8.toBitVec) := by
    induction data with
    | nil => exact fun crc => rfl
    | cons b data ih =>
      intro crc
      rw [List.foldl_cons, ih, toBitVec_crc16Byte]
      rfl
  exact hloop 0xFFFF

/-- The polynomial `x¹⁶ + x¹⁵ + x² + 1`. -/
noncomputable def modbus : (ZMod 2)[X] := X ^ 16 + X ^ 15 + X ^ 2 + 1

theorem generator_eq : generator 0xA001#16 = modbus := by
  have hbits : toBits 0xA001#16 = [true] ++ List.replicate 12 false ++ [true, false, true] := by
    decide
  rw [generator, modbus, hbits, ofBits_append, ofBits_append, ofBits_replicate_false]
  simp [ofBits_cons, bit]
  ring

theorem natDegree_generator : (generator 0xA001#16).natDegree = 16 :=
  natDegree_eq_of_degree_eq_some (degree_generator _)

/-- **The checksum is CRC-16/MODBUS**: the remainder of the bits of the message and 16 zeros, the
first 16 of all these bits inverted, in reverse. -/
theorem crc16_eq (data : List UInt8) :
    (crc16 data).toBitVec =
      (coeffs 16 (ofBits (complementTop 16 (bits data ++ List.replicate 16 false)) %ₘ
        modbus)).reverse := by
  rw [toBitVec_crc16, feedAll_allOnes _ _ (by decide), generator_eq]
  rfl

/-- The positions of the bits in which two strings differ. -/
def errors (a b : List UInt8) : List Bool := List.zipWith xor (bits a) (bits b)

theorem ofBits_errors_ne_zero {a b : List UInt8} (hlen : a.length = b.length) (hne : a ≠ b) :
    ofBits (errors a b) ≠ 0 := by
  intro h
  have hmap : (a.map UInt8.toBitVec).length = (b.map UInt8.toBitVec).length := by
    rw [List.length_map, List.length_map, hlen]
  have hbits : bits a = bits b := by
    refine eq_of_ofBits_xor ?_ h
    rw [bits, bits, length_messageBits, length_messageBits, hmap]
  have hinj : Function.Injective UInt8.toBitVec := fun _ _ => UInt8.toBitVec_inj.1
  exact hne (hinj.list_map (messageBits_inj hmap hbits))

/-- **A burst of at most 16 bits, and an odd number of errors, are detected.** -/
theorem crc16_detects {a b : List UInt8} (hlen : a.length = b.length) (hne : a ≠ b)
    (h : InWindow 16 (errors a b) ∨ Odd ((errors a b).count true)) :
    crc16 a ≠ crc16 b ∧ verifyCRC b (crc16 a) = false := by
  have hcrc : crc16 a ≠ crc16 b := by
    intro heq
    have hfeed := congrArg UInt16.toBitVec heq
    rw [toBitVec_crc16, toBitVec_crc16] at hfeed
    have hconst : (generator 0xA001#16).coeff 0 ≠ 0 := by
      rw [generator_eq]
      simp [modbus]
    have hdvd : generator 0xA001#16 ∣ ofBits (errors a b) :=
      dvd_of_feedAll_eq hconst (by decide) (by simpa using hlen) hfeed
    rcases h with hwindow | hodd
    · exact not_dvd_of_inWindow hconst natDegree_generator.ge hwindow
        (ofBits_errors_ne_zero hlen hne) hdvd
    · refine not_dvd_of_odd ?_ hodd hdvd
      rw [generator_eq]
      simp [modbus]
      decide
  refine ⟨hcrc, ?_⟩
  rw [verifyCRC, beq_eq_false_iff_ne]
  exact hcrc.symm

/-- One bit in the second of three bytes. -/
theorem crc16_detects_bit : crc16 [0x31, 0x32, 0x33] ≠ crc16 [0x31, 0x33, 0x33] ∧
    verifyCRC [0x31, 0x33, 0x33] (crc16 [0x31, 0x32, 0x33]) = false :=
  crc16_detects rfl (by decide) (Or.inr (by decide))

end ChecksumUtils

end LiteMonitor
