import LiteMonitor.Protocol.Message
import LiteMonitor.Text.Utf8

/-!
# The UTF-8 decoder of the serializer

`serializer::decode`, a table that is read twice for each byte: first for the type of the byte, then
for the state that a byte of this type leads to.

* `decode state codep byte` : the new state and the code point so far.
* `ranges state` : the ranges that the rest of the character has to be in.
* `decode_ranges` : **the table is never read beyond its end, and its states are the ranges of
  `Utf8`.**
* `Decoded part rs state codep` : what is known in the middle of a character; `Decoded.decode` reads
  one byte more.
-/

namespace LiteMonitor

namespace Serializer

open Utf8

def UTF8_ACCEPT : UInt8 := 0

def UTF8_REJECT : UInt8 := 1

/-- The types of the bytes, then for each state the next states by the type of a byte. -/
def utf8d : List UInt8 :=
  [0, 0, 0, 0, 0, 0, 0, 0, 0, 0, 0, 0, 0, 0, 0, 0, -- 00..0F
   0, 0, 0, 0, 0, 0, 0, 0, 0, 0, 0, 0, 0, 0, 0, 0, -- 10..1F
   0, 0, 0, 0, 0, 0, 0, 0, 0, 0, 0, 0, 0, 0, 0, 0, -- 20..2F
   0, 0, 0, 0, 0, 0, 0, 0, 0, 0, 0, 0, 0, 0, 0, 0, -- 30..3F
   0, 0, 0, 0, 0, 0, 0, 0, 0, 0, 0, 0, 0, 0, 0, 0, -- 40..4F
   0, 0, 0, 0, 0, 0, 0, 0, 0, 0, 0, 0, 0, 0, 0, 0, -- 50..5F
   0, 0, 0, 0, 0, 0, 0, 0, 0, 0, 0, 0, 0, 0, 0, 0, -- 60..6F
   0, 0, 0, 0, 0, 0, 0, 0, 0, 0, 0, 0, 0, 0, 0, 0, -- 70..7F
   1, 1, 1, 1, 1, 1, 1, 1, 1, 1, 1, 1, 1, 1, 1, 1, -- 80..8F
   9, 9, 9, 9, 9, 9, 9, 9, 9, 9, 9, 9, 9, 9, 9, 9, -- 90..9F
   7, 7, 7, 7, 7, 7, 7, 7, 7, 7, 7, 7, 7, 7, 7, 7, -- A0..AF
   7, 7, 7, 7, 7, 7, 7, 7, 7, 7, 7, 7, 7, 7, 7, 7, -- B0..BF
   8, 8, 2, 2, 2, 2, 2, 2, 2, 2, 2, 2, 2, 2, 2, 2, -- C0..CF
   2, 2, 2, 2, 2, 2, 2, 2, 2, 2, 2, 2, 2, 2, 2, 2, -- D0..DF
   10, 3, 3, 3, 3, 3, 3, 3, 3, 3, 3, 3, 3, 4, 3, 3, -- E0..EF
   11, 6, 6, 6, 5, 8, 8, 8, 8, 8, 8, 8, 8, 8, 8, 8, -- F0..FF
   0, 1, 2, 3, 5, 8, 7, 1, 1, 1, 4, 6, 1, 1, 1, 1, -- s0
   1, 1, 1, 1, 1, 1, 1, 1, 1, 1, 1, 1, 1, 1, 1, 1, -- s1
   1, 0, 1, 1, 1, 1, 1, 0, 1, 0, 1, 1, 1, 1, 1, 1, -- s2
   1, 2, 1, 1, 1, 1, 1, 2, 1, 2, 1, 1, 1, 1, 1, 1, -- s3
   1, 1, 1, 1, 1, 1, 1, 2, 1, 1, 1, 1, 1, 1, 1, 1, -- s4
   1, 2, 1, 1, 1, 1, 1, 1, 1, 2, 1, 1, 1, 1, 1, 1, -- s5
   1, 1, 1, 1, 1, 1, 1, 3, 1, 3, 1, 1, 1, 1, 1, 1, -- s6
   1, 3, 1, 1, 1, 1, 1, 3, 1, 3, 1, 1, 1, 1, 1, 1, -- s7
   1, 3, 1, 1, 1, 1, 1, 1, 1, 1, 1, 1, 1, 1, 1, 1] -- s8

/-- `serializer::decode`. -/
def decode (state : UInt8) (codep : UInt32) (byte : UInt8) : Except Fault (UInt8 × UInt32) := do
  let type ← load utf8d byte.toNat
  let codep :=
    if state ≠ UTF8_ACCEPT then (byte.toUInt32 &&& (0x3F : UInt32)) ||| (codep <<< (6 : UInt32))
    else ((0xFF : UInt32) >>> type.toUInt32) &&& byte.toUInt32
  let state ← load utf8d (256 + state.toNat * 16 + type.toNat)
  return (state, codep)

/-- The ranges that the rest of the character has to be in; `none` if it was rejected. -/
def ranges (state : UInt8) : Option (List Range) :=
  match state.toNat with
  | 0 => some []
  | 2 => some [tail]
  | 3 => some [tail, tail]
  | 4 => some [afterE0, tail]
  | 5 => some [afterED, tail]
  | 6 => some [afterF0, tail, tail]
  | 7 => some [tail, tail, tail]
  | 8 => some [afterF4, tail, tail]
  | _ => none

/-! ### The states -/

/-- The two entries that are read for a byte are there, and the second is the right state. -/
def entryRight (state byte : UInt8) : Bool :=
  match load utf8d byte.toNat with
  | .error _ => false
  | .ok type =>
    match load utf8d (256 + state.toNat * 16 + type.toNat) with
    | .error _ => false
    | .ok next => ranges next = (ranges state).bind (Utf8.step · byte) &&
        (next = UTF8_REJECT ∨ ranges next ≠ none)

set_option maxRecDepth 100000 in
theorem entryRight_all : ∀ s < 9, s ≠ 1 → ∀ n < 256,
    entryRight (UInt8.ofNat s) (UInt8.ofNat n) = true := by
  decide +kernel

theorem state_cases {state : UInt8} {rs : List Range} (h : ranges state = some rs) :
    state.toNat < 9 ∧ state.toNat ≠ 1 := by
  unfold ranges at h
  split at h <;> simp_all

theorem eq_accept {state : UInt8} (h : ranges state = some []) : state = UTF8_ACCEPT := by
  unfold ranges at h
  split at h
  · rename_i hzero
    exact UInt8.toNat_inj.1 hzero
  all_goals cases h

/-- **The table is never read beyond its end, and its states are the ranges of the rest of the
character.** -/
theorem decode_ranges {state : UInt8} {rs : List Range} (h : ranges state = some rs)
    (codep : UInt32) (byte : UInt8) :
    ∃ type state', load utf8d byte.toNat = .ok type ∧
      decode state codep byte = .ok (state',
        if state ≠ UTF8_ACCEPT then (byte.toUInt32 &&& (0x3F : UInt32)) ||| (codep <<< (6 : UInt32))
        else ((0xFF : UInt32) >>> type.toUInt32) &&& byte.toUInt32) ∧
      ranges state' = Utf8.step rs byte ∧ (Utf8.step rs byte = none → state' = UTF8_REJECT) := by
  obtain ⟨hlt, hne⟩ := state_cases h
  have hentry := entryRight_all state.toNat hlt hne byte.toNat byte.toNat_lt
  rw [UInt8.ofNat_toNat, UInt8.ofNat_toNat] at hentry
  unfold entryRight at hentry
  unfold decode
  cases htype : load utf8d byte.toNat with
  | error _ => simp [htype] at hentry
  | ok type =>
    cases hnext : load utf8d (256 + state.toNat * 16 + type.toNat) with
    | error _ => simp [htype, hnext] at hentry
    | ok state' =>
      simp only [htype, hnext, h, Option.bind_some, Bool.and_eq_true, decide_eq_true_eq] at hentry
      obtain ⟨hranges, hreject⟩ := hentry
      refine ⟨type, state', rfl, ?_, hranges, fun hnone => ?_⟩
      · simp only [bind, Except.bind, hnext]
        rfl
      · exact hreject.resolve_right (fun hsome => hsome (hranges.trans hnone))

/-! ### The code points -/

/-- The mask of the type of a first byte keeps the bits of the code point. -/
def maskRight (byte : UInt8) : Bool :=
  match load utf8d byte.toNat with
  | .error _ => false
  | .ok type => follow byte = none ∨
      (((0xFF : UInt32) >>> type.toUInt32) &&& byte.toUInt32).toNat = leadBits byte.toNat

set_option maxRecDepth 100000 in
theorem maskRight_all : ∀ n < 256, maskRight (UInt8.ofNat n) = true := by
  decide +kernel

theorem toNat_mask {byte type : UInt8} (htype : load utf8d byte.toNat = .ok type)
    (hfollow : follow byte ≠ none) :
    (((0xFF : UInt32) >>> type.toUInt32) &&& byte.toUInt32).toNat = leadBits byte.toNat := by
  have hmask := maskRight_all byte.toNat byte.toNat_lt
  rw [UInt8.ofNat_toNat] at hmask
  unfold maskRight at hmask
  simp only [htype, decide_eq_true_eq] at hmask
  exact hmask.resolve_left hfollow

theorem toNat_addBits {codep : UInt32} (hlt : codep.toNat < 2 ^ 26) (byte : UInt8) :
    ((byte.toUInt32 &&& (0x3F : UInt32)) ||| (codep <<< (6 : UInt32))).toNat =
      addBits codep.toNat byte := by
  have hlow : byte.toNat &&& 63 = byte.toNat % 64 := Nat.and_two_pow_sub_one_eq_mod byte.toNat 6
  have hhigh : codep.toNat <<< 6 % 2 ^ 32 = codep.toNat <<< 6 := by
    rw [Nat.shiftLeft_eq]
    exact Nat.mod_eq_of_lt (by omega)
  have hsum : codep.toNat <<< 6 + byte.toNat % 64 = codep.toNat <<< 6 ||| byte.toNat % 64 :=
    Nat.shiftLeft_add_eq_or_of_lt (Nat.mod_lt _ (by decide : 0 < 2 ^ 6)) codep.toNat
  rw [UInt32.toNat_or, UInt32.toNat_and, UInt32.toNat_shiftLeft, UInt8.toNat_toUInt32]
  show byte.toNat &&& 63 ||| codep.toNat <<< 6 % 2 ^ 32 = _
  rw [hlow, hhigh, Nat.or_comm, ← hsum, Nat.shiftLeft_eq]
  rfl

/-- What is known of the decoder after the bytes `part` of a character. -/
structure Decoded (part : List UInt8) (rs : List Range) (state : UInt8) (codep : UInt32) :
    Prop where
  between : Partial part rs
  state : ranges state = some rs
  codep : part ≠ [] → codep.toNat = value part

/-- **One byte more** is refused, or goes on with the character, or completes it. -/
theorem Decoded.decode {part : List UInt8} {rs : List Range} {state : UInt8} {codep : UInt32}
    (h : Decoded part rs state codep) (byte : UInt8) :
    ∃ state' codep', Serializer.decode state codep byte = .ok (state', codep') ∧
      ((Utf8.step rs byte = none ∧ state' = UTF8_REJECT) ∨
        (∃ rs', Utf8.step rs byte = some rs' ∧ state' ≠ UTF8_ACCEPT ∧ state' ≠ UTF8_REJECT ∧
          Decoded (part ++ [byte]) rs' state' codep') ∨
        (Utf8.step rs byte = some [] ∧ state' = UTF8_ACCEPT ∧
          ∃ c, String.utf8EncodeChar c = part ++ [byte] ∧ codep'.toNat = c.val.toNat)) := by
  obtain ⟨type, state', htype, hdecode, hranges, hreject⟩ := decode_ranges h.state codep byte
  refine ⟨state', _, hdecode, ?_⟩
  cases hstep : Utf8.step rs byte with
  | none => exact Or.inl ⟨rfl, hreject hstep⟩
  | some rs' =>
    refine Or.inr ?_
    rw [hstep] at hranges
    have hcodep : (if state ≠ UTF8_ACCEPT then
        (byte.toUInt32 &&& (0x3F : UInt32)) ||| (codep <<< (6 : UInt32))
        else ((0xFF : UInt32) >>> type.toUInt32) &&& byte.toUInt32).toNat =
          value (part ++ [byte]) := by
      by_cases hpart : part = []
      · subst hpart
        obtain rfl := h.between.nil_iff.2 rfl
        rw [if_neg (fun hne => hne (eq_accept h.state)), toNat_mask htype]
        · rfl
        · exact fun hnone => by simp [Utf8.step, hnone] at hstep
      · have hne : state ≠ UTF8_ACCEPT := by
          rintro rfl
          have hnil := Option.some.inj h.state
          exact hpart (h.between.nil_iff.1 hnil.symm)
        have hsmall := value_lt_of_partial h.between.length_le
        rw [if_pos hne, toNat_addBits (by rw [h.codep hpart]; omega), h.codep hpart,
          value_snoc hpart]
    rcases h.between.step hstep with ⟨hrs, hpartial⟩ | ⟨rfl, c, hc⟩
    · refine Or.inl ⟨rs', rfl, ?_, ?_, hpartial, hranges, fun _ => hcodep⟩
      · rintro rfl
        exact hrs (Option.some.inj hranges).symm
      · rintro rfl
        cases hranges
    · refine Or.inr ⟨rfl, eq_accept hranges, c, hc, ?_⟩
      rw [hcodep, ← hc, value_char]

end Serializer

end LiteMonitor
