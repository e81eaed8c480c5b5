import LiteMonitor.Control.Traversal
import LiteMonitor.Protocol.Framing

/-!
# Payloads that are accepted

`deserialize` looks at the type, the length and the body of a payload.  What stands behind the body
it does not look at, neither how long it is nor what it is.

* `Message.Canonical` : serializing what has been decoded gives the payload again.
* `Message.canonical_iff` : **so it is exactly for the payloads with 35 zeros behind the body.**
* `Message.not_canonical` : one byte more.
-/

namespace LiteMonitor

namespace Message

open LengthPrefix

variable {bodySerialize : Message → Except String Message}
  {bodyDeserialize : Message → Except String Unit} {m m' m₀ : Message}

/-- In `m₀`, `bodySerialize` restores the type, the length and the body that `m'` has. -/
def Restores (bodySerialize : Message → Except String Message) (m₀ m' : Message) : Prop :=
  ∃ m₁, bodySerialize m₀ = .ok m₁ ∧ m₁._message_type = m'._message_type ∧
    m₁._message_len = m'._message_len ∧ m₁.body_ = m'.body_

/-- Serializing `m₀` reproduces the payload from which `m'` has been decoded, and the payload is as
long as the header and the body. -/
structure Canonical (bodySerialize : Message → Except String Message) (m₀ m' : Message)
    (payload : List UInt8) : Prop where
  reproduced : ∃ m₂, serialize bodySerialize m₀ = .ok m₂ ∧ m₂.payload_ = payload
  length_eq : payload.length = HEADER_LENGTH + m'._message_len.toNat

/-- What is behind the body. -/
def trailer (payload : List UInt8) : List UInt8 := payload.drop (3 + declaredLen payload)

theorem payload_eq {payload : List UInt8} {t : UInt8} (h : HEADER_LENGTH ≤ payload.length)
    (ht : payload.head? = some t) (hfits : 3 + declaredLen payload ≤ payload.length) :
    payload = header t ((payload.drop 3).take (declaredLen payload)) ++ trailer payload := by
  unfold HEADER_LENGTH at h
  have hbody : ((payload.drop 3).take (declaredLen payload)).length = declaredLen payload := by
    rw [List.length_take, List.length_drop]
    omega
  have htwo : ((payload.drop 1).take 2).length = 2 := by
    rw [List.length_take, List.length_drop]
    omega
  have hlen : toBE 2 (declaredLen payload) = (payload.drop 1).take 2 := by
    have hback := toBE_ofBE ((payload.drop 1).take 2)
    rwa [htwo] at hback
  have htype : t :: payload.drop 1 = payload := by
    cases payload with
    | nil => simp at ht
    | cons x payload =>
      obtain rfl := Option.some.inj ht
      rfl
  have hrest : (payload.drop 3).take (declaredLen payload) ++ trailer payload = payload.drop 3 := by
    rw [trailer, ← List.drop_drop, List.take_append_drop]
  have hthree : (payload.drop 1).take 2 ++ payload.drop 3 = payload.drop 1 := by
    have hsplit := List.take_append_drop 2 (payload.drop 1)
    rwa [List.drop_drop] at hsplit
  rw [header, hbody, hlen, List.cons_append, List.append_assoc, hrest, hthree, htype]

/-- **What an accepted payload consists of**, if it is as long as it declares. -/
theorem of_deserialize (h : deserialize bodyDeserialize m = .ok m')
    (hfits : 3 + declaredLen m.payload_ ≤ m.payload_.length) :
    m'._message_len.toNat = declaredLen m.payload_ ∧
      m'.body_.length = declaredLen m.payload_ ∧
      m.payload_ = header m'._message_type m'.body_ ++ trailer m.payload_ := by
  obtain ⟨hlong, -⟩ := fits_of_deserialize h
  obtain ⟨t, ht⟩ := exists_head hlong
  rw [deserialize_of_fits hlong hfits ht rfl] at h
  obtain ⟨-, -, hdecoded⟩ := bind_eq_ok_iff.1 h
  obtain rfl := Except.ok.inj hdecoded
  have hbody : ((m.payload_.drop 3).take (declaredLen m.payload_)).length =
      declaredLen m.payload_ := by
    rw [List.length_take, List.length_drop]
    omega
  refine ⟨?_, hbody, payload_eq hlong ht hfits⟩
  change (UInt16.ofNat _).toNat = _
  rw [hbody, toNat_declaredLen hlong]

/-- A payload to which the terminator has been added as the last byte of the body has no place for
zeros behind the body. -/
theorem canonical_iff_of_terminator (h : deserialize bodyDeserialize m = .ok m')
    (hone : 3 + declaredLen m.payload_ = m.payload_.length + 1) :
    Canonical bodySerialize m₀ m' m.payload_ ↔
      m.payload_.length = HEADER_LENGTH + declaredLen m.payload_ ∧
        ∀ b ∈ m.payload_.drop (3 + declaredLen m.payload_), b = 0 := by
  have hlong := (fits_of_deserialize h).1
  have hsize38 : 38 ≤ m.payload_.length := hlong
  obtain ⟨t, ht⟩ := exists_head hlong
  rw [deserialize_of_terminator hlong hone ht] at h
  obtain ⟨-, -, hdecoded⟩ := bind_eq_ok_iff.1 h
  obtain rfl := Except.ok.inj hdecoded
  have hbody : (m.payload_.drop 3 ++ [(0 : UInt8)]).length = declaredLen m.payload_ := by
    rw [List.length_append, List.length_drop, List.length_singleton]
    omega
  refine iff_of_false ?_ ?_
  · rintro ⟨-, hsize⟩
    change _ = HEADER_LENGTH + (UInt16.ofNat _).toNat at hsize
    rw [hbody, toNat_declaredLen hlong, HEADER_LENGTH] at hsize
    omega
  · rintro ⟨hsize, -⟩
    rw [HEADER_LENGTH] at hsize
    omega

/-- **When an accepted payload is canonical**: exactly when it is as long as the header and the
body, and there are only zeros behind the body. -/
theorem canonical_iff (h : deserialize bodyDeserialize m = .ok m')
    (hres : Restores bodySerialize m₀ m') :
    Canonical bodySerialize m₀ m' m.payload_ ↔
      m.payload_.length = HEADER_LENGTH + declaredLen m.payload_ ∧
        ∀ b ∈ m.payload_.drop (3 + declaredLen m.payload_), b = 0 := by
  by_cases hone : 3 + declaredLen m.payload_ = m.payload_.length + 1
  · exact canonical_iff_of_terminator h hone
  have hfits : 3 + declaredLen m.payload_ ≤ m.payload_.length :=
    Nat.le_of_lt_succ (lt_of_le_of_ne (fits_of_deserialize h).2 hone)
  obtain ⟨hlen, hbody, hparts⟩ := of_deserialize h hfits
  obtain ⟨m₁, hser, htype, hlen₁, hbody₁⟩ := hres
  have hpayload : ∃ m₂, serialize bodySerialize m₀ = .ok m₂ ∧
      m₂.payload_ = header m'._message_type m'.body_ ++ List.replicate 35 0 := by
    have hle : m₁._message_len.toNat = m₁.body_.length := by
      rw [hlen₁, hbody₁, hlen, hbody]
    refine ⟨_, serialize_eq hser hle.le, ?_⟩
    change layout m₁._message_type (m₁.body_.take m₁._message_len.toNat) = _
    rw [hle, List.take_length, htype, hbody₁, layout_eq]
  obtain ⟨m₂, hser₂, hpay₂⟩ := hpayload
  have htrailer : m.payload_.length = 3 + declaredLen m.payload_ + (trailer m.payload_).length := by
    have hsum := congrArg List.length hparts
    rw [List.length_append, length_header, hbody] at hsum
    exact hsum
  constructor
  · rintro ⟨⟨m₃, hser₃, hpay₃⟩, hsize⟩
    obtain rfl := Except.ok.inj (hser₂.symm.trans hser₃)
    have hzeros : trailer m.payload_ = List.replicate 35 0 :=
      List.append_cancel_left (hparts.symm.trans (hpay₃.symm.trans hpay₂))
    exact ⟨by rw [hsize, hlen], (List.eq_replicate_iff.1 hzeros).2⟩
  · rintro ⟨hsize, hzero⟩
    rw [HEADER_LENGTH] at hsize
    have hzeros : trailer m.payload_ = List.replicate 35 0 :=
      List.eq_replicate_iff.2 ⟨by omega, hzero⟩
    refine ⟨⟨m₂, hser₂, ?_⟩, by rw [hsize, hlen, HEADER_LENGTH]⟩
    rw [hpay₂, hparts, hzeros]

/-- A body of one byte. -/
theorem canonical_one : Canonical (setBody [0x41]) ⟨0xC1, 0, [], []⟩
    ⟨0xC1, 1, [0x41], layout 0xC1 [0x41]⟩ (layout 0xC1 [0x41]) := by
  have hdes : deserialize (fun _ => .ok ()) ⟨0, 0, [], layout 0xC1 [0x41]⟩ =
      .ok ⟨0xC1, 1, [0x41], layout 0xC1 [0x41]⟩ := rfl
  have hres : Restores (setBody [0x41]) ⟨0xC1, 0, [], []⟩
      ⟨0xC1, 1, [0x41], layout 0xC1 [0x41]⟩ := ⟨_, rfl, rfl, rfl, rfl⟩
  have hzeros : trailer (layout 0xC1 [0x41]) = List.replicate 35 0 := rfl
  exact (canonical_iff hdes hres).2 ⟨rfl, (List.eq_replicate_iff.1 hzeros).2⟩

/-- One byte more: the payload is accepted as the same message, and it is not reproduced. -/
theorem not_canonical : ∃ m₁ m₂ : Message,
    deserialize (fun _ => .ok ()) ⟨0, 0, [], layout 0xC1 [0x41]⟩ = .ok m₁ ∧
      deserialize (fun _ => .ok ()) ⟨0, 0, [], layout 0xC1 [0x41] ++ [7]⟩ = .ok m₂ ∧
      m₁._message_type = m₂._message_type ∧ m₁._message_len = m₂._message_len ∧
      m₁.body_ = m₂.body_ ∧ Restores (setBody [0x41]) ⟨0xC1, 0, [], []⟩ m₂ ∧
      ¬ Canonical (setBody [0x41]) ⟨0xC1, 0, [], []⟩ m₂ (layout 0xC1 [0x41] ++ [7]) := by
  refine ⟨_, _, rfl, rfl, rfl, rfl, rfl, ⟨_, rfl, rfl, rfl, rfl⟩, fun h => ?_⟩
  exact absurd h.length_eq (by decide)

end Message

end LiteMonitor
