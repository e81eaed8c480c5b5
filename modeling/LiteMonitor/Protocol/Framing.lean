import LiteMonitor.Control.Traversal
import LiteMonitor.Protocol.Message
import LiteMonitor.Trapper.Buffer

/-!
# Messages in frames

A protocol message is binary, and the trapper's framing reserves the bytes `0xAA` and `0xFF`.  The
step that would undo an escaping of the reserved bytes stands in `processBuffer` as a comment, and
`serialize` escapes nothing: a frame ends at the first `0xFF` of its message.

* `Message.header` : the part of a payload in front of its trailing zeros.
* `Message.transparent_iff` : **a message survives the framing exactly if no byte of its header or
  body is `0xFF`.**
-/

namespace LiteMonitor

namespace Message

open LengthPrefix Delimited

/-- The type, the length and the body. -/
def header (t : UInt8) (body : List UInt8) : List UInt8 := t :: (toBE 2 body.length ++ body)

theorem layout_eq (t : UInt8) (body : List UInt8) :
    layout t body = header t body ++ List.replicate 35 0 := by
  simp [layout, header]

theorem length_header (t : UInt8) (body : List UInt8) :
    (header t body).length = 3 + body.length := by
  simp only [header, List.length_cons, List.length_append, length_toBE]
  omega

theorem tail_mem_layout_iff (t : UInt8) (body : List UInt8) :
    0xFF ∈ layout t body ↔ 0xFF ∈ header t body := by
  rw [layout_eq, List.mem_append]
  exact or_iff_left fun h => absurd (List.eq_of_mem_replicate h) (by decide)

theorem declaredLen_append {p : List UInt8} (hp : 3 ≤ p.length) (q : List UInt8) :
    declaredLen (p ++ q) = declaredLen p := by
  have hdrop : (p ++ q).drop 1 = p.drop 1 ++ q := List.drop_append_of_le_length (by omega)
  unfold declaredLen
  rw [hdrop, List.take_append_of_le_length (by rw [List.length_drop]; omega)]

/-- A message that is cut off at a `0xFF` of its header or body is not decoded to its body: the
most that is missing in the copy of it is the last byte, and there the terminator stands. -/
theorem deserialize_cut (bodyDeserialize : Message → Except String Unit) (m : Message) {t : UInt8}
    {body u v : List UInt8} (hbody : body.length < 2 ^ 16) (hcut : layout t body = u ++ 0xFF :: v)
    (hu : u.length < 3 + body.length) {m' : Message}
    (hok : deserialize bodyDeserialize (m.setPayload u) = .ok m') : m'.body_ ≠ body := by
  have hparts := fits_of_deserialize hok
  simp only [setPayload] at hparts
  obtain ⟨hlong, hfits⟩ := hparts
  have hsize38 : 38 ≤ u.length := hlong
  have hdecl : declaredLen u = body.length := by
    rw [← declaredLen_layout t hbody, hcut, declaredLen_append (by omega)]
  have hone : 3 + declaredLen u = u.length + 1 := by omega
  have hlast : body = u.drop 3 ++ [0xFF] := by
    have hdrop : ((layout t body).drop 3).take body.length = body := by
      simp [layout]
    have hlen : (u.drop 3 ++ [(0xFF : UInt8)]).length = body.length := by
      rw [List.length_append, List.length_drop, List.length_singleton]
      omega
    rw [← hdrop, hcut, List.append_cons u, List.drop_append_of_le_length (by simp; omega),
      List.drop_append_of_le_length (by omega), ← hlen, List.take_left]
  obtain ⟨t', ht'⟩ := exists_head hlong
  have hdes : deserialize bodyDeserialize (m.setPayload u) = _ :=
    deserialize_of_terminator hlong hone ht'
  rw [hdes] at hok
  obtain ⟨-, -, hdecoded⟩ := bind_eq_ok_iff.1 hok
  obtain rfl := Except.ok.inj hdecoded
  intro hsame
  change u.drop 3 ++ [0] = body at hsame
  rw [hlast] at hsame
  exact absurd (List.append_cancel_left hsame) (by decide)

/-- The payload of a message in a frame is delivered once, and decoded to the type and the
body. -/
def Transparent (bodyDeserialize : Message → Except String Unit) (m fresh : Message)
    (b : List UInt8) : Prop :=
  ∃ m₁ m₂ data, serialize (setBody b) m = .ok m₁ ∧
    feedChunk [] (0xAA :: (m₁.payload_ ++ [0xFF])) = ([data], []) ∧
    deserialize bodyDeserialize (fresh.setPayload data) = .ok m₂ ∧
    m₂._message_type = m._message_type ∧ m₂.body_ = b

theorem feedChunk_frame {p : List UInt8} (hp : 0xFF ∉ p) :
    feedChunk [] (0xAA :: (p ++ [0xFF])) = ([p], []) := by
  have hg : (0xAA : UInt8) ∉ ([] : List UInt8) := by simp
  unfold feedChunk
  rw [List.nil_append, processBuffer_eq_scan]
  exact scan_frame hg hp

theorem feedChunk_cut {u v : List UInt8} (hu : 0xFF ∉ u) :
    ∃ ps r, feedChunk [] (0xAA :: (u ++ 0xFF :: v ++ [0xFF])) = (u :: ps, r) := by
  have hg : (0xAA : UInt8) ∉ ([] : List UInt8) := by simp
  have hsplit : 0xAA :: (u ++ 0xFF :: v ++ [0xFF]) =
      ([] ++ 0xAA :: (u ++ [0xFF])) ++ (v ++ [0xFF]) := by
    simp
  unfold feedChunk
  rw [List.nil_append, processBuffer_eq_scan, hsplit, scan_append, scan_frame hg hu]
  exact ⟨_, _, rfl⟩

theorem serialize_short (m : Message) {b : List UInt8} (hb : b.length ≤ 65535) :
    ∃ m₁, serialize (setBody b) m = .ok m₁ ∧ m₁.payload_ = layout m._message_type b := by
  obtain ⟨m₁, hser, hpay⟩ := serialize_setBody m b
  rw [(sentBody_eq_iff b).2 hb] at hpay
  exact ⟨m₁, hser, hpay⟩

section Transparent

variable {bodyDeserialize : Message → Except String Unit} (m fresh : Message) {b : List UInt8}

theorem transparent_of_notMem (hd : ∀ m, bodyDeserialize m = .ok ()) (hb : b.length ≤ 65535)
    (h : 0xFF ∉ header m._message_type b) : Transparent bodyDeserialize m fresh b := by
  obtain ⟨m₁, hser, hpay⟩ := serialize_short m hb
  have hp : 0xFF ∉ layout m._message_type b := fun hmem => h ((tail_mem_layout_iff _ _).1 hmem)
  refine ⟨m₁, _, layout m._message_type b, hser, ?_,
    deserialize_layout hd fresh m._message_type (by omega), rfl, rfl⟩
  rw [hpay]
  exact feedChunk_frame hp

theorem not_transparent_of_mem (hb : b.length ≤ 65535) (h : 0xFF ∈ header m._message_type b) :
    ¬ Transparent bodyDeserialize m fresh b := by
  rintro ⟨m₁, m₂, data, hser, hfeed, hdes, -, hsame⟩
  obtain ⟨m₁', hser', hpay⟩ := serialize_short m hb
  obtain rfl : m₁' = m₁ := Except.ok.inj (hser'.symm.trans hser)
  obtain ⟨u, v, huv, hu⟩ := List.eq_append_cons_of_mem h
  have hlayout : layout m._message_type b = u ++ 0xFF :: (v ++ List.replicate 35 0) := by
    rw [layout_eq, huv]
    simp
  obtain ⟨ps, r, hcut⟩ := feedChunk_cut (v := v ++ List.replicate 35 0) hu
  rw [hpay, hlayout, hcut] at hfeed
  obtain rfl : u = data := (List.cons.inj (Prod.mk.inj hfeed).1).1
  have hlt : u.length < 3 + b.length := by
    have hlen := length_header m._message_type b
    rw [huv, List.length_append, List.length_cons] at hlen
    omega
  exact deserialize_cut bodyDeserialize fresh (by omega) hlayout hlt hdes hsame

end Transparent

/-- **A message survives the framing exactly if no byte of its type, its length or its body is
`0xFF`**: otherwise the frame ends too early, and what is delivered is not decoded to the
message. -/
theorem transparent_iff {bodyDeserialize : Message → Except String Unit}
    (hd : ∀ m, bodyDeserialize m = .ok ()) (m fresh : Message) (b : List UInt8)
    (hb : b.length ≤ 65535) : Transparent bodyDeserialize m fresh b ↔
      m._message_type ≠ 0xFF ∧ 0xFF ∉ toBE 2 b.length ∧ 0xFF ∉ b := by
  have hcond : 0xFF ∉ header m._message_type b ↔
      m._message_type ≠ 0xFF ∧ 0xFF ∉ toBE 2 b.length ∧ 0xFF ∉ b := by
    simp only [header, List.mem_cons, List.mem_append, not_or, ne_eq, eq_comm]
  rw [← hcond]
  constructor
  · intro htrans hmem
    exact not_transparent_of_mem m fresh hb hmem htrans
  · exact transparent_of_notMem m fresh hd hb

/-- A body with the head marker in it. -/
theorem transparent_iff_head : Transparent (fun _ => .ok ()) ⟨0xC1, 0, [], []⟩ ⟨0, 0, [], []⟩
    [0x41, 0xAA] :=
  (transparent_iff (fun _ => rfl) _ _ _ (by decide)).2 (by decide)

/-- A body of one byte `0xFF`. -/
theorem not_transparent : ¬ ∀ (m fresh : Message) (b : List UInt8), b.length ≤ 65535 →
    Transparent (fun _ => .ok ()) m fresh b := by
  intro hclaim
  exact not_transparent_of_mem _ _ (by decide) (by decide)
    (hclaim ⟨0xC1, 0, [], []⟩ ⟨0, 0, [], []⟩ [0xFF] (by decide))

end Message

end LiteMonitor
