import LiteMonitor.Control.Traversal
import LiteMonitor.Stream.LengthPrefix

/-!
# The packets of the sender

`Sender::buildPacket`.  `nlohmann::json` is a parameter: a type `J` of values and the function
`dump`, which yields the text of a value, or raises when a string in it is not valid UTF-8.
A `std::string` is the list of its bytes.

* `dumpRoot dump batch` : the text of the object around the items of a batch.
* `buildPacket dump batch` : the packet.
* `body_eq_ok_iff`, `buildPacket_eq_ok_iff` : when there is a body and a packet, and what they are.
* `packets_eq_frames` : the packets are the bodies with their lengths in front.
* `tail_notMem_encode` : no byte of UTF-8 text is `0xFF`.
-/

namespace LiteMonitor

namespace Sender

/-- The exception `type_error.316` of `dump` under the default error handler. -/
inductive JsonError where
  | type_error_316
  deriving DecidableEq

/-- The bytes of a text in UTF-8. -/
def encode (text : List Char) : List UInt8 := text.flatMap String.utf8EncodeChar

variable {J : Type*} (dump : J → Except JsonError (List Char))

/-- `root.dump()`, where `root` has the members `items` and `type`; a `std::map` orders them by
their keys. -/
def dumpRoot (batch : List J) : Except JsonError (List Char) := do
  let items ← batch.mapM dump
  return "\x7b\"items\":[".toList ++ [','].intercalate items ++ "],\"type\":\"data\"\x7d".toList

/-- The body of a packet. -/
def body (batch : List J) : Except JsonError (List UInt8) := encode <$> dumpRoot dump batch

/-- `htonl(static_cast<uint32_t>(n))`, as it lies in memory. -/
def lengthPrefix (n : ℕ) : List UInt8 := LengthPrefix.toBE 4 (UInt32.ofNat n).toNat

/-- `Sender::buildPacket`. -/
def buildPacket (batch : List J) : Except JsonError (List UInt8) := do
  let body ← body dump batch
  return lengthPrefix body.length ++ body

/-- `dump` on the JSON values `true` and `false`. -/
def dumpBool (b : Bool) : Except JsonError (List Char) :=
  .ok (if b then "true".toList else "false".toList)

example : (buildPacket dumpBool [true]).map (·.take 8) =
    .ok [0, 0, 0, 0x1E, 0x7B, 0x22, 0x69, 0x74] := by decide

theorem lengthPrefix_eq (n : ℕ) : lengthPrefix n = LengthPrefix.toBE 4 n := by
  simp only [lengthPrefix, UInt32.toNat_ofNat']
  exact LengthPrefix.toBE_mod 4 n

variable {dump} {batch : List J}

theorem body_eq_ok_iff {bytes : List UInt8} :
    body dump batch = .ok bytes ↔ ∃ texts, batch.mapM dump = .ok texts ∧
      encode ("\x7b\"items\":[".toList ++ [','].intercalate texts ++
        "],\"type\":\"data\"\x7d".toList) = bytes := by
  rw [body, dumpRoot, map_eq_ok_iff]
  simp only [bind_eq_ok_iff]
  constructor
  · rintro ⟨text, ⟨texts, htexts, htext⟩, hbytes⟩
    rw [← Except.ok.inj htext] at hbytes
    exact ⟨texts, htexts, hbytes⟩
  · rintro ⟨texts, htexts, hbytes⟩
    exact ⟨_, ⟨texts, htexts, rfl⟩, hbytes⟩

theorem buildPacket_eq_ok_iff {packet : List UInt8} :
    buildPacket dump batch = .ok packet ↔
      ∃ bytes, body dump batch = .ok bytes ∧ LengthPrefix.frame 4 bytes = packet := by
  rw [buildPacket, bind_eq_ok_iff]
  simp only [lengthPrefix_eq]
  constructor
  · rintro ⟨bytes, hbytes, hpacket⟩
    exact ⟨bytes, hbytes, Except.ok.inj hpacket⟩
  · rintro ⟨bytes, hbytes, rfl⟩
    exact ⟨bytes, hbytes, rfl⟩

theorem packets_eq_frames {batches : List (List J)} {packets bodies : List (List UInt8)}
    (hp : batches.mapM (buildPacket dump) = .ok packets)
    (hb : batches.mapM (body dump) = .ok bodies) :
    packets = bodies.map (LengthPrefix.frame 4) := by
  rw [mapM_eq_ok_iff] at hp hb
  induction hb generalizing packets with
  | nil => exact List.forall₂_nil_left_iff.1 hp
  | @cons batch bytes batches bodies hbody _ ih =>
    obtain ⟨packet, packets', hpacket, hps, rfl⟩ := List.forall₂_cons_left_iff.1 hp
    obtain ⟨bytes', hbody', rfl⟩ := buildPacket_eq_ok_iff.1 hpacket
    obtain rfl := Except.ok.inj (hbody.symm.trans hbody')
    rw [ih hps, List.map_cons]

theorem ofNat_ne_tail {n : ℕ} (hn : n < 0xFF) : (0xFF : UInt8) ≠ UInt8.ofNat n := by
  intro h
  have hval := congrArg UInt8.toNat h
  rw [UInt8.toNat_ofNat', Nat.mod_eq_of_lt (by omega)] at hval
  exact absurd hval (Nat.ne_of_gt hn)

/-- The bytes of one character are at most `0x7F`, or of the form `110xxxxx`, `1110xxxx`,
`11110xxx`, `10xxxxxx`. -/
theorem tail_notMem_encodeChar (c : Char) : 0xFF ∉ String.utf8EncodeChar c := by
  simp only [String.utf8EncodeChar]
  split_ifs <;> simp only [List.mem_cons, List.not_mem_nil, or_false, not_or]
  · exact ofNat_ne_tail (by omega)
  · exact ⟨ofNat_ne_tail (by omega), ofNat_ne_tail (by omega)⟩
  · exact ⟨ofNat_ne_tail (by omega), ofNat_ne_tail (by omega), ofNat_ne_tail (by omega)⟩
  · exact ⟨ofNat_ne_tail (by omega), ofNat_ne_tail (by omega), ofNat_ne_tail (by omega),
      ofNat_ne_tail (by omega)⟩

theorem tail_notMem_encode (text : List Char) : 0xFF ∉ encode text := by
  simp only [encode, List.mem_flatMap, not_exists, not_and]
  exact fun c _ => tail_notMem_encodeChar c

theorem length_le_encode (text : List Char) : text.length ≤ (encode text).length := by
  induction text with
  | nil => exact Nat.zero_le _
  | cons c text ih =>
    have hpos := c.utf8Size_pos
    simp only [encode, List.flatMap_cons, List.length_append, List.length_cons,
      String.length_utf8EncodeChar] at ih ⊢
    omega

theorem encode_append (a b : List Char) : encode (a ++ b) = encode a ++ encode b :=
  List.flatMap_append

end Sender

end LiteMonitor
