import LiteMonitor.Sender.Packet

/-!
# The length in front of a packet

`buildPacket` narrows the length of the body to 32 bits.

* `bodySize dump batch` : the length of the body, from the sizes of the items.
* `Delimits packets bodies` : every prefix is the length of what follows, and a reader splits the
  packets into the bodies.
* `delimits_iff` : **this is so exactly if every body is shorter than 2³² bytes.**
* `not_delimits` : an item of 2³² bytes.
-/

namespace LiteMonitor

namespace Sender

open LengthPrefix

variable {J : Type*} {dump : J → Except JsonError (List Char)} {batch : List J}

/-- The bytes of an item. -/
def itemSize (dump : J → Except JsonError (List Char)) (j : J) : ℕ :=
  match dump j with
  | .ok text => (encode text).length
  | .error _ => 0

/-- The bytes of the items, the commas between them, and the 26 bytes around them. -/
def bodySize (dump : J → Except JsonError (List Char)) (batch : List J) : ℕ :=
  26 + (batch.map (itemSize dump)).sum + (batch.length - 1)

theorem length_encode_intercalate (texts : List (List Char)) :
    (encode ([','].intercalate texts)).length =
      (texts.map fun t => (encode t).length).sum + (texts.length - 1) := by
  induction texts with
  | nil => rfl
  | cons t texts ih =>
    cases texts with
    | nil => simp [List.intercalate]
    | cons u texts =>
      have hcomma : (encode [',']).length = 1 := by decide
      have hcons : [','].intercalate (t :: u :: texts) =
          t ++ ([','] ++ [','].intercalate (u :: texts)) := by
        simp [List.intercalate]
      rw [hcons, encode_append, encode_append, List.length_append, List.length_append, hcomma, ih]
      simp only [List.map_cons, List.sum_cons, List.length_cons]
      omega

theorem length_body {bytes : List UInt8} (h : body dump batch = .ok bytes) :
    bytes.length = bodySize dump batch := by
  obtain ⟨texts, hitems, rfl⟩ := body_eq_ok_iff.1 h
  have hopen : (encode "\x7b\"items\":[".toList).length = 10 := by decide
  have hclose : (encode "],\"type\":\"data\"\x7d".toList).length = 16 := by decide
  have htexts := mapM_eq_ok_iff.1 hitems
  have hsizes : batch.map (itemSize dump) = texts.map fun t => (encode t).length := by
    rw [← List.forall₂_eq_eq_eq, List.forall₂_map_left_iff, List.forall₂_map_right_iff]
    exact htexts.imp fun j t ht => by rw [itemSize, ht]
  have hlen : batch.length = texts.length := htexts.length_eq
  rw [encode_append, encode_append, List.length_append, List.length_append, hopen, hclose,
    length_encode_intercalate, bodySize, hsizes, hlen]
  omega

/-- Every prefix is the length of what follows, and a reader who goes by the prefixes gets the
bodies. -/
structure Delimits (packets bodies : List (List UInt8)) : Prop where
  prefixes : ∀ packet ∈ packets, ofBE (packet.take 4) = packet.length - 4
  splits : decode 4 packets.flatten = bodies

theorem forall_length_iff {batches : List (List J)} {bodies : List (List UInt8)}
    (hb : batches.mapM (body dump) = .ok bodies) :
    (∀ b ∈ bodies, b.length < 2 ^ 32) ↔ ∀ batch ∈ batches, bodySize dump batch < 2 ^ 32 := by
  rw [mapM_eq_ok_iff] at hb
  induction hb with
  | nil => exact iff_of_true (List.forall_mem_nil _) (List.forall_mem_nil _)
  | cons hbody _ ih => rw [List.forall_mem_cons, List.forall_mem_cons, length_body hbody, ih]

/-- **The prefixes delimit the packets exactly if the bodies are shorter than 2³² bytes.** -/
theorem delimits_iff {batches : List (List J)} {packets bodies : List (List UInt8)}
    (hp : batches.mapM (buildPacket dump) = .ok packets)
    (hb : batches.mapM (body dump) = .ok bodies) :
    Delimits packets bodies ↔ ∀ batch ∈ batches, bodySize dump batch < 2 ^ 32 := by
  rw [← forall_length_iff hb, packets_eq_frames hp hb]
  constructor
  · intro h
    exact decode_frames_iff.1 h.splits
  · intro h
    refine ⟨fun packet hpacket => ?_, decode_frames_iff.2 h⟩
    obtain ⟨b, hb, rfl⟩ := List.mem_map.1 hpacket
    rw [ofBE_take_frame_iff.2 (h b hb), length_frame, Nat.add_sub_cancel_left]

/-- Two packets. -/
theorem delimits_two : ∃ packets bodies,
    [[true], [false, true]].mapM (buildPacket dumpBool) = .ok packets ∧
      [[true], [false, true]].mapM (body dumpBool) = .ok bodies ∧ Delimits packets bodies := by
  have hp : [[true], [false, true]].mapM (buildPacket dumpBool) = .ok _ := rfl
  have hb : [[true], [false, true]].mapM (body dumpBool) = .ok _ := rfl
  exact ⟨_, _, hp, hb, (delimits_iff hp hb).2 (by decide)⟩

/-- `dump` on strings of so many letters. -/
def dumpLetters (n : ℕ) : Except JsonError (List Char) :=
  .ok ('"' :: List.replicate n 'a' ++ ['"'])

theorem le_itemSize_letters (n : ℕ) : n ≤ itemSize dumpLetters n := by
  have hle := length_le_encode ('"' :: List.replicate n 'a' ++ ['"'])
  rw [List.length_append, List.length_cons, List.length_replicate] at hle
  exact (Nat.le_succ n).trans ((Nat.le_add_right _ _).trans hle)

theorem buildPacket_letters (n : ℕ) : ∃ packet bytes,
    buildPacket dumpLetters [n] = .ok packet ∧ body dumpLetters [n] = .ok bytes :=
  ⟨_, _, rfl, rfl⟩

/-- A string of 2³² letters. -/
theorem not_delimits : ∃ packet bytes, buildPacket dumpLetters [2 ^ 32] = .ok packet ∧
    body dumpLetters [2 ^ 32] = .ok bytes ∧ ¬ Delimits [packet] [bytes] := by
  obtain ⟨packet, bytes, hp, hb⟩ := buildPacket_letters (2 ^ 32)
  refine ⟨packet, bytes, hp, hb, fun h => ?_⟩
  have hframes := packets_eq_frames (mapM_eq_ok_iff.2 (.cons hp .nil))
    (mapM_eq_ok_iff.2 (.cons hb .nil))
  have hsplits := h.splits
  rw [hframes, decode_frames_iff, List.forall_mem_singleton, length_body hb] at hsplits
  have hle := le_itemSize_letters (2 ^ 32)
  have hsize : itemSize dumpLetters (2 ^ 32) ≤ bodySize dumpLetters [2 ^ 32] := by
    rw [bodySize, List.map_singleton, List.sum_singleton]
    omega
  omega

end Sender

end LiteMonitor
