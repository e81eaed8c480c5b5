import LiteMonitor.Sender.Packet
import LiteMonitor.Trapper.Buffer

/-!
# The sender against the trapper

The sender marks its packets by their length, the trapper looks for frames between `0xAA` and
`0xFF`.  The bodies are UTF-8 text, which has no byte `0xFF`: a frame can only end in a length
prefix, and the four bytes of the first prefix are too few for a body.

* `packets_eq_blocks` : the stream of packets, cut into prefixes and bodies.
* `delivers_bodies_iff` : **the trapper delivers the bodies of the packets if and only if there
  are none.**
-/

namespace LiteMonitor

open Sender Delimited

variable {J : Type*} {dump : J → Except JsonError (List Char)}

/-- A body is UTF-8 text, and not shorter than the object without items. -/
theorem body_spec {batch : List J} {bytes : List UInt8} (h : body dump batch = .ok bytes) :
    0xFF ∉ bytes ∧ 26 ≤ bytes.length := by
  obtain ⟨texts, -, rfl⟩ := body_eq_ok_iff.1 h
  refine ⟨tail_notMem_encode _, le_trans ?_ (length_le_encode _)⟩
  have hopen : "\x7b\"items\":[".toList.length = 10 := by decide
  have hclose : "],\"type\":\"data\"\x7d".toList.length = 16 := by decide
  rw [List.length_append, List.length_append, hopen, hclose]
  omega

/-- The stream of packets consists of blocks of a length prefix and a body. -/
theorem packets_eq_blocks {batches : List (List J)} {packets bodies : List (List UInt8)}
    (hp : batches.mapM (buildPacket dump) = .ok packets)
    (hb : batches.mapM (body dump) = .ok bodies) :
    packets.flatten = blocks (bodies.map fun b => (lengthPrefix b.length, b)) ∧
      bodies.length = batches.length ∧ ∀ b ∈ bodies, 0xFF ∉ b ∧ 26 ≤ b.length := by
  have hflat : packets.flatten = blocks (bodies.map fun b => (lengthPrefix b.length, b)) := by
    rw [packets_eq_frames hp hb, ← List.flatMap_def, blocks, List.flatMap_map]
    simp only [lengthPrefix_eq]
    rfl
  refine ⟨hflat, (mapM_eq_ok_iff.1 hb).length_eq.symm, fun bytes hbytes => ?_⟩
  obtain ⟨batch, -, hbody⟩ := exists_of_mem_mapM hb hbytes
  exact body_spec hbody

/-- **The trapper delivers the bodies of the packets if and only if there are none**: for all
batches whose packets can be built, and however the stream of the packets is cut, the payloads
passed to the callback are the bodies exactly when there is no batch. -/
theorem delivers_bodies_iff {batches : List (List J)} {packets bodies chunks : List (List UInt8)}
    (hp : batches.mapM (buildPacket dump) = .ok packets)
    (hb : batches.mapM (body dump) = .ok bodies) (hc : chunks.flatten = packets.flatten) :
    (feedChunks [] chunks).1 = bodies ↔ batches = [] := by
  obtain ⟨hblocks, hlen, hbodies⟩ := packets_eq_blocks hp hb
  have hscan : (feedChunks [] chunks).1 = (scan 0xAA 0xFF [] packets.flatten).1 := by
    rw [feedChunks_residue (Or.inl rfl), List.nil_append, hc, processBuffer_eq_scan]
  rw [hscan, hblocks]
  constructor
  · intro heq
    by_contra hne
    have hblocks_ne : (bodies.map fun b => (lengthPrefix b.length, b)) ≠ [] := by
      intro hnil
      rw [List.map_eq_nil_iff.1 hnil] at hlen
      exact hne (List.length_eq_zero_iff.1 hlen.symm)
    -- a body is longer than the prefix in which its frame would have to end
    have hlt := length_scan_blocks_lt (h := 0xAA) (t := 0xFF) (m := 4) hblocks_ne
      (fun b hb => by
        obtain ⟨bytes, hbytes, rfl⟩ := List.mem_map.1 hb
        exact ⟨(LengthPrefix.length_toBE 4 _).le, (hbodies bytes hbytes).1⟩)
      (fun p hp => by
        have hlong := (hbodies p (heq ▸ hp)).2
        omega)
    rw [heq, List.length_map] at hlt
    exact Nat.lt_irrefl _ hlt
  · rintro rfl
    obtain rfl : bodies = [] := List.length_eq_zero_iff.1 hlen
    rfl

/-- One packet in one chunk. -/
theorem delivers_bodies_iff_single : ∃ packets bodies,
    [[true]].mapM (buildPacket dumpBool) = .ok packets ∧
      [[true]].mapM (body dumpBool) = .ok bodies ∧
      (feedChunks [] [packets.flatten]).1 ≠ bodies := by
  have hp : [[true]].mapM (buildPacket dumpBool) = .ok _ := rfl
  have hb : [[true]].mapM (body dumpBool) = .ok _ := rfl
  refine ⟨_, _, hp, hb, fun h => ?_⟩
  cases (delivers_bodies_iff hp hb List.flatten_singleton).1 h

/-- The packet of one item does not come out as its body. -/
theorem not_delivers_bodies : ¬ ∀ (batches : List (List Bool)) (packets bodies chunks : List Bytes),
    batches.mapM (buildPacket dumpBool) = .ok packets →
    batches.mapM (body dumpBool) = .ok bodies → chunks.flatten = packets.flatten →
    (feedChunks [] chunks).1 = bodies := by
  intro hclaim
  have hone := hclaim [[true]] _ _ [_] rfl rfl (List.flatten_singleton)
  rw [feedChunks_residue (Or.inl rfl), processBuffer_eq_scan] at hone
  revert hone
  decide

end LiteMonitor
