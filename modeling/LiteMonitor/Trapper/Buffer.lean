import LiteMonitor.Stream.Delimited

/-!
# Framing a connection's buffer

`TcpServer::processBuffer` on the receive buffer of one connection.  `std::string` is a list of
bytes, with the member functions the trapper uses (`StdString.find`, `erase`, `substr`).

* `processBuffer` : the payloads extracted, in order, and the buffer left.
* `processBuffer_eq_scan` : it computes the framing of the buffer by the markers `0xAA` and
  `0xFF`; hence `processBuffer_iff_framing`, the grammar it accepts.
* `feedChunks` : the chunks of a stream appended one at a time; `feedChunks_eq` : the cuts do
  not matter.
-/

namespace LiteMonitor

/-- The contents of a `std::string`. -/
abbrev Bytes := List UInt8

namespace StdString

/-- `s.find(c, pos)`; `none` stands for `npos`. -/
def find (s : Bytes) (c : UInt8) (pos : ℕ) : Option ℕ :=
  ((s.drop pos).findIdx? (· == c)).map (· + pos)

/-- `s.erase(pos, len)`. -/
def erase (s : Bytes) (pos len : ℕ) : Bytes := s.take pos ++ s.drop (pos + len)

/-- `s.substr(pos, len)`. -/
def substr (s : Bytes) (pos len : ℕ) : Bytes := (s.drop pos).take len

theorem findIdx?_append_cons {g : Bytes} {c : UInt8} (hg : c ∉ g) (q : Bytes) :
    (g ++ c :: q).findIdx? (· == c) = some g.length := by
  induction g with
  | nil => simp [List.findIdx?_cons]
  | cons x g ih =>
    simp only [List.mem_cons, not_or] at hg
    have hx : (x == c) = false := by simpa using Ne.symm hg.1
    simp [List.findIdx?_cons, hx, ih hg.2]

theorem find_zero_append_cons {g : Bytes} {c : UInt8} (hg : c ∉ g) (q : Bytes) :
    find (g ++ c :: q) c 0 = some g.length := by
  simp [find, findIdx?_append_cons hg]

theorem find_one_cons_append_cons {p : Bytes} {c : UInt8} (hp : c ∉ p) (x : UInt8) (q : Bytes) :
    find (x :: (p ++ c :: q)) c 1 = some (p.length + 1) := by
  simp [find, findIdx?_append_cons hp]

theorem find_zero_eq_none {s : Bytes} {c : UInt8} (hs : c ∉ s) : find s c 0 = none := by
  simp only [find, List.drop_zero, Option.map_eq_none_iff, List.findIdx?_eq_none_iff]
  intro x hx
  simpa using fun h : x = c => hs (h ▸ hx)

theorem find_one_cons_eq_none {q : Bytes} {c : UInt8} (hq : c ∉ q) (x : UInt8) :
    find (x :: q) c 1 = none := by
  have h := find_zero_eq_none hq
  simpa [find] using h

end StdString

open StdString Delimited

/-- One pass through the loop of `processBuffer`: the payload of the frame extracted, if there
is one, and the buffer.  Without a frame the loop returns. -/
def extractFrame (buffer : Bytes) : Option Bytes × Bytes :=
  match find buffer 0xAA 0 with
  -- `buffer.clear()`
  | none => (none, [])
  | some head =>
    let buffer := if head > 0 then erase buffer 0 head else buffer
    match find buffer 0xFF 1 with
    -- a half frame waits for the next read
    | none => (none, buffer)
    | some tail =>
      let frame := substr buffer 0 (tail + 1)
      let buffer := erase buffer 0 (tail + 1)
      let data := substr frame 1 (frame.length - 2)
      (some data, buffer)

theorem extractFrame_garbage {b : Bytes} (hb : 0xAA ∉ b) : extractFrame b = (none, []) := by
  simp [extractFrame, find_zero_eq_none hb]

/-- The garbage in front of the head marker is erased, whether or not there is any. -/
theorem erase_garbage (g q : Bytes) :
    (if g.length > 0 then erase (g ++ 0xAA :: q) 0 g.length else g ++ 0xAA :: q) = 0xAA :: q := by
  cases g with
  | nil => rfl
  | cons x g => simp [erase]

theorem extractFrame_unfinished {g q : Bytes} (hg : 0xAA ∉ g) (hq : 0xFF ∉ q) :
    extractFrame (g ++ 0xAA :: q) = (none, 0xAA :: q) := by
  simp only [extractFrame, find_zero_append_cons hg, erase_garbage, find_one_cons_eq_none hq]

theorem extractFrame_frame {g p : Bytes} (hg : 0xAA ∉ g) (hp : 0xFF ∉ p) (rest : Bytes) :
    extractFrame (g ++ 0xAA :: (p ++ 0xFF :: rest)) = (some p, rest) := by
  have hframe : substr (0xAA :: (p ++ 0xFF :: rest)) 0 (p.length + 1 + 1) =
      0xAA :: (p ++ [0xFF]) := by
    simp [substr, List.take_append, List.take_of_length_le]
  have hdata : substr (0xAA :: (p ++ [0xFF])) 1 (p.length + 2 - 2) = p := by
    simp [substr]
  have hrest : erase (0xAA :: (p ++ 0xFF :: rest)) 0 (p.length + 1 + 1) = rest := by
    simp [erase]
  have hlen : List.length (0xAA :: (p ++ [0xFF])) = p.length + 2 := by simp
  simp only [extractFrame, find_zero_append_cons hg, erase_garbage, find_one_cons_append_cons hp,
    hframe, hlen, hdata, hrest]

theorem buffer_cases (b : Bytes) :
    0xAA ∉ b ∨ (∃ g q, b = g ++ 0xAA :: q ∧ 0xAA ∉ g ∧ 0xFF ∉ q) ∨
      ∃ g p rest, b = g ++ 0xAA :: (p ++ 0xFF :: rest) ∧ 0xAA ∉ g ∧ 0xFF ∉ p := by
  by_cases hh : 0xAA ∈ b
  · obtain ⟨g, q, rfl, hg⟩ := List.eq_append_cons_of_mem hh
    by_cases ht : 0xFF ∈ q
    · obtain ⟨p, rest, rfl, hp⟩ := List.eq_append_cons_of_mem ht
      exact Or.inr (Or.inr ⟨g, p, rest, rfl, hg, hp⟩)
    · exact Or.inr (Or.inl ⟨g, q, rfl, hg, ht⟩)
  · exact Or.inl hh

theorem extractFrame_length {b b' data : Bytes} (h : extractFrame b = (some data, b')) :
    b'.length < b.length := by
  rcases buffer_cases b with hb | ⟨g, q, rfl, hg, hq⟩ | ⟨g, p, rest, rfl, hg, hp⟩
  · simp [extractFrame_garbage hb] at h
  · simp [extractFrame_unfinished hg hq] at h
  · rw [extractFrame_frame hg hp] at h
    cases h
    simp only [List.length_append, List.length_cons]
    omega

/-- `TcpServer::processBuffer`: the payloads, in the order they are passed to the callback, and
the buffer left. -/
def processBuffer (buffer : Bytes) : List Bytes × Bytes :=
  match _h : extractFrame buffer with
  | (none, buffer') => ([], buffer')
  | (some data, buffer') => (data :: (processBuffer buffer').1, (processBuffer buffer').2)
termination_by buffer.length
decreasing_by all_goals exact extractFrame_length ‹_›

theorem processBuffer_of_none {b b' : Bytes} (h : extractFrame b = (none, b')) :
    processBuffer b = ([], b') := by
  rw [processBuffer]
  split
  · simp_all
  · simp_all

theorem processBuffer_of_some {b b' data : Bytes} (h : extractFrame b = (some data, b')) :
    processBuffer b = (data :: (processBuffer b').1, (processBuffer b').2) := by
  rw [processBuffer]
  split
  · simp_all
  · simp_all

/-- **`processBuffer` is the scanner** for frames between `0xAA` and `0xFF`. -/
theorem processBuffer_eq_scan (b : Bytes) : processBuffer b = scan 0xAA 0xFF [] b := by
  induction hn : b.length using Nat.strongRecOn generalizing b with
  | ind n ih =>
    rcases buffer_cases b with hb | ⟨g, q, rfl, hg, hq⟩ | ⟨g, p, rest, rfl, hg, hp⟩
    · rw [processBuffer_of_none (extractFrame_garbage hb), scan_garbage hb]
    · rw [processBuffer_of_none (extractFrame_unfinished hg hq), scan_append, scan_garbage hg,
        scan_residue (Or.inr ⟨q, rfl, hq⟩)]
      rfl
    · have hframe := extractFrame_frame hg hp rest
      have hlt : rest.length < n := hn ▸ extractFrame_length hframe
      have hsplit : g ++ 0xAA :: (p ++ 0xFF :: rest) = (g ++ 0xAA :: (p ++ [0xFF])) ++ rest := by
        simp
      rw [processBuffer_of_some hframe, ih _ hlt rest rfl, hsplit, scan_append,
        scan_frame hg hp]
      rfl

/-- **The grammar of `processBuffer`.**  It extracts the payloads `ps` and leaves the residue
`r` exactly when the buffer is framed so, and every buffer has exactly one framing. -/
theorem processBuffer_iff_framing (b : Bytes) :
    (∀ ps r, processBuffer b = (ps, r) ↔ Framing 0xAA 0xFF b ps r) ∧
      ∃! x : List Bytes × Bytes, Framing 0xAA 0xFF b x.1 x.2 := by
  refine ⟨?_, scan 0xAA 0xFF [] b, framing_scan b, ?_⟩
  · intro ps r
    rw [processBuffer_eq_scan, framing_iff_scan]
  · intro x hx
    exact hx.scan_eq.symm

/-- A half frame, an `0xAA` inside of a frame and an empty frame. -/
example : scan 0xAA 0xFF [] [0x01, 0xAA, 0x41, 0xAA, 0xFF, 0xFF, 0xAA, 0xFF, 0xAA, 0x42] =
    ([[0x41, 0xAA], []], [0xAA, 0x42]) := by decide

/-! ### Chunks -/

/-- The body of a read: the chunk is appended to the buffer, and the buffer is framed. -/
def feedChunk (buffer chunk : Bytes) : List Bytes × Bytes := processBuffer (buffer ++ chunk)

/-- The chunks of a stream one after another. -/
def feedChunks (buffer : Bytes) : List Bytes → List Bytes × Bytes
  | [] => ([], buffer)
  | c :: cs => ((feedChunk buffer c).1 ++ (feedChunks (feedChunk buffer c).2 cs).1,
      (feedChunks (feedChunk buffer c).2 cs).2)

theorem isResidue_processBuffer (b : Bytes) : IsResidue 0xAA 0xFF (processBuffer b).2 := by
  rw [processBuffer_eq_scan]
  exact isResidue_scan (Or.inl rfl) b

theorem feedChunk_eq_scan {r : Bytes} (hr : IsResidue 0xAA 0xFF r) (c : Bytes) :
    feedChunk r c = scan 0xAA 0xFF r c := by
  rw [feedChunk, processBuffer_eq_scan, scan_residue_append hr]

theorem feedChunks_eq_scanChunks {r : Bytes} (hr : IsResidue 0xAA 0xFF r) (cs : List Bytes) :
    feedChunks r cs = scanChunks 0xAA 0xFF r cs := by
  induction cs generalizing r with
  | nil => rfl
  | cons c cs ih =>
    have hrest := ih (isResidue_scan hr c)
    simp only [feedChunks, scanChunks, feedChunk_eq_scan hr, hrest]

theorem processBuffer_residue {r : Bytes} (hr : IsResidue 0xAA 0xFF r) :
    processBuffer r = ([], r) := by
  rw [processBuffer_eq_scan, scan_residue hr]

/-- The chunks of a stream, one at a time, on a buffer left by earlier framing. -/
theorem feedChunks_residue {r : Bytes} (hr : IsResidue 0xAA 0xFF r) (cs : List Bytes) :
    feedChunks r cs = processBuffer (r ++ cs.flatten) := by
  rw [feedChunks_eq_scanChunks hr, scanChunks_eq, processBuffer_eq_scan, scan_residue_append hr]

/-- **Framing does not depend on how the stream is cut**: the chunks one at a time give the
same payloads and the same buffer as all of them at once, on a fresh buffer and on the buffer
left by whatever was received before. -/
theorem feedChunks_eq (chunks : List Bytes) :
    feedChunks [] chunks = processBuffer chunks.flatten ∧
      ∀ received, feedChunks (processBuffer received).2 chunks =
        processBuffer ((processBuffer received).2 ++ chunks.flatten) :=
  ⟨feedChunks_residue (Or.inl rfl) chunks,
    fun received => feedChunks_residue (isResidue_processBuffer received) chunks⟩

end LiteMonitor
