import LiteMonitor.Trapper.Delivery

/-!
# The outcomes of `read`

`handleRead` has a branch for each outcome of `read`: data, the end of the file, a drained
socket, another error.  It tests them on a `size_t`, so a result of `-1` is taken for data.

* `appendCounts` : the counts that the loop of `handleRead` passes to `append`;
  `readLoop_eq_appendCounts`.
* `HandledByBranch` : every result is handled by its own branch.
* `handledByBranch_iff` : **this is so exactly if no `read` fails** and the bytes fit into a
  string.
-/

namespace LiteMonitor

variable {max_size : MaxSize}

/-- The counts passed to `append`, as long as it does not throw. -/
def appendCounts : List ReadResult → List ℕ
  | [] => []
  | x :: xs => if toSizeT x.ret > 0 then toSizeT x.ret :: appendCounts xs else []

namespace ReadScript

/-- The bytes in the chunks. -/
def content (chunks : List Chunk) : Bytes := (chunks.map Subtype.val).flatten

/-- The last result says that the socket is drained. -/
def Drained (script : ReadScript) : Prop :=
  script.last = some .EAGAIN ∨ script.last = some .EWOULDBLOCK

end ReadScript

/-- The results of a readable event on `fd`, whose buffer is `b`, are handled by their branches:
the loop appends the chunks, each with its length, and ends at the first result that is not
positive; a drained socket stays open with its buffer; after another error or the end of the file
the connection is closed and its buffer erased; and nothing is raised. -/
structure HandledByBranch (max_size : MaxSize) (w : World) (fd : ℕ) (b : Bytes)
    (script : ReadScript) : Prop where
  counts : appendCounts script.results = script.chunks.map fun c => c.1.length
  appended : ∃ n w₁, (readLoop max_size fd script.results).on w = (.ok n, w₁) ∧
    w₁.server.recv_buffers_ fd = some (b ++ ReadScript.content script.chunks)
  returns : ∃ w', (handleRead max_size fd script).on w = (.ok (), w') ∧
    (script.Drained → w'.open_ = w.open_ ∧
      w'.server.recv_buffers_ fd = some (b ++ ReadScript.content script.chunks)) ∧
    (¬ script.Drained → w'.open_ = w.open_.erase fd ∧ w'.server.recv_buffers_ fd = none)

/-- The loop appends the results with these counts, one after the other, and returns `0`. -/
theorem readLoop_eq_appendCounts (fd : ℕ) (rs : List ReadResult) :
    readLoop max_size fd rs =
      ((rs.zip (appendCounts rs)).forM fun p =>
        (if p.1.buf ≠ [] then observe (.received fd p.1.buf) else pure ()) >>= fun _ =>
          append max_size fd p.1.buf p.2) >>= fun _ => pure 0 := by
  induction rs with
  | nil => rfl
  | cons x xs ih =>
    by_cases hn : toSizeT x.ret > 0
    · have hcounts : appendCounts (x :: xs) = toSizeT x.ret :: appendCounts xs := by
        rw [appendCounts, if_pos hn]
      rw [hcounts, List.zip_cons_cons, readLoop, if_pos hn, ih]
      change _ = ((_ >>= fun _ => _) >>= fun _ => List.forM _ _) >>= fun _ => pure 0
      simp only [bind_assoc]
      split_ifs <;> simp only [pure_bind]
    · -- only the end of the file is not positive
      have hret : toSizeT x.ret = 0 := Nat.eq_zero_of_not_pos hn
      have hcounts : appendCounts (x :: xs) = [] := by rw [appendCounts, if_neg hn]
      have hbuf : x.buf = [] := by
        cases x with
        | data bytes pos le =>
          rw [show toSizeT (ReadResult.ret (.data bytes pos le)) = bytes.length from
            toSizeT_natCast (by omega)] at hret
          omega
        | eof => rfl
        | error e => rfl
      rw [hcounts, readLoop]
      simp [hbuf, hret]

theorem toSizeT_data (c : Chunk) :
    toSizeT (ReadResult.ret (.data c.1 c.2.1 c.2.2)) = c.1.length :=
  toSizeT_natCast (by have := c.2.2; omega)

theorem appendCounts_data (c : Chunk) (rs : List ReadResult) :
    appendCounts (.data c.1 c.2.1 c.2.2 :: rs) = c.1.length :: appendCounts rs := by
  rw [appendCounts, toSizeT_data, if_pos c.2.1]

/-- What is appended for the results of a readable event: an error is taken for a chunk. -/
theorem appendCounts_results (last : Option Errno) (chunks : List Chunk) :
    appendCounts (ReadScript.results ⟨chunks, last⟩) =
      (chunks.map fun c => c.1.length) ++ (if last.isSome then [2 ^ 64 - 1] else []) := by
  induction chunks with
  | nil => cases last <;> rfl
  | cons c cs ih =>
    change appendCounts (.data c.1 c.2.1 c.2.2 :: ReadScript.results ⟨cs, last⟩) = _
    rw [appendCounts_data, ih]
    rfl

theorem counts_iff (script : ReadScript) :
    appendCounts script.results = (script.chunks.map fun c => c.1.length) ↔ script.last = none := by
  have hcounts := appendCounts_results script.last script.chunks
  cases hlast : script.last with
  | none =>
    rw [hlast] at hcounts
    refine iff_of_true ?_ rfl
    rw [show script.results = ReadScript.results ⟨script.chunks, none⟩ from hlast ▸ rfl, hcounts]
    simp
  | some e =>
    rw [hlast] at hcounts
    refine iff_of_false ?_ nofun
    rw [show script.results = ReadScript.results ⟨script.chunks, some e⟩ from hlast ▸ rfl, hcounts]
    simp

theorem readLoop_finishes (fd : ℕ) (chunks : List Chunk) {w : World} {b : Bytes}
    (hb : w.server.recv_buffers_ fd = some b)
    (hfits : b.length + ReadScript.size chunks ≤ max_size.toNat) :
    ∃ w', (readLoop max_size fd (ReadScript.results ⟨chunks, none⟩)).on w = (.ok 0, w') ∧
      w'.open_ = w.open_ ∧
      w'.server.recv_buffers_ fd = some (b ++ ReadScript.content chunks) := by
  induction chunks generalizing w b with
  | nil => exact ⟨w, readLoop_eof fd w [], rfl, by simpa [ReadScript.content] using hb⟩
  | cons c cs ih =>
    have hsize : ReadScript.size (c :: cs) = c.1.length + ReadScript.size cs := by
      simp [ReadScript.size]
    have hroom : ¬ max_size.toNat - b.length < c.1.length := by omega
    have hb₁ : (w.logging (.received fd c.1)).server.recv_buffers_ fd = some b := hb
    have happ := append_fits hb₁ c.1 hroom
    rw [List.take_length] at happ
    have hb₂ : ((w.logging (.received fd c.1)).withBuffer fd (b ++ c.1)).server.recv_buffers_ fd =
        some (b ++ c.1) := Function.update_self ..
    obtain ⟨w', hrun, hopen, hbuf⟩ := ih hb₂ (by rw [List.length_append]; omega)
    have hdata : (readLoop max_size fd (ReadScript.results ⟨c :: cs, none⟩)).on w = _ :=
      readLoop_data fd w c (ReadScript.results ⟨cs, none⟩)
    rw [Handler.on_bind_ok happ, hrun] at hdata
    refine ⟨w', hdata, hopen, ?_⟩
    rw [hbuf, List.append_assoc]
    simp [ReadScript.content]

theorem handledByBranch_of_finishes {w : World} {fd : ℕ} {b : Bytes} {script : ReadScript}
    (hb : w.server.recv_buffers_ fd = some b) (hfin : script.Finishes max_size b.length) :
    HandledByBranch max_size w fd b script := by
  obtain ⟨chunks, last⟩ := script
  obtain ⟨rfl, hfits⟩ : last = none ∧ b.length + ReadScript.size chunks ≤ max_size.toNat := hfin
  obtain ⟨w₁, hloop, hopen, hbuf⟩ := readLoop_finishes fd chunks hb hfits
  have hrun : (handleRead max_size fd ⟨chunks, none⟩).on w = (.ok (), w₁.closing fd) := by
    rw [handleRead, Handler.on_bind_ok hloop]
    rfl
  refine ⟨(counts_iff _).2 rfl, ⟨0, w₁, hloop, hbuf⟩, ⟨_, hrun, ?_, ?_⟩⟩
  · rintro (h | h) <;> cases h
  · intro _
    exact ⟨congrArg (List.erase · fd) hopen, Function.update_self ..⟩

/-- **Every outcome is handled by its own branch exactly if no `read` fails**: all results of the
event are positive but the last one, which is `0`, and the bytes fit into a string.  A result of
`-1` becomes the count `2 ^ 64 - 1`, and `append` throws out of the event loop. -/
theorem handledByBranch_iff {w : World} {fd : ℕ} {b : Bytes}
    (hb : w.server.recv_buffers_ fd = some b) (hlen : b.length ≤ max_size.toNat)
    (script : ReadScript) :
    HandledByBranch max_size w fd b script ↔
      script.last = none ∧ b.length + ReadScript.size script.chunks ≤ max_size.toNat := by
  constructor
  · rintro ⟨hcounts, ⟨n, w₁, hloop, -⟩, -⟩
    have hlast := (counts_iff script).1 hcounts
    refine ⟨hlast, ?_⟩
    by_contra hfull
    obtain ⟨w', -, hspec⟩ := readLoop_spec fd script.last script.chunks hb hlen
    rw [if_neg fun hfin => hfull hfin.2] at hspec
    rw [show ReadScript.results ⟨script.chunks, script.last⟩ = script.results from rfl,
      hloop] at hspec
    simp at hspec
  · exact handledByBranch_of_finishes hb

/-- The server with the open connection 5. -/
def oneConnection : World := (TcpServer.init true).accepting 5

/-- One chunk, and the end of the file. -/
theorem handledByBranch_iff_eof :
    HandledByBranch .libstdcxx oneConnection 5 [] ⟨[⟨[0x41], by decide⟩], none⟩ :=
  (handledByBranch_iff (w := oneConnection) rfl (by decide) _).2 ⟨rfl, by decide⟩

/-- A drained socket. -/
theorem not_handledByBranch : ¬ ∀ (w : World) (fd : ℕ) (b : Bytes) (script : ReadScript),
    w.server.recv_buffers_ fd = some b → b.length ≤ MaxSize.libstdcxx.toNat →
      HandledByBranch .libstdcxx w fd b script := by
  intro hclaim
  have hraises := hclaim oneConnection 5 [] ⟨[⟨[0x41], by decide⟩], some .EAGAIN⟩ rfl (by decide)
  exact absurd ((counts_iff _).1 hraises.counts) (by decide)

end LiteMonitor
