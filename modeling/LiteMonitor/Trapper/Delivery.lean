import LiteMonitor.Trapper.Server

/-!
# What the trapper delivers

The payloads passed to the callback against the frames received, over all runs of the event
loop.  `handleRead` keeps the result of `read` in a `size_t`: the end of the file leads to
`closeConnection`, an error to an `append` that throws, and neither to `processBuffer`.

* `bytesRead c log`, `delivered c log` : what was read on `c`, and what was passed to the
  callback for it, since it was accepted.
* `Reads` : what the loop of `handleRead` leaves behind; `readLoop_spec`.
* `Quiet` : the invariant: no callback was ever called, and an open connection of a server that
  still runs has received nothing.
* `delivers_iff_no_frame` : **the frames received are delivered exactly as long as none is
  received.**
-/

namespace LiteMonitor

open LTS

/-- The bytes read on `c` since it was accepted. -/
def bytesRead (c : ℕ) (log : List Obs) : Bytes :=
  log.foldl (fun acc o => match o with
    | .accepted fd => if fd = c then [] else acc
    | .received fd bytes => if fd = c then acc ++ bytes else acc
    | _ => acc) []

/-- The payloads passed to `message_cb_` for `c` since it was accepted. -/
def delivered (c : ℕ) (log : List Obs) : List Bytes :=
  log.foldl (fun acc o => match o with
    | .accepted fd => if fd = c then [] else acc
    | .callback fd data => if fd = c then acc ++ [data] else acc
    | _ => acc) []

section Log

variable (c fd : ℕ) (log : List Obs) (b : Bytes)

@[simp] theorem bytesRead_accepted :
    bytesRead c (log ++ [.accepted fd]) = if fd = c then [] else bytesRead c log := by
  simp [bytesRead]

@[simp] theorem bytesRead_received :
    bytesRead c (log ++ [.received fd b]) =
      if fd = c then bytesRead c log ++ b else bytesRead c log := by
  simp [bytesRead]

@[simp] theorem bytesRead_closed : bytesRead c (log ++ [.closed fd]) = bytesRead c log := by
  simp [bytesRead]

@[simp] theorem delivered_accepted :
    delivered c (log ++ [.accepted fd]) = if fd = c then [] else delivered c log := by
  simp [delivered]

@[simp] theorem delivered_received :
    delivered c (log ++ [.received fd b]) = delivered c log := by
  simp [delivered]

@[simp] theorem delivered_closed : delivered c (log ++ [.closed fd]) = delivered c log := by
  simp [delivered]

end Log

namespace ReadScript

/-- The bytes read into a buffer of `len` bytes: the loop ends with the first chunk that makes
the string too long. -/
def readBytes (max_size : MaxSize) : ℕ → List Chunk → Bytes
  | _, [] => []
  | len, c :: cs =>
    if max_size.toNat - len < c.1.length then c.1
    else c.1 ++ readBytes max_size (len + c.1.length) cs

/-- The bytes read for an event on a connection that has received nothing before. -/
def bytes (max_size : MaxSize) (script : ReadScript) : Bytes := readBytes max_size 0 script.chunks

/-- The number of bytes in the chunks. -/
def size (chunks : List Chunk) : ℕ := (chunks.map fun c => c.1.length).sum

/-- The loop comes to its end without throwing: the last call has returned `0`. -/
def Finishes (max_size : MaxSize) (len : ℕ) (script : ReadScript) : Prop :=
  script.last = none ∧ len + size script.chunks ≤ max_size.toNat

instance (max_size : MaxSize) (len : ℕ) (script : ReadScript) :
    Decidable (script.Finishes max_size len) :=
  inferInstanceAs (Decidable (_ ∧ _))

end ReadScript

variable {max_size : MaxSize}

/-- What reading `bytes` on `fd` changes: the log and the buffer of `fd`. -/
structure Reads (fd : ℕ) (bytes : Bytes) (w w' : World) : Prop where
  open_eq : w'.open_ = w.open_
  raised_eq : w'.raised = w.raised
  delivered_eq : ∀ c, delivered c w'.log = delivered c w.log
  bytesRead_eq : ∀ c, bytesRead c w'.log =
    if fd = c then bytesRead c w.log ++ bytes else bytesRead c w.log
  buffers_eq : ∀ c, c ≠ fd → w'.server.recv_buffers_ c = w.server.recv_buffers_ c

theorem Reads.refl (fd : ℕ) (w : World) : Reads fd [] w w :=
  ⟨rfl, rfl, fun _ => rfl, fun c => by simp, fun _ _ => rfl⟩

theorem Reads.trans {fd : ℕ} {b₁ b₂ : Bytes} {w₁ w₂ w₃ : World} (h₁ : Reads fd b₁ w₁ w₂)
    (h₂ : Reads fd b₂ w₂ w₃) : Reads fd (b₁ ++ b₂) w₁ w₃ := by
  refine ⟨h₂.open_eq.trans h₁.open_eq, h₂.raised_eq.trans h₁.raised_eq, fun c => ?_, fun c => ?_,
    fun c hc => (h₂.buffers_eq c hc).trans (h₁.buffers_eq c hc)⟩
  · rw [h₂.delivered_eq, h₁.delivered_eq]
  · rw [h₂.bytesRead_eq, h₁.bytesRead_eq]
    split_ifs <;> simp

theorem Reads.logging (fd : ℕ) (bytes : Bytes) (w : World) :
    Reads fd bytes w (w.logging (.received fd bytes)) := by
  refine ⟨rfl, rfl, ?_, ?_, fun c _ => rfl⟩
  · intro c
    simp [World.logging]
  · intro c
    simp [World.logging]

theorem Reads.withBuffer (fd : ℕ) (b : Bytes) (w : World) : Reads fd [] w (w.withBuffer fd b) := by
  refine ⟨rfl, rfl, fun c => rfl, fun c => by simp [World.withBuffer], fun c hc => ?_⟩
  simp [World.withBuffer, hc]

theorem getBuffer_on {w : World} {fd : ℕ} {b : Bytes} (hb : w.server.recv_buffers_ fd = some b) :
    (getBuffer fd).on w = (.ok b, w.withBuffer fd b) := by
  have hget : (getBuffer fd).on w = (.ok ((w.server.recv_buffers_ fd).getD []),
      w.withBuffer fd ((w.server.recv_buffers_ fd).getD [])) := rfl
  simpa [hb] using hget

section Append

variable {w : World} {fd : ℕ} {b : Bytes} (hb : w.server.recv_buffers_ fd = some b)
  (buf : Bytes) {n : ℕ}
include hb

theorem append_full (hn : max_size.toNat - b.length < n) :
    (append max_size fd buf n).on w = (.error .length_error, w.withBuffer fd b) := by
  rw [append, Handler.on_bind_ok (getBuffer_on hb)]
  simp only [hn, if_true]
  rfl

theorem append_fits (hn : ¬ max_size.toNat - b.length < n) :
    (append max_size fd buf n).on w = (.ok (), w.withBuffer fd (b ++ buf.take n)) := by
  have hset : (setBuffer fd (b ++ buf.take n)).on (w.withBuffer fd b) =
      (.ok (), (w.withBuffer fd b).withBuffer fd (b ++ buf.take n)) := rfl
  rw [append, Handler.on_bind_ok (getBuffer_on hb)]
  simp only [hn, if_false]
  simpa [World.withBuffer] using hset

end Append

/-! ### The loop of `handleRead` -/

theorem toSizeT_natCast {n : ℕ} (hn : n < 2 ^ 64) : toSizeT n = n := by
  unfold toSizeT
  omega

theorem readLoop_data (fd : ℕ) (w : World) (c : Chunk) (rs : List ReadResult) :
    (readLoop max_size fd (.data c.1 c.2.1 c.2.2 :: rs)).on w =
      (append max_size fd c.1 c.1.length >>= fun _ => readLoop max_size fd rs).on
        (w.logging (.received fd c.1)) := by
  have hne : c.1 ≠ [] := List.length_pos_iff.1 c.2.1
  have hlen : toSizeT (ReadResult.ret (.data c.1 c.2.1 c.2.2)) = c.1.length :=
    toSizeT_natCast (by have := c.2.2; omega)
  simp only [readLoop, ReadResult.buf, hne, hlen, ne_eq, not_false_eq_true, if_true]
  rw [Handler.on_bind_ok (show (observe (.received fd c.1)).on w = (.ok (), _) from rfl)]
  rw [if_pos c.2.1]

/-- An error is `-1`, the largest `size_t`, and `append` throws. -/
theorem readLoop_error {w : World} {fd : ℕ} {b : Bytes}
    (hb : w.server.recv_buffers_ fd = some b) (e : Errno) (rs : List ReadResult) :
    (readLoop max_size fd (.error e :: rs)).on w = (.error .length_error, w.withBuffer fd b) := by
  have hfull : max_size.toNat - b.length < toSizeT (-1) := by
    have : toSizeT (-1) = 2 ^ 64 - 1 := by decide
    have := max_size.lt_npos
    omega
  have happ := Handler.on_bind_error (f := fun _ => readLoop max_size fd rs)
    (append_full hb [] hfull)
  have hpos : toSizeT (-1) > 0 := by decide
  simp only [readLoop, ReadResult.buf, ReadResult.ret, hpos, ne_eq, not_true_eq_false, if_false,
    if_true]
  exact happ

theorem readLoop_eof (fd : ℕ) (w : World) (rs : List ReadResult) :
    (readLoop max_size fd (.eof :: rs)).on w = (.ok 0, w) := rfl

theorem readLoop_spec (fd : ℕ) (last : Option Errno) (chunks : List Chunk) {w : World} {b : Bytes}
    (hb : w.server.recv_buffers_ fd = some b) (hlen : b.length ≤ max_size.toNat) :
    ∃ w', Reads fd (ReadScript.readBytes max_size b.length chunks) w w' ∧
      (readLoop max_size fd (ReadScript.results ⟨chunks, last⟩)).on w =
        (if ReadScript.Finishes max_size b.length ⟨chunks, last⟩ then .ok 0
          else .error .length_error, w') := by
  induction chunks generalizing w b with
  | nil =>
    cases last with
    | none =>
      refine ⟨w, .refl fd w, ?_⟩
      have hfin : ReadScript.Finishes max_size b.length ⟨[], none⟩ := ⟨rfl, hlen⟩
      rw [if_pos hfin]
      exact readLoop_eof fd w []
    | some e =>
      refine ⟨w.withBuffer fd b, .withBuffer fd b w, ?_⟩
      have hfin : ¬ ReadScript.Finishes max_size b.length ⟨[], some e⟩ := fun h => by cases h.1
      rw [if_neg hfin]
      exact readLoop_error hb e []
  | cons c cs ih =>
    have hlog := Reads.logging fd c.1 w
    have hb₁ : (w.logging (.received fd c.1)).server.recv_buffers_ fd = some b := hb
    have hsize : ReadScript.size (c :: cs) = c.1.length + ReadScript.size cs := by
      simp [ReadScript.size]
    change ∃ w', _ ∧ (readLoop max_size fd
      (.data c.1 c.2.1 c.2.2 :: ReadScript.results ⟨cs, last⟩)).on w = _
    rw [readLoop_data]
    by_cases hfull : max_size.toNat - b.length < c.1.length
    · -- the chunk makes the string too long, and the rest is not read
      have hfin : ¬ ReadScript.Finishes max_size b.length ⟨c :: cs, last⟩ := by
        rintro ⟨-, hle⟩
        simp only [hsize] at hle
        omega
      have hread : ReadScript.readBytes max_size b.length (c :: cs) = c.1 ++ [] := by
        simp [ReadScript.readBytes, hfull]
      rw [hread, if_neg hfin]
      exact ⟨_, hlog.trans (.withBuffer fd b _), Handler.on_bind_error (append_full hb₁ _ hfull)⟩
    · have hread : ReadScript.readBytes max_size b.length (c :: cs) =
          c.1 ++ ([] ++ ReadScript.readBytes max_size (b ++ c.1).length cs) := by
        simp [ReadScript.readBytes, hfull]
      have hfin : ReadScript.Finishes max_size b.length ⟨c :: cs, last⟩ ↔
          ReadScript.Finishes max_size (b ++ c.1).length ⟨cs, last⟩ := by
        simp only [ReadScript.Finishes, hsize, List.length_append, Nat.add_assoc]
      have happ := append_fits hb₁ c.1 hfull
      rw [List.take_length] at happ
      have hb₂ : ((w.logging (.received fd c.1)).withBuffer fd (b ++ c.1)).server.recv_buffers_ fd =
          some (b ++ c.1) := Function.update_self ..
      obtain ⟨w', hreads, hrun⟩ := ih hb₂ (by rw [List.length_append]; omega)
      refine ⟨w', ?_, ?_⟩
      · rw [hread]
        exact hlog.trans ((Reads.withBuffer fd _ _).trans hreads)
      · simp only [hfin]
        rw [Handler.on_bind_ok happ, hrun]

/-! ### The handlers -/

namespace World

/-- The world after a connection was accepted. -/
def accepting (w : World) (fd : ℕ) : World :=
  ({ w with open_ := fd :: w.open_ }.withBuffer fd []).logging (.accepted fd)

/-- The world after `closeConnection`. -/
def closing (w : World) (fd : ℕ) : World :=
  ({ w with open_ := w.open_.erase fd }.withoutBuffer fd).logging (.closed fd)

end World

theorem handleAccept_on (conns : List ℕ) (w : World) :
    (handleAccept conns).on w = (.ok (), conns.foldl World.accepting w) := by
  induction conns generalizing w with
  | nil => rfl
  | cons fd conns ih => exact ih (w.accepting fd)

/-- A readable event ends with `closeConnection`, or with the exception of `append`. -/
theorem handleRead_on {w : World} {fd : ℕ} (hb : w.server.recv_buffers_ fd = some [])
    (script : ReadScript) :
    ∃ w', Reads fd (script.bytes max_size) w w' ∧ (handleRead max_size fd script).on w =
      if script.Finishes max_size 0 then (.ok (), w'.closing fd)
      else (.error .length_error, w') := by
  obtain ⟨w', hreads, hloop⟩ := readLoop_spec fd script.last script.chunks hb (Nat.zero_le _)
  have hrun : (readLoop max_size fd script.results).on w =
    (if script.Finishes max_size 0 then .ok 0 else .error .length_error, w') := hloop
  refine ⟨w', hreads, ?_⟩
  by_cases hfin : script.Finishes max_size 0
  · rw [if_pos hfin]
    have hok : (readLoop max_size fd script.results).on w = (.ok 0, w') := by
      rw [hrun, if_pos hfin]
    rw [handleRead, Handler.on_bind_ok hok]
    rfl
  · rw [if_neg hfin]
    have herr : (readLoop max_size fd script.results).on w = (.error .length_error, w') := by
      rw [hrun, if_neg hfin]
    rw [handleRead, Handler.on_bind_error herr]

/-! ### Frames -/

/-- A head marker, and behind it a tail marker. -/
def HoldsFrame (b : Bytes) : Prop :=
  ∃ g p rest, b = g ++ 0xAA :: (p ++ 0xFF :: rest) ∧ 0xAA ∉ g ∧ 0xFF ∉ p

theorem processBuffer_eq_nil_iff (b : Bytes) : (processBuffer b).1 = [] ↔ ¬ HoldsFrame b := by
  constructor
  · rintro hnil ⟨g, p, rest, rfl, hg, hp⟩
    rw [processBuffer_of_some (extractFrame_frame hg hp rest)] at hnil
    simp at hnil
  · intro hno
    rcases buffer_cases b with hb | ⟨g, q, rfl, hg, hq⟩ | hframe
    · rw [processBuffer_of_none (extractFrame_garbage hb)]
    · rw [processBuffer_of_none (extractFrame_unfinished hg hq)]
    · exact absurd hframe hno

/-- The payloads passed to the callback are those framed in the bytes read, on every
connection. -/
def Delivers (w : World) : Prop :=
  ∀ c, delivered c w.log = (processBuffer (bytesRead c w.log)).1

/-! ### The invariant -/

/-- The invariant of the event loop. -/
structure Quiet (w : World) : Prop where
  /-- The callback was never called. -/
  silent : ∀ c, delivered c w.log = []
  nodup : w.open_.Nodup
  /-- Nothing was received on the open connections. -/
  fresh : w.raised = none →
    ∀ c ∈ w.open_, bytesRead c w.log = [] ∧ w.server.recv_buffers_ c = some []

theorem quiet_init (message_cb_ : Bool) : Quiet (TcpServer.init message_cb_) :=
  ⟨fun _ => rfl, List.nodup_nil, fun _ c hc => by cases hc⟩

theorem delivers_init (message_cb_ : Bool) : Delivers (TcpServer.init message_cb_) :=
  fun _ => ((processBuffer_eq_nil_iff []).2 (by rintro ⟨g, p, rest, h, -⟩; simp at h)).symm

theorem Quiet.delivers {w : World} (hq : Quiet w) :
    Delivers w ↔ ∀ c, ¬ HoldsFrame (bytesRead c w.log) := by
  refine forall_congr' fun c => ?_
  rw [hq.silent, eq_comm, processBuffer_eq_nil_iff]

namespace Quiet

variable {w w' : World} (hq : Quiet w)
include hq

theorem accepting {fd : ℕ} (hfd : fd ∉ w.open_) : Quiet (w.accepting fd) := by
  refine ⟨?_, List.nodup_cons.2 ⟨hfd, hq.nodup⟩, ?_⟩
  · intro c
    simp [World.accepting, World.logging, World.withBuffer, hq.silent]
  · intro hr c hc
    by_cases hcf : c = fd
    · subst hcf
      simp [World.accepting, World.logging, World.withBuffer]
    · have hold := hq.fresh hr c ((List.mem_cons.1 hc).resolve_left hcf)
      simpa [World.accepting, World.logging, World.withBuffer, hcf, Ne.symm hcf] using hold

theorem closing {fd : ℕ} {bytes : Bytes} (hr : Reads fd bytes w w') : Quiet (w'.closing fd) := by
  have hnodup : w'.open_.Nodup := hr.open_eq ▸ hq.nodup
  refine ⟨?_, hnodup.erase fd, ?_⟩
  · intro c
    simp [World.closing, World.logging, World.withoutBuffer, hr.delivered_eq, hq.silent]
  · intro hraised c hc
    -- `fd` is not open any more, and on the other connections nothing has happened
    obtain ⟨hcf, hc'⟩ := hnodup.mem_erase_iff.1 hc
    have hold := hq.fresh (hr.raised_eq ▸ hraised) c (hr.open_eq ▸ hc')
    have hbytes := hr.bytesRead_eq c
    rw [if_neg (Ne.symm hcf)] at hbytes
    simpa [World.closing, World.logging, World.withoutBuffer, hcf, hbytes,
      hr.buffers_eq c hcf] using hold

theorem raising {fd : ℕ} {bytes : Bytes} (hr : Reads fd bytes w w') (x : StdException) :
    Quiet { w' with raised := some x } := by
  refine ⟨?_, ?_, fun h => by cases h⟩
  · intro c
    rw [hr.delivered_eq, hq.silent]
  · exact hr.open_eq ▸ hq.nodup

theorem foldl_accepting {conns : List ℕ} (hnd : conns.Nodup) (hc : ∀ c ∈ conns, c ∉ w.open_) :
    Quiet (conns.foldl World.accepting w) ∧ (conns.foldl World.accepting w).raised = w.raised ∧
      ∀ c, bytesRead c (conns.foldl World.accepting w).log =
        if c ∈ conns then [] else bytesRead c w.log := by
  induction conns generalizing w with
  | nil => exact ⟨hq, rfl, fun c => by simp⟩
  | cons fd conns ih =>
    obtain ⟨hfd, hnd⟩ := List.nodup_cons.1 hnd
    have hq₁ := hq.accepting (hc fd List.mem_cons_self)
    have hopen : ∀ c ∈ conns, c ∉ (w.accepting fd).open_ := fun c hmem => by
      change c ∉ fd :: w.open_
      rw [List.mem_cons, not_or]
      exact ⟨fun h => hfd (h ▸ hmem), hc c (List.mem_cons_of_mem _ hmem)⟩
    obtain ⟨hq₂, hraised, hbytes⟩ := ih hq₁ hnd hopen
    refine ⟨hq₂, hraised, fun c => ?_⟩
    have hone : bytesRead c (w.accepting fd).log = if fd = c then [] else bytesRead c w.log :=
      bytesRead_accepted c fd w.log
    rw [List.foldl_cons, hbytes c, hone]
    by_cases hcf : fd = c
    · simp [hcf]
    · simp [hcf, Ne.symm hcf]

end Quiet

/-! ### Events -/

namespace Event

/-- No complete frame is read. -/
def ReadsNoFrame (max_size : MaxSize) : Event → Prop
  | .listen _ => True
  | .conn _ script => ¬ HoldsFrame (script.bytes max_size)

/-- The handler returns: the peer has closed the connection, and the bytes fit into a string. -/
def Returns (max_size : MaxSize) : Event → Prop
  | .listen _ => True
  | .conn _ script => script.Finishes max_size 0

end Event

namespace Quiet

variable {w w' : World} (hq : Quiet w)
include hq

/-- One event: what it reads decides whether the frames are still delivered, and whether the
event loop goes on. -/
theorem step {e : Event} (h : serverStep max_size w e = some w') :
    Quiet w' ∧ (Delivers w → (Delivers w' ↔ e.ReadsNoFrame max_size)) ∧
      (w'.raised = none ↔ e.Returns max_size) := by
  have hguard : w.raised = none ∧ e.Possible w := by
    by_contra hno
    rw [serverStep, if_neg hno] at h
    simp at h
  rw [serverStep, if_pos hguard] at h
  obtain ⟨hraised, hposs⟩ := hguard
  cases e with
  | listen conns =>
    rw [show handle max_size (.listen conns) = handleAccept conns from rfl, handleAccept_on] at h
    obtain rfl : conns.foldl World.accepting w = w' := Option.some.inj h
    obtain ⟨hq', hr', hbytes⟩ := hq.foldl_accepting hposs.1 hposs.2
    refine ⟨hq', fun hd => iff_of_true (hq'.delivers.2 fun c => ?_) trivial,
      iff_of_true (hr'.trans hraised) trivial⟩
    have hold := hq.delivers.1 hd c
    rw [hbytes c]
    split_ifs
    · exact (processBuffer_eq_nil_iff []).1 (by rw [processBuffer_residue (Or.inl rfl)])
    · exact hold
  | conn fd script =>
    obtain ⟨w₁, hreads, hrun⟩ := handleRead_on (hq.fresh hraised fd hposs).2 script
    have hnone := (hq.fresh hraised fd hposs).1
    -- the bytes of the event are all that was read on `fd`, and nothing happens to the others
    have hframes : Delivers w →
        ((∀ c, ¬ HoldsFrame (bytesRead c w₁.log)) ↔
          ¬ HoldsFrame (script.bytes max_size)) := fun hd => by
      constructor
      · intro hall
        have hfd := hall fd
        rwa [hreads.bytesRead_eq, if_pos rfl, hnone, List.nil_append] at hfd
      · intro hno c
        rw [hreads.bytesRead_eq]
        by_cases hc : fd = c
        · rwa [if_pos hc, ← hc, hnone, List.nil_append]
        · rw [if_neg hc]
          exact hq.delivers.1 hd c
    rw [show handle max_size (.conn fd script) = handleRead max_size fd script from rfl, hrun] at h
    by_cases hfin : script.Finishes max_size 0
    · rw [if_pos hfin] at h
      obtain rfl : w₁.closing fd = w' := Option.some.inj h
      have hq' := hq.closing hreads
      refine ⟨hq', fun hd => ?_, iff_of_true (hreads.raised_eq.trans hraised) hfin⟩
      rw [hq'.delivers]
      exact (forall_congr' fun c => by
        rw [World.closing, World.logging, bytesRead_closed]; rfl).trans (hframes hd)
    · rw [if_neg hfin] at h
      obtain rfl : { w₁ with raised := some .length_error } = w' := Option.some.inj h
      have hq' := hq.raising hreads .length_error
      refine ⟨hq', fun hd => ?_, iff_of_false (fun hr => by cases hr) hfin⟩
      rw [hq'.delivers]
      exact hframes hd

end Quiet

theorem quiet_reachable {message_cb_ : Bool} {w : World}
    (h : (TcpServer.lts max_size).Reachable (TcpServer.init message_cb_) w) : Quiet w :=
  h.invariant (quiet_init message_cb_) fun _ hq hst => (hq.step hst).1

/-- **The trapper delivers the frames it has received exactly as long as it has received none**:
the payloads passed to the callback are those framed in the bytes read, in every state of a run
and on every connection, if and only if no event of the run reads a complete frame.  Moreover
the event loop goes on exactly as long as every readable event ends with the end of the file. -/
theorem delivers_iff_no_frame {tr : List (World × Event)} {w : World}
    (h : (TcpServer.lts max_size).Run (TcpServer.init true) tr w) :
    ((∀ x ∈ states tr w, Delivers x) ↔ ∀ x ∈ tr, x.2.ReadsNoFrame max_size) ∧
      ((∀ x ∈ states tr w, x.raised = none) ↔ ∀ x ∈ tr, x.2.Returns max_size) := by
  constructor
  · refine h.forall_states_iff (J := fun _ => True) (C := fun _ e => e.ReadsNoFrame max_size)
      (delivers_init true) trivial fun hr hd _ hst => ⟨?_, fun _ => trivial⟩
    exact ((quiet_reachable hr).step hst).2.1 hd
  · refine h.forall_states_iff (P := fun x => x.raised = none) (J := fun _ => True)
      (C := fun _ e => e.Returns max_size) rfl trivial fun hr _ _ hst => ⟨?_, fun _ => trivial⟩
    exact ((quiet_reachable hr).step hst).2.2

/-- A peer that sends no frame and closes the connection. -/
theorem delivers_iff_no_frame_garbage : ∃ tr w,
    (TcpServer.lts .libstdcxx).Run (TcpServer.init true) tr w ∧
    tr.map Prod.snd = [.listen [5], .conn 5 ⟨[⟨[0x41], by decide⟩], none⟩] ∧
    (∀ x ∈ states tr w, Delivers x) ∧ ∀ x ∈ states tr w, x.raised = none := by
  obtain ⟨tr, w, hrun, hlabels⟩ := Run.exists_of_trace (serverStep .libstdcxx) (TcpServer.init true)
    [.listen [5], .conn 5 ⟨[⟨[0x41], by decide⟩], none⟩]
    (fun tr _ => tr.map Prod.snd = [.listen [5], .conn 5 ⟨[⟨[0x41], by decide⟩], none⟩]) (by decide)
  have hevents : ∀ x ∈ tr, x.2 = .listen [5] ∨ x.2 = .conn 5 ⟨[⟨[0x41], by decide⟩], none⟩ := by
    intro x hx
    have hmem := List.mem_map_of_mem (f := Prod.snd) hx
    rw [hlabels] at hmem
    simpa using hmem
  obtain ⟨hdel, hret⟩ := delivers_iff_no_frame hrun
  refine ⟨tr, w, hrun, hlabels, hdel.2 ?_, hret.2 ?_⟩
  · intro x hx
    rcases hevents x hx with he | he <;> rw [he]
    · trivial
    · exact (processBuffer_eq_nil_iff _).1 (by rw [processBuffer_eq_scan]; decide)
  · intro x hx
    rcases hevents x hx with he | he <;> rw [he]
    · trivial
    · exact ⟨rfl, by decide⟩

/-- A peer sends one frame and closes the connection, and the frame is not delivered. -/
theorem not_delivers_at_eof :
    ¬ ∀ w, (TcpServer.lts .libstdcxx).Reachable (TcpServer.init true) w → Delivers w := by
  intro hclaim
  obtain ⟨w, hw, hlog⟩ := Run.exists_reachable (serverStep .libstdcxx) (TcpServer.init true)
    [.listen [5], .conn 5 ⟨[⟨[0xAA, 0x41, 0xFF], by decide⟩], none⟩]
    (fun w => w.log = [.accepted 5, .received 5 [0xAA, 0x41, 0xFF], .closed 5]) (by decide)
  have h5 := hclaim w hw 5
  rw [hlog, processBuffer_eq_scan] at h5
  revert h5
  decide

end LiteMonitor
