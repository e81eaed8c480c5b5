import LiteMonitor.Trapper.Delivery

/-!
# The lives of the connections

A descriptor is used for one connection after another.  The log tells what became of each of them:
it is accepted, some bytes are received on it, and it is closed.

* `Life` : where a connection stands; `lifeOf c log` : where the log leaves `c`, if it is in order.
* `readLoop_keeps` : what logging and buffering keep, the loop of `handleRead` keeps.
* `Lived` : the invariant; `Lived.step` : every event keeps it.
* `connections_live` : **in every run the log is in order on every descriptor**, and a connection
  has a buffer exactly as long as it is open.
-/

namespace LiteMonitor

open LTS Throwing

variable {max_size : MaxSize}

/-- Where a connection stands. -/
inductive Life where
  /-- There is no connection. -/
  | absent
  /-- Accepted, with nothing received. -/
  | fresh
  /-- Something was received. -/
  | reading
  deriving DecidableEq

/-- What happens to a connection, as far as it is in order. -/
def Life.next (c : ℕ) (life : Life) : Obs → Option Life
  | .accepted fd => if fd ≠ c then some life else if life = .absent then some .fresh else none
  | .received fd _ => if fd ≠ c then some life else if life ≠ .absent then some .reading else none
  | .closed fd => if fd ≠ c then some life else if life ≠ .absent then some .absent else none
  | .callback fd _ => if fd ≠ c then some life else none

/-- Where the log leaves `c`; `none` if it is not in order. -/
def lifeOf (c : ℕ) (log : List Obs) : Option Life := log.foldlM (Life.next c) .absent

theorem lifeOf_snoc (c : ℕ) (log : List Obs) (o : Obs) :
    lifeOf c (log ++ [o]) = (lifeOf c log).bind fun life => life.next c o := by
  simp [lifeOf]

/-! ### What the loop of `handleRead` keeps -/

section Keep

variable {I : World → Prop} {fd : ℕ}

theorem append_keeps (hbuf : ∀ w b, I w → I (w.withBuffer fd b)) (buf : Bytes) (n : ℕ) :
    Keeps I (append max_size fd buf n) := by
  have hget : Keeps I (getBuffer fd) :=
    keeps_get.bind fun w => (keeps_modify fun w => hbuf w _).bind fun _ => keeps_pure _
  refine hget.bind fun b => ?_
  have hset : Keeps I (setBuffer fd (b ++ buf.take n)) := keeps_modify fun w => hbuf w _
  dsimp only
  split_ifs
  · exact (keeps_throw _).bind fun _ => hset
  · exact hset

theorem readLoop_keeps (hlog : ∀ w bytes, I w → I (w.logging (.received fd bytes)))
    (hbuf : ∀ w b, I w → I (w.withBuffer fd b)) (rs : List ReadResult) :
    Keeps I (readLoop max_size fd rs) := by
  induction rs with
  | nil => exact keeps_pure 0
  | cons x rs ih =>
    have hrest : Keeps I (if toSizeT x.ret > 0 then do
        append max_size fd x.buf (toSizeT x.ret)
        readLoop max_size fd rs
      else return toSizeT x.ret) := by
      split_ifs
      · exact (append_keeps hbuf _ _).bind fun _ => ih
      · exact keeps_pure _
    unfold readLoop
    dsimp only
    split_ifs at hrest ⊢
    · exact (keeps_modify fun w => hlog w x.buf).bind fun _ => hrest
    · exact (keeps_modify fun w => hlog w x.buf).bind fun _ => hrest
    · exact hrest
    · exact hrest

end Keep

/-- Something is received on `fd`, and nothing else happens. -/
structure Receives (fd : ℕ) (w w' : World) : Prop where
  log_eq : ∃ bs : List Bytes, w'.log = w.log ++ bs.map (Obs.received fd)
  buffers_eq : ∀ c, c ≠ fd → w'.server.recv_buffers_ c = w.server.recv_buffers_ c

theorem readLoop_receives (fd : ℕ) (rs : List ReadResult) (w : World) :
    Receives fd w ((readLoop max_size fd rs).on w).2 := by
  refine readLoop_keeps (I := Receives fd w) ?_ ?_ rs w ⟨⟨[], by simp⟩, fun _ _ => rfl⟩
  · rintro w' bytes ⟨⟨bs, hlog⟩, hbuf⟩
    exact ⟨⟨bs ++ [bytes], by simp [World.logging, hlog]⟩, hbuf⟩
  · rintro w' b ⟨hlog, hbuf⟩
    exact ⟨hlog, fun c hc => (Function.update_of_ne hc ..).trans (hbuf c hc)⟩

theorem handleRead_receives {w : World} {fd : ℕ} (hb : w.server.recv_buffers_ fd = some [])
    (script : ReadScript) : ∃ w', w'.open_ = w.open_ ∧ Receives fd w w' ∧
      (handleRead max_size fd script).on w =
        if script.Finishes max_size 0 then (.ok (), w'.closing fd)
        else (.error .length_error, w') := by
  obtain ⟨w', hreads, hloop⟩ := readLoop_spec fd script.last script.chunks hb (Nat.zero_le _)
  have hrun : (readLoop max_size fd script.results).on w =
    (if script.Finishes max_size 0 then .ok 0 else .error .length_error, w') := hloop
  have hreceives : Receives fd w ((readLoop max_size fd script.results).on w).2 :=
    readLoop_receives fd script.results w
  rw [hrun] at hreceives
  refine ⟨w', hreads.open_eq, hreceives, ?_⟩
  split_ifs with hfin
  · rw [if_pos hfin] at hrun
    rw [handleRead, Handler.on_bind_ok hrun]
    rfl
  · rw [if_neg hfin] at hrun
    rw [handleRead, Handler.on_bind_error hrun]

/-! ### The invariant -/

theorem lifeOf_received_of_ne {c fd : ℕ} (h : fd ≠ c) (log : List Obs) (bs : List Bytes) :
    lifeOf c (log ++ bs.map (.received fd)) = lifeOf c log := by
  induction bs using List.reverseRecOn with
  | nil => simp
  | append_singleton bs b ih =>
    rw [List.map_append, ← List.append_assoc, List.map_singleton, lifeOf_snoc, ih]
    cases lifeOf c log <;> simp [Life.next, h]

theorem lifeOf_received {fd : ℕ} {log : List Obs} (h : lifeOf fd log = some .fresh)
    (bs : List Bytes) : ∃ life, lifeOf fd (log ++ bs.map (.received fd)) = some life ∧
      life ≠ .absent := by
  induction bs using List.reverseRecOn with
  | nil => exact ⟨.fresh, by simpa using h, nofun⟩
  | append_singleton bs b ih =>
    obtain ⟨life, hlife, hne⟩ := ih
    refine ⟨.reading, ?_, nofun⟩
    rw [List.map_append, ← List.append_assoc, List.map_singleton, lifeOf_snoc, hlife]
    simp [Life.next, hne]

/-- The log is in order on every descriptor, and says which connections are open; as long as the
event loop goes on nothing was received on these, and they have the buffers. -/
structure Lived (w : World) : Prop where
  life : ∀ c, ∃ life, lifeOf c w.log = some life ∧ (c ∈ w.open_ ↔ life ≠ .absent) ∧
    (w.raised = none → life ≠ .reading)
  buffer : w.raised = none → ∀ c, (w.server.recv_buffers_ c).isSome ↔ c ∈ w.open_

namespace Lived

variable {w w' : World} (hw : Lived w)
include hw

theorem lifeOf_absent {c : ℕ} (hc : c ∉ w.open_) : lifeOf c w.log = some .absent := by
  obtain ⟨life, hlife, hopen, -⟩ := hw.life c
  have habsent : life = .absent := by
    by_contra hne
    exact hc (hopen.2 hne)
  rw [hlife, habsent]

theorem lifeOf_fresh (hr : w.raised = none) {c : ℕ} (hc : c ∈ w.open_) :
    lifeOf c w.log = some .fresh := by
  obtain ⟨life, hlife, hopen, hread⟩ := hw.life c
  rw [hlife]
  cases life with
  | absent => exact absurd rfl (hopen.1 hc)
  | fresh => rfl
  | reading => exact absurd rfl (hread hr)

theorem accepting {fd : ℕ} (hfd : fd ∉ w.open_) : Lived (w.accepting fd) := by
  refine ⟨fun c => ?_, fun hr c => ?_⟩
  · have hlog : lifeOf c (w.accepting fd).log =
        (lifeOf c w.log).bind fun life => life.next c (.accepted fd) := lifeOf_snoc ..
    have hopen : c ∈ (w.accepting fd).open_ ↔ c = fd ∨ c ∈ w.open_ := List.mem_cons
    by_cases hcf : fd = c
    · subst hcf
      refine ⟨.fresh, ?_, by simp [hopen], nofun⟩
      rw [hlog, hw.lifeOf_absent hfd]
      simp [Life.next]
    · obtain ⟨life, hlife, hold, hread⟩ := hw.life c
      refine ⟨life, ?_, ?_, hread⟩
      · rw [hlog, hlife]
        simp [Life.next, hcf]
      · rw [hopen, or_iff_right (Ne.symm hcf), hold]
  · have hopen : c ∈ (w.accepting fd).open_ ↔ c = fd ∨ c ∈ w.open_ := List.mem_cons
    by_cases hcf : c = fd
    · subst hcf
      simp [World.accepting, World.logging, World.withBuffer]
    · have hbuf : (w.accepting fd).server.recv_buffers_ c = w.server.recv_buffers_ c :=
        Function.update_of_ne hcf ..
      rw [hbuf, hopen, or_iff_right hcf]
      exact hw.buffer hr c

theorem foldl_accepting {conns : List ℕ} (hnd : conns.Nodup) (hc : ∀ c ∈ conns, c ∉ w.open_) :
    Lived (conns.foldl World.accepting w) := by
  induction conns generalizing w with
  | nil => exact hw
  | cons fd conns ih =>
    obtain ⟨hfd, hnd⟩ := List.nodup_cons.1 hnd
    refine ih (hw.accepting (hc fd List.mem_cons_self)) hnd fun c hmem => ?_
    change c ∉ fd :: w.open_
    rw [List.mem_cons, not_or]
    exact ⟨fun h => hfd (h ▸ hmem), hc c (List.mem_cons_of_mem _ hmem)⟩

theorem closing (hq : Quiet w) (hr : w.raised = none) {fd : ℕ} (hfd : fd ∈ w.open_)
    (h : Receives fd w w') (hopen : w'.open_ = w.open_) : Lived (w'.closing fd) := by
  obtain ⟨bs, hlog⟩ := h.log_eq
  have hmem : ∀ c, c ∈ (w'.closing fd).open_ ↔ c ≠ fd ∧ c ∈ w.open_ := by
    intro c
    change c ∈ w'.open_.erase fd ↔ _
    rw [hopen]
    exact hq.nodup.mem_erase_iff
  refine ⟨fun c => ?_, fun _ c => ?_⟩
  · have hend : lifeOf c (w'.closing fd).log =
        (lifeOf c w'.log).bind fun life => life.next c (.closed fd) := lifeOf_snoc ..
    rw [hend, hlog, hmem]
    by_cases hcf : fd = c
    · subst hcf
      obtain ⟨life, hlife, hne⟩ := lifeOf_received (hw.lifeOf_fresh hr hfd) bs
      refine ⟨.absent, ?_, by simp, nofun⟩
      rw [hlife]
      simp [Life.next, hne]
    · obtain ⟨life, hlife, hold, hread⟩ := hw.life c
      refine ⟨life, ?_, ?_, fun _ => hread hr⟩
      · rw [lifeOf_received_of_ne hcf, hlife]
        simp [Life.next, hcf]
      · rw [and_iff_right (Ne.symm hcf), hold]
  · rw [hmem]
    by_cases hcf : c = fd
    · subst hcf
      simp [World.closing, World.logging, World.withoutBuffer]
    · have hbuf : (w'.closing fd).server.recv_buffers_ c = w'.server.recv_buffers_ c :=
        Function.update_of_ne hcf ..
      rw [hbuf, h.buffers_eq c hcf, and_iff_right hcf]
      exact hw.buffer hr c

theorem raising (hr : w.raised = none) {fd : ℕ} (hfd : fd ∈ w.open_) (h : Receives fd w w')
    (hopen : w'.open_ = w.open_) (x : StdException) : Lived { w' with raised := some x } := by
  obtain ⟨bs, hlog⟩ := h.log_eq
  refine ⟨fun c => ?_, nofun⟩
  simp only [hlog, hopen]
  by_cases hcf : fd = c
  · subst hcf
    obtain ⟨life, hlife, hne⟩ := lifeOf_received (hw.lifeOf_fresh hr hfd) bs
    exact ⟨life, hlife, iff_of_true hfd hne, nofun⟩
  · obtain ⟨life, hlife, hold, -⟩ := hw.life c
    exact ⟨life, by rw [lifeOf_received_of_ne hcf, hlife], hold, nofun⟩

theorem step (hq : Quiet w) {e : Event} (h : serverStep max_size w e = some w') : Lived w' := by
  have hguard : w.raised = none ∧ e.Possible w := by
    by_contra hno
    rw [serverStep, if_neg hno] at h
    cases h
  rw [serverStep, if_pos hguard] at h
  obtain ⟨hr, hposs⟩ := hguard
  cases e with
  | listen conns =>
    have hrun : (handle max_size (.listen conns)).on w = (.ok (), conns.foldl World.accepting w) :=
      handleAccept_on conns w
    rw [hrun] at h
    exact Option.some.inj h ▸ hw.foldl_accepting hposs.1 hposs.2
  | conn fd script =>
    obtain ⟨w₁, hopen, hreceives, hrun⟩ := handleRead_receives (hq.fresh hr fd hposs).2 script
    have hrun' : (handle max_size (.conn fd script)).on w = _ := hrun
    rw [hrun'] at h
    split_ifs at h
    · exact Option.some.inj h ▸ hw.closing hq hr hposs hreceives hopen
    · exact Option.some.inj h ▸ hw.raising hr hposs hreceives hopen .length_error

end Lived

theorem lived_init (message_cb_ : Bool) : Lived (TcpServer.init message_cb_) :=
  ⟨fun _ => ⟨.absent, rfl, by simp [TcpServer.init], nofun⟩, fun _ c => by simp [TcpServer.init]⟩

/-- **Every connection has a life in order.**  In every run, whether or not an exception has ended
it, the log is in order on every descriptor: a connection is accepted when there is none, bytes are
received only between that and its end, and it ends once; the open connections are those that were
accepted and not closed.  As long as no exception is thrown, nothing has been received on an open
connection, and the descriptors with a buffer are exactly the open ones, so that no buffer outlives
its connection. -/
theorem connections_live {message_cb_ : Bool} {w : World}
    (h : (TcpServer.lts max_size).Reachable (TcpServer.init message_cb_) w) :
    (∀ c, ∃ life, lifeOf c w.log = some life ∧ (c ∈ w.open_ ↔ life ≠ .absent) ∧
        (w.raised = none → life ≠ .reading)) ∧
      (w.raised = none → ∀ c, (w.server.recv_buffers_ c).isSome ↔ c ∈ w.open_) := by
  have hw : Lived w := h.invariant (lived_init message_cb_)
    fun hr hw hst => hw.step (quiet_reachable hr) hst
  exact ⟨hw.life, hw.buffer⟩

/-- The descriptor of a connection that was closed is used again. -/
theorem connections_live_reused : ∃ w,
    (TcpServer.lts .libstdcxx).Reachable (TcpServer.init true) w ∧
    w.log = [.accepted 5, .received 5 [0x41], .closed 5, .accepted 5] ∧
    (w.server.recv_buffers_ 5).isSome := by
  obtain ⟨w, hw, hr, hopen, hlog⟩ := Run.exists_reachable (serverStep .libstdcxx)
    (TcpServer.init true)
    [.listen [5], .conn 5 ⟨[⟨[0x41], by decide⟩], none⟩, .listen [5]]
    (fun w => w.raised = none ∧ 5 ∈ w.open_ ∧
      w.log = [.accepted 5, .received 5 [0x41], .closed 5, .accepted 5]) (by decide)
  exact ⟨w, hw, hlog, ((connections_live hw).2 hr 5).2 hopen⟩

end LiteMonitor
