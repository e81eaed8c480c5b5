import LiteMonitor.Sender.Limits

/-!
# Items that cannot be serialised

When the packet is built, the batch is no longer in the queue.  A failure to connect or to send puts
it back; an exception out of `dump` leaves `run` and ends the process.

* `buildPacket_ok_iff` : a packet can be built exactly if all its items can be dumped.
* `Iteration s₁ tr s` : a run from `s₁` on, up to the next loop head at most.
* `Pc.Within b p` : where the worker stands in an iteration with the batch `b`.
* `Pc.left` : what is left of the iteration.
* `Survives o dump b s₁` : the iteration returns to the loop, with every item accounted for.
* `survives_iff` : **an iteration survives exactly if every item of its batch can be dumped.**
-/

namespace LiteMonitor

namespace Sender

open LTS

variable {J : Type*} {o : Options} {dump : J → Except JsonError (List Char)} {s s' s₁ : State J}
  {l : Label J} {b : List (Item J)} {tr : List (State J × Label J)}

/-! ### Packets -/

theorem buildPacket_ok_iff {batch : List J} :
    (∃ packet, buildPacket dump batch = .ok packet) ↔ ∀ j ∈ batch, ∃ text, dump j = .ok text := by
  rw [← mapM_ok_iff]
  simp only [buildPacket_eq_ok_iff, body_eq_ok_iff]
  constructor
  · rintro ⟨packet, bytes, ⟨texts, htexts, -⟩, -⟩
    exact ⟨texts, htexts⟩
  · rintro ⟨texts, htexts⟩
    exact ⟨_, _, ⟨texts, htexts, rfl⟩, rfl⟩

/-! ### An iteration -/

namespace Pc

/-- The worker is in the middle of an iteration with the batch `b`, or at the next loop head. -/
def Within (b : List (Item J)) : Pc J → Prop
  | .connect batch | .build batch | .sending batch _ _ | .rollback batch _ => batch = b
  | .count _ | .closing | .reconnect | .test => True
  | _ => False

/-- The steps of the worker that are left of an iteration with a packet of `n` bytes, but for calls
of `send` that are interrupted. -/
def left (n : ℕ) : Pc J → ℕ
  | .connect _ => n + 7
  | .build _ => n + 6
  | .sending _ packet total => packet.length - total + 5
  | .rollback _ true => 4
  | .closing => 3
  | .reconnect => 2
  | .rollback _ false => 1
  | .count _ => 1
  | _ => 0

theorem Within.notified {p : Pc J} (h : p.Within b) : p.notified = p := by
  cases p with
  | blocked => exact h.elim
  | _ => rfl

end Pc

/-- The step is one of the worker, and not a call of `send` that is interrupted. -/
def Label.proceeds : Label J → Bool
  | .work (.send .eintr) => false
  | .work _ => true
  | _ => false

/-- A run that does not go beyond the next loop head. -/
def Iteration (o : Options) (dump : J → Except JsonError (List Char)) (s₁ : State J)
    (tr : List (State J × Label J)) (s : State J) : Prop :=
  (lts o dump).Run s₁ tr s ∧ ∀ x ∈ tr, x.1.worker ≠ .test

/-- After an iteration with the batch `b` the worker is in its loop again, and every item of the
batch is in the queue, or sent, or dropped; what is sent is counted, and what is dropped is counted
or about to be counted by the `enqueue` call that has popped it. -/
structure Survives (o : Options) (dump : J → Except JsonError (List Char)) (b : List (Item J))
    (s₁ : State J) : Prop where
  /-- The worker can go on to the loop head, -/
  returns : ∀ tr s, Iteration o dump s₁ tr s →
    ∃ tr' s', Iteration o dump s tr' s' ∧ s'.worker = .test
  /-- and it does not need more than so many steps. -/
  bounded : ∃ n, ∀ tr s, Iteration o dump s₁ tr s → (tr.filter fun x => x.2.proceeds).length ≤ n
  kept : ∀ tr s, Iteration o dump s₁ tr s → s.worker = .test →
    (∀ x ∈ b, x ∈ s.m_queue ∨ x ∈ s.sent.flatten ∨ x ∈ s.dropped) ∧
      s.m_stats.totalSent = UInt64.ofNat s.sent.flatten.length ∧
      ∃ n, s.m_stats.totalDropped = UInt64.ofNat n ∧ n + s.uncountedDrops = s.dropped.length

theorem Moves.within (h : Moves o s l s') (hw : s.worker.Within b) (hne : s.worker ≠ .test) :
    s'.worker = s.worker ∧ l.proceeds = false := by
  cases h with
  | waits h =>
    exfalso
    cases h with
    | enter hpc | stopping hpc => exact hne hpc
    | drain hpc | exit hpc | lock hpc | pass hpc | fail hpc | block hpc | wake hpc | relock hpc
    | back hpc =>
      rw [hpc] at hw
      exact hw
  | eintr | full | fits => exact ⟨rfl, rfl⟩
  | notifyOne => exact ⟨hw.notified, rfl⟩
  | stops h =>
    refine ⟨?_, rfl⟩
    cases h with
    | clear | join | joined => rfl
    | notify => exact hw.notified
    | close =>
      obtain ⟨fd, conns, heq⟩ := closeSocket_eq s
      rw [heq]

/-- **A step within an iteration** leads on to the loop head, if the packet can be built. -/
theorem within_step {packet : List UInt8} (hp : buildPacket dump (b.map Item.val) = .ok packet)
    (hw : s.worker.Within b) (hne : s.worker ≠ .test) (h : (lts o dump).step s l s') :
    s'.worker.Within b ∧
      s'.worker.left packet.length + l.proceeds.toNat ≤ s.worker.left packet.length := by
  cases step_effect h with
  | quiet m r jn st hpc =>
    obtain ⟨heq, hl⟩ := (quiet_moves h hpc rfl).within hw hne
    rw [heq, hl]
    exact ⟨hw, le_rfl⟩
  | popped | countedDrop | pushed => exact ⟨hw, le_rfl⟩
  | take hpc =>
    rw [hpc] at hw
    exact hw.elim
  | connected hpc =>
    rw [hpc] at hw ⊢
    exact ⟨hw, le_rfl⟩
  | connectFailed hpc =>
    rw [hpc] at hw ⊢
    exact ⟨hw, by simp [Pc.left, Label.proceeds]⟩
  | built hpc hb =>
    rw [hpc] at hw ⊢
    obtain rfl : _ = b := hw
    obtain rfl := Except.ok.inj (hb.symm.trans hp)
    exact ⟨rfl, by simp [Pc.left, Label.proceeds]⟩
  | raised hpc hb =>
    rw [hpc] at hw
    obtain rfl : _ = b := hw
    cases hb.symm.trans hp
  | accepted hpc hn hle =>
    rw [hpc] at hw ⊢
    refine ⟨hw, ?_⟩
    simp only [Pc.left, Label.proceeds, Bool.toNat_true]
    omega
  | @sendFailed batch packet' total r hpc =>
    rw [hpc] at hw ⊢
    refine ⟨hw, ?_⟩
    have hone := Bool.toNat_le (Label.proceeds (J := J) (.work (.send r)))
    simp only [Pc.left]
    omega
  | sent hpc =>
    rw [hpc]
    exact ⟨trivial, by simp [Pc.left, Label.proceeds]⟩
  | counted hpc =>
    rw [hpc]
    exact ⟨trivial, le_rfl⟩
  | @rolledBack batch afterSend hpc =>
    rw [hpc]
    cases afterSend <;> exact ⟨trivial, le_rfl⟩
  | closed hpc =>
    rw [hpc]
    exact ⟨trivial, le_rfl⟩
  | reconnected hpc | reconnectFailed hpc =>
    rw [hpc]
    exact ⟨trivial, by simp [Pc.left, Label.proceeds]⟩
  | stopped hst =>
    obtain ⟨fd, conns, heq⟩ := closeSocket_eq s
    rw [heq]
    exact ⟨hw, le_rfl⟩

theorem worker_of_produce (hw : s.worker.notified = s.worker) (h : s.produce = some s') :
    s'.worker = s.worker := by
  unfold State.produce at h
  split at h
  · unfold State.popFront at h
    split at h
    · simp at h
    · exact Option.some.inj h ▸ rfl
  · exact Option.some.inj h ▸ rfl
  · exact Option.some.inj h ▸ rfl
  · exact Option.some.inj h ▸ hw
  · simp at h

theorem Iteration.nil : Iteration o dump s [] s := ⟨.nil, List.forall_mem_nil _⟩

theorem Iteration.single (h : (lts o dump).step s l s') (hne : s.worker ≠ .test) :
    Iteration o dump s [(s, l)] s' :=
  ⟨Run.nil.snoc h, List.forall_mem_singleton.2 hne⟩

theorem Iteration.trans {s₂ s₃ : State J} {tr tr' : List (State J × Label J)}
    (h : Iteration o dump s₁ tr s₂) (h' : Iteration o dump s₂ tr' s₃) :
    Iteration o dump s₁ (tr ++ tr') s₃ :=
  ⟨h.1.trans h'.1, List.forall_mem_append.2 ⟨h.2, h'.2⟩⟩

/-- Along an iteration the worker stays within it, and the steps it takes are limited. -/
theorem Iteration.within {packet : List UInt8}
    (hp : buildPacket dump (b.map Item.val) = .ok packet) (hw : s₁.worker.Within b)
    (h : Iteration o dump s₁ tr s) :
    s.worker.Within b ∧ s.worker.left packet.length + (tr.filter fun x => x.2.proceeds).length ≤
      s₁.worker.left packet.length := by
  obtain ⟨hrun, hne⟩ := h
  induction hrun with
  | nil => exact ⟨hw, le_rfl⟩
  | @snoc tr s s' l hrun hst ih =>
    rw [List.forall_mem_append, List.forall_mem_singleton] at hne
    obtain ⟨hws, hleft⟩ := ih hne.1
    obtain ⟨hws', hstep⟩ := within_step hp hws hne.2 hst
    refine ⟨hws', ?_⟩
    have hone : ([(s, l)].filter fun x => x.2.proceeds).length = l.proceeds.toNat := by
      cases hl : l.proceeds <;> simp [hl]
    rw [List.filter_append, List.length_append, hone]
    omega

/-- Within an iteration the worker can take a step, unless a caller of `enqueue` has the lock. -/
theorem exists_proceeding (hs : (lts o dump).Reachable init s) (hw : s.worker.Within b)
    (hm : ∀ e, s.m_mutex ≠ some (.producer e)) :
    ∃ r s', (lts o dump).step s (.work r) s' ∧ Label.proceeds (J := J) (.work r) = true := by
  have hex : s.worker ≠ .exited := fun h => by
    rw [h] at hw
    exact hw
  have hterm : ∀ b', s.worker ≠ .terminated b' := fun b' h => by
    rw [h] at hw
    exact hw
  obtain ⟨r, s', hwork, hr⟩ : ∃ r s', s.work o dump r = some s' ∧ r ≠ .send .eintr :=
    exists_work hex hterm (locked_reachable hs) hm
  refine ⟨r, s', step_of_work hterm hwork, ?_⟩
  unfold Label.proceeds
  split
  · rename_i heq
    cases heq
    exact absurd rfl hr
  · rfl
  · rename_i hno
    exact absurd rfl (hno r)

/-- A caller of `enqueue` that has the lock gives it back, and the worker stays where it is. -/
theorem exists_unlocked (hs : (lts o dump).Reachable init s) (hw : s.worker.Within b)
    (hne : s.worker ≠ .test) : ∃ tr s', Iteration o dump s tr s' ∧ s'.worker = s.worker ∧
      ∀ e, s'.m_mutex ≠ some (.producer e) := by
  induction hn : Holder.rank s.m_mutex using Nat.strong_induction_on generalizing s with
  | _ n ih =>
    by_cases hm : ∃ e, s.m_mutex = some (.producer e)
    · obtain ⟨e, hm⟩ := hm
      have hterm : ∀ b', s.worker ≠ .terminated b' := fun b' h => by
        rw [h] at hw
        exact hw
      obtain ⟨s₁, hprod, hrank⟩ := exists_produce (locked_reachable hs) hm
      have hst : (lts o dump).step s .produce s₁ := step_of_produce hterm hprod
      have hw₁ : s₁.worker = s.worker := worker_of_produce hw.notified hprod
      have hless : Holder.rank s₁.m_mutex < n := by
        rw [← hn, hm]
        exact hrank
      obtain ⟨tr, s', hit, hw', hm'⟩ := ih _ hless (hs.next hst) (hw₁ ▸ hw) (hw₁ ▸ hne) rfl
      exact ⟨_, s', (Iteration.single hst hne).trans hit, hw'.trans hw₁, hm'⟩
    · push Not at hm
      exact ⟨[], s, .nil, rfl, hm⟩

/-- **From within an iteration the loop head can be reached.** -/
theorem exists_return {packet : List UInt8} (hp : buildPacket dump (b.map Item.val) = .ok packet)
    (hs : (lts o dump).Reachable init s) (hw : s.worker.Within b) :
    ∃ tr s', Iteration o dump s tr s' ∧ s'.worker = .test := by
  induction hn : s.worker.left packet.length using Nat.strong_induction_on generalizing s with
  | _ n ih =>
    by_cases htest : s.worker = .test
    · exact ⟨[], s, .nil, htest⟩
    -- a caller of `enqueue` with the lock unlocks first
    obtain ⟨tr, s₂, hit, hw₂, hm₂⟩ : ∃ tr s₂, Iteration o dump s tr s₂ ∧ _ :=
      exists_unlocked hs hw htest
    obtain ⟨r, s₃, hst, hr⟩ := exists_proceeding (hs.trans hit.1.reachable) (hw₂ ▸ hw) hm₂
    obtain ⟨hw₃, hless⟩ := within_step hp (hw₂ ▸ hw) (hw₂ ▸ htest) hst
    rw [hr, Bool.toNat_true, hw₂, hn] at hless
    have hit₃ := hit.trans (.single hst (hw₂ ▸ htest))
    obtain ⟨tr', s', hit', hback⟩ := ih _ hless (hs.trans hit₃.1.reachable) hw₃ rfl
    exact ⟨_, s', hit₃.trans hit', hback⟩

/-! ### What becomes of the batch -/

theorem mem_enqueued_run (h : (lts o dump).Run s₁ tr s) {x : Item J} (hx : x ∈ s₁.enqueued) :
    x ∈ s.enqueued := by
  induction h with
  | nil => exact hx
  | snoc _ hst ih =>
    rcases enqueued_cases hst with heq | ⟨y, heq, -⟩
    · exact heq ▸ ih
    · exact heq ▸ List.mem_append_left _ ih

theorem mem_enqueued_iff (hs : (lts o dump).Reachable init s) {x : Item J} :
    x ∈ s.enqueued ↔ x ∈ s.sent.flatten ∨ x ∈ s.worker.inFlight.getD [] ∨ x ∈ s.m_queue ∨
      x ∈ s.dropped := by
  have hperm : s.enqueued.Perm
      (s.sent.flatten ++ s.worker.inFlight.getD [] ++ s.m_queue ++ s.dropped) :=
    (Ledger.balanced_reachable (toLedger_reachable hs)).perm
  rw [hperm.mem_iff]
  simp only [List.mem_append, or_assoc]

theorem survives_of_dumps (hs : (lts o dump).Reachable init s₁) (hw : s₁.worker.Within b)
    (hb : s₁.worker.inFlight = some b) (hdump : ∀ x ∈ b, ∃ text, dump x.val = .ok text) :
    Survives o dump b s₁ := by
  obtain ⟨packet, hp⟩ : ∃ packet, buildPacket dump (b.map Item.val) = .ok packet := by
    rw [buildPacket_ok_iff, List.forall_mem_map]
    exact hdump
  refine ⟨?_, ⟨s₁.worker.left packet.length, ?_⟩, ?_⟩
  · intro tr s hit
    exact exists_return hp (hs.trans hit.1.reachable) (hit.within hp hw).1
  · intro tr s hit
    have hleft := (hit.within hp hw).2
    omega
  · intro tr s hit htest
    have hs' := hs.trans hit.1.reachable
    obtain ⟨⟨n, hn, hsum⟩, hdropped⟩ := counted_reachable hs'
    refine ⟨fun x hx => ?_, ?_, hdropped⟩
    · have hmem : x ∈ s₁.enqueued := (mem_enqueued_iff hs).2 (Or.inr (Or.inl (by simpa [hb])))
      have hcases := (mem_enqueued_iff hs').1 (mem_enqueued_run hit.1 hmem)
      rw [htest] at hcases
      simp only [Pc.inFlight, Option.getD_none, List.not_mem_nil, false_or] at hcases
      tauto
    · rw [htest] at hsum
      rw [hn, ← hsum]
      rfl

theorem eq_of_terminated {b' : List (Item J)} (h : (lts o dump).Run s tr s')
    (hterm : s.worker = .terminated b') : s' = s := by
  induction h with
  | nil => rfl
  | snoc _ hst ih =>
    rw [ih] at hst
    simp [lts, step, hterm] at hst

theorem exists_terminated {e : JsonError} (hp : buildPacket dump (b.map Item.val) = .error e)
    (hw : s₁.worker = .connect b ∨ s₁.worker = .build b) :
    ∃ tr s, Iteration o dump s₁ tr s ∧ s.worker = .terminated b := by
  have hbuild : ∀ s : State J, s.worker = .build b →
      (lts o dump).step s (.work .go) { s with worker := .terminated b } := by
    intro s hw
    simp [lts, step, hw, State.work, hp]
  rcases hw with hw | hw
  · obtain ⟨fd, hfresh⟩ := exists_fresh s₁
    have hopen : (lts o dump).step s₁ (.work (.connect (.connected fd)))
        { s₁.openSocket fd true with worker := .build b } := by
      simp [lts, step, hw, State.work, State.tryReconnect, State.connectSocket, hfresh]
    have hne : s₁.worker ≠ .test := by
      rw [hw]
      rintro ⟨⟩
    have hfirst := Iteration.single hopen hne
    exact ⟨_, _, hfirst.trans (.single (hbuild _ rfl) (by rintro ⟨⟩)), rfl⟩
  · have hne : s₁.worker ≠ .test := by
      rw [hw]
      rintro ⟨⟩
    exact ⟨_, _, .single (hbuild s₁ hw) hne, rfl⟩

theorem dumps_of_survives (hw : s₁.worker = .connect b ∨ s₁.worker = .build b)
    (h : Survives o dump b s₁) : ∀ x ∈ b, ∃ text, dump x.val = .ok text := by
  have hok : ∃ packet, buildPacket dump (b.map Item.val) = .ok packet := by
    cases hp : buildPacket dump (b.map Item.val) with
    | ok packet => exact ⟨packet, rfl⟩
    | error e =>
      obtain ⟨tr, s, hit, hterm⟩ : ∃ tr s, Iteration o dump s₁ tr s ∧ s.worker = .terminated b :=
        exists_terminated hp hw
      obtain ⟨tr', s', hit', htest⟩ := h.returns tr s hit
      rw [eq_of_terminated hit'.1 hterm, hterm] at htest
      cases htest
  rwa [buildPacket_ok_iff, List.forall_mem_map] at hok

theorem taken_cases {t : Bool} (h : (lts o dump).step s (.work (.time t)) s₁)
    (hb : s₁.worker.inFlight = some b) : s₁.worker = .connect b ∨ s₁.worker = .build b := by
  cases step_effect h with
  | quiet m r jn st hw =>
    cases quiet_moves h hw rfl with
    | waits h =>
      cases h
      cases hb
  | take hw hq =>
    rw [inFlight_takeBatch] at hb
    obtain rfl := Option.some.inj hb
    unfold State.takeBatch
    split_ifs
    · exact Or.inl rfl
    · exact Or.inr rfl

/-- **When an iteration survives.**  Let the worker take the batch `b` in a reachable state.  For
every interleaving and all outcomes of `connect` and `send`, it comes back to the loop in so many
steps of its own at most (calls of `send` that are interrupted apart), and then every item of `b` is
in the queue, or sent and counted, or dropped and counted, if and only if `dump` raises for no item
of `b`. -/
theorem survives_iff {t : Bool} (hs : (lts o dump).Reachable init s)
    (h : (lts o dump).step s (.work (.time t)) s₁) (hb : s₁.worker.inFlight = some b) :
    Survives o dump b s₁ ↔ ∀ x ∈ b, ∃ text, dump x.val = .ok text := by
  have hw : s₁.worker = .connect b ∨ s₁.worker = .build b := taken_cases h hb
  refine ⟨dumps_of_survives hw, survives_of_dumps (hs.next h) ?_ hb⟩
  rcases hw with hw | hw <;> exact hw ▸ rfl

/-- `dump` on the JSON strings of one byte, but for those with an escape: above `0x7F` the byte is
not valid UTF-8. -/
def dumpByte (c : UInt8) : Except JsonError (List Char) :=
  if c < 0x80 then .ok ['"', Char.ofNat c.toNat, '"'] else .error .type_error_316

theorem takes_one (dump : J → Except JsonError (List Char)) (j : J) :
    ∃ s s₁, (lts {} dump).Reachable init s ∧ (lts {} dump).step s (.work (.time true)) s₁ ∧
      s₁.worker.inFlight = some [⟨0, j⟩] := by
  refine ⟨_, State.takeBatch {} (oneQueued j (some .worker) .ready),
    oneQueued_reachable (by decide) j, ?_, ?_⟩
  · simp [lts, step, State.work, oneQueued, State.pushBack]
  · rw [inFlight_takeBatch]
    rfl

/-- An iteration with the string `a`. -/
theorem survives_iff_ascii : ∃ s s₁, (lts {} dumpByte).Reachable init s ∧
    (lts {} dumpByte).step s (.work (.time true)) s₁ ∧ Survives {} dumpByte [⟨0, 0x61⟩] s₁ := by
  obtain ⟨s, s₁, hs, h, hb⟩ := takes_one dumpByte 0x61
  refine ⟨s, s₁, hs, h, (survives_iff hs h hb).2 ?_⟩
  exact List.forall_mem_singleton.2 ⟨['"', 'a', '"'], by decide⟩

/-- A string that is not valid UTF-8 ends the process. -/
theorem not_survives : ¬ ∀ (s s₁ : State UInt8) (t : Bool) (b : List (Item UInt8)),
    (lts {} dumpByte).Reachable init s → (lts {} dumpByte).step s (.work (.time t)) s₁ →
      s₁.worker.inFlight = some b → Survives {} dumpByte b s₁ := by
  intro hclaim
  obtain ⟨s, s₁, hs, h, hb⟩ := takes_one dumpByte 0xFF
  have hdump := dumps_of_survives (taken_cases h hb) (hclaim s s₁ true _ hs h hb)
  obtain ⟨text, htext⟩ := hdump ⟨0, 0xFF⟩ List.mem_cons_self
  cases htext

end Sender

end LiteMonitor
