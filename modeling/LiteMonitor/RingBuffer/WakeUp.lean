import LiteMonitor.RingBuffer.Threads

/-!
# No wake-up is lost in the ring buffer

A consumer that waits un-notified on `not_empty_cv_` has not been forgotten: every item in the
buffer is accounted for by a consumer that was woken and has not looked yet, or by a producer
that has unlocked and is about to notify.  The same holds of the producers and the free slots
until `stop` is called: a woken producer that finds the flag set leaves without using the slot
it was woken for.  From then on it is the pending `notify_all` that vouches for every waiting
thread.

* `RingBuffer.Accounted` : the invariant; `RingBuffer.Accounted.step` : every step keeps it.
* `RingBuffer.wakeUp` : the three clauses in every reachable state, and the consequence that a
  thread never waits for something it could have unless another thread can take a step.
* `RingBuffer.not_producer_accounted_after_stop` : without the proviso on `stop_` the clause on
  the producers fails.
-/

namespace LiteMonitor

namespace RingBuffer

open Threads

variable {ι α : Type*}

/-- What the threads waiting on `cv` wait for: items, or free slots. -/
def work (cv : CondVar) (r : RingBuffer α) : ℕ :=
  match cv with
  | .not_full_cv_ => r.capacity_ - r.size_
  | .not_empty_cv_ => r.size_

/-- The predicate of the `wait` on `cv`. -/
def ready (cv : CondVar) (r : RingBuffer α) : Bool :=
  match cv with
  | .not_full_cv_ => r.mayPush
  | .not_empty_cv_ => r.mayPop

section Counts

variable [Fintype ι]

/-- The threads blocked un-notified on `cv`. -/
def Shared.blocked (s : Shared ι α) (cv : CondVar) : ℕ := count (Loc.blockedOn cv) s.pc

/-- The threads woken from `cv` that have not re-evaluated their predicate. -/
def Shared.woken (s : Shared ι α) (cv : CondVar) : ℕ := count (Loc.wokenFrom cv) s.pc

/-- The threads between `unlock` and `notify_one` of `cv`. -/
def Shared.signalling (s : Shared ι α) (cv : CondVar) : ℕ := count (Loc.signalling cv) s.pc

/-- The threads in `stop` that still have to call `notify_all` of `cv`. -/
def Shared.stopping (s : Shared ι α) (cv : CondVar) : ℕ := count (Loc.stopping cv) s.pc

/-- The invariant. -/
structure Accounted (s : Shared ι α) : Prop where
  wellFormed : s.ring.WellFormed
  owner : ∀ t, s.mtx_ = some t ↔ (s.pc t).holds = true
  tokens : ∀ cv, 0 < s.blocked cv → (cv = .not_full_cv_ → s.ring.stop_ = false) →
    work cv s.ring ≤ s.woken cv + s.signalling cv
  stopped : ∀ cv, 0 < s.blocked cv → s.ring.stop_ = true → 0 < s.stopping cv

end Counts

/-! ### The critical sections, for both condition variables at once -/

theorem Call.eq_waitsOn_or_signals (c : Call α) (cv : CondVar) :
    cv = c.waitsOn ∨ cv = c.signals := by
  cases c <;> cases cv <;> simp [Call.waitsOn, Call.signals]

theorem Call.waitsOn_ne_signals (c : Call α) : c.waitsOn ≠ c.signals := by
  cases c <;> simp [Call.waitsOn, Call.signals]

variable [Inhabited α]

/-- A call enters the wait set only when there is nothing for it and the flag is not set. -/
theorem runCall_eq_none {r : RingBuffer α} {c : Call α} (h : runCall r c = none) :
    work c.waitsOn r = 0 ∧ r.stop_ = false := by
  cases c with
  | push x =>
    have hmay := push_eq_none_iff.1 h
    simp only [mayPush, Bool.or_eq_false_iff, decide_eq_false_iff_not, not_lt] at hmay
    exact ⟨Nat.sub_eq_zero_of_le hmay.1, hmay.2⟩
  | pop =>
    have hmay := pop_eq_none_iff.1 (Option.map_eq_none_iff.1 h)
    simp only [mayPop, Bool.or_eq_false_iff, decide_eq_false_iff_not, not_lt,
      Nat.le_zero] at hmay
    exact ⟨hmay.1, hmay.2⟩

/-- A call that goes on to notify has turned one unit of what it waits for into one unit of
what the others wait for. -/
theorem runCall_eq_true {r r' : RingBuffer α} {c : Call α} (hr : r.WellFormed)
    (h : runCall r c = some (true, r')) :
    r'.WellFormed ∧ r'.stop_ = r.stop_ ∧ work c.waitsOn r = work c.waitsOn r' + 1 ∧
      work c.signals r' = work c.signals r + 1 := by
  cases c with
  | push x =>
    refine ⟨hr.push h, ?_⟩
    rcases push_eq_some h with ⟨hf, -, -⟩ | ⟨-, -, hlt, rfl⟩
    · simp at hf
    · simp only [work, Call.waitsOn, Call.signals, true_and, and_true]
      omega
  | pop =>
    obtain ⟨⟨result, r₁⟩, hp, heq⟩ := Option.map_eq_some_iff.1 h
    obtain ⟨hsome, rfl⟩ : result.isSome = true ∧ r₁ = r' := by simpa using heq
    refine ⟨hr.pop hp, ?_⟩
    rcases pop_eq_some hp with ⟨rfl, -, -, -⟩ | ⟨-, hpos, rfl⟩
    · simp at hsome
    · have hle := hr.size_le
      simp only [work, Call.waitsOn, Call.signals, true_and]
      omega

/-- A call that leaves empty-handed leaves everything as it was, after `stop`; a consumer only
if there is nothing left. -/
theorem runCall_eq_false {r r' : RingBuffer α} {c : Call α}
    (h : runCall r c = some (false, r')) :
    r' = r ∧ r.stop_ = true ∧ (c.waitsOn = .not_empty_cv_ → work .not_empty_cv_ r = 0) := by
  cases c with
  | push x =>
    rcases push_eq_some h with ⟨-, hs, rfl⟩ | ⟨ht, -, -, -⟩
    · exact ⟨rfl, hs, fun h => by cases h⟩
    · simp at ht
  | pop =>
    obtain ⟨⟨result, r₁⟩, hp, heq⟩ := Option.map_eq_some_iff.1 h
    obtain ⟨hnone, rfl⟩ : result = none ∧ r₁ = r' := by simpa using heq
    rcases pop_eq_some hp with ⟨-, hs, h0, rfl⟩ | ⟨hsome, -, -⟩
    · exact ⟨rfl, hs, fun _ => h0⟩
    · simp [hnone] at hsome

/-! ### The invariant is kept by every step -/

section Invariant

variable [Fintype ι] [DecidableEq ι]

omit [Inhabited α] in
theorem counts_update (s s' : Shared ι α) {t : ι} {l : Loc α}
    (h : s'.pc = Function.update s.pc t l) (cv : CondVar) :
    s'.blocked cv + ((s.pc t).blockedOn cv).toNat = s.blocked cv + (l.blockedOn cv).toNat ∧
    s'.woken cv + ((s.pc t).wokenFrom cv).toNat = s.woken cv + (l.wokenFrom cv).toNat ∧
    s'.signalling cv + ((s.pc t).signalling cv).toNat =
      s.signalling cv + (l.signalling cv).toNat ∧
    s'.stopping cv + ((s.pc t).stopping cv).toNat = s.stopping cv + (l.stopping cv).toNat := by
  simp only [Shared.blocked, Shared.woken, Shared.signalling, Shared.stopping, h]
  exact ⟨count_update _ _ _ _, count_update _ _ _ _, count_update _ _ _ _, count_update _ _ _ _⟩

omit [Inhabited α] [Fintype ι] [DecidableEq ι] in
theorem blockedOn_wake (cv : CondVar) (l : Loc α) : (l.wake cv).blockedOn cv = false := by
  cases l with
  | blocked c =>
    simp only [Loc.wake]
    split_ifs with hc
    · rfl
    · simp [Loc.blockedOn, hc]
  | _ => rfl

omit [Inhabited α] [DecidableEq ι] in
theorem counts_wake (s s' : Shared ι α) {cv' : CondVar}
    (h : s'.pc = fun u => (s.pc u).wake cv') (cv : CondVar) :
    (cv = cv' → s'.blocked cv = 0) ∧ s'.blocked cv ≤ s.blocked cv ∧ s.woken cv ≤ s'.woken cv ∧
      s'.signalling cv = s.signalling cv ∧ s'.stopping cv = s.stopping cv := by
  simp only [Shared.blocked, Shared.woken, Shared.signalling, Shared.stopping, h]
  refine ⟨?_, ?_, ?_, ?_, ?_⟩
  · rintro rfl
    exact count_eq_zero_iff.2 fun u => blockedOn_wake cv (s.pc u)
  · refine count_mono (P := fun l => (Loc.wake cv' l).blockedOn cv) (fun l hl => ?_) s.pc
    cases l <;> simp only [Loc.wake] at hl ⊢ <;> try exact hl
    split_ifs at hl
    · cases hl
    · exact hl
  · refine count_mono (Q := fun l => (Loc.wake cv' l).wokenFrom cv) (fun l hl => ?_) s.pc
    cases l <;> simp only [Loc.wake] <;> first | exact hl | cases hl
  · refine count_congr (P := fun l => (Loc.wake cv' l).signalling cv) (fun l => ?_) s.pc
    cases l <;> simp only [Loc.wake]
    split_ifs <;> rfl
  · refine count_congr (P := fun l => (Loc.wake cv' l).stopping cv) (fun l => ?_) s.pc
    cases l <;> simp only [Loc.wake]
    split_ifs <;> rfl

omit [Inhabited α] in
theorem holds_wake (cv : CondVar) (l : Loc α) : (l.wake cv).holds = l.holds := by
  cases l <;> simp only [Loc.wake]
  split_ifs <;> rfl

omit [Inhabited α] [Fintype ι] in
theorem owner_quiet {pc : ι → Loc α} {m : Option ι} (ho : ∀ t, m = some t ↔ (pc t).holds = true)
    {t : ι} {l : Loc α} (h : l.holds = (pc t).holds) (u : ι) :
    m = some u ↔ (Function.update pc t l u).holds = true := by
  by_cases hu : u = t
  · subst hu
    rw [Function.update_self, h, ho]
  · rw [Function.update_of_ne hu, ho]

omit [Inhabited α] [Fintype ι] in
theorem owner_release {pc : ι → Loc α} {m : Option ι}
    (ho : ∀ t, m = some t ↔ (pc t).holds = true) {t : ι} {l : Loc α}
    (h : (pc t).holds = true) (hl : l.holds = false) (u : ι) :
    none = some u ↔ (Function.update pc t l u).holds = true := by
  by_cases hu : u = t
  · subst hu
    simp [hl]
  · rw [Function.update_of_ne hu, ← ho, (ho t).2 h]
    simp [Ne.symm hu]

omit [Inhabited α] [Fintype ι] in
theorem owner_lock {pc : ι → Loc α} (ho : ∀ t, none = some t ↔ (pc t).holds = true) {t : ι}
    {l : Loc α} (hl : l.holds = true) (u : ι) :
    some t = some u ↔ (Function.update pc t l u).holds = true := by
  by_cases hu : u = t
  · subst hu
    simp [hl]
  · rw [Function.update_of_ne hu, ← ho]
    simp [Ne.symm hu]

omit [Inhabited α] in
/-- A move between locations that count the same keeps the invariant. -/
theorem Accounted.quiet {s : Shared ι α} (hs : Accounted s) {m : Option ι} {t : ι} {l : Loc α}
    (ho : ∀ u, m = some u ↔ (Function.update s.pc t l u).holds = true)
    (hl : ∀ cv, l.blockedOn cv = (s.pc t).blockedOn cv ∧ l.wokenFrom cv = (s.pc t).wokenFrom cv ∧
      l.signalling cv = (s.pc t).signalling cv ∧ l.stopping cv = (s.pc t).stopping cv) :
    Accounted (⟨s.ring, m, Function.update s.pc t l⟩ : Shared ι α) := by
  let s' : Shared ι α := ⟨s.ring, m, Function.update s.pc t l⟩
  change Accounted s'
  refine ⟨hs.wellFormed, ho, fun cv => ?_, fun cv => ?_⟩
  all_goals
    obtain ⟨hb, hw, hg, hn⟩ := counts_update s s' rfl cv
    obtain ⟨lb, lw, lg, ln⟩ := hl cv
    rw [lb, Nat.add_right_cancel_iff] at hb
    rw [lw, Nat.add_right_cancel_iff] at hw
    rw [lg, Nat.add_right_cancel_iff] at hg
    rw [ln, Nat.add_right_cancel_iff] at hn
  · rw [hb, hw, hg]
    exact hs.tokens cv
  · rw [hb, hn]
    exact hs.stopped cv

theorem Accounted.wait {s : Shared ι α} (hs : Accounted s) {t : ι} {c : Call α} {again : Bool}
    (h : s.pc t = .check c again) (hr : runCall s.ring c = none) :
    Accounted (⟨s.ring, none, Function.update s.pc t (.blocked c)⟩ : Shared ι α) := by
  let s' : Shared ι α := ⟨s.ring, none, Function.update s.pc t (.blocked c)⟩
  change Accounted s'
  obtain ⟨hwork, hstop⟩ := runCall_eq_none hr
  refine ⟨hs.wellFormed, owner_release hs.owner (by rw [h]; rfl) rfl, ?_, ?_⟩
  · intro cv hb _
    obtain ⟨hb', hw, hg, -⟩ := counts_update s s' rfl cv
    rcases c.eq_waitsOn_or_signals cv with rfl | rfl
    · -- there is nothing to account for
      exact hwork ▸ Nat.zero_le _
    · have htok := hs.tokens c.signals
      simp only [h, Loc.blockedOn, Loc.wokenFrom, Loc.signalling, c.waitsOn_ne_signals,
        decide_false, Bool.and_false, Bool.toNat_false, Nat.add_zero] at hb' hw hg
      rw [hb'] at hb
      rw [hw, hg]
      exact htok hb fun _ => hstop
  · intro cv _ hs'
    rw [hstop] at hs'
    cases hs'

/-- A call goes through: the unit it takes was the one it had been woken for, and the unit it
leaves behind is the one it is about to notify. -/
theorem Accounted.finish {s : Shared ι α} (hs : Accounted s) {t : ι} {c : Call α} {again : Bool}
    {r : RingBuffer α} (h : s.pc t = .check c again) (hr : runCall s.ring c = some (true, r)) :
    Accounted (⟨r, none, Function.update s.pc t (.notify c)⟩ : Shared ι α) := by
  let s' : Shared ι α := ⟨r, none, Function.update s.pc t (.notify c)⟩
  change Accounted s'
  obtain ⟨hwf, hstop, htake, hleave⟩ := runCall_eq_true hs.wellFormed hr
  refine ⟨hwf, owner_release hs.owner (by rw [h]; rfl) rfl, ?_, ?_⟩
  · intro cv hb hcv
    obtain ⟨hb', hw, hg, -⟩ := counts_update s s' rfl cv
    have hcv' : cv = .not_full_cv_ → s.ring.stop_ = false := fun h => hstop ▸ hcv h
    have htok := hs.tokens cv
    simp only [h, Loc.blockedOn, Loc.wokenFrom, Loc.signalling, Bool.toNat_false,
      Nat.add_zero] at hb' hw hg
    rw [hb'] at hb
    have hle := htok hb hcv'
    change work cv r ≤ s'.woken cv + s'.signalling cv
    rcases c.eq_waitsOn_or_signals cv with rfl | rfl
    · -- one unit is taken, by a thread that may have been a woken one
      have hone := Bool.toNat_le (again && decide (c.waitsOn = c.waitsOn))
      simp only [c.waitsOn_ne_signals.symm, decide_false, Bool.toNat_false] at hg
      omega
    · -- one unit more, and one thread more that is about to notify
      simp only [c.waitsOn_ne_signals, decide_false, Bool.and_false, decide_true,
        Bool.toNat_false, Bool.toNat_true] at hw hg
      omega
  · intro cv hb hs'
    obtain ⟨hb', -, -, hn⟩ := counts_update s s' rfl cv
    simp only [h, Loc.blockedOn, Loc.stopping, Bool.toNat_false, Nat.add_zero] at hb' hn
    rw [hb'] at hb
    rw [hn]
    exact hs.stopped cv hb (hstop ▸ hs')

/-- A call leaves empty-handed after `stop`: a consumer had nothing to take, and for the
producers only the flag counts. -/
theorem Accounted.leave {s : Shared ι α} (hs : Accounted s) {t : ι} {c : Call α} {again : Bool}
    {r : RingBuffer α} (h : s.pc t = .check c again) (hr : runCall s.ring c = some (false, r)) :
    Accounted (⟨r, none, Function.update s.pc t .idle⟩ : Shared ι α) := by
  obtain ⟨rfl, hstop, hempty⟩ := runCall_eq_false hr
  let s' : Shared ι α := ⟨s.ring, none, Function.update s.pc t .idle⟩
  change Accounted s'
  refine ⟨hs.wellFormed, owner_release hs.owner (by rw [h]; rfl) rfl, ?_, ?_⟩
  · intro cv hb hcv
    obtain ⟨hb', hw, hg, -⟩ := counts_update s s' rfl cv
    cases cv with
    | not_full_cv_ =>
      -- the woken producer leaves a free slot behind, but the flag is set
      have hns : s.ring.stop_ = false := hcv rfl
      rw [hstop] at hns
      simp at hns
    | not_empty_cv_ =>
      rcases c.eq_waitsOn_or_signals .not_empty_cv_ with hc | hc
      · exact hempty hc.symm ▸ Nat.zero_le _
      · have hne : c.waitsOn ≠ .not_empty_cv_ := hc ▸ c.waitsOn_ne_signals
        simp only [h, Loc.blockedOn, Loc.wokenFrom, Loc.signalling, hne, decide_false,
          Bool.and_false, Bool.toNat_false, Nat.add_zero] at hb' hw hg
        rw [hb'] at hb
        rw [hw, hg]
        exact hs.tokens _ hb hcv
  · intro cv hb hs'
    obtain ⟨hb', -, -, hn⟩ := counts_update s s' rfl cv
    simp only [h, Loc.blockedOn, Loc.stopping, Bool.toNat_false, Nat.add_zero] at hb' hn
    rw [hb'] at hb
    rw [hn]
    exact hs.stopped cv hb hs'

omit [Inhabited α] in
/-- `stop` sets the flag: from now on this call vouches for the waiting threads. -/
theorem Accounted.setStop {s : Shared ι α} (hs : Accounted s) {t : ι} (h : s.pc t = .stopSet) :
    Accounted (⟨s.ring.stop, none, Function.update s.pc t .stopNotifyEmpty⟩ : Shared ι α) := by
  let s' : Shared ι α := ⟨s.ring.stop, none, Function.update s.pc t .stopNotifyEmpty⟩
  change Accounted s'
  refine ⟨hs.wellFormed.stop, owner_release hs.owner (by rw [h]; rfl) rfl, ?_, ?_⟩
  · intro cv hb hcv
    obtain ⟨hb', hw, hg, -⟩ := counts_update s s' rfl cv
    cases cv with
    | not_full_cv_ => cases hcv rfl
    | not_empty_cv_ =>
      simp only [h, Loc.blockedOn, Loc.wokenFrom, Loc.signalling, Bool.toNat_false,
        Nat.add_zero] at hb' hw hg
      rw [hb'] at hb
      rw [hw, hg]
      exact hs.tokens _ hb fun h => by cases h
  · intro cv _ _
    refine count_pos_iff.2 ⟨t, ?_⟩
    simp [s', Loc.stopping]

omit [Inhabited α] in
/-- `notify_one` with a thread in the wait set: the token passes from the one to the other. -/
theorem Accounted.notify {s : Shared ι α} (hs : Accounted s) {t u : ι} {c : Call α}
    (h : s.pc t = .notify c) (hu : (s.pc u).blockedOn c.signals = true) :
    Accounted { s with
      pc := Function.update (Function.update s.pc t .idle) u ((s.pc u).wake c.signals) } := by
  obtain ⟨c', hc', hsig⟩ : ∃ c', s.pc u = .blocked c' ∧ c'.waitsOn = c.signals := by
    cases hpc : s.pc u with
    | blocked c' => exact ⟨c', rfl, by simpa [hpc, Loc.blockedOn] using hu⟩
    | _ => simp [hpc, Loc.blockedOn] at hu
  have hne : u ≠ t := by
    rintro rfl
    rw [h] at hc'
    cases hc'
  have hwake : (s.pc u).wake c.signals = .woken c' := by simp [hc', Loc.wake, hsig]
  let s₁ : Shared ι α := { s with pc := Function.update s.pc t .idle }
  have hu₁ : s₁.pc u = .blocked c' := by rw [← hc']; exact Function.update_of_ne hne _ _
  let s₂ : Shared ι α := { s with pc := Function.update s₁.pc u (.woken c') }
  rw [hwake]
  change Accounted s₂
  have ho₁ := owner_quiet hs.owner (t := t) (l := .idle) (by rw [h]; rfl)
  refine ⟨hs.wellFormed, owner_quiet ho₁ ?_, ?_, ?_⟩
  · rw [show Function.update s.pc t .idle u = .blocked c' from hu₁]
    rfl
  · intro cv hb hcv
    obtain ⟨hb₁, hw₁, hg₁, -⟩ := counts_update s s₁ rfl cv
    obtain ⟨hb₂, hw₂, hg₂, -⟩ := counts_update s₁ s₂ rfl cv
    simp only [h, Loc.blockedOn, Loc.wokenFrom, Loc.signalling, Bool.toNat_false,
      Nat.add_zero] at hb₁ hw₁ hg₁
    simp only [hu₁, hsig, Loc.blockedOn, Loc.wokenFrom, Loc.signalling, Bool.toNat_false,
      Nat.add_zero] at hb₂ hw₂ hg₂
    have htok := hs.tokens cv (by omega) hcv
    change work cv s.ring ≤ s₂.woken cv + s₂.signalling cv
    omega
  · intro cv hb hs'
    obtain ⟨hb₁, -, -, hn₁⟩ := counts_update s s₁ rfl cv
    obtain ⟨hb₂, -, -, hn₂⟩ := counts_update s₁ s₂ rfl cv
    simp only [h, Loc.blockedOn, Loc.stopping, Bool.toNat_false, Nat.add_zero] at hb₁ hn₁
    simp only [hu₁, Loc.blockedOn, Loc.stopping, Bool.toNat_false, Nat.add_zero] at hb₂ hn₂
    have hpos := hs.stopped cv (by omega) hs'
    omega

omit [Inhabited α] in
/-- `notify_one` without a thread in the wait set: nobody is owed anything. -/
theorem Accounted.notifyNone {s : Shared ι α} (hs : Accounted s) {t : ι} {c : Call α}
    (h : s.pc t = .notify c) (hu : ∀ u, (s.pc u).blockedOn c.signals = false) :
    Accounted { s with pc := Function.update s.pc t .idle } := by
  let s' : Shared ι α := { s with pc := Function.update s.pc t .idle }
  change Accounted s'
  refine ⟨hs.wellFormed, owner_quiet hs.owner (by rw [h]; rfl), fun cv hb hcv => ?_,
    fun cv hb hs' => ?_⟩
  all_goals
    obtain ⟨hb', hw, hg, hn⟩ := counts_update s s' rfl cv
    simp only [h, Loc.blockedOn, Loc.wokenFrom, Loc.signalling, Loc.stopping, Bool.toNat_false,
      Nat.add_zero] at hb' hw hg hn
  · have htok := hs.tokens cv (by omega) hcv
    rcases c.eq_waitsOn_or_signals cv with rfl | rfl
    · simp only [c.waitsOn_ne_signals.symm, decide_false, Bool.toNat_false] at hg
      change work _ s.ring ≤ s'.woken _ + s'.signalling _
      omega
    · -- a thread blocked on this condition variable contradicts `hu`
      have hzero : s.blocked c.signals = 0 := count_eq_zero_iff.2 hu
      omega
  · have hpos := hs.stopped cv (by omega) hs'
    omega

omit [Inhabited α] in
/-- `notify_all` of `cv'`, by a thread that moves to `l` and still has to notify the other
condition variable unless `l` says otherwise. -/
theorem Accounted.notifyAll {s : Shared ι α} (hs : Accounted s) {t : ι} {l : Loc α}
    (cv' : CondVar)
    (hl : ∀ cv, l.blockedOn cv = (s.pc t).blockedOn cv ∧
      l.wokenFrom cv = (s.pc t).wokenFrom cv ∧ l.signalling cv = (s.pc t).signalling cv)
    (lh : l.holds = (s.pc t).holds) (hfix : (s.pc t).wake cv' = s.pc t)
    (hstay : ∀ cv, cv ≠ cv' → l.stopping cv = (s.pc t).stopping cv) :
    Accounted { s with pc := Function.update (fun u => (s.pc u).wake cv') t l } := by
  let s₁ : Shared ι α := { s with pc := fun u => (s.pc u).wake cv' }
  let s₂ : Shared ι α := { s with pc := Function.update s₁.pc t l }
  change Accounted s₂
  have hfix₁ : s₁.pc t = s.pc t := hfix
  have ho₁ : ∀ u, s₁.mtx_ = some u ↔ (s₁.pc u).holds = true := fun u => by
    rw [show s₁.pc u = (s.pc u).wake cv' from rfl, holds_wake]
    exact hs.owner u
  refine ⟨hs.wellFormed, owner_quiet ho₁ (by rw [hfix₁, lh]), fun cv hb hcv => ?_,
    fun cv hb hs' => ?_⟩
  all_goals
    obtain ⟨hz, hb₁, hw₁, hg₁, hn₁⟩ := counts_wake s s₁ rfl cv
    obtain ⟨hb₂, hw₂, hg₂, hn₂⟩ := counts_update s₁ s₂ rfl cv
    obtain ⟨lb, lw, lg⟩ := hl cv
    rw [hfix₁, lb, Nat.add_right_cancel_iff] at hb₂
    rw [hb₂] at hb
    have hne : cv ≠ cv' := fun h => by
      rw [show s₁.blocked cv = 0 from hz h] at hb
      exact lt_irrefl 0 hb
  · rw [hfix₁, lw, Nat.add_right_cancel_iff] at hw₂
    rw [hfix₁, lg, Nat.add_right_cancel_iff] at hg₂
    have htok := hs.tokens cv (hb.trans_le hb₁) hcv
    rw [hw₂, hg₂]
    exact htok.trans (Nat.add_le_add hw₁ hg₁.ge)
  · rw [hfix₁, hstay cv hne, Nat.add_right_cancel_iff] at hn₂
    rw [hn₂]
    exact hn₁ ▸ hs.stopped cv (hb.trans_le hb₁) hs'

omit [Inhabited α] in
theorem Accounted.spurious {s : Shared ι α} (hs : Accounted s) {t : ι} {c : Call α}
    (h : s.pc t = .blocked c) :
    Accounted { s with pc := Function.update s.pc t (.woken c) } := by
  let s' : Shared ι α := { s with pc := Function.update s.pc t (.woken c) }
  change Accounted s'
  refine ⟨hs.wellFormed, owner_quiet hs.owner (by rw [h]; rfl), fun cv hb hcv => ?_,
    fun cv hb hs' => ?_⟩
  all_goals
    obtain ⟨hb', hw, hg, hn⟩ := counts_update s s' rfl cv
    simp only [h, Loc.blockedOn, Loc.wokenFrom, Loc.signalling, Loc.stopping, Bool.toNat_false,
      Nat.add_zero] at hb' hw hg hn
  · have htok := hs.tokens cv (by omega) hcv
    change work _ s.ring ≤ s'.woken _ + s'.signalling _
    omega
  · have hpos := hs.stopped cv (by omega) hs'
    omega

/-- **Every step keeps the invariant.** -/
theorem Accounted.step {s s' : Shared ι α} {a : Act ι α} (hs : Accounted s)
    (h : (threads ι α).step s a s') : Accounted s' := by
  cases threadStep_move h with
  | enter ht =>
    exact hs.quiet (owner_quiet hs.owner (by rw [ht]; rfl)) fun cv => by
      simp [ht, Loc.blockedOn, Loc.wokenFrom, Loc.signalling, Loc.stopping]
  | enterStop ht =>
    exact hs.quiet (owner_quiet hs.owner (by rw [ht]; rfl)) fun cv => by
      simp [ht, Loc.blockedOn, Loc.wokenFrom, Loc.signalling, Loc.stopping]
  | @lock t l hm hl =>
    have ho : ∀ u, none = some u ↔ (s.pc u).holds = true := hm ▸ hs.owner
    cases ht : s.pc t <;> simp only [ht, Loc.locked, Option.some.injEq, reduceCtorEq] at hl <;>
      subst hl <;>
      exact hs.quiet (owner_lock ho rfl) fun cv => by
        simp [ht, Loc.blockedOn, Loc.wokenFrom, Loc.signalling, Loc.stopping]
  | wait ht hr => exact hs.wait ht hr
  | finish ht hr => exact hs.finish ht hr
  | leave ht hr => exact hs.leave ht hr
  | setStop ht => exact hs.setStop ht
  | notify ht hu => exact hs.notify ht hu
  | notifyNone ht hu => exact hs.notifyNone ht hu
  | notifyAllEmpty ht =>
    refine hs.notifyAll .not_empty_cv_ (fun cv => by rw [ht]; exact ⟨rfl, rfl, rfl⟩)
      (by rw [ht]; rfl) (by rw [ht]; rfl) fun cv hcv => ?_
    cases cv with
    | not_full_cv_ => simp [ht, Loc.stopping]
    | not_empty_cv_ => exact absurd rfl hcv
  | notifyAllFull ht =>
    refine hs.notifyAll .not_full_cv_ (fun cv => by rw [ht]; exact ⟨rfl, rfl, rfl⟩)
      (by rw [ht]; rfl) (by rw [ht]; rfl) fun cv hcv => ?_
    simp [ht, Loc.stopping, hcv]
  | spurious ht => exact hs.spurious ht

omit [DecidableEq ι] in
theorem accounted_init {capacity : ℕ} {r : RingBuffer α} (h₀ : new capacity = some r) :
    Accounted (Shared.init ι r) := by
  have hb : ∀ cv, (Shared.init ι r).blocked cv = 0 := fun cv => count_const _ _ rfl
  refine ⟨wellFormed_new h₀, fun t => by simp [Shared.init, Loc.holds], ?_, ?_⟩
  · intro cv h
    rw [hb cv] at h
    simp at h
  · intro cv h
    rw [hb cv] at h
    simp at h

theorem accounted_reachable {capacity : ℕ} {r : RingBuffer α} {s : Shared ι α}
    (h₀ : new capacity = some r) (h : (threads ι α).Reachable (.init ι r) s) : Accounted s :=
  h.invariant (accounted_init h₀) fun _ hs hst => hs.step hst

/-! ### Somebody can move -/

theorem exists_step_of_holds (s : Shared ι α) {t : ι} (h : (s.pc t).holds = true) :
    ∃ s', (threads ι α).step s (.critical t) s' := by
  cases ht : s.pc t with
  | check c again =>
    rcases hr : runCall s.ring c with _ | ⟨_ | _, r⟩ <;> simp [threads, threadStep, ht, hr]
  | stopSet => simp [threads, threadStep, ht]
  | _ => simp [ht, Loc.holds] at h

/-- A thread inside of the buffer and not in a wait set can take a step, or the thread that
holds it up can. -/
theorem Accounted.exists_step {s : Shared ι α} (hs : Accounted s) {t : ι}
    (ht : (s.pc t).active = true) :
    ∃ a s', (s.pc a.actor).active = true ∧ (threads ι α).step s a s' := by
  rcases hm : s.mtx_ with _ | u
  · cases hpc : s.pc t with
    | enter c | woken c | stopEnter =>
      exact ⟨.lock t, _, ht, by simp [threads, threadStep, hm, hpc, Loc.locked]; rfl⟩
    | check c again | stopSet =>
      -- these locations own the mutex
      have howner := (hs.owner t).2 (by rw [hpc]; rfl)
      rw [hm] at howner
      simp at howner
    | notify c =>
      by_cases hu : ∃ u, (s.pc u).blockedOn c.signals = true
      · obtain ⟨u, hu⟩ := hu
        exact ⟨.notifyOne t (some u), _, ht, by simp [threads, threadStep, hpc, hu]; rfl⟩
      · have hnone : ∀ u, (s.pc u).blockedOn c.signals = false := by simpa using hu
        exact ⟨.notifyOne t none, _, ht, by simp [threads, threadStep, hpc, hnone]; rfl⟩
    | stopNotifyEmpty | stopNotifyFull =>
      exact ⟨.notifyAll t, _, ht, by simp [threads, threadStep, hpc]; rfl⟩
    | idle | blocked c => simp [hpc, Loc.active] at ht
  · have hu := (hs.owner u).1 hm
    obtain ⟨s', hst⟩ := exists_step_of_holds s hu
    refine ⟨.critical u, s', ?_, hst⟩
    change (s.pc u).active = true
    cases hpc : s.pc u <;> simp_all [Loc.holds, Loc.active]

omit [Inhabited α] [DecidableEq ι] in
theorem Accounted.exists_active {s : Shared ι α} (hs : Accounted s) {cv : CondVar}
    (hb : 0 < s.blocked cv) (hready : ready cv s.ring = true) :
    ∃ t, (s.pc t).active = true := by
  by_cases hstop : s.ring.stop_ = true
  · obtain ⟨t, ht⟩ := count_pos_iff.1 (hs.stopped cv hb hstop)
    exact ⟨t, by cases hpc : s.pc t <;> simp_all [Loc.stopping, Loc.active]⟩
  · have hstop' : s.ring.stop_ = false := by simpa using hstop
    have hwork : 0 < work cv s.ring := by
      cases cv with
      | not_full_cv_ =>
        simp only [ready, mayPush, hstop', Bool.or_false, decide_eq_true_eq] at hready
        exact Nat.sub_pos_of_lt hready
      | not_empty_cv_ => simpa [ready, mayPop, work, hstop'] using hready
    have htok := hs.tokens cv hb fun _ => hstop'
    rcases Nat.eq_zero_or_pos (s.woken cv) with hw | hw
    · obtain ⟨t, ht⟩ := count_pos_iff.1 (show 0 < s.signalling cv by omega)
      exact ⟨t, by cases hpc : s.pc t <;> simp_all [Loc.signalling, Loc.active]⟩
    · obtain ⟨t, ht⟩ := count_pos_iff.1 hw
      exact ⟨t, by cases hpc : s.pc t <;> simp_all [Loc.wokenFrom, Loc.active]⟩

/-- **No wake-up is lost.**  In every reachable state: if a consumer is blocked un-notified,
the items are at most the woken consumers plus the producers about to notify; if a producer is
blocked un-notified and `stop_` is not set, the free slots are at most the woken producers plus
the consumers about to notify; if `stop_` is set while a thread is blocked un-notified, a
`stop` is still to notify its condition variable.  Hence, while a thread is blocked although
its predicate holds, a thread inside of the buffer and not in a wait set can take a step. -/
theorem wakeUp (capacity : ℕ) (r : RingBuffer α) (s : Shared ι α) (h₀ : new capacity = some r)
    (h : (threads ι α).Reachable (.init ι r) s) :
    (0 < s.blocked .not_empty_cv_ →
      s.ring.size_ ≤ s.woken .not_empty_cv_ + s.signalling .not_empty_cv_) ∧
    (0 < s.blocked .not_full_cv_ → s.ring.stop_ = false →
      s.ring.capacity_ - s.ring.size_ ≤ s.woken .not_full_cv_ + s.signalling .not_full_cv_) ∧
    (∀ cv, 0 < s.blocked cv → s.ring.stop_ = true → 0 < s.stopping cv) ∧
    (∀ cv, 0 < s.blocked cv → ready cv s.ring = true →
      ∃ a s', (s.pc a.actor).active = true ∧ (threads ι α).step s a s') := by
  have hs := accounted_reachable h₀ h
  refine ⟨?_, ?_, hs.stopped, ?_⟩
  · intro hb
    exact hs.tokens _ hb fun h => by cases h
  · intro hb hstop
    exact hs.tokens _ hb fun _ => hstop
  · intro cv hb hready
    obtain ⟨t, ht⟩ := hs.exists_active hb hready
    exact hs.exists_step ht

/-- A consumer waits while a producer is between its `unlock` and its `notify_one`. -/
theorem wakeUp_pending :
    ∃ s : Shared (Fin 2) ℕ, 0 < s.blocked .not_empty_cv_ ∧ s.ring.size_ = 1 ∧
      s.ring.size_ ≤ s.woken .not_empty_cv_ + s.signalling .not_empty_cv_ := by
  obtain ⟨s, hs, hb, hsize⟩ := LTS.Run.exists_reachable threadStep
    (Shared.init (Fin 2) (⟨[0], 1, 0, 0, 0, false⟩ : RingBuffer ℕ))
    [.call 0 .pop, .lock 0, .critical 0, .call 1 (.push 7), .lock 1, .critical 1]
    (fun s => 0 < s.blocked .not_empty_cv_ ∧ s.ring.size_ = 1) (by decide)
  exact ⟨s, hb, hsize, (wakeUp 1 _ s rfl hs).1 hb⟩

/-- The clause on the producers fails without the proviso on `stop_`: thread `1` is woken for
the slot freed by thread `0`, finds that `stop` has been called and leaves, while thread `2`
still waits. -/
theorem not_producer_accounted_after_stop :
    ¬ ∀ s : Shared (Fin 3) ℕ,
      (threads (Fin 3) ℕ).Reachable (.init (Fin 3) ⟨[0], 1, 0, 0, 0, false⟩) s →
      0 < s.blocked .not_full_cv_ →
      s.ring.capacity_ - s.ring.size_ ≤ s.woken .not_full_cv_ + s.signalling .not_full_cv_ := by
  intro hclaim
  obtain ⟨s, hs, hb, hlt⟩ := LTS.Run.exists_reachable threadStep
    (Shared.init (Fin 3) (⟨[0], 1, 0, 0, 0, false⟩ : RingBuffer ℕ))
    [.call 1 (.push 7), .lock 1, .critical 1, .notifyOne 1 none,
      .call 1 (.push 8), .lock 1, .critical 1, .call 2 (.push 9), .lock 2, .critical 2,
      .call 0 .pop, .lock 0, .critical 0, .notifyOne 0 (some 1),
      .callStop 0, .lock 0, .critical 0, .lock 1, .critical 1]
    (fun s => 0 < s.blocked .not_full_cv_ ∧
      s.woken .not_full_cv_ + s.signalling .not_full_cv_ < s.ring.capacity_ - s.ring.size_)
    (by decide)
  exact absurd (hclaim s hs hb) (by omega)

end Invariant

end RingBuffer

end LiteMonitor
