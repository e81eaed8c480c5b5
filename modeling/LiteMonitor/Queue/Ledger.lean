import LiteMonitor.LTS.Basic
import Mathlib.Data.List.Perm.Basic

/-!
# The ledger of a queue with retries

Items enter a queue of capacity `cap`; when it is full, the oldest item is shed first, and its room
is kept for the new one.  A consumer takes a batch off the front and holds it, until the batch is
settled or restored to the front of the queue.  Restoring does not look at the capacity.

* `Ledger α` : what has entered, was settled, is held, is queued, was shed; `size` : the queue with
  the room that is kept.
* `Step cap` : the operations; `lts cap`.
* `Balanced` : nothing is lost, duplicated or reordered but what was shed;
  `balanced_reachable`.
* `Step.bounded_iff` : an operation keeps the queue within its capacity unless it restores a
  batch into a queue that more items have entered than fit next to it.
* `Step.newest_iff` : an operation keeps the items shed older than the items queued unless it
  restores a batch although items were shed while it was held.
-/

namespace LiteMonitor

/-- What has become of the items. -/
structure Ledger (α : Type*) where
  entered : List α
  settled : List α
  held : Option (List α)
  queued : List α
  shed : List α
  /-- An item was shed for one that has not entered yet. -/
  room : Bool
  /-- The length of the queue when the last batch was taken, -/
  queuedAtTake : ℕ
  /-- and how many items have entered since, -/
  enteredSinceTake : ℕ
  /-- and how many were shed since. -/
  shedSinceTake : ℕ

namespace Ledger

variable {α : Type*}

/-- Nothing has entered. -/
def empty : Ledger α := ⟨[], [], none, [], [], false, 0, 0, 0⟩

/-- The operations. -/
inductive Op (α : Type*) where
  | enter (x : α)
  | shed
  | take (n : ℕ)
  | settle
  | restore

/-- An item enters where there is room, or where room was made.  While room is kept, no batch is
taken or restored. -/
inductive Step (cap : ℕ) : Ledger α → Op α → Ledger α → Prop
  | enter {l : Ledger α} (x : α) (h : l.room = true ∨ l.queued.length < cap) :
      Step cap l (.enter x) { l with
        entered := l.entered ++ [x]
        queued := l.queued ++ [x]
        room := false
        enteredSinceTake := l.enteredSinceTake + 1 }
  | shed {l : Ledger α} {y : α} {q : List α} (h : cap ≤ l.queued.length)
      (hq : l.queued = y :: q) (hr : l.room = false) :
      Step cap l .shed { l with
        queued := q
        shed := l.shed ++ [y]
        room := true
        shedSinceTake := l.shedSinceTake + 1 }
  | take {l : Ledger α} (n : ℕ) (h : l.held = none) (hr : l.room = false) :
      Step cap l (.take n) { l with
        held := some (l.queued.take n)
        queued := l.queued.drop n
        queuedAtTake := l.queued.length
        enteredSinceTake := 0
        shedSinceTake := 0 }
  | settle {l : Ledger α} {b : List α} (h : l.held = some b) :
      Step cap l .settle { l with settled := l.settled ++ b, held := none }
  | restore {l : Ledger α} {b : List α} (h : l.held = some b) (hr : l.room = false) :
      Step cap l .restore { l with queued := b ++ l.queued, held := none }

/-- The ledger as a transition system. -/
def lts (cap : ℕ) : LTS (Ledger α) (Op α) := ⟨Step cap⟩

/-- The items that are not shed, in the order of their settlement. -/
def kept (l : Ledger α) : List α := l.settled ++ l.held.getD [] ++ l.queued

/-! ### Nothing is lost -/

/-- What an operation does to the items kept: one is added, one is shed, or they stay. -/
theorem Step.kept_cases {cap : ℕ} {l l' : Ledger α} {op : Op α} (h : Step cap l op l') :
    (∃ x, l'.entered = l.entered ++ [x] ∧ l'.kept = l.kept ++ [x] ∧ l'.shed = l.shed) ∨
    (∃ y a b, l.kept = a ++ [y] ++ b ∧ l'.entered = l.entered ∧ l'.kept = a ++ b ∧
      l'.shed = l.shed ++ [y]) ∨
    (l'.entered = l.entered ∧ l'.kept = l.kept ∧ l'.shed = l.shed) := by
  cases h with
  | enter x _ => exact Or.inl ⟨x, rfl, by simp [kept], rfl⟩
  | @shed y q _ hq _ =>
    refine Or.inr (Or.inl ⟨y, l.settled ++ l.held.getD [], q, ?_, rfl, rfl, rfl⟩)
    simp [kept, hq]
  | take n h _ => exact Or.inr (Or.inr ⟨rfl, by simp [kept, h], rfl⟩)
  | settle h => exact Or.inr (Or.inr ⟨rfl, by simp [kept, h], rfl⟩)
  | restore h _ => exact Or.inr (Or.inr ⟨rfl, by simp [kept, h], rfl⟩)

theorem Step.held_cases {cap : ℕ} {l l' : Ledger α} {op : Op α} (h : Step cap l op l') :
    l'.held = l.held ∨ l'.held = none ∨ ∃ n, op = .take n ∧ l'.held = some (l.queued.take n) := by
  cases h with
  | enter | shed => exact Or.inl rfl
  | take n => exact Or.inr (Or.inr ⟨n, rfl, rfl⟩)
  | settle | restore => exact Or.inr (Or.inl rfl)

theorem Step.held_restore {cap : ℕ} {l l' : Ledger α} (h : Step cap l .restore l') :
    l'.held = none := by
  cases h
  rfl

/-- The kept items are among the entered ones, in order, and the others are those shed. -/
structure Balanced (l : Ledger α) : Prop where
  sublist : l.kept.Sublist l.entered
  perm : l.entered.Perm (l.kept ++ l.shed)

theorem balanced_empty : Balanced (empty : Ledger α) := ⟨.slnil, .nil⟩

theorem Balanced.step {cap : ℕ} {l l' : Ledger α} {op : Op α} (hl : Balanced l)
    (h : Step cap l op l') : Balanced l' := by
  classical
  obtain ⟨hsub, hperm⟩ := hl
  rw [List.perm_iff_count] at hperm
  rcases h.kept_cases with ⟨x, hE, hK, hD⟩ | ⟨y, a, b, hl, hE, hK, hD⟩ | ⟨hE, hK, hD⟩
  · refine ⟨hE ▸ hK ▸ hsub.append_right [x], List.perm_iff_count.2 fun z => ?_⟩
    have hz := hperm z
    simp only [hE, hK, hD, List.count_append] at hz ⊢
    omega
  · have hab : (a ++ b).Sublist l.kept := by
      rw [hl, List.append_assoc]
      exact (List.sublist_append_right [y] b).append_left a
    refine ⟨hE ▸ hK ▸ hab.trans hsub, List.perm_iff_count.2 fun z => ?_⟩
    have hz := hperm z
    simp only [hE, hK, hD, hl, List.count_append] at hz ⊢
    omega
  · exact ⟨hE ▸ hK ▸ hsub, List.perm_iff_count.2 fun z => by rw [hE, hK, hD, hperm z]⟩

/-- **Nothing is lost, duplicated or reordered** but the items that were shed. -/
theorem balanced_reachable {cap : ℕ} {l : Ledger α} (h : (lts cap).Reachable empty l) :
    Balanced l :=
  h.invariant balanced_empty fun _ hl hst => hl.step hst

theorem Balanced.length_eq {l : Ledger α} (hl : Balanced l) :
    l.entered.length = l.settled.length + l.shed.length + (l.held.getD []).length +
      l.queued.length := by
  have hlen := hl.perm.length_eq
  simp only [kept, List.length_append] at hlen
  omega

/-! ### The capacity -/

/-- The queue, and the room that is kept. -/
def size (l : Ledger α) : ℕ := l.queued.length + l.room.toNat

/-- The room kept is within the capacity, and while a batch is held, the queue is as long as the
items entered meanwhile make it, as long as there is room. -/
structure InFlight (cap : ℕ) (l : Ledger α) : Prop where
  room : l.room = true → l.size = cap
  held : ∀ b, l.held = some b → b.length ≤ l.queuedAtTake ∧
    l.size + b.length ≤ l.queuedAtTake + l.enteredSinceTake ∧
    (l.size < cap → l.size + b.length = l.queuedAtTake + l.enteredSinceTake)

theorem inFlight_empty (cap : ℕ) : InFlight cap (empty : Ledger α) := ⟨nofun, nofun⟩

theorem size_of_room {l : Ledger α} (h : l.room = true) : l.size = l.queued.length + 1 := by
  rw [size, h, Bool.toNat_true]

theorem size_of_no_room {l : Ledger α} (h : l.room = false) : l.size = l.queued.length := by
  rw [size, h, Bool.toNat_false, Nat.add_zero]

/-- A batch is restored only into a queue that has room for it, to judge by the items that were
queued when it was taken and those that have entered since. -/
def Op.FitsBack (cap : ℕ) (l : Ledger α) (op : Op α) : Prop :=
  op = .restore → l.queuedAtTake + l.enteredSinceTake ≤ cap

/-- **The capacity.**  Of a queue within its capacity, exactly those operations keep the
capacity that restore no batch or one that fits back. -/
theorem Step.bounded_iff {cap : ℕ} {l l' : Ledger α} {op : Op α}
    (h : Step cap l op l') (hlen : l.queued.length ≤ cap) (hin : InFlight cap l)
    (hne : ∀ b, l.held = some b → b ≠ []) :
    (l'.queued.length ≤ cap ↔ op.FitsBack cap l) ∧ InFlight cap l' := by
  cases h with
  | enter x h =>
    -- the room was made at capacity, or there is room anyway
    have hsize : l.queued.length + 1 ≤ cap ∧
        (l.size = l.queued.length + 1 ∧ cap ≤ l.size ∨ l.size = l.queued.length) := by
      cases hr : l.room with
      | true =>
        have hcap := hin.room hr
        rw [size_of_room hr] at hcap ⊢
        omega
      | false =>
        have hlt := h.resolve_left (by simp [hr])
        rw [size_of_no_room hr]
        omega
    have hsize' : size { l with
        entered := l.entered ++ [x]
        queued := l.queued ++ [x]
        room := false
        enteredSinceTake := l.enteredSinceTake + 1 } = l.queued.length + 1 := by
      simp [size]
    refine ⟨iff_of_true ?_ nofun, nofun, fun b hb => ?_⟩
    · rw [List.length_append, List.length_singleton]
      exact hsize.1
    obtain ⟨h₁, h₂, h₃⟩ := hin.held b hb
    rw [hsize']
    dsimp only
    omega
  | @shed y q h hq hr =>
    -- one item leaves, and its room is kept
    have hsize := size_of_no_room hr
    have hsize' : size { l with
        queued := q
        shed := l.shed ++ [y]
        room := true
        shedSinceTake := l.shedSinceTake + 1 } = l.size := by
      rw [hsize, size_of_room rfl, hq, List.length_cons]
    refine ⟨iff_of_true ?_ nofun, fun _ => ?_, fun b hb => ?_⟩
    · rw [hq, List.length_cons] at hlen
      exact Nat.le_of_succ_le hlen
    · rw [hsize', hsize]
      exact Nat.le_antisymm hlen h
    · rw [hsize']
      exact hin.held b hb
  | take n h hr =>
    refine ⟨iff_of_true ?_ nofun, fun hr' => ?_, ?_⟩
    · rw [List.length_drop]
      omega
    · rw [hr] at hr'
      simp at hr'
    · intro b hb
      obtain rfl : l.queued.take n = b := Option.some.inj hb
      simp only [size, hr, Bool.toNat_false, List.length_take, List.length_drop]
      omega
  | settle h => exact ⟨iff_of_true hlen nofun, hin.room, nofun⟩
  | @restore b h hr =>
    refine ⟨?_, fun hr' => ?_, nofun⟩
    · obtain ⟨h₁, h₂, h₃⟩ := hin.held b h
      rw [size_of_no_room hr] at h₂ h₃
      have hpos := List.length_pos_iff.2 (hne b h)
      simp only [List.length_append, Op.FitsBack, forall_const]
      constructor
      · intro hle
        -- the batch has items, so the queue had room, and its length is known exactly
        have h₃' := h₃ (by omega)
        omega
      · intro hle
        omega
    · rw [hr] at hr'
      simp at hr'

/-! ### The oldest items are shed -/

section Newest

variable (R : α → α → Prop)

/-- The items shed are older than the items queued. -/
def Newest (l : Ledger α) : Prop := ∀ d ∈ l.shed, ∀ x ∈ l.queued, R d x

/-- While a batch is held, the items shed are older than its items, or some were shed that are
newer than all of them. -/
def Older (l : Ledger α) : Prop :=
  ∀ b, l.held = some b → (l.shedSinceTake = 0 → ∀ d ∈ l.shed, ∀ x ∈ b, R d x) ∧
    (0 < l.shedSinceTake → ∃ d ∈ l.shed, ∀ x ∈ b, R x d)

/-- A batch is restored only if nothing was shed while it was held. -/
def Op.ShedsNothing (l : Ledger α) (op : Op α) : Prop :=
  op = .restore → l.shedSinceTake = 0 ∨ l.held = some []

variable {R}

/-- **The oldest items are shed**: in a ledger whose items enter in the order `R`, exactly those
operations keep the items shed older than those queued that restore no batch around which items
were shed. -/
theorem Step.newest_iff [Std.Asymm R] {cap : ℕ} {l l' : Ledger α} {op : Op α}
    (h : Step cap l op l') (hbal : Balanced l) (hsorted : l.kept.Pairwise R)
    (hlast : ∀ x, op = .enter x → ∀ y ∈ l.entered, R y x) (hnew : Newest R l)
    (hold : Older R l) : (Newest R l' ↔ op.ShedsNothing l) ∧ Older R l' := by
  have hqueued : ∀ y ∈ l.queued, y ∈ l.entered := fun y hy =>
    hbal.sublist.subset (List.mem_append_right _ hy)
  have hshed : ∀ y ∈ l.shed, y ∈ l.entered := fun y hy =>
    hbal.perm.mem_iff.2 (List.mem_append_right _ hy)
  obtain ⟨-, hsortedQ, hsortedBQ⟩ := List.pairwise_append.1 hsorted
  cases h with
  | enter x h =>
    refine ⟨iff_of_true (fun d hd z hz => ?_) nofun, hold⟩
    rcases List.mem_append.1 hz with hz | hz
    · exact hnew d hd z hz
    · rw [List.mem_singleton.1 hz]
      exact hlast x rfl d (hshed d hd)
  | @shed y q h hq hr =>
    have hy : y ∈ l.queued := hq ▸ List.mem_cons_self
    have hyq : ∀ z ∈ q, R y z := (List.pairwise_cons.1 (hq ▸ hsortedQ)).1
    refine ⟨iff_of_true (fun d hd z hz => ?_) nofun, fun b hb =>
      ⟨fun h0 => absurd h0 (Nat.succ_ne_zero _), fun _ => ?_⟩⟩
    · rcases List.mem_append.1 hd with hd | hd
      · exact hnew d hd z (hq ▸ List.mem_cons_of_mem y hz)
      · rw [List.mem_singleton.1 hd]
        exact hyq z hz
    · -- the item shed is newer than the whole batch
      refine ⟨y, List.mem_append_right _ List.mem_cons_self, fun z hz => ?_⟩
      have hb' : l.held = some b := hb
      refine hsortedBQ z (List.mem_append_right _ ?_) y hy
      rw [hb']
      exact hz
  | take n h hr =>
    refine ⟨iff_of_true (fun d hd z hz => hnew d hd z (List.mem_of_mem_drop hz)) nofun,
      fun b hb => ⟨fun _ d hd z hz => ?_, fun h0 => absurd h0 (Nat.lt_irrefl 0)⟩⟩
    obtain rfl : l.queued.take n = b := Option.some.inj hb
    exact hnew d hd z (List.mem_of_mem_take hz)
  | settle h => exact ⟨iff_of_true hnew nofun, fun b hb => by cases hb⟩
  | @restore b h hr =>
    obtain ⟨hnone, hsome⟩ := hold b h
    refine ⟨⟨?_, ?_⟩, fun b hb => by cases hb⟩
    · intro hn _
      by_contra hc
      -- an item of the batch is older than one that was shed around it
      simp only [h, not_or, Option.some.injEq] at hc
      obtain ⟨x, hx⟩ := List.exists_mem_of_ne_nil b hc.2
      obtain ⟨d, hd, hnewer⟩ := hsome (Nat.pos_of_ne_zero hc.1)
      exact Std.Asymm.asymm _ _ (hnewer x hx) (hn d hd x (List.mem_append_left _ hx))
    · intro hc d hd z hz
      rcases List.mem_append.1 hz with hz | hz
      · rcases hc rfl with h0 | hempty
        · exact hnone h0 d hd z hz
        · obtain rfl : b = [] := Option.some.inj (h.symm.trans hempty)
          simp at hz
      · exact hnew d hd z hz

end Newest

end Ledger

end LiteMonitor
