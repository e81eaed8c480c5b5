import Mathlib.Data.List.Nodup
import Mathlib.Order.Lattice
import Mathlib.Order.Monotone.Defs
import Mathlib.Logic.ExistsUnique

/-!
# Tables partitioned by range

A table is cut into partitions by upper bounds: a key is stored in the first partition whose bound
is above it.  Partitions are only added at the end.

* `RangeTable ν β` : a table with strictly increasing bounds and distinct names.
* `RangeTable.addPartition` : a partition is added, or rejected.
* `RangeTable.existsUnique_belongs_iff` : a key below some bound is in exactly one partition.
* `Schedule κ ν β` : the partition of each period of a calendar.
* `Schedule.Tracks` : the table has the partitions of the periods so far; `Tracks.ensure`.
* `Schedule.In e c` : the key `c` lies in the period `e`; `Tracks.locate_eq_some_iff` : it is stored
  with the first period that is not before `e`.
-/

namespace LiteMonitor

/-- A partition: `VALUES LESS THAN (bound)`. -/
structure Part (ν β : Type*) where
  name : ν
  bound : β
  deriving DecidableEq

/-- The partitions of a table. -/
structure RangeTable (ν β : Type*) [LT β] where
  parts : List (Part ν β)
  increasing : parts.Pairwise fun p q => p.bound < q.bound
  nodup : (parts.map Part.name).Nodup

namespace RangeTable

variable {ν β : Type*} [LinearOrder β] {t t' : RangeTable ν β} {p q : Part ν β} {c : β}

/-- A table with one partition. -/
def single (p : Part ν β) : RangeTable ν β :=
  ⟨[p], List.pairwise_singleton _ _, List.nodup_singleton _⟩

theorem bounds_of_append {ps qs : List (Part ν β)} (h : t.parts = ps ++ p :: qs) :
    (∀ q ∈ ps, q.bound < p.bound) ∧ ∀ q ∈ qs, p.bound < q.bound := by
  have hinc := t.increasing
  rw [h, List.pairwise_append, List.pairwise_cons] at hinc
  obtain ⟨-, ⟨hqs, -⟩, hps⟩ := hinc
  exact ⟨fun q hq => hps q hq p List.mem_cons_self, hqs⟩

theorem bound_lt_of_last (h : ∀ q ∈ t.parts.getLast?, q.bound < c) (hp : p ∈ t.parts) :
    p.bound < c := by
  obtain hnil | ⟨ps, q, hps⟩ := List.eq_nil_or_concat' t.parts
  · exact absurd hnil (List.ne_nil_of_mem hp)
  · have hlast : q.bound < c := h q (List.getLast?_eq_some_iff.2 ⟨ps, hps⟩)
    rw [hps, List.mem_append, List.mem_singleton] at hp
    obtain hp | rfl := hp
    · exact lt_trans ((bounds_of_append hps).1 p hp) hlast
    · exact hlast

section Add

variable [DecidableEq ν]

/-- `ADD PARTITION`: the name must be new and the bound above the last one. -/
def addPartition (t : RangeTable ν β) (p : Part ν β) : Option (RangeTable ν β) :=
  if h : p.name ∉ t.parts.map Part.name ∧ ∀ q ∈ t.parts.getLast?, q.bound < p.bound then
    some
      { parts := t.parts ++ [p]
        increasing := by
          refine List.pairwise_append.2 ⟨t.increasing, List.pairwise_singleton _ _, ?_⟩
          intro q hq r hr
          rw [List.mem_singleton.1 hr]
          exact bound_lt_of_last h.2 hq
        nodup := by
          rw [List.map_append]
          refine t.nodup.append (List.nodup_singleton _) ?_
          rintro x hx hx'
          exact h.1 (List.mem_singleton.1 hx' ▸ hx) }
  else none

/-- The partition is added if its name is missing. -/
def ensure (t : RangeTable ν β) (p : Part ν β) : Option (RangeTable ν β) :=
  if p.name ∈ t.parts.map Part.name then some t else t.addPartition p

theorem ensure_of_mem (h : p.name ∈ t.parts.map Part.name) : t.ensure p = some t := if_pos h

theorem ensure_of_lt (hname : p.name ∉ t.parts.map Part.name)
    (hbound : ∀ q ∈ t.parts, q.bound < p.bound) :
    ∃ t', t.ensure p = some t' ∧ t'.parts = t.parts ++ [p] := by
  have hadd : p.name ∉ t.parts.map Part.name ∧ ∀ q ∈ t.parts.getLast?, q.bound < p.bound :=
    ⟨hname, fun q hq => hbound q (List.mem_of_getLast? hq)⟩
  unfold ensure addPartition
  rw [if_neg hname, dif_pos hadd]
  exact ⟨_, rfl, rfl⟩

end Add

/-- `p` holds the key `c`: it is below its bound and not below an earlier one. -/
def Belongs (t : RangeTable ν β) (c : β) (p : Part ν β) : Prop :=
  p ∈ t.parts ∧ c < p.bound ∧ ∀ q ∈ t.parts, q.bound < p.bound → q.bound ≤ c

/-- The partition in which a row is stored. -/
def locate (t : RangeTable ν β) (c : β) : Option (Part ν β) := t.parts.find? (c < ·.bound)

theorem locate_eq_some_iff : t.locate c = some p ↔ t.Belongs c p := by
  unfold locate
  rw [List.find?_eq_some_iff_append]
  constructor
  · rintro ⟨hc, ps, qs, hparts, hps⟩
    have hmem : p ∈ t.parts := by
      rw [hparts]
      exact List.mem_append_right _ List.mem_cons_self
    refine ⟨hmem, of_decide_eq_true hc, ?_⟩
    intro q hq hlt
    have hqs := (bounds_of_append hparts).2
    rw [hparts, List.mem_append, List.mem_cons] at hq
    obtain hq | rfl | hq := hq
    · have hq' := hps q hq
      simpa using hq'
    · exact absurd hlt (lt_irrefl _)
    · exact absurd hlt (lt_asymm (hqs q hq))
  · rintro ⟨hp, hc, hlow⟩
    obtain ⟨ps, qs, hparts⟩ := List.append_of_mem hp
    refine ⟨decide_eq_true hc, ps, qs, hparts, ?_⟩
    intro q hq
    have hmem : q ∈ t.parts := by
      rw [hparts]
      exact List.mem_append_left _ hq
    have hle := hlow q hmem ((bounds_of_append hparts).1 q hq)
    simpa using hle

/-- **A key below some bound is in exactly one partition.** -/
theorem existsUnique_belongs_iff : (∃! p, t.Belongs c p) ↔ ∃ p ∈ t.parts, c < p.bound := by
  constructor
  · rintro ⟨p, ⟨hp, hc, -⟩, -⟩
    exact ⟨p, hp, hc⟩
  · rintro ⟨q, hq, hc⟩
    have hsome : (t.locate c).isSome := List.find?_isSome.2 ⟨q, hq, decide_eq_true hc⟩
    obtain ⟨p, hp⟩ := Option.isSome_iff_exists.1 hsome
    refine ⟨p, locate_eq_some_iff.1 hp, ?_⟩
    intro p' hp'
    rw [← locate_eq_some_iff, hp] at hp'
    exact (Option.some.inj hp').symm

end RangeTable

/-! ### One partition for each period -/

/-- The partition of each period, and the partition that a table begins with. -/
structure Schedule (κ ν β : Type*) [LinearOrder κ] [LinearOrder β] where
  part : κ → Part ν β
  first : Part ν β
  /-- The periods whose bound is what it should be. -/
  valid : Set κ
  name_injective : Function.Injective fun k => (part k).name
  name_ne : ∀ k, (part k).name ≠ first.name
  bound_strictMono : StrictMonoOn (fun k => (part k).bound) valid
  first_lt : ∀ k ∈ valid, first.bound < (part k).bound

namespace Schedule

variable {κ ν β : Type*} [LinearOrder κ] [LinearOrder β] {s : Schedule κ ν β}
  {t : RangeTable ν β} {js : List κ} {k : κ}

/-- The table has the partitions of the periods `js`, in their order. -/
def Tracks (s : Schedule κ ν β) (js : List κ) (t : RangeTable ν β) : Prop :=
  ∃ ks : List κ, ks.Pairwise (· < ·) ∧ (∀ k, k ∈ ks ↔ k ∈ js) ∧ (∀ k ∈ ks, k ∈ s.valid) ∧
    t.parts = s.first :: ks.map s.part

theorem tracks_nil (s : Schedule κ ν β) : s.Tracks [] (RangeTable.single s.first) :=
  ⟨[], List.Pairwise.nil, fun _ => Iff.rfl, by simp, rfl⟩

theorem Tracks.name_mem_iff (h : s.Tracks js t) :
    (s.part k).name ∈ t.parts.map Part.name ↔ k ∈ js := by
  obtain ⟨ks, -, hmem, -, hparts⟩ := h
  rw [← hmem, hparts, List.map_cons, List.mem_cons, or_iff_right (s.name_ne k), List.map_map]
  exact List.mem_map_of_injective s.name_injective

/-- **A period that is not before the others gets its partition.** -/
theorem Tracks.ensure [DecidableEq ν] (h : s.Tracks js t) (hk : k ∈ s.valid)
    (hle : ∀ j ∈ js, j ≤ k) : ∃ t', t.ensure (s.part k) = some t' ∧ s.Tracks (js ++ [k]) t' := by
  by_cases hmem : k ∈ js
  · refine ⟨t, RangeTable.ensure_of_mem (h.name_mem_iff.2 hmem), ?_⟩
    obtain ⟨ks, hks, hkjs, hvalid, hparts⟩ := h
    refine ⟨ks, hks, ?_, hvalid, hparts⟩
    intro j
    rw [hkjs, List.mem_append, List.mem_singleton]
    exact ⟨Or.inl, fun hj => hj.elim id (fun hj => hj ▸ hmem)⟩
  · have hname : (s.part k).name ∉ t.parts.map Part.name := fun hn => hmem (h.name_mem_iff.1 hn)
    obtain ⟨ks, hks, hkjs, hvalid, hparts⟩ := h
    have hlt : ∀ j ∈ ks, j < k := by
      intro j hj
      have hjs := (hkjs j).1 hj
      exact lt_of_le_of_ne (hle j hjs) (fun hjk => hmem (hjk ▸ hjs))
    have hbound : ∀ q ∈ t.parts, q.bound < (s.part k).bound := by
      rw [hparts]
      intro q hq
      obtain rfl | hq := List.mem_cons.1 hq
      · exact s.first_lt k hk
      · obtain ⟨j, hj, rfl⟩ := List.mem_map.1 hq
        exact s.bound_strictMono (hvalid j hj) hk (hlt j hj)
    obtain ⟨t', ht', hparts'⟩ := RangeTable.ensure_of_lt hname hbound
    refine ⟨t', ht', ks ++ [k], ?_, ?_, ?_, ?_⟩
    · refine List.pairwise_append.2 ⟨hks, List.pairwise_singleton _ _, ?_⟩
      intro j hj i hi
      rw [List.mem_singleton.1 hi]
      exact hlt j hj
    · intro j
      rw [List.mem_append, List.mem_append, hkjs]
    · intro j hj
      obtain hj | hj := List.mem_append.1 hj
      · exact hvalid j hj
      · exact List.mem_singleton.1 hj ▸ hk
    · rw [hparts', hparts, List.map_append]
      rfl

theorem Tracks.ensure_eq [DecidableEq ν] (h : s.Tracks js t) (hk : k ∈ js) :
    t.ensure (s.part k) = some t :=
  RangeTable.ensure_of_mem (h.name_mem_iff.2 hk)

theorem Tracks.existsUnique_belongs {c : β} (h : s.Tracks js t) (hk : k ∈ js)
    (hc : c < (s.part k).bound) : ∃! p, t.Belongs c p := by
  obtain ⟨ks, -, hkjs, -, hparts⟩ := h
  refine RangeTable.existsUnique_belongs_iff.2 ⟨s.part k, ?_, hc⟩
  rw [hparts]
  exact List.mem_cons_of_mem _ (List.mem_map_of_mem ((hkjs k).2 hk))

/-- The key lies in the period `e`: behind the bounds of the periods before it, and not behind its
own. -/
structure In (s : Schedule κ ν β) (e : κ) (c : β) : Prop where
  first_le : s.first.bound ≤ c
  lt_bound_iff : ∀ k ∈ s.valid, c < (s.part k).bound ↔ e ≤ k

/-- **A key is stored with the first period that is not before its own**, if there is one. -/
theorem Tracks.locate_eq_some_iff {e : κ} {c : β} {p : Part ν β} (h : s.Tracks js t)
    (hc : s.In e c) :
    t.locate c = some p ↔ ∃ k ∈ js, e ≤ k ∧ (∀ j ∈ js, e ≤ j → k ≤ j) ∧ p = s.part k := by
  obtain ⟨ks, -, hkjs, hvalid, hparts⟩ := h
  have hmem : ∀ q, q ∈ t.parts ↔ q = s.first ∨ ∃ k ∈ js, s.part k = q := by
    intro q
    rw [hparts, List.mem_cons, List.mem_map]
    exact or_congr_right (exists_congr fun k => and_congr_left fun _ => hkjs k)
  have hval : ∀ k ∈ js, k ∈ s.valid := fun k hk => hvalid k ((hkjs k).2 hk)
  rw [RangeTable.locate_eq_some_iff]
  constructor
  · rintro ⟨hp, hlt, hlow⟩
    obtain rfl | ⟨k, hk, rfl⟩ := (hmem p).1 hp
    · exact absurd hlt (not_lt.2 hc.first_le)
    · refine ⟨k, hk, (hc.lt_bound_iff k (hval k hk)).1 hlt, fun j hj hej => ?_, rfl⟩
      by_contra hjk
      have hbound := s.bound_strictMono (hval j hj) (hval k hk) (not_le.1 hjk)
      have hle := hlow (s.part j) ((hmem _).2 (Or.inr ⟨j, hj, rfl⟩)) hbound
      exact absurd ((hc.lt_bound_iff j (hval j hj)).2 hej) (not_lt.2 hle)
  · rintro ⟨k, hk, hek, hleast, rfl⟩
    refine ⟨(hmem _).2 (Or.inr ⟨k, hk, rfl⟩), (hc.lt_bound_iff k (hval k hk)).2 hek, ?_⟩
    intro q hq hqk
    obtain rfl | ⟨j, hj, rfl⟩ := (hmem q).1 hq
    · exact hc.first_le
    · by_contra hcj
      have hej := (hc.lt_bound_iff j (hval j hj)).1 (not_le.1 hcj)
      have hkj := s.bound_strictMono.monotoneOn (hval k hk) (hval j hj) (hleast j hj hej)
      exact absurd hqk (not_lt.2 hkj)

end Schedule

end LiteMonitor
