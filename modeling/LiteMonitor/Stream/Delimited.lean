import Mathlib.Algebra.Order.Ring.Nat
import Mathlib.Data.List.Basic
import Mathlib.Data.List.Flatten
import Mathlib.Data.List.Induction

/-!
# Streams framed by a head and a tail marker

A stream over an alphabet `α` carries frames `h p t` between two markers `h` and `t`: what
stands before a head marker is garbage, a payload `p` runs up to the next tail marker, and an
`h` inside a frame is payload.

* `scan` : the scanner that reads one symbol at a time; its state is the *residue*, the
  unfinished frame read so far (empty outside of a frame).
* `Framing B ps r` : the grammar: `B` is a sequence of garbage and frames with the payloads
  `ps`, followed by garbage and the residue `r`.
* `framing_iff_scan` : the grammar holds of exactly the payloads and the residue the scanner
  computes; so every stream has exactly one framing.
* `scanChunks_eq` : cutting the stream does not matter.
* `length_scan_blocks_lt` : a stream of blocks, each a short header and a body without tail
  markers, has fewer long frames than blocks.
-/

namespace LiteMonitor

namespace Delimited

variable {α : Type*} [DecidableEq α] (h t : α)

/-- A residue is empty or a head marker followed by symbols other than the tail marker. -/
def IsResidue (r : List α) : Prop := r = [] ∨ ∃ q, r = h :: q ∧ t ∉ q

/-- Read the symbol `b` with residue `r`: the payload completed, if any, and the residue. -/
def feed (r : List α) (b : α) : List (List α) × List α :=
  match r with
  | [] => if b = h then ([], [h]) else ([], [])
  | x :: q => if b = t then ([q], []) else ([], x :: (q ++ [b]))

/-- Read a stream: the payloads completed, in order, and the residue. -/
def scan (r : List α) : List α → List (List α) × List α
  | [] => ([], r)
  | b :: bs => ((feed h t r b).1 ++ (scan (feed h t r b).2 bs).1, (scan (feed h t r b).2 bs).2)

/-- Read a stream chunk by chunk. -/
def scanChunks (r : List α) : List (List α) → List (List α) × List α
  | [] => ([], r)
  | c :: cs => ((scan h t r c).1 ++ (scanChunks (scan h t r c).2 cs).1,
      (scanChunks (scan h t r c).2 cs).2)

/-- **The frame grammar**: `B = g₁ h p₁ t g₂ h p₂ t … gₙ h pₙ t g r`, where no `gᵢ` and not `g`
contains a head marker, no `pᵢ` contains a tail marker, and `r` is a residue. -/
def Framing (B : List α) (ps : List (List α)) (r : List α) : Prop :=
  ∃ (gs : List (List α)) (g : List α), gs.length = ps.length ∧ (∀ x ∈ gs, h ∉ x) ∧ h ∉ g ∧
    (∀ p ∈ ps, t ∉ p) ∧ IsResidue h t r ∧
    B = (List.zipWith (fun g p => g ++ h :: (p ++ [t])) gs ps).flatten ++ (g ++ r)

variable {h t}

theorem scan_append (r a b : List α) :
    scan h t r (a ++ b) = ((scan h t r a).1 ++ (scan h t (scan h t r a).2 b).1,
      (scan h t (scan h t r a).2 b).2) := by
  induction a generalizing r with
  | nil => simp [scan]
  | cons x a ih => simp [scan, ih]

/-- Cutting a stream into chunks changes neither the payloads nor the residue. -/
theorem scanChunks_eq (r : List α) (cs : List (List α)) :
    scanChunks h t r cs = scan h t r cs.flatten := by
  induction cs generalizing r with
  | nil => rfl
  | cons c cs ih => simp only [scanChunks, List.flatten_cons, scan_append, ih]

/-! ### What the scanner does on each part of the grammar -/

theorem scan_garbage {g : List α} (hg : h ∉ g) : scan h t [] g = ([], []) := by
  induction g with
  | nil => rfl
  | cons x g ih =>
    simp only [List.mem_cons, not_or] at hg
    simp [scan, feed, Ne.symm hg.1, ih hg.2]

theorem scan_payload {p : List α} (hp : t ∉ p) (x : α) (q : List α) :
    scan h t (x :: q) p = ([], x :: (q ++ p)) := by
  induction p generalizing q with
  | nil => simp [scan]
  | cons b p ih =>
    simp only [List.mem_cons, not_or] at hp
    simp [scan, feed, Ne.symm hp.1, ih hp.2]

theorem scan_frame {g p : List α} (hg : h ∉ g) (hp : t ∉ p) :
    scan h t [] (g ++ h :: (p ++ [t])) = ([p], []) := by
  have hh : scan h t [] (h :: (p ++ [t])) = ([p], []) := by
    simp [scan, feed, scan_append, scan_payload hp]
  rw [scan_append, scan_garbage hg, hh]
  rfl

theorem scan_residue {r : List α} (hr : IsResidue h t r) : scan h t [] r = ([], r) := by
  rcases hr with rfl | ⟨q, rfl, hq⟩
  · rfl
  · simp [scan, feed, scan_payload hq]

theorem scan_fst_eq_nil {bs : List α} (hbs : t ∉ bs) (r : List α) : (scan h t r bs).1 = [] := by
  induction bs generalizing r with
  | nil => rfl
  | cons b bs ih =>
    simp only [List.mem_cons, not_or] at hbs
    have hfeed : (feed h t r b).1 = [] := by
      cases r with
      | nil => simp only [feed]; split_ifs <;> rfl
      | cons x q => simp [feed, Ne.symm hbs.1]
    simp [scan, hfeed, ih hbs.2]

/-! ### The scanner decides the grammar -/

omit [DecidableEq α] in
theorem Framing.isResidue {B r : List α} {ps : List (List α)} (hf : Framing h t B ps r) :
    IsResidue h t r := by
  obtain ⟨-, -, -, -, -, -, hr, -⟩ := hf
  exact hr

/-- Reading one more symbol extends a framing as `feed` says. -/
theorem Framing.snoc {B r : List α} {ps : List (List α)} (hf : Framing h t B ps r) (b : α) :
    Framing h t (B ++ [b]) (ps ++ (feed h t r b).1) (feed h t r b).2 := by
  obtain ⟨gs, g, hlen, hgs, hg, hps, hr, rfl⟩ := hf
  rcases hr with rfl | ⟨q, rfl, hq⟩
  · by_cases hb : b = h
    · -- a head marker opens a frame
      subst hb
      refine ⟨gs, g, by simpa [feed] using hlen, hgs, hg, by simpa [feed] using hps, ?_, ?_⟩
      · exact Or.inr ⟨[], by simp [feed], by simp⟩
      · simp [feed]
    · -- any other symbol outside of a frame is garbage
      refine ⟨gs, g ++ [b], by simpa [feed, hb] using hlen, hgs, ?_, by simpa [feed, hb] using hps,
        Or.inl (by simp [feed, hb]), ?_⟩
      · simpa [hg] using Ne.symm hb
      · simp [feed, hb]
  · by_cases hb : b = t
    · -- a tail marker closes the frame: its garbage and payload join the lists
      subst hb
      refine ⟨gs ++ [g], [], by simpa [feed] using hlen, ?_, by simp, ?_,
        Or.inl (by simp [feed]), ?_⟩
      · simpa [or_imp, forall_and] using ⟨hgs, hg⟩
      · simpa [feed, or_imp, forall_and] using ⟨hps, hq⟩
      · simp [feed, List.zipWith_append hlen]
    · refine ⟨gs, g, by simpa [feed, hb] using hlen, hgs, hg, by simpa [feed, hb] using hps,
        Or.inr ⟨q ++ [b], by simp [feed, hb], by simpa [hq] using Ne.symm hb⟩, ?_⟩
      simp [feed, hb]

theorem framing_scan (B : List α) : Framing h t B (scan h t [] B).1 (scan h t [] B).2 := by
  induction B using List.reverseRecOn with
  | nil => exact ⟨[], [], rfl, by simp, by simp, by simp [scan], Or.inl rfl, by simp [scan]⟩
  | append_singleton B b ih =>
    have hs := ih.snoc b
    rw [scan_append]
    simpa [scan] using hs

theorem Framing.scan_eq {B r : List α} {ps : List (List α)} (hf : Framing h t B ps r) :
    scan h t [] B = (ps, r) := by
  obtain ⟨gs, g, hlen, hgs, hg, hps, hr, rfl⟩ := hf
  induction ps generalizing gs with
  | nil =>
    have hgs0 : gs = [] := List.length_eq_zero_iff.1 hlen
    simp [hgs0, scan_append, scan_garbage hg, scan_residue hr]
  | cons p ps ih =>
    obtain ⟨g₁, gs, rfl⟩ := List.exists_cons_of_length_eq_add_one hlen
    rw [List.forall_mem_cons] at hgs hps
    have hrest := ih gs (by simpa using hlen) hgs.2 hps.2
    rw [List.zipWith_cons_cons, List.flatten_cons, List.append_assoc, scan_append,
      scan_frame hgs.1 hps.1, hrest]
    rfl

/-- **The scanner decides the grammar**: a stream has exactly one framing, and the scanner
computes it. -/
theorem framing_iff_scan {B r : List α} {ps : List (List α)} :
    Framing h t B ps r ↔ scan h t [] B = (ps, r) :=
  ⟨Framing.scan_eq, fun hs => by simpa [hs] using framing_scan (h := h) (t := t) B⟩

theorem isResidue_scan {r : List α} (hr : IsResidue h t r) (bs : List α) :
    IsResidue h t (scan h t r bs).2 := by
  have hB := (framing_scan (h := h) (t := t) (r ++ bs)).isResidue
  rwa [scan_append, scan_residue hr] at hB

theorem scan_residue_append {r : List α} (hr : IsResidue h t r) (bs : List α) :
    scan h t [] (r ++ bs) = scan h t r bs := by
  rw [scan_append, scan_residue hr]
  rfl

/-! ### How many frames fit -/

theorem length_scan_le (r bs : List α) :
    ((scan h t r bs).1.map fun p => p.length + 2).sum + (scan h t r bs).2.length ≤
      r.length + bs.length := by
  induction bs generalizing r with
  | nil => simp [scan]
  | cons b bs ih =>
    have hfeed : ((feed h t r b).1.map fun p => p.length + 2).sum + (feed h t r b).2.length ≤
        r.length + 1 := by
      cases r with
      | nil => simp only [feed]; split_ifs <;> simp
      | cons x q => simp only [feed]; split_ifs <;> simp
    have hrest := ih (feed h t r b).2
    simp only [scan, List.map_append, List.sum_append, List.length_cons]
    omega

theorem length_scan_tail_le (r bs : List α) :
    ((scan h t r bs).1.tail.map fun p => p.length + 2).sum ≤ bs.length := by
  induction bs generalizing r with
  | nil => simp [scan]
  | cons b bs ih =>
    have hle := length_scan_le (h := h) (t := t) [] bs
    have hih := ih (feed h t r b).2
    cases r with
    | nil =>
      have hnil : (feed h t [] b).1 = [] := by simp only [feed]; split_ifs <;> rfl
      simp only [scan, hnil, List.nil_append, List.length_cons]
      omega
    | cons x q =>
      by_cases hb : b = t
      · simp only [scan, feed, hb, ↓reduceIte, List.cons_append, List.nil_append, List.tail_cons,
          List.length_cons, List.length_nil] at hle ⊢
        omega
      · simp only [scan, feed, hb, ↓reduceIte, List.nil_append, List.length_cons] at hih ⊢
        omega

/-- If every frame is longer than `m`, at most one frame is completed within `m` symbols. -/
theorem length_scan_le_one {m : ℕ} {l : List α} (hl : l.length ≤ m) (r : List α)
    (hlong : ∀ p ∈ (scan h t r l).1, m < p.length + 2) : (scan h t r l).1.length ≤ 1 := by
  have hle := length_scan_tail_le (h := h) (t := t) r l
  rcases hps : (scan h t r l).1 with _ | ⟨p, _ | ⟨p', ps⟩⟩
  · simp
  · simp
  · have hp' : m < p'.length + 2 := hlong p' (by simp [hps])
    simp only [hps, List.tail_cons, List.map_cons, List.sum_cons] at hle
    omega

theorem scan_nil_fst_eq_nil {m : ℕ} {l : List α} (hl : l.length ≤ m)
    (hlong : ∀ p ∈ (scan h t [] l).1, m < p.length + 2) : (scan h t [] l).1 = [] := by
  have hle := length_scan_le (h := h) (t := t) [] l
  rcases hps : (scan h t [] l).1 with _ | ⟨p, ps⟩
  · rfl
  · have hp : m < p.length + 2 := hlong p (by simp [hps])
    simp only [hps, List.map_cons, List.sum_cons, List.length_nil] at hle
    omega

/-- The stream of blocks with headers and bodies. -/
def blocks (bs : List (List α × List α)) : List α := bs.flatMap fun b => b.1 ++ b.2

/-- A block whose body has no tail marker completes at most one long frame. -/
theorem length_scan_blocks_le {m : ℕ} (bs : List (List α × List α))
    (hbs : ∀ b ∈ bs, b.1.length ≤ m ∧ t ∉ b.2) (r : List α)
    (hlong : ∀ p ∈ (scan h t r (blocks bs)).1, m < p.length + 2) :
    (scan h t r (blocks bs)).1.length ≤ bs.length := by
  induction bs generalizing r with
  | nil => simp [blocks, scan]
  | cons b bs ih =>
    rw [List.forall_mem_cons] at hbs
    have heq : blocks (b :: bs) = b.1 ++ (b.2 ++ blocks bs) := by simp [blocks]
    rw [heq, scan_append, scan_append, scan_fst_eq_nil hbs.1.2] at hlong ⊢
    simp only [List.nil_append, List.mem_append, or_imp, forall_and] at hlong
    have hhead := length_scan_le_one hbs.1.1 r hlong.1
    have hrest := ih hbs.2 _ hlong.2
    simp only [List.nil_append, List.length_append, List.length_cons]
    omega

/-- **Fewer long frames than blocks**: the first header is too short for a frame. -/
theorem length_scan_blocks_lt {m : ℕ} {bs : List (List α × List α)} (hne : bs ≠ [])
    (hbs : ∀ b ∈ bs, b.1.length ≤ m ∧ t ∉ b.2)
    (hlong : ∀ p ∈ (scan h t [] (blocks bs)).1, m < p.length + 2) :
    (scan h t [] (blocks bs)).1.length < bs.length := by
  obtain ⟨b, bs, rfl⟩ := List.exists_cons_of_ne_nil hne
  rw [List.forall_mem_cons] at hbs
  have heq : blocks (b :: bs) = b.1 ++ (b.2 ++ blocks bs) := by simp [blocks]
  rw [heq, scan_append, scan_append, scan_fst_eq_nil hbs.1.2] at hlong ⊢
  simp only [List.nil_append, List.mem_append, or_imp, forall_and] at hlong
  have hhead := scan_nil_fst_eq_nil hbs.1.1 hlong.1
  have hrest := length_scan_blocks_le bs hbs.2 _ hlong.2
  simp only [hhead, List.nil_append, List.length_cons]
  omega

end Delimited

end LiteMonitor
