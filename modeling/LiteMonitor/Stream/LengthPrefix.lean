import Mathlib.Data.List.Basic
import Mathlib.Data.List.Induction
import Mathlib.Tactic.Ring

/-!
# Streams of length-prefixed frames

A frame is a body preceded by its length, a big-endian number of `w` bytes.

* `toBE w n`, `ofBE` : big-endian numbers; `ofBE_toBE` : writing `n` on `w` bytes keeps
  `n % 256 ^ w`.
* `decode w s` : the bodies of the complete frames at the front of `s`; an incomplete tail is
  discarded.
* `decode_frames_append` : a reader gets back the bodies that were framed, provided their
  lengths fit into the prefix.
* `decode_frames_iff` : and only then.
* `decode_strictPrefix` : a strict prefix of a frame decodes to nothing.
-/

namespace LiteMonitor

namespace LengthPrefix

/-- The low `w` bytes of `n`, the most significant one first. -/
def toBE : ℕ → ℕ → List UInt8
  | 0, _ => []
  | w + 1, n => toBE w (n / 256) ++ [UInt8.ofNat n]

/-- The number written big-endian. -/
def ofBE (bs : List UInt8) : ℕ := bs.foldl (fun n b => n * 256 + b.toNat) 0

/-- A body with its length in front. -/
def frame (w : ℕ) (body : List UInt8) : List UInt8 := toBE w body.length ++ body

/-- Read frames as long as they are complete. -/
def decode (w : ℕ) [NeZero w] (s : List UInt8) : List (List UInt8) :=
  if w + ofBE (s.take w) ≤ s.length then
    (s.drop w).take (ofBE (s.take w)) :: decode w (s.drop (w + ofBE (s.take w)))
  else []
termination_by s.length
decreasing_by
  have hw : 0 < w := Nat.pos_of_ne_zero (NeZero.ne w)
  simp only [List.length_drop]
  omega

/-- `s` is a prefix of `p` but not all of it. -/
def StrictPrefix {α : Type*} (s p : List α) : Prop := s <+: p ∧ s.length < p.length

theorem strictPrefix_take {α : Type*} {p : List α} {n : ℕ} (hn : n < p.length) :
    StrictPrefix (p.take n) p :=
  ⟨List.take_prefix n p, by simpa using hn⟩

@[simp] theorem length_toBE (w n : ℕ) : (toBE w n).length = w := by
  induction w generalizing n with
  | zero => rfl
  | succ w ih => simp [toBE, ih]

theorem ofBE_concat (bs : List UInt8) (b : UInt8) : ofBE (bs ++ [b]) = ofBE bs * 256 + b.toNat := by
  simp [ofBE]

theorem ofBE_toBE (w n : ℕ) : ofBE (toBE w n) = n % 256 ^ w := by
  induction w generalizing n with
  | zero => simp [toBE, ofBE, Nat.mod_one]
  | succ w ih =>
    rw [toBE, ofBE_concat, ih, pow_succ, mul_comm (256 ^ w), Nat.mod_mul]
    simp only [UInt8.toNat_ofNat']
    ring

theorem toBE_mod (w n : ℕ) : toBE w (n % 256 ^ w) = toBE w n := by
  induction w generalizing n with
  | zero => rfl
  | succ w ih =>
    have hdiv : n % 256 ^ (w + 1) / 256 = n / 256 % 256 ^ w := by
      rw [pow_succ, mul_comm, Nat.mod_mul_right_div_self]
    have hlow : UInt8.ofNat (n % 256 ^ (w + 1)) = UInt8.ofNat n := by
      rw [← UInt8.toNat_inj, UInt8.toNat_ofNat', UInt8.toNat_ofNat', pow_succ, mul_comm]
      exact Nat.mod_mul_right_mod n 256 _
    rw [toBE, toBE, hdiv, ih, hlow]

theorem ofBE_lt (bs : List UInt8) : ofBE bs < 256 ^ bs.length := by
  induction bs using List.reverseRecOn with
  | nil => simp [ofBE]
  | append_singleton bs b ih =>
    have hb : b.toNat < 256 := b.toNat_lt
    rw [ofBE_concat, List.length_append, List.length_singleton, pow_succ]
    omega

theorem ofBE_toBE_of_lt {w n : ℕ} (hn : n < 256 ^ w) : ofBE (toBE w n) = n := by
  rw [ofBE_toBE, Nat.mod_eq_of_lt hn]

theorem toBE_ofBE (bs : List UInt8) : toBE bs.length (ofBE bs) = bs := by
  induction bs using List.reverseRecOn with
  | nil => rfl
  | append_singleton bs b ih =>
    have hb : b.toNat < 256 := b.toNat_lt
    have hdiv : (ofBE bs * 256 + b.toNat) / 256 = ofBE bs := by omega
    have hlow : UInt8.ofNat (ofBE bs * 256 + b.toNat) = b := by
      rw [← UInt8.toNat_inj, UInt8.toNat_ofNat']
      omega
    rw [ofBE_concat, List.length_append, List.length_singleton, toBE, hdiv, hlow, ih]

@[simp] theorem length_frame (w : ℕ) (body : List UInt8) :
    (frame w body).length = w + body.length := by
  simp [frame]

/-- The prefix is the length exactly if the length fits into it. -/
theorem ofBE_take_frame_iff {w : ℕ} {body : List UInt8} :
    ofBE ((frame w body).take w) = body.length ↔ body.length < 256 ^ w := by
  have htake : (frame w body).take w = toBE w body.length := by
    simp [frame]
  rw [htake, ofBE_toBE]
  refine ⟨fun h => ?_, Nat.mod_eq_of_lt⟩
  have hlt := Nat.mod_lt body.length (Nat.pow_pos (n := w) (show 0 < 256 by decide))
  rwa [h] at hlt

variable {w : ℕ} [NeZero w]

theorem decode_of_incomplete {s : List UInt8} (hs : s.length < w + ofBE (s.take w)) :
    decode w s = [] := by
  rw [decode, if_neg (by omega)]

theorem decode_of_length_lt {s : List UInt8} (hs : s.length < w) : decode w s = [] :=
  decode_of_incomplete (by omega)

@[simp] theorem decode_nil : decode w [] = [] :=
  decode_of_length_lt (by simpa using Nat.pos_of_ne_zero (NeZero.ne w))

theorem decode_frame_append {body : List UInt8} (hb : body.length < 256 ^ w) (s : List UInt8) :
    decode w (frame w body ++ s) = body :: decode w s := by
  have htake : (frame w body ++ s).take w = toBE w body.length := by
    simp [frame]
  have hlen : ofBE ((frame w body ++ s).take w) = body.length := by
    rw [htake, ofBE_toBE_of_lt hb]
  have hdrop : (frame w body ++ s).drop w = body ++ s := by
    simp [frame, List.append_assoc]
  have hrest : (frame w body ++ s).drop (w + body.length) = s := by
    rw [← List.drop_drop, hdrop, List.drop_left]
  rw [decode, if_pos (by rw [hlen]; simp), hlen, hdrop, hrest, List.take_left]

theorem decode_frames_append {bodies : List (List UInt8)}
    (hb : ∀ b ∈ bodies, b.length < 256 ^ w) (s : List UInt8) :
    decode w ((bodies.map (frame w)).flatten ++ s) = bodies ++ decode w s := by
  induction bodies with
  | nil => rfl
  | cons body bodies ih =>
    rw [List.forall_mem_cons] at hb
    rw [List.map_cons, List.flatten_cons, List.append_assoc, decode_frame_append hb.1, ih hb.2]
    rfl

theorem decode_frame_append_ne {body : List UInt8} (hb : 256 ^ w ≤ body.length) (s : List UInt8)
    (bodies : List (List UInt8)) : decode w (frame w body ++ s) ≠ body :: bodies := by
  intro h
  have htake : (frame w body ++ s).take w = toBE w body.length := by
    simp [frame]
  have hlt : ofBE ((frame w body ++ s).take w) < body.length := by
    rw [htake, ofBE_toBE]
    exact (Nat.mod_lt _ (Nat.pow_pos (by decide))).trans_le hb
  have hlen : (frame w body ++ s).length = w + body.length + s.length := by simp
  rw [decode, if_pos (by omega)] at h
  have hhead := congrArg List.length (List.cons.inj h).1
  rw [List.length_take] at hhead
  omega

/-- **A reader gets back the bodies that were framed exactly if their lengths fit.** -/
theorem decode_frames_iff {bodies : List (List UInt8)} :
    decode w (bodies.map (frame w)).flatten = bodies ↔ ∀ b ∈ bodies, b.length < 256 ^ w := by
  constructor
  · intro h
    induction bodies with
    | nil => exact List.forall_mem_nil _
    | cons body bodies ih =>
      rw [List.map_cons, List.flatten_cons] at h
      by_cases hb : body.length < 256 ^ w
      · rw [decode_frame_append hb] at h
        exact List.forall_mem_cons.2 ⟨hb, ih (List.cons.inj h).2⟩
      · exact absurd h (decode_frame_append_ne (Nat.le_of_not_lt hb) _ _)
  · intro hb
    have h := decode_frames_append hb []
    rwa [List.append_nil, decode_nil, List.append_nil] at h

theorem decode_strictPrefix {s body : List UInt8} (hb : body.length < 256 ^ w)
    (hs : StrictPrefix s (frame w body)) : decode w s = [] := by
  obtain ⟨⟨u, hu⟩, hlt⟩ := hs
  by_cases hw : s.length < w
  · exact decode_of_length_lt hw
  · apply decode_of_incomplete
    have htake : s.take w = toBE w body.length := by
      have h₁ : (s ++ u).take w = s.take w := by
        rw [List.take_append_of_le_length (by omega)]
      rw [← h₁, hu]
      simp [frame]
    rw [htake, ofBE_toBE_of_lt hb]
    simpa using hlt

end LengthPrefix

end LiteMonitor
