import Mathlib.Data.List.Forall2
import Mathlib.Tactic.SplitIfs

/-!
# UTF-8, byte by byte

The bytes of a text, read one after another.  Between two bytes it is enough to know in which ranges
the rest of the current character has to be.

* `Utf8.bytes text` : the bytes of a text; `Utf8.IsText s` : `s` is the bytes of some text.
* `Utf8.follow b` : the ranges of the bytes that follow the first byte of a character.
* `Utf8.run rs s` : the ranges that are left after `s`; `none` if a byte is not allowed.
* `Utf8.exists_char_iff` : **the ranges describe the characters.**
* `Utf8.run_eq_some_nil_iff` : **all of `s` is read exactly if `s` is a text.**
* `Utf8.run_eq_none_iff` : a byte is not allowed exactly if no text begins like this.
* `Utf8.Partial part rs` : `part` begins a character; `Utf8.Partial.step` reads one byte more.
* `Utf8.value_char` : the bits of the bytes are those of the character.
* `Utf8.textOf s` : the text; `Utf8.textOf_bytes` : **decoding yields the text back.**
-/

namespace LiteMonitor

namespace Utf8

/-- The bytes of a text. -/
def bytes (text : List Char) : List UInt8 := text.flatMap String.utf8EncodeChar

@[simp] theorem bytes_nil : bytes [] = [] := rfl

@[simp] theorem bytes_cons (c : Char) (text : List Char) :
    bytes (c :: text) = String.utf8EncodeChar c ++ bytes text := rfl

@[simp] theorem bytes_append (a b : List Char) : bytes (a ++ b) = bytes a ++ bytes b :=
  List.flatMap_append

theorem bytes_injective : Function.Injective bytes := by
  intro a b h
  have hutf : a.utf8Encode = b.utf8Encode := congrArg List.toByteArray h
  apply String.ofList_injective
  rw [← String.toByteArray_inj, String.toByteArray_ofList, String.toByteArray_ofList, hutf]

/-- The bytes are those of a text. -/
def IsText (s : List UInt8) : Prop := ∃ text, bytes text = s

theorem isText_nil : IsText [] := ⟨[], rfl⟩

/-- The bytes from `low` to `high`. -/
structure Range where
  low : ℕ
  high : ℕ
  le : low ≤ high
  lt : high < 256
  deriving DecidableEq

/-- The byte is in the range. -/
def Range.Holds (r : Range) (b : UInt8) : Prop := r.low ≤ b.toNat ∧ b.toNat ≤ r.high

instance (r : Range) (b : UInt8) : Decidable (r.Holds b) := inferInstanceAs (Decidable (_ ∧ _))

/-- The bytes that continue a character. -/
def tail : Range := ⟨0x80, 0xBF, by decide, by decide⟩

/-- After `0xE0` : no character that is shorter. -/
def afterE0 : Range := ⟨0xA0, 0xBF, by decide, by decide⟩

/-- After `0xED` : no surrogate. -/
def afterED : Range := ⟨0x80, 0x9F, by decide, by decide⟩

/-- After `0xF0` : no character that is shorter. -/
def afterF0 : Range := ⟨0x90, 0xBF, by decide, by decide⟩

/-- After `0xF4` : nothing above `0x10FFFF`. -/
def afterF4 : Range := ⟨0x80, 0x8F, by decide, by decide⟩

/-- What has to follow the first byte `n` of a character; `none` if no character begins with it. -/
def lead (n : ℕ) : Option (List Range) :=
  if n < 0x80 then some []
  else if n < 0xC2 then none
  else if n < 0xE0 then some [tail]
  else if n = 0xE0 then some [afterE0, tail]
  else if n = 0xED then some [afterED, tail]
  else if n < 0xF0 then some [tail, tail]
  else if n = 0xF0 then some [afterF0, tail, tail]
  else if n < 0xF4 then some [tail, tail, tail]
  else if n = 0xF4 then some [afterF4, tail, tail]
  else none

def follow (b : UInt8) : Option (List Range) := lead b.toNat

/-- One byte, when the rest of a character has to be in the ranges `rs`. -/
def step (rs : List Range) (b : UInt8) : Option (List Range) :=
  match rs with
  | [] => follow b
  | r :: rs => if r.Holds b then some rs else none

/-- The ranges that are left after the bytes `s`. -/
def run (rs : List Range) (s : List UInt8) : Option (List Range) := s.foldlM step rs

@[simp] theorem run_nil (rs : List Range) : run rs [] = some rs := rfl

@[simp] theorem run_cons (rs : List Range) (b : UInt8) (s : List UInt8) :
    run rs (b :: s) = (step rs b).bind (run · s) := by
  rw [run, List.foldlM_cons]
  rfl

theorem run_append (rs : List Range) (s t : List UInt8) :
    run rs (s ++ t) = (run rs s).bind (run · t) := by
  rw [run, List.foldlM_append]
  rfl

/-! ### Characters -/

theorem toNat_ofNat {n : ℕ} (hn : n < 256) : (UInt8.ofNat n).toNat = n := by
  rw [UInt8.toNat_ofNat']
  exact Nat.mod_eq_of_lt hn

theorem holds_ofNat {r : Range} {n : ℕ} (h : r.low ≤ n ∧ n ≤ r.high) :
    r.Holds (UInt8.ofNat n) := by
  have hlt := r.lt
  unfold Range.Holds
  rwa [toNat_ofNat (by omega)]

theorem holds_tail (n : ℕ) : tail.Holds (UInt8.ofNat (n % 0x40 + 0x80)) := by
  refine holds_ofNat ?_
  simp only [tail]
  omega

theorem follow_ofNat {n : ℕ} (hn : n < 256) : follow (UInt8.ofNat n) = lead n := by
  unfold follow
  rw [toNat_ofNat hn]

/-- The bytes of a character are in the ranges that its first byte announces. -/
theorem follow_of_char {c : Char} {b : UInt8} {bs : List UInt8}
    (h : String.utf8EncodeChar c = b :: bs) :
    ∃ rs, follow b = some rs ∧ List.Forall₂ Range.Holds rs bs := by
  have hvalid : c.val.toNat < 0xD800 ∨ 0xDFFF < c.val.toNat ∧ c.val.toNat < 0x110000 := c.valid
  simp only [String.utf8EncodeChar] at h
  generalize c.val.toNat = v at h hvalid
  split_ifs at h with h1 h2 h3
  all_goals
    obtain ⟨rfl, rfl⟩ := List.cons.inj h
    rw [follow_ofNat (by omega)]
    unfold lead
  · rw [if_pos (by omega)]
    exact ⟨[], rfl, .nil⟩
  · rw [if_neg (by omega), if_neg (by omega), if_pos (by omega)]
    exact ⟨_, rfl, .cons (holds_tail _) .nil⟩
  · rw [if_neg (by omega), if_neg (by omega), if_neg (by omega)]
    split_ifs with he0 hed
    · refine ⟨_, rfl, .cons (holds_ofNat ?_) (.cons (holds_tail _) .nil)⟩
      simp only [afterE0]
      omega
    · refine ⟨_, rfl, .cons (holds_ofNat ?_) (.cons (holds_tail _) .nil)⟩
      simp only [afterED]
      omega
    · exact ⟨_, rfl, .cons (holds_tail _) (.cons (holds_tail _) .nil)⟩
    all_goals omega
  · rw [if_neg (by omega), if_neg (by omega), if_neg (by omega), if_neg (by omega),
      if_neg (by omega), if_neg (by omega)]
    split_ifs with hf0 hf3 hf4
    · refine ⟨_, rfl, .cons (holds_ofNat ?_) (.cons (holds_tail _) (.cons (holds_tail _) .nil))⟩
      simp only [afterF0]
      omega
    · exact ⟨_, rfl, .cons (holds_tail _) (.cons (holds_tail _) (.cons (holds_tail _) .nil))⟩
    · refine ⟨_, rfl, .cons (holds_ofNat ?_) (.cons (holds_tail _) (.cons (holds_tail _) .nil))⟩
      simp only [afterF4]
      omega
    · omega

theorem exists_val_eq {n : ℕ} (hn : n.isValidChar) : ∃ c : Char, c.val.toNat = n :=
  ⟨Char.ofNatAux n hn, rfl⟩

theorem ofNat_eq {n : ℕ} {b : UInt8} (h : n = b.toNat) : UInt8.ofNat n = b := by
  rw [h, UInt8.ofNat_toNat]

theorem exists_char_two {a b : UInt8} (ha : 0xC2 ≤ a.toNat ∧ a.toNat < 0xE0) (hb : tail.Holds b) :
    ∃ c, String.utf8EncodeChar c = [a, b] := by
  obtain ⟨hlow, hhigh⟩ := hb
  simp only [tail] at hlow hhigh
  obtain ⟨c, hc⟩ : ∃ c : Char, c.val.toNat = (a.toNat - 0xC0) * 64 + (b.toNat - 0x80) :=
    exists_val_eq (Or.inl (by omega))
  refine ⟨c, ?_⟩
  simp only [String.utf8EncodeChar, hc]
  rw [if_neg (by omega), if_pos (by omega), ofNat_eq (b := a) (by omega),
    ofNat_eq (b := b) (by omega)]

theorem exists_char_three {a b d : UInt8} {r : Range} (ha : 0xE0 ≤ a.toNat ∧ a.toNat < 0xF0)
    (hr : 0x80 ≤ r.low ∧ r.high ≤ 0xBF) (he0 : a.toNat = 0xE0 → 0xA0 ≤ r.low)
    (hed : a.toNat = 0xED → r.high ≤ 0x9F) (hb : r.Holds b) (hd : tail.Holds d) :
    ∃ c, String.utf8EncodeChar c = [a, b, d] := by
  obtain ⟨hblow, hbhigh⟩ := hb
  obtain ⟨hdlow, hdhigh⟩ := hd
  simp only [tail] at hdlow hdhigh
  obtain ⟨c, hc⟩ : ∃ c : Char, c.val.toNat =
      (a.toNat - 0xE0) * 4096 + (b.toNat - 0x80) * 64 + (d.toNat - 0x80) :=
    exists_val_eq (by unfold Nat.isValidChar; omega)
  refine ⟨c, ?_⟩
  simp only [String.utf8EncodeChar, hc]
  rw [if_neg (by omega), if_neg (by omega), if_pos (by omega), ofNat_eq (b := a) (by omega),
    ofNat_eq (b := b) (by omega), ofNat_eq (b := d) (by omega)]

theorem exists_char_four {a b d e : UInt8} {r : Range} (ha : 0xF0 ≤ a.toNat ∧ a.toNat < 0xF5)
    (hr : 0x80 ≤ r.low ∧ r.high ≤ 0xBF) (hf0 : a.toNat = 0xF0 → 0x90 ≤ r.low)
    (hf4 : a.toNat = 0xF4 → r.high ≤ 0x8F) (hb : r.Holds b) (hd : tail.Holds d)
    (he : tail.Holds e) : ∃ c, String.utf8EncodeChar c = [a, b, d, e] := by
  obtain ⟨hblow, hbhigh⟩ := hb
  obtain ⟨hdlow, hdhigh⟩ := hd
  obtain ⟨helow, hehigh⟩ := he
  simp only [tail] at hdlow hdhigh helow hehigh
  obtain ⟨c, hc⟩ : ∃ c : Char, c.val.toNat = (a.toNat - 0xF0) * 262144 +
      (b.toNat - 0x80) * 4096 + (d.toNat - 0x80) * 64 + (e.toNat - 0x80) :=
    exists_val_eq (by unfold Nat.isValidChar; omega)
  refine ⟨c, ?_⟩
  simp only [String.utf8EncodeChar, hc]
  rw [if_neg (by omega), if_neg (by omega), if_neg (by omega), ofNat_eq (b := a) (by omega),
    ofNat_eq (b := b) (by omega), ofNat_eq (b := d) (by omega), ofNat_eq (b := e) (by omega)]

/-- Bytes in the ranges that the first byte announces are those of a character. -/
theorem char_of_follow {b : UInt8} {rs : List Range} {bs : List UInt8} (hb : follow b = some rs)
    (hbs : List.Forall₂ Range.Holds rs bs) : ∃ c, String.utf8EncodeChar c = b :: bs := by
  unfold follow lead at hb
  split_ifs at hb with h1 h2 h3 h4 h5 h6 h7 h8 h9
  all_goals obtain rfl := Option.some.inj hb
  · obtain rfl := List.forall₂_nil_left_iff.1 hbs
    obtain ⟨c, hc⟩ : ∃ c : Char, c.val.toNat = b.toNat := exists_val_eq (Or.inl (by omega))
    refine ⟨c, ?_⟩
    simp only [String.utf8EncodeChar, hc]
    rw [if_pos (by omega), ofNat_eq rfl]
  · obtain _ | ⟨hx, _ | _⟩ := hbs
    exact exists_char_two ⟨by omega, h3⟩ hx
  · obtain _ | ⟨hx, _ | ⟨hy, _ | _⟩⟩ := hbs
    exact exists_char_three (by omega) (by decide) (fun _ => Nat.le_refl _) (by omega) hx hy
  · obtain _ | ⟨hx, _ | ⟨hy, _ | _⟩⟩ := hbs
    exact exists_char_three (by omega) (by decide) (by omega) (fun _ => Nat.le_refl _) hx hy
  · obtain _ | ⟨hx, _ | ⟨hy, _ | _⟩⟩ := hbs
    exact exists_char_three (by omega) (by decide) (by omega) (by omega) hx hy
  · obtain _ | ⟨hx, _ | ⟨hy, _ | ⟨hz, _ | _⟩⟩⟩ := hbs
    exact exists_char_four (by omega) (by decide) (fun _ => Nat.le_refl _) (by omega) hx hy hz
  · obtain _ | ⟨hx, _ | ⟨hy, _ | ⟨hz, _ | _⟩⟩⟩ := hbs
    exact exists_char_four (by omega) (by decide) (by omega) (by omega) hx hy hz
  · obtain _ | ⟨hx, _ | ⟨hy, _ | ⟨hz, _ | _⟩⟩⟩ := hbs
    exact exists_char_four (by omega) (by decide) (by omega) (fun _ => Nat.le_refl _) hx hy hz

/-- **The ranges describe the characters.** -/
theorem exists_char_iff {b : UInt8} {bs : List UInt8} :
    (∃ c, String.utf8EncodeChar c = b :: bs) ↔
      ∃ rs, follow b = some rs ∧ List.Forall₂ Range.Holds rs bs := by
  constructor
  · rintro ⟨c, hc⟩
    exact follow_of_char hc
  · rintro ⟨rs, hb, hbs⟩
    exact char_of_follow hb hbs

/-! ### Texts -/

theorem run_append_of_holds {qs : List Range} {s : List UInt8}
    (h : List.Forall₂ Range.Holds qs s) (rs : List Range) : run (qs ++ rs) s = some rs := by
  induction h with
  | nil => rfl
  | cons hb _ ih =>
    rw [List.cons_append, run_cons, step, if_pos hb]
    exact ih

theorem run_of_holds {rs : List Range} {s : List UInt8} (h : List.Forall₂ Range.Holds rs s) :
    run rs s = some [] := by
  have hrun := run_append_of_holds h []
  rwa [List.append_nil] at hrun

theorem run_char (c : Char) : run [] (String.utf8EncodeChar c) = some [] := by
  obtain ⟨b, bs, hc⟩ := List.exists_cons_of_ne_nil (String.utf8EncodeChar_ne_nil (c := c))
  obtain ⟨rs, hb, hbs⟩ := follow_of_char hc
  rw [hc, run_cons, step, hb]
  exact run_of_holds hbs

theorem run_bytes (text : List Char) : run [] (bytes text) = some [] := by
  induction text with
  | nil => rfl
  | cons c text ih =>
    rw [bytes_cons, run_append, run_char]
    exact ih

theorem exists_of_run {rs : List Range} {s : List UInt8} (h : run rs s = some []) :
    ∃ p q, s = p ++ q ∧ List.Forall₂ Range.Holds rs p ∧ IsText q := by
  induction s generalizing rs with
  | nil =>
    obtain rfl := Option.some.inj h
    exact ⟨[], [], rfl, .nil, isText_nil⟩
  | cons b s ih =>
    rw [run_cons, Option.bind_eq_some_iff] at h
    obtain ⟨rs', hstep, hrun⟩ := h
    obtain ⟨p, q, rfl, hp, text, rfl⟩ := ih hrun
    cases rs with
    | nil =>
      obtain ⟨c, hc⟩ := char_of_follow hstep hp
      refine ⟨[], _, rfl, .nil, c :: text, ?_⟩
      rw [bytes_cons, hc]
      rfl
    | cons r rs =>
      simp only [step, Option.ite_none_right_eq_some] at hstep
      obtain ⟨hb, heq⟩ := hstep
      obtain rfl := Option.some.inj heq
      exact ⟨b :: p, _, rfl, .cons hb hp, text, rfl⟩

/-- **All bytes are read exactly if they are those of a text.** -/
theorem run_eq_some_nil_iff {s : List UInt8} : run [] s = some [] ↔ IsText s := by
  constructor
  · intro h
    obtain ⟨p, q, rfl, hp, hq⟩ := exists_of_run h
    obtain rfl := List.forall₂_nil_left_iff.1 hp
    exact hq
  · rintro ⟨text, rfl⟩
    exact run_bytes text

instance : DecidablePred IsText := fun _ => decidable_of_iff _ run_eq_some_nil_iff

theorem exists_holds (rs : List Range) : ∃ s, List.Forall₂ Range.Holds rs s := by
  refine ⟨rs.map fun r => UInt8.ofNat r.low, ?_⟩
  rw [List.forall₂_map_right_iff, List.forall₂_same]
  exact fun r _ => holds_ofNat ⟨Nat.le_refl _, r.le⟩

/-- A byte is not allowed exactly if no text begins like this. -/
theorem run_eq_none_iff {s : List UInt8} : run [] s = none ↔ ∀ t, ¬ IsText (s ++ t) := by
  constructor
  · intro h t ht
    rw [← run_eq_some_nil_iff, run_append, h] at ht
    cases ht
  · intro h
    by_contra hne
    obtain ⟨rs, hrs⟩ := Option.ne_none_iff_exists'.1 hne
    obtain ⟨t, ht⟩ := exists_holds rs
    refine h t (run_eq_some_nil_iff.1 ?_)
    rw [run_append, hrs]
    exact run_of_holds ht

/-! ### In the middle of a character -/

/-- `part` begins a character, or is empty, and the rest has to be in the ranges `rs`. -/
inductive Partial : List UInt8 → List Range → Prop
  | start : Partial [] []
  | inside {b : UInt8} {bs : List UInt8} {qs rs : List Range} :
      follow b = some (qs ++ rs) → List.Forall₂ Range.Holds qs bs → rs ≠ [] → Partial (b :: bs) rs

theorem length_of_follow {b : UInt8} {rs : List Range} (h : follow b = some rs) :
    rs.length ≤ 3 := by
  unfold follow lead at h
  split_ifs at h
  all_goals
    obtain rfl := Option.some.inj h
    simp

theorem Partial.length_le {part : List UInt8} {rs : List Range} (h : Partial part rs) :
    part.length ≤ 3 := by
  cases h with
  | start => exact Nat.zero_le _
  | inside hb hbs hrs =>
    have hlen := length_of_follow hb
    have hpos := List.length_pos_iff.2 hrs
    rw [List.length_append] at hlen
    rw [List.length_cons, ← hbs.length_eq]
    omega

theorem Partial.nil_iff {part : List UInt8} {rs : List Range} (h : Partial part rs) :
    rs = [] ↔ part = [] := by
  cases h with
  | start => exact iff_of_true rfl rfl
  | inside _ _ hrs => exact iff_of_false hrs (List.cons_ne_nil _ _)

theorem Partial.run_eq {part : List UInt8} {rs : List Range} (h : Partial part rs) :
    run [] part = some rs := by
  cases h with
  | start => rfl
  | inside hb hbs _ =>
    rw [run_cons, Utf8.step, hb]
    exact run_append_of_holds hbs rs

theorem Partial.step {part : List UInt8} {rs rs' : List Range} {b : UInt8} (h : Partial part rs)
    (hstep : Utf8.step rs b = some rs') :
    (rs' ≠ [] ∧ Partial (part ++ [b]) rs') ∨
      (rs' = [] ∧ ∃ c, String.utf8EncodeChar c = part ++ [b]) := by
  cases h with
  | start =>
    by_cases hrs : rs' = []
    · subst hrs
      exact Or.inr ⟨rfl, char_of_follow hstep .nil⟩
    · exact Or.inl ⟨hrs, @Partial.inside b [] [] rs' hstep .nil hrs⟩
  | @inside a bs qs _ ha hbs hne =>
    obtain ⟨r, rs, rfl⟩ := List.exists_cons_of_ne_nil hne
    simp only [Utf8.step, Option.ite_none_right_eq_some, Option.some.injEq] at hstep
    obtain ⟨hb, rfl⟩ := hstep
    rw [List.append_cons] at ha
    have hall : List.Forall₂ Range.Holds (qs ++ [r]) (bs ++ [b]) :=
      List.rel_append hbs (.cons hb .nil)
    by_cases hrs : rs = []
    · subst hrs
      rw [List.append_nil] at ha
      exact Or.inr ⟨rfl, char_of_follow ha hall⟩
    · exact Or.inl ⟨hrs, .inside ha hall hrs⟩

/-! ### Code points -/

/-- The bits of the code point in the first byte. -/
def leadBits (n : ℕ) : ℕ :=
  if n < 0x80 then n else if n < 0xE0 then n % 0x20 else if n < 0xF0 then n % 0x10 else n % 0x08

/-- Six bits more. -/
def addBits (n : ℕ) (b : UInt8) : ℕ := n * 64 + b.toNat % 64

/-- The code point, as far as the bytes give it. -/
def value : List UInt8 → ℕ
  | [] => 0
  | b :: bs => bs.foldl addBits (leadBits b.toNat)

theorem value_snoc {part : List UInt8} (hne : part ≠ []) (b : UInt8) :
    value (part ++ [b]) = addBits (value part) b := by
  obtain ⟨a, bs, rfl⟩ := List.exists_cons_of_ne_nil hne
  simp only [value, List.cons_append, List.foldl_append, List.foldl_cons, List.foldl_nil]

/-- **The code point at the end of a character is the character.** -/
theorem value_char (c : Char) : value (String.utf8EncodeChar c) = c.val.toNat := by
  have hvalid : c.val.toNat < 0xD800 ∨ 0xDFFF < c.val.toNat ∧ c.val.toNat < 0x110000 := c.valid
  simp only [String.utf8EncodeChar]
  generalize c.val.toNat = v at hvalid
  split_ifs with h1 h2 h3
  all_goals
    simp only [value, List.foldl_cons, List.foldl_nil, addBits]
    repeat rw [toNat_ofNat (by omega)]
    unfold leadBits
  · rw [if_pos (by omega)]
  · rw [if_neg (by omega), if_pos (by omega)]
    omega
  · rw [if_neg (by omega), if_neg (by omega), if_pos (by omega)]
    omega
  · rw [if_neg (by omega), if_neg (by omega), if_neg (by omega)]
    omega

theorem value_lt_of_partial {part : List UInt8} (h : part.length ≤ 3) : value part < 1048576 := by
  have hlead : ∀ b : UInt8, leadBits b.toNat < 2 ^ 7 := by
    intro b
    have hb := b.toNat_lt
    unfold leadBits
    split_ifs <;> omega
  match part with
  | [] => decide
  | [a] =>
    have ha := hlead a
    simp only [value, List.foldl_nil]
    omega
  | [a, b] =>
    have ha := hlead a
    simp only [value, List.foldl_cons, List.foldl_nil, addBits]
    omega
  | [a, b, d] =>
    have ha := hlead a
    simp only [value, List.foldl_cons, List.foldl_nil, addBits]
    omega

theorem lt_val_of_two {c : Char} {a b : UInt8} {bs : List UInt8}
    (h : String.utf8EncodeChar c = a :: b :: bs) : 0x7F < c.val.toNat := by
  simp only [String.utf8EncodeChar] at h
  split_ifs at h with hle
  · simp at h
  all_goals omega

theorem encode_ascii {c : Char} (h : c.toNat < 0x80) :
    String.utf8EncodeChar c = [UInt8.ofNat c.toNat] := by
  have hle : c.val.toNat ≤ 0x7F := Nat.le_of_lt_succ h
  simp only [String.utf8EncodeChar]
  rw [if_pos hle]
  rfl

/-! ### Decoding -/

/-- The characters of the bytes that follow `part`, as far as they are allowed. -/
def chars (part : List UInt8) (rs : List Range) : List UInt8 → List Char
  | [] => []
  | b :: s =>
    match step rs b with
    | none => []
    | some [] => Char.ofNat (value (part ++ [b])) :: chars [] [] s
    | some (r :: rs) => chars (part ++ [b]) (r :: rs) s

/-- The text whose bytes these are. -/
def textOf (s : List UInt8) : List Char := chars [] [] s

theorem chars_char {c : Char} {part rest : List UInt8} {b : UInt8} {rs rs' : List Range}
    (hc : String.utf8EncodeChar c = part ++ b :: rest) (hstep : step rs b = some rs')
    (hrest : List.Forall₂ Range.Holds rs' rest) (s : List UInt8) :
    chars part rs (b :: rest ++ s) = c :: chars [] [] s := by
  induction rest generalizing part b rs rs' with
  | nil =>
    obtain rfl := List.forall₂_nil_right_iff.1 hrest
    have hval : Char.ofNat (value (part ++ [b])) = c := by
      rw [← hc, value_char]
      exact Char.ofNat_toNat c
    rw [List.cons_append, chars, hstep]
    simp only [hval, List.nil_append]
  | cons d rest ih =>
    obtain ⟨r, rs'', hd, hrest', rfl⟩ := List.forall₂_cons_right_iff.1 hrest
    rw [List.cons_append, chars, hstep]
    exact ih (by rw [hc]; simp) (if_pos hd) hrest'

/-- **Decoding yields the text back.** -/
theorem textOf_bytes (text : List Char) : textOf (bytes text) = text := by
  induction text with
  | nil => rfl
  | cons c text ih =>
    obtain ⟨b, bs, hc⟩ := List.exists_cons_of_ne_nil (String.utf8EncodeChar_ne_nil (c := c))
    obtain ⟨rs, hb, hbs⟩ := follow_of_char hc
    have hstep : step [] b = some rs := hb
    have hchar : String.utf8EncodeChar c = [] ++ b :: bs := hc
    rw [bytes_cons, hc, textOf, chars_char hchar hstep hbs]
    exact congrArg _ ih

end Utf8

end LiteMonitor
