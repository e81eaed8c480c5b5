import LiteMonitor.Config.Parameters
import LiteMonitor.Control.Traversal
import LiteMonitor.Json.Decode

/-!
# Escaped strings

`serializer::dump_escaped` under the arguments of `dump()`: the error handler is strict, and other
than ASCII characters are not escaped.  The bytes of a string are decoded one after another, and its
characters pass through a buffer of 512 bytes.

* `Escaper` : what the loop keeps; `Escaper.next` : one pass of it.
* `dumpEscaped o s` : the output after the string `s`, `o` before it.
* `escapeChar c`, `escaped text` : what is written for a character and for a text.
* `Escaping` : the invariant of the loop; `Escaping.next`, `Escaping.scan`.
* `dumpEscaped_spec` : **a text is written escaped, anything else raises at its first wrong byte,
  and the buffer is never overrun.**
-/

namespace LiteMonitor

namespace Serializer

open Utf8

/-- What the loop keeps between two bytes.  The buffer is given by its first `bytes` bytes; the
variables that only the other error handlers read are left out. -/
structure Escaper where
  codepoint : UInt32
  state : UInt8
  string_buffer : List UInt8
  o : List UInt8
  deriving DecidableEq

/-- `hex_bytes`. -/
def hexBytes (byte : UInt8) : String :=
  let nibble_to_hex := "0123456789ABCDEF".toList
  String.ofList [nibble_to_hex.getD (byte.toNat / 16) 'F', nibble_to_hex.getD (byte.toNat % 16) 'F']

/-- `type_error::create(316, what_arg, nullptr)`. -/
def typeError316 (what_arg : String) : Fault :=
  .raised ("[json.exception.type_error.316] " ++ what_arg)

def invalidByte (i : ℕ) (byte : UInt8) : Fault :=
  typeError316 ("invalid UTF-8 byte at index " ++ toString i ++ ": 0x" ++ hexBytes byte)

def incompleteString (last : UInt8) : Fault :=
  typeError316 ("incomplete UTF-8 string; last byte: 0x" ++ hexBytes last)

/-- `\uxxxx` with the digits of `n`. -/
def unicodeEscape (n : ℕ) : List Char :=
  ['\\', 'u', Nat.digitChar (n / 4096 % 16), Nat.digitChar (n / 256 % 16),
    Nat.digitChar (n / 16 % 16), Nat.digitChar (n % 16)]

namespace Escaper

/-- `string_buffer[bytes++] = byte`. -/
def put (e : Escaper) (byte : UInt8) : Except Fault Escaper :=
  if e.string_buffer.length < 512 then .ok { e with string_buffer := e.string_buffer ++ [byte] }
  else .error .outOfBounds

/-- A backslash and a letter. -/
def putEscape (e : Escaper) (letter : Char) : Except Fault Escaper := do
  let e ← e.put (UInt8.ofNat '\\'.toNat)
  e.put (UInt8.ofNat letter.toNat)

/-- `snprintf(.., 7, "\\u%04x", n)`, which writes a zero behind the six bytes. -/
def putUnicode (e : Escaper) (n : ℕ) : Except Fault Escaper :=
  if e.string_buffer.length + 7 ≤ 512 then
    .ok { e with string_buffer := e.string_buffer ++ bytes (unicodeEscape n) }
  else .error .outOfBounds

/-- A new code point is written to the buffer; `byte` is its last byte. -/
def putCodepoint (e : Escaper) (byte : UInt8) : Except Fault Escaper :=
  if e.codepoint = 0x08 then e.putEscape 'b'
  else if e.codepoint = 0x09 then e.putEscape 't'
  else if e.codepoint = 0x0A then e.putEscape 'n'
  else if e.codepoint = 0x0C then e.putEscape 'f'
  else if e.codepoint = 0x0D then e.putEscape 'r'
  else if e.codepoint = 0x22 then e.putEscape '"'
  else if e.codepoint = 0x5C then e.putEscape '\\'
  else if e.codepoint ≤ 0x1F then e.putUnicode e.codepoint.toUInt16.toNat
  else e.put byte

/-- After a code point the buffer is written out if less than 13 bytes are left. -/
def accept (e : Escaper) (byte : UInt8) : Except Fault Escaper := do
  let e ← e.putCodepoint byte
  if 512 - e.string_buffer.length < 13 then
    return { e with o := e.o ++ e.string_buffer, string_buffer := [] }
  else return e

/-- One pass of the loop, for the byte at index `i`. -/
def next (e : Escaper) (i : ℕ) (byte : UInt8) : Except Fault Escaper := do
  let (state, codepoint) ← decode e.state e.codepoint byte
  let e := { e with state := state, codepoint := codepoint }
  if state = UTF8_ACCEPT then e.accept byte
  else if state = UTF8_REJECT then .error (invalidByte i byte)
  else e.put byte

/-- The loop, from index `i` on. -/
def scan (e : Escaper) (i : ℕ) : StdString → Except Fault Escaper
  | [] => .ok e
  | byte :: s => do
    let e ← e.next i byte
    e.scan (i + 1) s

end Escaper

/-- `serializer::dump_escaped`. -/
def dumpEscaped (o : List UInt8) (s : StdString) : Except Fault (List UInt8) := do
  let e ← Escaper.scan ⟨0, UTF8_ACCEPT, [], o⟩ 0 s
  if e.state = UTF8_ACCEPT then return e.o ++ e.string_buffer
  else
    match s.getLast? with
    | some last => .error (incompleteString last)
    | none => .error .outOfBounds

/-! ### What is written -/

/-- What stands for a character in a string. -/
def escapeChar (c : Char) : List Char :=
  if c = '\x08' then ['\\', 'b']
  else if c = '\t' then ['\\', 't']
  else if c = '\n' then ['\\', 'n']
  else if c = '\x0C' then ['\\', 'f']
  else if c = '\r' then ['\\', 'r']
  else if c = '"' then ['\\', '"']
  else if c = '\\' then ['\\', '\\']
  else if c.toNat ≤ 0x1F then unicodeEscape c.toNat
  else [c]

def escaped (text : List Char) : List Char := text.flatMap escapeChar

example : dumpEscaped [] (stdString "é\n") = .ok (stdString "é\\n") := by decide

theorem escapeChar_eq (c : Char) : escapeChar c =
    if c.val = 0x08 then ['\\', 'b']
    else if c.val = 0x09 then ['\\', 't']
    else if c.val = 0x0A then ['\\', 'n']
    else if c.val = 0x0C then ['\\', 'f']
    else if c.val = 0x0D then ['\\', 'r']
    else if c.val = 0x22 then ['\\', '"']
    else if c.val = 0x5C then ['\\', '\\']
    else if c.val ≤ 0x1F then unicodeEscape c.toNat
    else [c] := by
  unfold escapeChar
  simp only [Char.ext_iff, UInt32.le_iff_toNat_le]
  rfl

theorem length_unicodeEscape (n : ℕ) : (bytes (unicodeEscape n)).length = 6 := by
  have hdigit : ∀ m < 16, (String.utf8EncodeChar (Nat.digitChar m)).length = 1 := by decide
  simp only [unicodeEscape, bytes_cons, bytes_nil, List.length_append, List.length_nil]
  rw [hdigit _ (by omega), hdigit _ (by omega), hdigit _ (by omega), hdigit _ (by omega)]
  rfl

namespace Escaper

variable {e : Escaper} {c : Char} {part : List UInt8} {byte : UInt8}

/-- `e` with the bytes `w` more in its buffer. -/
def buffered (e : Escaper) (w : List UInt8) : Escaper :=
  { e with string_buffer := e.string_buffer ++ w }

theorem put_of_lt (h : e.string_buffer.length < 512) : e.put byte = .ok (e.buffered [byte]) :=
  if_pos h

theorem putEscape_of_lt (h : e.string_buffer.length < 511) {letter : Char}
    (hletter : letter.toNat < 0x80) :
    e.putEscape letter = .ok (e.buffered (bytes ['\\', letter])) := by
  have hfirst : e.put (UInt8.ofNat '\\'.toNat) = .ok (e.buffered [UInt8.ofNat '\\'.toNat]) :=
    put_of_lt (by omega)
  have hroom : (e.buffered [UInt8.ofNat '\\'.toNat]).string_buffer.length < 512 := by
    simp only [buffered, List.length_append, List.length_singleton]
    omega
  rw [putEscape, hfirst]
  show (e.buffered _).put _ = _
  rw [put_of_lt hroom, bytes_cons, bytes_cons, encode_ascii hletter,
    encode_ascii (c := '\\') (by decide)]
  simp [buffered]

theorem putUnicode_of_le (h : e.string_buffer.length + 7 ≤ 512) (n : ℕ) :
    e.putUnicode n = .ok (e.buffered (bytes (unicodeEscape n))) :=
  if_pos h

/-- **A code point is written escaped**; if its bytes are written as they are, all but the last one
are in the buffer already. -/
theorem putCodepoint_spec (hcode : e.codepoint.toNat = c.val.toNat)
    (hpart : String.utf8EncodeChar c = part ++ [byte])
    (hlen : e.string_buffer.length ≤ 499 + part.length) (hshort : part.length ≤ 3) :
    ∃ w, e.putCodepoint byte = .ok (e.buffered w) ∧ part ++ w = bytes (escapeChar c) ∧
      e.string_buffer.length + w.length ≤ 512 := by
  -- the characters that are escaped have one byte
  have hnil : c.val.toNat ≤ 0x7F → part = [] := by
    intro hle
    match part, hpart with
    | [], _ => rfl
    | a :: part, hpart =>
      obtain ⟨b, bs, hrest⟩ := List.exists_cons_of_ne_nil
        (List.append_ne_nil_of_right_ne_nil part (List.cons_ne_nil byte []))
      rw [List.cons_append, hrest] at hpart
      exact absurd (lt_val_of_two hpart) (Nat.not_lt.2 hle)
  have hescape : ∀ letter : Char, letter.toNat < 0x80 → part = [] →
      ∃ w, e.putEscape letter = .ok (e.buffered w) ∧ part ++ w = bytes ['\\', letter] ∧
        e.string_buffer.length + w.length ≤ 512 := by
    rintro letter hletter rfl
    rw [List.length_nil] at hlen
    refine ⟨_, putEscape_of_lt (by omega) hletter, rfl, ?_⟩
    rw [bytes_cons, bytes_cons, encode_ascii hletter, encode_ascii (c := '\\') (by decide)]
    simp only [bytes_nil, List.length_append, List.length_singleton, List.length_nil]
    omega
  obtain heq : e.codepoint = c.val := UInt32.toNat_inj.1 hcode
  unfold putCodepoint
  rw [heq, escapeChar_eq]
  split_ifs with h1 h2 h3 h4 h5 h6 h7 h8
  · exact hescape 'b' (by decide) (hnil (by rw [h1]; decide))
  · exact hescape 't' (by decide) (hnil (by rw [h2]; decide))
  · exact hescape 'n' (by decide) (hnil (by rw [h3]; decide))
  · exact hescape 'f' (by decide) (hnil (by rw [h4]; decide))
  · exact hescape 'r' (by decide) (hnil (by rw [h5]; decide))
  · exact hescape '"' (by decide) (hnil (by rw [h6]; decide))
  · exact hescape '\\' (by decide) (hnil (by rw [h7]; decide))
  · have hsmall : c.val.toNat ≤ 0x1F := UInt32.le_iff_toNat_le.1 h8
    obtain rfl := hnil (by omega)
    have hcut : c.val.toUInt16.toNat = c.toNat := by
      rw [UInt32.toNat_toUInt16]
      exact Nat.mod_eq_of_lt (by omega)
    rw [List.length_nil] at hlen
    refine ⟨_, putUnicode_of_le (by omega) _, by rw [hcut]; rfl, ?_⟩
    rw [length_unicodeEscape]
    omega
  · refine ⟨[byte], put_of_lt (by omega), ?_, ?_⟩
    · rw [bytes_cons, hpart, bytes_nil, List.append_nil]
    · rw [List.length_singleton]
      omega

theorem accept_spec (hcode : e.codepoint.toNat = c.val.toNat)
    (hpart : String.utf8EncodeChar c = part ++ [byte])
    (hlen : e.string_buffer.length ≤ 499 + part.length) (hshort : part.length ≤ 3) :
    ∃ e' w, e.accept byte = .ok e' ∧ part ++ w = bytes (escapeChar c) ∧
      e'.o ++ e'.string_buffer = e.o ++ e.string_buffer ++ w ∧ e'.string_buffer.length ≤ 499 ∧
      e'.state = e.state ∧ e'.codepoint = e.codepoint := by
  obtain ⟨w, hput, hw, hfits⟩ := putCodepoint_spec hcode hpart hlen hshort
  simp only [accept, hput, bind, Except.bind]
  by_cases hfull : 512 - (e.buffered w).string_buffer.length < 13
  · refine ⟨_, w, if_pos hfull, hw, ?_, Nat.zero_le _, rfl, rfl⟩
    simp [buffered]
  · refine ⟨_, w, if_neg hfull, hw, ?_, ?_, rfl, rfl⟩
    · simp [buffered]
    · have hsum : (e.buffered w).string_buffer.length = e.string_buffer.length + w.length := by
        simp [buffered]
      omega

end Escaper

/-- After the bytes `p`: the characters so far are written, and the bytes of the character that has
begun are in the buffer. -/
structure Escaping (o p : List UInt8) (text : List Char) (part : List UInt8) (rs : List Range)
    (e : Escaper) : Prop where
  bytes_eq : p = bytes text ++ part
  decoded : Decoded part rs e.state e.codepoint
  written : e.o ++ e.string_buffer = o ++ bytes (escaped text) ++ part
  room : e.string_buffer.length ≤ 499 + part.length

theorem escaping_init (o : List UInt8) :
    Escaping o [] [] [] [] ⟨0, UTF8_ACCEPT, [], o⟩ where
  bytes_eq := rfl
  decoded := ⟨.start, rfl, fun hne => absurd rfl hne⟩
  written := by simp [escaped]
  room := Nat.zero_le _

section Escaping

variable {o p : List UInt8} {text : List Char} {part : List UInt8} {rs : List Range} {e : Escaper}

theorem Escaping.run_eq (h : Escaping o p text part rs e) : Utf8.run [] p = some rs := by
  rw [h.bytes_eq, run_append, run_bytes]
  exact h.decoded.between.run_eq

/-- **One pass of the loop** raises for a byte that is not allowed, and keeps the invariant
otherwise. -/
theorem Escaping.next (h : Escaping o p text part rs e) (i : ℕ) (byte : UInt8) :
    (Utf8.step rs byte = none ∧ e.next i byte = .error (invalidByte i byte)) ∨
      ∃ text' part' rs' e', Utf8.step rs byte = some rs' ∧ e.next i byte = .ok e' ∧
        Escaping o (p ++ [byte]) text' part' rs' e' := by
  obtain ⟨state', codep', hdecode, hcases⟩ := h.decoded.decode byte
  have hshort := h.decoded.between.length_le
  rcases hcases with ⟨hnone, rfl⟩ | ⟨rs', hstep, hacc, hrej, hdec⟩ | ⟨hstep, rfl, c, hc, hval⟩
  · refine Or.inl ⟨hnone, ?_⟩
    unfold Escaper.next
    rw [hdecode]
    rfl
  · refine Or.inr ⟨text, part ++ [byte], rs',
      Escaper.buffered { e with state := state', codepoint := codep' } [byte], hstep, ?_, ?_⟩
    · have hroom := h.room
      unfold Escaper.next
      rw [hdecode]
      show (if state' = UTF8_ACCEPT then _ else if state' = UTF8_REJECT then _ else _) = _
      rw [if_neg hacc, if_neg hrej]
      exact Escaper.put_of_lt (by show e.string_buffer.length < 512; omega)
    · refine ⟨?_, hdec, ?_, ?_⟩
      · rw [h.bytes_eq, List.append_assoc]
      · show e.o ++ (e.string_buffer ++ [byte]) = _
        rw [← List.append_assoc, h.written]
        simp only [List.append_assoc]
      · have hroom := h.room
        simp only [Escaper.buffered, List.length_append, List.length_singleton]
        omega
  · obtain ⟨e', w, haccept, hw, hwritten, hroom, hstate, hcodep⟩ :=
      Escaper.accept_spec (e := { e with state := UTF8_ACCEPT, codepoint := codep' }) hval hc h.room
        hshort
    refine Or.inr ⟨text ++ [c], [], [], e', hstep, ?_, ?_⟩
    · unfold Escaper.next
      rw [hdecode]
      exact haccept
    · refine ⟨?_, ⟨.start, ?_, fun hne => absurd rfl hne⟩, ?_, by simpa using hroom⟩
      · rw [h.bytes_eq, bytes_append, bytes_cons, hc]
        simp
      · rw [hstate]
        rfl
      · rw [hwritten]
        show e.o ++ e.string_buffer ++ w = _
        rw [h.written, List.append_assoc _ part w, hw]
        simp [escaped]

/-- **The loop** comes to the end of the string, or raises at the first byte that is not allowed. -/
theorem Escaping.scan (h : Escaping o p text part rs e) (s : StdString) :
    (∃ q b t, s = q ++ b :: t ∧ Utf8.run [] (p ++ q) ≠ none ∧
        Utf8.run [] (p ++ q ++ [b]) = none ∧
        e.scan p.length s = .error (invalidByte (p ++ q).length b)) ∨
      ∃ text' part' rs' e', e.scan p.length s = .ok e' ∧
        Escaping o (p ++ s) text' part' rs' e' := by
  induction s generalizing p text part rs e with
  | nil => exact Or.inr ⟨text, part, rs, e, rfl, by rwa [List.append_nil]⟩
  | cons b s ih =>
    rcases h.next p.length b with ⟨hnone, hraise⟩ | ⟨text₁, part₁, rs₁, e₁, hstep, hnext, h₁⟩
    · refine Or.inl ⟨[], b, s, rfl, ?_, ?_, ?_⟩
      · rw [List.append_nil, h.run_eq]
        exact Option.some_ne_none _
      · rw [List.append_nil, run_append, h.run_eq]
        simp [hnone]
      · rw [Escaper.scan, hraise, List.append_nil]
        rfl
    · have hlen : (p ++ [b]).length = p.length + 1 := by simp
      have hscan : e.scan p.length (b :: s) = e₁.scan (p ++ [b]).length s := by
        rw [Escaper.scan, hnext, hlen]
        rfl
      rw [hscan]
      rcases ih h₁ with ⟨q, b', t, rfl, hbefore, hafter, hraise⟩ | ⟨text', part', rs', e', hok, h'⟩
      · have hsplit : p ++ b :: q = p ++ [b] ++ q := List.append_cons p b q
        exact Or.inl ⟨b :: q, b', t, rfl, by rwa [hsplit], by rwa [hsplit], by rwa [hsplit]⟩
      · exact Or.inr ⟨text', part', rs', e', hok, by rwa [List.append_cons]⟩

end Escaping

/-! ### The function -/

/-- How a string comes out. -/
inductive Escapes (o : List UInt8) (s : StdString) : Except Fault (List UInt8) → Prop
  /-- It is a text. -/
  | text {text : List Char} : bytes text = s → Escapes o s (.ok (o ++ bytes (escaped text)))
  /-- No text begins with its bytes up to `b`, but one with those before. -/
  | invalid {q t : List UInt8} {b : UInt8} : s = q ++ b :: t → (∃ r, IsText (q ++ r)) →
      (∀ r, ¬ IsText (q ++ b :: r)) → Escapes o s (.error (invalidByte q.length b))
  /-- It ends within a character. -/
  | incomplete {last : UInt8} : ¬ IsText s → (∃ r, IsText (s ++ r)) → s.getLast? = some last →
      Escapes o s (.error (incompleteString last))

theorem exists_text_of_run {s : List UInt8} (h : Utf8.run [] s ≠ none) :
    ∃ r, IsText (s ++ r) := by
  rw [ne_eq, run_eq_none_iff] at h
  simpa using h

/-- **A text is written escaped; anything else raises at its first wrong byte, or at its end.**  In
no case is the buffer or the table used beyond its end. -/
theorem dumpEscaped_spec (o : List UInt8) (s : StdString) : Escapes o s (dumpEscaped o s) := by
  rcases (escaping_init o).scan s with
    ⟨q, b, t, rfl, hbefore, hafter, hraise⟩ | ⟨text, part, rs, e, hok, h⟩
  · have hdump : dumpEscaped o (q ++ b :: t) = .error (invalidByte q.length b) := by
      rw [dumpEscaped]
      exact congrArg (· >>= _) hraise
    rw [hdump]
    refine .invalid rfl (exists_text_of_run hbefore) fun r => ?_
    have hno := run_eq_none_iff.1 hafter r
    rwa [List.nil_append, List.append_assoc] at hno
  · have hdump : dumpEscaped o s = if e.state = UTF8_ACCEPT then .ok (e.o ++ e.string_buffer)
        else match s.getLast? with
          | some last => .error (incompleteString last)
          | none => .error .outOfBounds := by
      rw [dumpEscaped]
      exact congrArg (· >>= _) hok
    rw [hdump]
    by_cases hpart : part = []
    · subst hpart
      obtain rfl := h.decoded.between.nil_iff.2 rfl
      have hs := h.bytes_eq
      have hwritten := h.written
      rw [List.nil_append, List.append_nil] at hs
      rw [List.append_nil] at hwritten
      rw [if_pos (eq_accept h.decoded.state), hwritten]
      exact .text hs.symm
    · have hstate : e.state ≠ UTF8_ACCEPT := by
        intro hacc
        have hranges := h.decoded.state
        rw [hacc] at hranges
        exact hpart (h.decoded.between.nil_iff.1 (Option.some.inj hranges).symm)
      have hne : s ≠ [] := by
        rintro rfl
        exact hpart (List.append_eq_nil_iff.1 h.bytes_eq.symm).2
      rw [if_neg hstate, List.getLast?_eq_some_getLast hne]
      have hrun := h.run_eq
      rw [List.nil_append] at hrun
      refine .incomplete ?_ ?_ (List.getLast?_eq_some_getLast hne)
      · rw [← run_eq_some_nil_iff, hrun]
        exact fun hnil => hpart (h.decoded.between.nil_iff.1 (Option.some.inj hnil))
      · exact exists_text_of_run (by rw [hrun]; exact Option.some_ne_none _)

end Serializer

end LiteMonitor
