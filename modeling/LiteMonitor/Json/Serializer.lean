import LiteMonitor.Json.Escape
import LiteMonitor.Json.Float
import LiteMonitor.Text.Json

/-!
# The serializer

`serializer::dump` under the arguments of `dump()`, which asks for no indentation.

* `Json F` : `basic_json`.
* `Json.dump ops j sink` : `serializer::dump`; `Json.dumpText` : `basic_json::dump`.
* `Json.value ops j` : what a value is as JSON text; `Json.Rounded ops j v` : `v` is that value, if
  every number in `v` is rounded where there is a floating-point number.
* `Json.strings j` : the strings in a value, in the order of `dump`.
* `Json.text ops j` : the text of a value; `Json.stands_text` : it denotes the value.
* `Prints strings text sink r` : what a part of the serializer does; `Prints.seq` : two parts in
  turn.
* `Json.dump_prints` : the serializer writes the text, or the first string that is none raises.
* `Json.dumpText_spec` : **the text that is dumped denotes the value, and no other; with a discarded
  value in it, it is no JSON text.**
-/

namespace LiteMonitor

open Utf8 Numeral JsonText

/-- `basic_json`.  The members of an object are in the order of its keys; a number is an integer or
of the floating-point type `F`. -/
inductive Json (F : Type) where
  | object (members : List (StdString × Json F))
  | array (elements : List (Json F))
  | string (s : StdString)
  | boolean (b : Bool)
  | number (x : Serializer.Integer)
  | number_float (x : F)
  | discarded
  | null
  | binary (data : List UInt8) (subtype : Option UInt64)

namespace Serializer

/-- What the serializer keeps: its output and its buffer. -/
structure Sink where
  o : List UInt8
  number_buffer : List UInt8
  deriving DecidableEq

namespace Sink

/-- `o->write_characters`. -/
def write (sink : Sink) (text : List Char) : Sink := { sink with o := sink.o ++ bytes text }

/-- `dump_escaped`. -/
def dumpEscaped (sink : Sink) (s : StdString) : Except Fault Sink := do
  let o ← Serializer.dumpEscaped sink.o s
  return { sink with o := o }

/-- `dump_integer`. -/
def dumpInteger (sink : Sink) (x : Integer) : Except Fault Sink := do
  let (o, number_buffer) ← Serializer.dumpInteger sink.o sink.number_buffer x
  return { o, number_buffer }

/-- `dump_float`. -/
def dumpFloat {F : Type} (ops : Floats F) (sink : Sink) (x : F) : Except Fault Sink := do
  let (o, number_buffer) ← ops.dumpFloat sink.o sink.number_buffer x
  return { o, number_buffer }

/-- A string between its quotes. -/
def dumpString (sink : Sink) (s : StdString) : Except Fault Sink := do
  let sink ← (sink.write ['"']).dumpEscaped s
  return sink.write ['"']

/-- The bytes of a binary value; all but the last one are followed by a comma. -/
def dumpBytes (sink : Sink) : List UInt8 → Except Fault Sink
  | [] => .ok sink
  | [b] => sink.dumpInteger (.unsigned b.toUInt64)
  | b :: b' :: data => do
    let sink ← sink.dumpInteger (.unsigned b.toUInt64)
    (sink.write [',']).dumpBytes (b' :: data)

/-- A binary value is written as an object. -/
def dumpBinary (sink : Sink) (data : List UInt8) (subtype : Option UInt64) :
    Except Fault Sink := do
  let sink ← (sink.write "\x7b\"bytes\":[".toList).dumpBytes data
  let sink := sink.write "],\"subtype\":".toList
  match subtype with
  | some subtype => do
    let sink ← sink.dumpInteger (.unsigned subtype)
    return sink.write "\x7d".toList
  | none => return sink.write "null\x7d".toList

end Sink

end Serializer

namespace Json

open Serializer

variable {F : Type} (ops : Floats F)

mutual

/-- `serializer::dump`. -/
def dump : Json F → Sink → Except Fault Sink
  | .object members, sink =>
    if members.isEmpty then .ok (sink.write "\x7b\x7d".toList)
    else do
      let sink ← dumpMembers members (sink.write "\x7b".toList)
      return sink.write "\x7d".toList
  | .array elements, sink =>
    if elements.isEmpty then .ok (sink.write "[]".toList)
    else do
      let sink ← dumpElements elements (sink.write "[".toList)
      return sink.write "]".toList
  | .string s, sink => sink.dumpString s
  | .boolean b, sink => .ok (sink.write (if b then "true".toList else "false".toList))
  | .number x, sink => sink.dumpInteger x
  | .number_float x, sink => sink.dumpFloat ops x
  | .discarded, sink => .ok (sink.write "<discarded>".toList)
  | .null, sink => .ok (sink.write "null".toList)
  | .binary data subtype, sink => sink.dumpBinary data subtype

/-- The members of an object; all but the last one are followed by a comma. -/
def dumpMembers : List (StdString × Json F) → Sink → Except Fault Sink
  | [], sink => .ok sink
  | [(key, j)], sink => do
    let sink ← sink.dumpString key
    dump j (sink.write ":".toList)
  | (key, j) :: m :: members, sink => do
    let sink ← sink.dumpString key
    let sink ← dump j (sink.write ":".toList)
    dumpMembers (m :: members) (sink.write ",".toList)

/-- The elements of an array; all but the last one are followed by a comma. -/
def dumpElements : List (Json F) → Sink → Except Fault Sink
  | [], sink => .ok sink
  | [j], sink => dump j sink
  | j :: j' :: elements, sink => do
    let sink ← dump j sink
    dumpElements (j' :: elements) (sink.write ",".toList)

end

/-- `basic_json::dump`, with a serializer of its own. -/
def dumpText (j : Json F) : Except Fault StdString := do
  let sink ← j.dump ops ⟨[], List.replicate 64 0⟩
  return sink.o

end Json

/-! ### What a value is -/

namespace Json

open Serializer

variable {F : Type} (ops : Floats F)

/-- A binary value is dumped as an object. -/
def binaryValue (data : List UInt8) (subtype : Option UInt64) : Value :=
  .object [("bytes".toList, .array (data.map fun b => .number b.toNat)),
    ("subtype".toList, subtype.elim .null fun subtype => .number subtype.toNat)]

mutual

/-- What a value is as JSON text.  A floating-point number is the decimal that `grisu2` yields;
infinities and other floating-point values that are no numbers are `null`.  A discarded value is
none. -/
def value : Json F → Option Value
  | .object members => (memberValues members).map .object
  | .array elements => (elementValues elements).map .array
  | .string s => some (.string (textOf s))
  | .boolean b => some (.bool b)
  | .number x => some (.number x.val)
  | .number_float x => some (if ops.isfinite x then .number (ops.decimal x) else .null)
  | .discarded => none
  | .null => some .null
  | .binary data subtype => some (binaryValue data subtype)

def memberValues : List (StdString × Json F) → Option (List (List Char × Value))
  | [] => some []
  | (key, j) :: members => do
    let v ← value j
    let vs ← memberValues members
    return (textOf key, v) :: vs

def elementValues : List (Json F) → Option (List Value)
  | [] => some []
  | j :: elements => do
    let v ← value j
    let vs ← elementValues elements
    return v :: vs

end

mutual

/-- `v` is the value as far as JSON text can tell it: a number of `v` rounds to the floating-point
number that is in its place, and the rest of `v` is the same. -/
def Rounded : Json F → Value → Prop
  | .object members, .object vs => MembersRounded members vs
  | .array elements, .array vs => ElementsRounded elements vs
  | .string s, .string text => text = textOf s
  | .boolean b, .bool b' => b' = b
  | .number x, .number q => q = x.val
  | .number_float x, .number q => ops.isfinite x = true ∧ ops.Rounds q x
  | .number_float x, .null => ops.isfinite x = false
  | .null, .null => True
  | .binary data subtype, v => v = binaryValue data subtype
  | _, _ => False

def MembersRounded : List (StdString × Json F) → List (List Char × Value) → Prop
  | [], [] => True
  | (key, j) :: members, (k, v) :: vs => k = textOf key ∧ Rounded j v ∧ MembersRounded members vs
  | _, _ => False

def ElementsRounded : List (Json F) → List Value → Prop
  | [], [] => True
  | j :: elements, v :: vs => Rounded j v ∧ ElementsRounded elements vs
  | _, _ => False

end

mutual

/-- The strings in a value, keys among them, in the order of `dump`. -/
def strings : Json F → List StdString
  | .object members => memberStrings members
  | .array elements => elementStrings elements
  | .string s => [s]
  | .boolean _ => []
  | .number _ => []
  | .number_float _ => []
  | .discarded => []
  | .null => []
  | .binary _ _ => []

def memberStrings : List (StdString × Json F) → List StdString
  | [] => []
  | (key, j) :: members => key :: (strings j ++ memberStrings members)

def elementStrings : List (Json F) → List StdString
  | [] => []
  | j :: elements => strings j ++ elementStrings elements

end

/-- A string between its quotes. -/
def quoted (s : StdString) : List Char := '"' :: (escaped (textOf s) ++ ['"'])

/-- The text of a discarded value. -/
def discardedText : List Char := "<discarded>".toList

/-- The text of a binary value. -/
def binaryText (data : List UInt8) (subtype : Option UInt64) : List Char :=
  "\x7b\"bytes\":[".toList ++ (commas (data.map fun b => decimal b.toNat) ++
    ("],\"subtype\":".toList ++ (subtype.elim "null".toList (fun n => decimal n.toNat) ++
      "\x7d".toList)))

mutual

/-- The text of a value. -/
def text : Json F → List Char
  | .object members => "\x7b".toList ++ (commas (memberTexts members) ++ "\x7d".toList)
  | .array elements => "[".toList ++ (commas (elementTexts elements) ++ "]".toList)
  | .string s => quoted s
  | .boolean b => if b then "true".toList else "false".toList
  | .number x => decimal x.val
  | .number_float x => if ops.isfinite x then ops.text x else "null".toList
  | .discarded => discardedText
  | .null => "null".toList
  | .binary data subtype => binaryText data subtype

def memberTexts : List (StdString × Json F) → List (List Char)
  | [] => []
  | (key, j) :: members => (quoted key ++ ':' :: text j) :: memberTexts members

def elementTexts : List (Json F) → List (List Char)
  | [] => []
  | j :: elements => text j :: elementTexts elements

end

/-- Induction on a value, with the hypothesis for its members and elements. -/
theorem induction {P : Json F → Prop} (object : ∀ members, (∀ m ∈ members, P m.2) →
      P (.object members)) (array : ∀ elements, (∀ j ∈ elements, P j) → P (.array elements))
    (string : ∀ s, P (.string s)) (boolean : ∀ b, P (.boolean b)) (number : ∀ x, P (.number x))
    (number_float : ∀ x, P (.number_float x)) (discarded : P .discarded) (null : P .null)
    (binary : ∀ data subtype, P (.binary data subtype)) (j : Json F) : P j := by
  refine @Json.rec F P (fun ms => ∀ m ∈ ms, P m.2) (fun js => ∀ j ∈ js, P j) (fun m => P m.2)
    object array string boolean number number_float discarded null binary ?_ ?_ ?_ ?_ ?_ j
  · exact fun m hm => absurd hm List.not_mem_nil
  · exact fun m ms hm hms => List.forall_mem_cons.2 ⟨hm, hms⟩
  · exact fun j hj => absurd hj List.not_mem_nil
  · exact fun j js hj hjs => List.forall_mem_cons.2 ⟨hj, hjs⟩
  · exact fun _ _ h => h

end Json

namespace Serializer

/-! ### What a part of the serializer does -/

/-- Where the strings are texts, `text` is written.  Otherwise the first string that is none
raises. -/
inductive Prints (strings : List StdString) (text : List Char) (sink : Sink) :
    Except Fault Sink → Prop
  | written {number_buffer : List UInt8} : (∀ s ∈ strings, IsText s) →
      number_buffer.length = 64 →
      Prints strings text sink (.ok ⟨sink.o ++ bytes text, number_buffer⟩)
  | raised {p q : List StdString} {s : StdString} {fault : Fault} : strings = p ++ s :: q →
      (∀ t ∈ p, IsText t) → ¬ IsText s → (∃ o, Escapes o s (.error fault)) →
      Prints strings text sink (.error fault)

namespace Prints

variable {S S' : List StdString} {text text' : List Char} {sink : Sink} {r : Except Fault Sink}

theorem seq (h : Prints S text sink r) {w : Sink → Except Fault Sink}
    (hw : ∀ sink', sink'.number_buffer.length = 64 → Prints S' text' sink' (w sink')) :
    Prints (S ++ S') (text ++ text') sink (r >>= w) := by
  cases h with
  | raised hs hp hno hesc =>
    rw [error_bind]
    exact .raised (by rw [hs, List.append_assoc, List.cons_append]) hp hno hesc
  | @written number_buffer hs hlen =>
    rw [ok_bind]
    have hnext := hw ⟨sink.o ++ bytes text, number_buffer⟩ hlen
    generalize w _ = r' at hnext
    cases hnext with
    | raised hs' hp hno hesc =>
      exact .raised (by rw [hs', ← List.append_assoc]) (List.forall_mem_append.2 ⟨hs, hp⟩) hno hesc
    | written hs' hlen' =>
      rw [List.append_assoc, ← bytes_append]
      exact .written (List.forall_mem_append.2 ⟨hs, hs'⟩) hlen'

theorem write (h : sink.number_buffer.length = 64) (text : List Char) :
    Prints [] text sink (.ok (sink.write text)) :=
  .written (by simp) h

end Prints

/-! ### The parts -/

/-- The parts of a list; all but the last one are followed by a comma. -/
def Sink.separated {α : Type} (w : α → Sink → Except Fault Sink) :
    List α → Sink → Except Fault Sink
  | [], sink => .ok sink
  | [x], sink => w x sink
  | x :: y :: xs, sink => do
    let sink ← w x sink
    Sink.separated w (y :: xs) (sink.write ",".toList)

theorem Sink.dumpBytes_eq (data : List UInt8) (sink : Sink) :
    sink.dumpBytes data = Sink.separated (fun b sink => sink.dumpInteger (.unsigned b.toUInt64))
      data sink := by
  induction data generalizing sink with
  | nil => rfl
  | cons b data ih =>
    cases data with
    | nil => rfl
    | cons b' data =>
      rw [dumpBytes, separated]
      simp only [ih]
      rfl

theorem Sink.write_nil (sink : Sink) : sink.write [] = sink := by simp [write]

theorem Prints.separated {α : Type} {w : α → Sink → Except Fault Sink} (xs : List α)
    {S : α → List StdString} {f : α → List Char}
    (hw : ∀ x ∈ xs, ∀ sink : Sink, sink.number_buffer.length = 64 →
      Prints (S x) (f x) sink (w x sink))
    {sink : Sink} (h : sink.number_buffer.length = 64) :
    Prints (xs.flatMap S) (commas (xs.map f)) sink (Sink.separated w xs sink) := by
  induction xs generalizing sink with
  | nil =>
    have hwrite := Prints.write h []
    rwa [sink.write_nil] at hwrite
  | cons x xs ih =>
    cases xs with
    | nil =>
      rw [Sink.separated, List.flatMap_singleton, List.map_singleton, commas_singleton]
      exact hw x List.mem_cons_self sink h
    | cons y xs =>
      have hrest := fun sink h => @ih (fun z hz => hw z (List.mem_cons_of_mem _ hz)) sink h
      have hseq := (hw x List.mem_cons_self sink h).seq fun sink' h' =>
        (Prints.write h' ",".toList).seq hrest
      rw [Sink.separated, List.flatMap_cons, List.map_cons, List.map_cons, commas_cons_cons]
      exact hseq

theorem Sink.dumpEscaped_prints {sink : Sink} (h : sink.number_buffer.length = 64)
    (s : StdString) : Prints [s] (escaped (textOf s)) sink (sink.dumpEscaped s) := by
  have hspec := dumpEscaped_spec sink.o s
  unfold dumpEscaped
  generalize Serializer.dumpEscaped sink.o s = r at hspec
  cases hspec with
  | @text text hs =>
    subst hs
    rw [ok_bind, textOf_bytes]
    refine .written ?_ h
    intro t ht
    rw [List.mem_singleton.1 ht]
    exact ⟨text, rfl⟩
  | invalid hs hbefore hno =>
    refine .raised (p := []) rfl (by simp) ?_ ⟨sink.o, .invalid hs hbefore hno⟩
    rw [hs]
    exact hno _
  | incomplete hno hmore hlast =>
    exact .raised (p := []) rfl (by simp) hno ⟨sink.o, .incomplete hno hmore hlast⟩

theorem Sink.dumpString_prints {sink : Sink} (h : sink.number_buffer.length = 64)
    (s : StdString) : Prints [s] (Json.quoted s) sink (sink.dumpString s) :=
  (Prints.write h "\"".toList).seq fun _ h' =>
    (Sink.dumpEscaped_prints h' s).seq fun _ h' => Prints.write h' "\"".toList

theorem Sink.dumpInteger_prints {sink : Sink} (h : sink.number_buffer.length = 64)
    (x : Integer) : Prints [] (decimal x.val) sink (sink.dumpInteger x) := by
  obtain ⟨number_buffer, hlen, hdump⟩ := dumpInteger_spec sink.o h x
  rw [dumpInteger, hdump, ok_bind]
  exact .written (by simp) hlen

theorem Sink.dumpFloat_prints {F : Type} {ops : Floats F} (hops : ops.Lawful) {sink : Sink}
    (h : sink.number_buffer.length = 64) (x : F) :
    Prints [] (if ops.isfinite x then ops.text x else "null".toList) sink
      (sink.dumpFloat ops x) := by
  obtain ⟨number_buffer, hlen, hdump⟩ := Floats.dumpFloat_spec hops sink.o h x
  rw [dumpFloat, hdump, ok_bind]
  exact .written (by simp) hlen

theorem Sink.dumpBytes_prints (data : List UInt8) {sink : Sink}
    (h : sink.number_buffer.length = 64) :
    Prints [] (commas (data.map fun b => decimal b.toNat)) sink (sink.dumpBytes data) := by
  have hall := Prints.separated data (S := fun _ => [])
    (fun b _ sink h => Sink.dumpInteger_prints h (.unsigned b.toUInt64)) h
  rw [← Sink.dumpBytes_eq, List.flatMap_eq_nil_iff.2 (fun _ _ => rfl)] at hall
  simpa only [Integer.val, UInt8.toNat_toUInt64] using hall

theorem Sink.dumpBinary_prints (data : List UInt8) (subtype : Option UInt64) {sink : Sink}
    (h : sink.number_buffer.length = 64) :
    Prints [] (Json.binaryText data subtype) sink (sink.dumpBinary data subtype) := by
  have hdata := fun (S : List StdString) (text : List Char) (w : Sink → Except Fault Sink)
      (hw : ∀ sink' : Sink, sink'.number_buffer.length = 64 → Prints S text sink' (w sink')) =>
    (Prints.write h "\x7b\"bytes\":[".toList).seq fun _ h' =>
      (Sink.dumpBytes_prints data h').seq fun _ h' =>
        (Prints.write h' "],\"subtype\":".toList).seq hw
  cases subtype with
  | none => exact hdata _ _ _ fun _ h' => Prints.write h' "null\x7d".toList
  | some subtype =>
    exact hdata _ _ _ fun _ h' => (Sink.dumpInteger_prints h' (.unsigned subtype)).seq fun _ h' =>
      Prints.write h' "\x7d".toList

/-! ### What the texts stand for -/

theorem hexDigit_digitChar : ∀ n < 16, hexDigit (Nat.digitChar n) = some n := by decide

theorem readHex_digits {n : ℕ} (h : n < 65536) (s : List Char) :
    readHex (Nat.digitChar (n / 4096 % 16) :: Nat.digitChar (n / 256 % 16) ::
      Nat.digitChar (n / 16 % 16) :: Nat.digitChar (n % 16) :: s) = some (n, s) := by
  have hsum : n / 4096 % 16 * 4096 + n / 256 % 16 * 256 + n / 16 % 16 * 16 + n % 16 = n := by omega
  simp only [readHex]
  rw [hexDigit_digitChar _ (by omega), hexDigit_digitChar _ (by omega),
    hexDigit_digitChar _ (by omega), hexDigit_digitChar _ (by omega)]
  simp [hsum]

/-- **An escaped character is read as that character.** -/
theorem readChar_escapeChar (c : Char) (s : List Char) :
    readChar (escapeChar c ++ s) = some (c, s) := by
  unfold escapeChar
  split_ifs with h₁ h₂ h₃ h₄ h₅ h₆ h₇ h₈
  · subst h₁; rfl
  · subst h₂; rfl
  · subst h₃; rfl
  · subst h₄; rfl
  · subst h₅; rfl
  · subst h₆; rfl
  · subst h₇; rfl
  · simp only [unicodeEscape, List.cons_append, List.nil_append, readChar]
    rw [readHex_digits (by omega)]
    have hlt : c.toNat < 0xD800 := by omega
    simp [hlt]
  · have hspace : ¬ c < ' ' := by
      rw [Char.lt_def, UInt32.lt_iff_toNat_lt]
      exact Nat.not_lt.2 (Nat.lt_of_not_le h₈)
    rw [List.singleton_append]
    unfold readChar
    split
    · next heq => exact absurd (List.cons.inj heq).1 h₇
    · next heq => exact absurd (List.cons.inj heq).1 h₇
    · next heq =>
      obtain ⟨rfl, rfl⟩ := List.cons.inj heq
      rw [if_neg (by simp [h₆, h₇, hspace])]
    · next heq => cases heq

theorem chars_escaped (text rest : List Char) : Chars (escaped text ++ '"' :: rest) text rest := by
  induction text with
  | nil => exact .quote
  | cons c text ih =>
    rw [escaped, List.flatMap_cons, List.append_assoc]
    exact .char (readChar_escapeChar c _) ih

theorem readAs_decimal (z : ℤ) : ReadAs (.number z) (decimal z) := by
  intro rest hrest
  refine .of_number ?_
  have hread := readUnsigned_toDigits z.natAbs hrest
  unfold decimal
  by_cases hz : z < 0
  · have habs : (z.natAbs : ℤ) = -z := by omega
    have hcast : -(z.natAbs : ℚ) = z := by rw [← Int.cast_natCast, habs, Int.cast_neg, neg_neg]
    rw [if_pos hz, List.cons_append, readNumber, hread, Option.map_some]
    dsimp only
    rw [hcast]
  · have habs : (z.natAbs : ℤ) = z := by omega
    have hcast : (z.natAbs : ℚ) = z := by rw [← Int.cast_natCast, habs]
    rw [if_neg hz, readNumber_of_readUnsigned hread, hcast]

theorem readAs_nat (n : ℕ) : ReadAs (.number n) (decimal n) := by
  have h := readAs_decimal n
  rwa [Int.cast_natCast] at h

theorem readAs_quoted (s : StdString) : ReadAs (.string (textOf s)) (Json.quoted s) := by
  intro rest _
  rw [Json.quoted, List.cons_append, List.append_assoc]
  exact .of_chars (chars_escaped _ rest)

theorem reads_member {key t rest : List Char} {v : Value} (h : ReadAs v t) (hrest : Ends rest) :
    Reads .member ('"' :: (escaped key ++ ['"']) ++ ':' :: t ++ rest) (.object [(key, v)])
      rest := by
  have hkey := chars_escaped key (':' :: (t ++ rest))
  have hcolon : skipWs (':' :: (t ++ rest)) = ':' :: (t ++ rest) := skipWs_cons _ rfl
  have htext : '"' :: (escaped key ++ ['"']) ++ ':' :: t ++ rest =
      '"' :: (escaped key ++ '"' :: ':' :: (t ++ rest)) := by simp
  rw [htext]
  exact .member (skipWs_cons _ rfl) hkey hcolon (h rest hrest)

theorem not_reads_member {key t rest s : List Char} {v : Value} (h : Unreadable t) :
    ¬ Reads .member ('"' :: (escaped key ++ ['"']) ++ ':' :: t ++ rest) v s := by
  have htext : '"' :: (escaped key ++ ['"']) ++ ':' :: t ++ rest =
      '"' :: (escaped key ++ '"' :: ':' :: (t ++ rest)) := by simp
  rw [htext]
  intro hread
  cases hread with
  | member hquote hkey hcolon hvalue =>
    rw [skipWs_cons _ rfl] at hquote
    obtain rfl := (List.cons.inj hquote).2
    obtain ⟨-, rfl⟩ := (chars_escaped key (':' :: (t ++ rest))).unique hkey
    rw [skipWs_cons _ rfl] at hcolon
    obtain rfl := (List.cons.inj hcolon).2
    exact h.not_value hvalue

theorem readAs_null : ReadAs .null "null".toList := fun _ _ => .scalar rfl

theorem readAs_bool (b : Bool) :
    ReadAs (.bool b) (if b then "true".toList else "false".toList) := by
  intro rest _
  cases b with
  | false => exact .scalar rfl
  | true => exact .scalar rfl

theorem readAs_float {F : Type} {ops : Floats F} (hops : ops.Lawful) (x : F) :
    ReadAs (if ops.isfinite x then .number (ops.decimal x) else .null)
      (if ops.isfinite x then ops.text x else "null".toList) := by
  by_cases hx : ops.isfinite x = true
  · rw [if_pos hx, if_pos hx]
    exact fun rest hrest => .of_number (Floats.readNumber_text hops hx hrest)
  · rw [if_neg hx, if_neg hx]
    exact readAs_null

theorem readAs_two {k₁ k₂ t₁ t₂ : List Char} {v₁ v₂ : Value} (h₁ : ReadAs v₁ t₁)
    (h₂ : ReadAs v₂ t₂) :
    ReadAs (.object [(k₁, v₁), (k₂, v₂)]) ("\x7b".toList ++ ('"' :: (escaped k₁ ++ ['"']) ++
      ':' :: t₁ ++ ',' :: ('"' :: (escaped k₂ ++ ['"']) ++ ':' :: t₂) ++ "\x7d".toList)) := by
  have hobject := readAs_object
    (m := fun m : List Char × Value × List Char => (m.1, m.2.1))
    (f := fun m => '"' :: (escaped m.1 ++ ['"']) ++ ':' :: m.2.2) [(k₁, v₁, t₁), (k₂, v₂, t₂)] ?_
  · simp only [List.map_cons, List.map_nil, commas_cons_cons, commas_singleton] at hobject
    exact hobject
  · intro m hm rest hrest
    refine reads_member ?_ hrest
    rcases List.mem_cons.1 hm with rfl | hm
    · exact h₁
    · rw [List.mem_singleton.1 hm]
      exact h₂

/-- A binary value is read as the object of its bytes and its subtype. -/
theorem readAs_binary (data : List UInt8) (subtype : Option UInt64) :
    ReadAs (Json.binaryValue data subtype) (Json.binaryText data subtype) := by
  have hdata := readAs_array (v := fun b : UInt8 => .number b.toNat) data
    fun b _ => readAs_nat b.toNat
  have hsubtype : ReadAs (subtype.elim .null fun n => .number n.toNat)
      (subtype.elim "null".toList fun n => decimal n.toNat) := by
    cases subtype with
    | none => exact readAs_null
    | some n => exact readAs_nat n.toNat
  refine Eq.mp (congrArg _ ?_) (readAs_two hdata hsubtype)
  unfold Json.binaryText
  generalize commas _ = a
  generalize subtype.elim _ _ = b
  have hopen : '"' :: (escaped "bytes".toList ++ ['"']) = "\"bytes\"".toList := by decide
  have hmid : '"' :: (escaped "subtype".toList ++ ['"']) = "\"subtype\"".toList := by decide
  rw [hopen, hmid]
  simp

end Serializer

namespace Json

open Serializer

variable {F : Type} {ops : Floats F}

/-- A member is written: its key, a colon and its value. -/
def dumpMember (ops : Floats F) (m : StdString × Json F) (sink : Sink) : Except Fault Sink := do
  let sink ← sink.dumpString m.1
  dump ops m.2 (sink.write ":".toList)

theorem dumpMembers_eq (members : List (StdString × Json F)) (sink : Sink) :
    dumpMembers ops members sink = Sink.separated (dumpMember ops) members sink := by
  induction members generalizing sink with
  | nil => rw [dumpMembers, Sink.separated]
  | cons m members ih =>
    cases members with
    | nil => rw [dumpMembers, Sink.separated, dumpMember]
    | cons m' members =>
      rw [dumpMembers, Sink.separated, dumpMember, bind_assoc]
      simp only [ih]

theorem dumpElements_eq (elements : List (Json F)) (sink : Sink) :
    dumpElements ops elements sink = Sink.separated (dump ops) elements sink := by
  induction elements generalizing sink with
  | nil => rw [dumpElements, Sink.separated]
  | cons j elements ih =>
    cases elements with
    | nil => rw [dumpElements, Sink.separated]
    | cons j' elements =>
      rw [dumpElements, Sink.separated]
      simp only [ih]

/-! The recursions over members and elements, as maps. -/

theorem memberStrings_eq (members : List (StdString × Json F)) :
    memberStrings members = members.flatMap fun m => [m.1] ++ m.2.strings := by
  induction members with
  | nil => rw [memberStrings, List.flatMap_nil]
  | cons m members ih =>
    rw [memberStrings, ih, List.flatMap_cons, List.append_assoc, List.singleton_append]

theorem elementStrings_eq (elements : List (Json F)) :
    elementStrings elements = elements.flatMap strings := by
  induction elements with
  | nil => rw [elementStrings, List.flatMap_nil]
  | cons j elements ih => rw [elementStrings, ih, List.flatMap_cons]

theorem memberValues_eq (members : List (StdString × Json F)) :
    memberValues ops members =
      members.mapM fun m => (m.2.value ops).map fun v => (textOf m.1, v) := by
  induction members with
  | nil => rfl
  | cons m members ih =>
    rw [memberValues, ih, List.mapM_cons]
    cases m.2.value ops with
    | none => rfl
    | some v => rfl

theorem elementValues_eq (elements : List (Json F)) :
    elementValues ops elements = elements.mapM (value ops) := by
  induction elements with
  | nil => rfl
  | cons j elements ih => rw [elementValues, ih, List.mapM_cons]

theorem memberTexts_eq (members : List (StdString × Json F)) :
    memberTexts ops members = members.map fun m => quoted m.1 ++ ':' :: m.2.text ops := by
  induction members with
  | nil => rw [memberTexts, List.map_nil]
  | cons m members ih => rw [memberTexts, ih, List.map_cons]

theorem elementTexts_eq (elements : List (Json F)) :
    elementTexts ops elements = elements.map (text ops) := by
  induction elements with
  | nil => rw [elementTexts, List.map_nil]
  | cons j elements ih => rw [elementTexts, ih, List.map_cons]

/-- **The text of a value stands for it**, wherever it is; with a discarded value in it, it stands
for nothing. -/
theorem stands_text (hops : ops.Lawful) (j : Json F) : Stands (j.value ops) (j.text ops) := by
  induction j using Json.induction with
  | object members ih =>
    rw [value, text, memberValues_eq, memberTexts_eq]
    refine stands_object members ?_ ?_ ?_
    · intro m hm p hp rest hrest
      obtain ⟨v, hv, rfl⟩ := Option.map_eq_some_iff.1 hp
      exact reads_member ((ih m hm).readAs hv) hrest
    · intro m hm hnone rest v s
      exact not_reads_member ((ih m hm).unreadable (Option.map_eq_none_iff.1 hnone))
    · exact fun m _ => rfl
  | array elements ih =>
    rw [value, text, elementValues_eq, elementTexts_eq]
    exact stands_array elements ih
  | string s => exact readAs_quoted s
  | boolean b => exact readAs_bool b
  | number x => exact readAs_decimal x.val
  | number_float x => exact readAs_float hops x
  | discarded => exact unreadable_angle "discarded>".toList
  | null => exact readAs_null
  | binary data subtype => exact readAs_binary data subtype

theorem rounded_members {members : List (StdString × Json F)}
    (h : ∀ m ∈ members, ∀ v, m.2.value ops = some v → m.2.Rounded ops v)
    {vs : List (List Char × Value)} (hvs : memberValues ops members = some vs) :
    MembersRounded ops members vs := by
  induction members generalizing vs with
  | nil =>
    obtain rfl := Option.some.inj hvs
    trivial
  | cons m members ih =>
    obtain ⟨key, j⟩ := m
    obtain ⟨v, hv, hrest⟩ := Option.bind_eq_some_iff.1 hvs
    obtain ⟨vs', hvs', hcons⟩ := Option.bind_eq_some_iff.1 hrest
    obtain rfl := Option.some.inj hcons
    exact ⟨rfl, h _ List.mem_cons_self v hv,
      ih (fun m hm => h m (List.mem_cons_of_mem _ hm)) hvs'⟩

theorem rounded_elements {elements : List (Json F)}
    (h : ∀ j ∈ elements, ∀ v, j.value ops = some v → j.Rounded ops v) {vs : List Value}
    (hvs : elementValues ops elements = some vs) : ElementsRounded ops elements vs := by
  induction elements generalizing vs with
  | nil =>
    obtain rfl := Option.some.inj hvs
    trivial
  | cons j elements ih =>
    obtain ⟨v, hv, hrest⟩ := Option.bind_eq_some_iff.1 hvs
    obtain ⟨vs', hvs', hcons⟩ := Option.bind_eq_some_iff.1 hrest
    obtain rfl := Option.some.inj hcons
    exact ⟨h j List.mem_cons_self v hv, ih (fun j hj => h j (List.mem_cons_of_mem _ hj)) hvs'⟩

/-- **The numbers in the text of a value round to those in the value.** -/
theorem rounded_value (hops : ops.Accurate) {j : Json F} {v : Value} (h : j.value ops = some v) :
    j.Rounded ops v := by
  induction j using Json.induction generalizing v with
  | object members ih =>
    obtain ⟨vs, hvs, rfl⟩ := Option.map_eq_some_iff.1 h
    exact rounded_members (fun m hm v => ih m hm) hvs
  | array elements ih =>
    obtain ⟨vs, hvs, rfl⟩ := Option.map_eq_some_iff.1 h
    exact rounded_elements (fun j hj v => ih j hj) hvs
  | number_float x =>
    obtain rfl := Option.some.inj h
    cases hx : ops.isfinite x with
    | true => exact ⟨hx, Floats.rounds_decimal hops hx⟩
    | false => exact hx
  | discarded => cases h
  | string s =>
    obtain rfl := Option.some.inj h
    rfl
  | boolean b =>
    obtain rfl := Option.some.inj h
    rfl
  | number x =>
    obtain rfl := Option.some.inj h
    rfl
  | null =>
    obtain rfl := Option.some.inj h
    trivial
  | binary data subtype =>
    obtain rfl := Option.some.inj h
    rfl

/-- **The serializer writes the text of a value**; if a string in it is no text, the first of these
raises. -/
theorem dump_prints (hops : ops.Lawful) (j : Json F) {sink : Sink}
    (h : sink.number_buffer.length = 64) :
    Prints j.strings (j.text ops) sink (j.dump ops sink) := by
  induction j using Json.induction generalizing sink with
  | object members ih =>
    rw [dump, strings, text, memberStrings_eq, memberTexts_eq, dumpMembers_eq]
    cases hempty : members.isEmpty with
    | true =>
      rw [if_pos rfl, List.isEmpty_iff.1 hempty]
      exact Prints.write h "\x7b\x7d".toList
    | false =>
      have hall := fun (sink : Sink) (h : sink.number_buffer.length = 64) =>
        Prints.separated members (fun m hm sink h =>
          (Sink.dumpString_prints h m.1).seq fun sink' h' =>
          (Prints.write h' ":".toList).seq fun sink' h' => ih m hm h') h
      have hseq := (Prints.write h "\x7b".toList).seq fun sink' h' =>
        (hall sink' h').seq fun sink' h' => Prints.write h' "\x7d".toList
      rw [List.append_nil, List.nil_append] at hseq
      exact hseq
  | array elements ih =>
    rw [dump, strings, text, elementStrings_eq, elementTexts_eq, dumpElements_eq]
    cases hempty : elements.isEmpty with
    | true =>
      rw [if_pos rfl, List.isEmpty_iff.1 hempty]
      exact Prints.write h "[]".toList
    | false =>
      have hall := fun (sink : Sink) (h : sink.number_buffer.length = 64) =>
        Prints.separated elements (fun j hj sink h => ih j hj h) h
      have hseq := (Prints.write h "[".toList).seq fun sink' h' =>
        (hall sink' h').seq fun sink' h' => Prints.write h' "]".toList
      rw [List.append_nil, List.nil_append] at hseq
      exact hseq
  | string s => exact Sink.dumpString_prints h s
  | boolean b => exact Prints.write h _
  | number x => exact Sink.dumpInteger_prints h x
  | number_float x => exact Sink.dumpFloat_prints hops h x
  | discarded => exact Prints.write h discardedText
  | null => exact Prints.write h _
  | binary data subtype => exact Sink.dumpBinary_prints data subtype h

theorem dumpText_of_texts (hops : ops.Lawful) {j : Json F} (h : ∀ s ∈ j.strings, IsText s) :
    j.dumpText ops = .ok (bytes (j.text ops)) := by
  have hlen : (⟨[], List.replicate 64 0⟩ : Sink).number_buffer.length = 64 := List.length_replicate
  have hprints := dump_prints hops j hlen
  unfold dumpText
  generalize j.dump ops _ = r at hprints
  cases hprints with
  | written _ _ =>
    rw [ok_bind, List.nil_append]
    rfl
  | raised hs _ hno _ => exact absurd (h _ (by simp [hs])) hno

theorem dumpText_of_not_texts (hops : ops.Lawful) {j : Json F} (h : ¬ ∀ s ∈ j.strings, IsText s) :
    ∃ p s q fault, j.strings = p ++ s :: q ∧ (∀ t ∈ p, IsText t) ∧ ¬ IsText s ∧
      (∃ o, Escapes o s (.error fault)) ∧ j.dumpText ops = .error fault := by
  have hlen : (⟨[], List.replicate 64 0⟩ : Sink).number_buffer.length = 64 := List.length_replicate
  have hprints := dump_prints hops j hlen
  unfold dumpText
  generalize j.dump ops _ = r at hprints
  cases hprints with
  | written hs _ => exact absurd hs h
  | raised hs hp hno hesc => exact ⟨_, _, _, _, hs, hp, hno, hesc, rfl⟩

theorem denotes_text_iff (hops : ops.Lawful) (j : Json F) (v : Value) :
    Denotes (j.text ops) v ↔ j.value ops = some v :=
  (stands_text hops j).denotes_iff v

/-- **What is dumped denotes the value, and no other**, and its numbers round to the floating-point
numbers in the value; with a discarded value in it, it denotes none.  A value is dumped exactly if
every string in it is a text; otherwise the first string that is none raises. -/
theorem dumpText_spec (hops : ops.Accurate) (j : Json F) :
    ((∀ s ∈ j.strings, IsText s) ∧ ∃ text, j.dumpText ops = .ok (bytes text) ∧
        (∀ v, Denotes text v ↔ j.value ops = some v) ∧
        ∀ v, Denotes text v → j.Rounded ops v) ∨
      ∃ p s q fault, j.strings = p ++ s :: q ∧ (∀ t ∈ p, IsText t) ∧ ¬ IsText s ∧
        (∃ o, Escapes o s (.error fault)) ∧ j.dumpText ops = .error fault := by
  by_cases h : ∀ s ∈ j.strings, IsText s
  · have hdenotes := denotes_text_iff hops.toLawful j
    exact Or.inl ⟨h, _, dumpText_of_texts hops.toLawful h, hdenotes,
      fun v hv => rounded_value hops ((hdenotes v).1 hv)⟩
  · exact Or.inr (dumpText_of_not_texts hops.toLawful h)

/-- An array with the number `-1.0` and a string. -/
theorem dumpText_spec_array :
    let j : Json (Bool × Bool) := .array [.number_float (true, true), .string (stdString "é")]
    ((∀ s ∈ j.strings, IsText s) ∧ ∃ text, j.dumpText .ones = .ok (bytes text) ∧
        (∀ v, Denotes text v ↔ j.value .ones = some v) ∧
        ∀ v, Denotes text v → j.Rounded .ones v) ∨
      ∃ p s q fault, j.strings = p ++ s :: q ∧ (∀ t ∈ p, IsText t) ∧ ¬ IsText s ∧
        (∃ o, Escapes o s (.error fault)) ∧ j.dumpText .ones = .error fault :=
  dumpText_spec Floats.ones_accurate _

end Json

end LiteMonitor
