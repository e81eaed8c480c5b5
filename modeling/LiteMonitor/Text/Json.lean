import LiteMonitor.Text.Numeral

/-!
# JSON texts

The grammar of RFC 8259, read from left to right: what a text stands for, and what follows it.

* `Value` : what a text stands for.  Numbers are rational; the members of an object are in the order
  of the text.
* `readChar s`, `Chars s text rest` : the characters of a string, up to its closing quote.
* `Reads nt s v rest` : `s` begins with a text for `v`, and goes on with `rest`.
* `Reads.unique` : **a text stands for one value only.**
* `Denotes text v` : the whole of `text` stands for `v`; `ReadAs v text` : so it does in any place.
* `readAs_array`, `readAs_object` : the texts of arrays and objects, from those of their parts.
* `Stands v text` : `text` stands for `v` in any place, or for nothing at all; `stands_array`,
  `stands_object` : so do the texts of arrays and objects.
-/

namespace LiteMonitor

namespace JsonText

open Numeral

/-- What a text stands for. -/
inductive Value where
  | null
  | bool (b : Bool)
  | number (q : ℚ)
  | string (text : List Char)
  | array (elements : List Value)
  | object (members : List (List Char × Value))
  deriving Inhabited

/-! ### Strings -/

/-- A hexadecimal digit. -/
def hexDigit (c : Char) : Option ℕ :=
  if '0' ≤ c ∧ c ≤ '9' then some (c.toNat - '0'.toNat)
  else if 'a' ≤ c ∧ c ≤ 'f' then some (c.toNat - 'a'.toNat + 10)
  else if 'A' ≤ c ∧ c ≤ 'F' then some (c.toNat - 'A'.toNat + 10)
  else none

/-- Four hexadecimal digits. -/
def readHex : List Char → Option (ℕ × List Char)
  | a :: b :: c :: d :: s => do
    let a ← hexDigit a
    let b ← hexDigit b
    let c ← hexDigit c
    let d ← hexDigit d
    return (a * 4096 + b * 256 + c * 16 + d, s)
  | _ => none

/-- The low half of a surrogate pair, whose high half is `high`. -/
def readLow (high : ℕ) : List Char → Option (Char × List Char)
  | '\\' :: 'u' :: s => do
    let (low, s) ← readHex s
    if 0xDC00 ≤ low ∧ low ≤ 0xDFFF then
      return (Char.ofNat (0x10000 + (high - 0xD800) * 0x400 + (low - 0xDC00)), s)
    else none
  | _ => none

/-- What a letter behind a backslash stands for. -/
def unescape : Char → Option Char
  | '"' => some '"'
  | '\\' => some '\\'
  | '/' => some '/'
  | 'b' => some '\x08'
  | 'f' => some '\x0C'
  | 'n' => some '\n'
  | 'r' => some '\r'
  | 't' => some '\t'
  | _ => none

/-- One character of a string. -/
def readChar : List Char → Option (Char × List Char)
  | '\\' :: 'u' :: s => do
    let (n, s) ← readHex s
    if n < 0xD800 ∨ 0xDFFF < n then return (Char.ofNat n, s)
    else if n < 0xDC00 then readLow n s
    else none
  | '\\' :: letter :: s => (unescape letter).map fun c => (c, s)
  | c :: s => if c = '"' ∨ c = '\\' ∨ c < ' ' then none else some (c, s)
  | [] => none

/-- The characters of a string, up to the quote behind them. -/
inductive Chars : List Char → List Char → List Char → Prop
  | quote {rest : List Char} : Chars ('"' :: rest) [] rest
  | char {s mid text rest : List Char} {c : Char} : readChar s = some (c, mid) →
      Chars mid text rest → Chars s (c :: text) rest

theorem readChar_quote (rest : List Char) : readChar ('"' :: rest) = none := by
  simp [readChar]

theorem Chars.unique {s text text' rest rest' : List Char} (h : Chars s text rest)
    (h' : Chars s text' rest') : text = text' ∧ rest = rest' := by
  induction h generalizing text' rest' with
  | quote =>
    cases h' with
    | quote => exact ⟨rfl, rfl⟩
    | char hc _ => simp [readChar_quote] at hc
  | char hc _ ih =>
    cases h' with
    | quote => simp [readChar_quote] at hc
    | char hc' hmid =>
      obtain ⟨rfl, rfl⟩ := Prod.mk.inj (Option.some.inj (hc.symm.trans hc'))
      obtain ⟨rfl, rfl⟩ := ih hmid
      exact ⟨rfl, rfl⟩

/-! ### Values -/

def isWs (c : Char) : Bool := c = ' ' || c = '\t' || c = '\n' || c = '\r'

/-- White space is insignificant around every token. -/
def skipWs (s : List Char) : List Char := s.dropWhile isWs

/-- A literal or a number. -/
def readScalar : List Char → Option (Value × List Char)
  | 'n' :: 'u' :: 'l' :: 'l' :: s => some (.null, s)
  | 't' :: 'r' :: 'u' :: 'e' :: s => some (.bool true, s)
  | 'f' :: 'a' :: 'l' :: 's' :: 'e' :: s => some (.bool false, s)
  | s => (readNumber s).map fun (q, s) => (.number q, s)

/-- What is read: a value, a member of an object, the inside of an array or an object, or the rest
of it behind a value. -/
inductive Nonterminal where
  | value
  | member
  | elements
  | moreElements
  | members
  | moreMembers

/-- `s` begins with a text for `v`, and goes on with `rest`.  A member stands for the object that
has no other. -/
inductive Reads : Nonterminal → List Char → Value → List Char → Prop
  | scalar {s v rest} : readScalar (skipWs s) = some (v, rest) → Reads .value s v rest
  | string {s s₁ text rest} : skipWs s = '"' :: s₁ → Chars s₁ text rest →
      Reads .value s (.string text) rest
  | array {s s₁ v rest} : skipWs s = '[' :: s₁ → Reads .elements s₁ v rest → Reads .value s v rest
  | object {s s₁ v rest} : skipWs s = '{' :: s₁ → Reads .members s₁ v rest → Reads .value s v rest
  | noElements {s rest} : skipWs s = ']' :: rest → Reads .elements s (.array []) rest
  | firstElement {s s₁ v vs rest} : Reads .value s v s₁ → Reads .moreElements s₁ (.array vs) rest →
      Reads .elements s (.array (v :: vs)) rest
  | endElements {s rest} : skipWs s = ']' :: rest → Reads .moreElements s (.array []) rest
  | nextElement {s s₁ s₂ v vs rest} : skipWs s = ',' :: s₁ → Reads .value s₁ v s₂ →
      Reads .moreElements s₂ (.array vs) rest → Reads .moreElements s (.array (v :: vs)) rest
  | member {s s₁ s₂ s₃ key v rest} : skipWs s = '"' :: s₁ → Chars s₁ key s₂ →
      skipWs s₂ = ':' :: s₃ → Reads .value s₃ v rest → Reads .member s (.object [(key, v)]) rest
  | noMembers {s rest} : skipWs s = '}' :: rest → Reads .members s (.object []) rest
  | firstMember {s s₁ m ms rest} : Reads .member s (.object [m]) s₁ →
      Reads .moreMembers s₁ (.object ms) rest → Reads .members s (.object (m :: ms)) rest
  | endMembers {s rest} : skipWs s = '}' :: rest → Reads .moreMembers s (.object []) rest
  | nextMember {s s₁ s₂ m ms rest} : skipWs s = ',' :: s₁ → Reads .member s₁ (.object [m]) s₂ →
      Reads .moreMembers s₂ (.object ms) rest → Reads .moreMembers s (.object (m :: ms)) rest

/-- The whole of a text stands for a value. -/
def Denotes (text : List Char) (v : Value) : Prop :=
  ∃ rest, Reads .value text v rest ∧ skipWs rest = []

/-- What is not a digit, a sign or the first letter of a literal begins no scalar. -/
theorem readScalar_eq_none {c : Char} (s : List Char) (hd : isDigit c = false)
    (hc : c ∉ ['-', 'n', 't', 'f']) : readScalar (c :: s) = none := by
  simp only [List.mem_cons, List.not_mem_nil, or_false, not_or] at hc
  obtain ⟨hminus, hn, ht, hf⟩ := hc
  unfold readScalar
  split
  · next heq => exact absurd (List.cons.inj heq).1 hn
  · next heq => exact absurd (List.cons.inj heq).1 ht
  · next heq => exact absurd (List.cons.inj heq).1 hf
  · rw [readNumber_eq_none s hd hminus]
    rfl

theorem Reads.ne_bracket {s t rest : List Char} {v : Value} (h : Reads .value s v rest) :
    skipWs s ≠ ']' :: t := by
  intro hs
  cases h with
  | scalar hv => simp [hs, readScalar_eq_none t (c := ']') rfl (by decide)] at hv
  | string hq _ => simp [hs] at hq
  | array hq _ => simp [hs] at hq
  | object hq _ => simp [hs] at hq

/-! ### Texts without white space -/

theorem skipWs_cons {c : Char} (s : List Char) (h : isWs c = false) : skipWs (c :: s) = c :: s :=
  List.dropWhile_cons_of_neg (by simp [h])

theorem isWs_of_isDigit {c : Char} (h : isDigit c = true) : isWs c = false := by
  cases hws : isWs c with
  | false => rfl
  | true =>
    simp only [isWs, Bool.or_eq_true, decide_eq_true_eq] at hws
    rcases hws with ((rfl | rfl) | rfl) | rfl <;> exact absurd h (by decide)

theorem Reads.of_number {s rest : List Char} {q : ℚ} (h : readNumber s = some (q, rest)) :
    Reads .value s (.number q) rest := by
  have hscalar : readScalar s = some (.number q, rest) := by
    unfold readScalar
    split
    · rw [readNumber_eq_none _ rfl (by decide)] at h
      cases h
    · rw [readNumber_eq_none _ rfl (by decide)] at h
      cases h
    · rw [readNumber_eq_none _ rfl (by decide)] at h
      cases h
    · rw [h]
      rfl
  refine .scalar ?_
  cases s with
  | nil => exact hscalar
  | cons c s =>
    have hc : isWs c = false := by
      cases hd : isDigit c with
      | true => exact isWs_of_isDigit hd
      | false =>
        by_cases hminus : c = '-'
        · rw [hminus]
          rfl
        · rw [readNumber_eq_none s hd hminus] at h
          cases h
    rwa [skipWs_cons s hc]

theorem Reads.of_chars {s text rest : List Char} (h : Chars s text rest) :
    Reads .value ('"' :: s) (.string text) rest :=
  .string (skipWs_cons s rfl) h

theorem Reads.of_elements {s rest : List Char} {vs : List Value}
    (h : Reads .elements s (.array vs) rest) : Reads .value ('[' :: s) (.array vs) rest :=
  .array (skipWs_cons s rfl) h

theorem Reads.of_members {s rest : List Char} {ms : List (List Char × Value)}
    (h : Reads .members s (.object ms) rest) : Reads .value ('{' :: s) (.object ms) rest :=
  .object (skipWs_cons s rfl) h

theorem ends_comma (s : List Char) : Ends (',' :: s) := ends_cons rfl (by decide)

theorem ends_bracket (s : List Char) : Ends (']' :: s) := ends_cons rfl (by decide)

theorem ends_brace (s : List Char) : Ends ('}' :: s) := ends_cons rfl (by decide)

/-- The texts of a list, with commas between them. -/
def commas (ts : List (List Char)) : List Char := [','].intercalate ts

@[simp] theorem commas_nil : commas [] = [] := rfl

@[simp] theorem commas_singleton (t : List Char) : commas [t] = t := by simp [commas]

theorem commas_cons_cons (t u : List Char) (ts : List (List Char)) :
    commas (t :: u :: ts) = t ++ ',' :: commas (u :: ts) := by
  simp [commas, List.intercalate, List.intersperse]

/-- `text` stands for `v`, wherever it stands. -/
def ReadAs (v : Value) (text : List Char) : Prop :=
  ∀ rest, Ends rest → Reads .value (text ++ rest) v rest

theorem ReadAs.denotes {v : Value} {text : List Char} (h : ReadAs v text) : Denotes text v := by
  have hread := h [] ends_nil
  rw [List.append_nil] at hread
  exact ⟨[], hread, rfl⟩

variable {α : Type*} {f : α → List Char}

theorem readAs_array {v : α → Value} (xs : List α) (h : ∀ x ∈ xs, ReadAs (v x) (f x)) :
    ReadAs (.array (xs.map v)) ("[".toList ++ (commas (xs.map f) ++ "]".toList)) := by
  intro rest _
  have htext : "[".toList ++ (commas (xs.map f) ++ "]".toList) ++ rest =
      '[' :: (commas (xs.map f) ++ ']' :: rest) := by simp
  rw [htext]
  clear htext
  refine .of_elements ?_
  cases xs with
  | nil => exact .noElements (skipWs_cons _ rfl)
  | cons x xs =>
    -- the first element is read apart from the others
    have hfirst : ∃ s, Reads .value (commas ((x :: xs).map f) ++ ']' :: rest) (v x) s ∧
        Reads .moreElements s (.array (xs.map v)) rest := by
      induction xs generalizing x with
      | nil =>
        have hx := h x List.mem_cons_self (']' :: rest) (ends_bracket _)
        exact ⟨_, by simpa using hx, .endElements (skipWs_cons _ rfl)⟩
      | cons y ys ih =>
        obtain ⟨s, hy, hmore⟩ := ih y fun z hz => h z (List.mem_cons_of_mem _ hz)
        refine ⟨',' :: (commas ((y :: ys).map f) ++ ']' :: rest), ?_,
          .nextElement (skipWs_cons _ rfl) hy hmore⟩
        rw [List.map_cons, List.map_cons, commas_cons_cons, List.append_assoc]
        exact h x List.mem_cons_self _ (ends_comma _)
    obtain ⟨s, hx, hmore⟩ := hfirst
    exact .firstElement hx hmore

theorem readAs_object {m : α → List Char × Value} (xs : List α)
    (h : ∀ x ∈ xs, ∀ rest, Ends rest → Reads .member (f x ++ rest) (.object [m x]) rest) :
    ReadAs (.object (xs.map m)) ("\x7b".toList ++ (commas (xs.map f) ++ "\x7d".toList)) := by
  intro rest _
  have htext : "\x7b".toList ++ (commas (xs.map f) ++ "\x7d".toList) ++ rest =
      '{' :: (commas (xs.map f) ++ '}' :: rest) := by simp
  rw [htext]
  clear htext
  refine .of_members ?_
  cases xs with
  | nil => exact .noMembers (skipWs_cons _ rfl)
  | cons x xs =>
    have hfirst : ∃ s, Reads .member (commas ((x :: xs).map f) ++ '}' :: rest) (.object [m x]) s ∧
        Reads .moreMembers s (.object (xs.map m)) rest := by
      induction xs generalizing x with
      | nil =>
        have hx := h x List.mem_cons_self ('}' :: rest) (ends_brace _)
        exact ⟨_, by simpa using hx, .endMembers (skipWs_cons _ rfl)⟩
      | cons y ys ih =>
        obtain ⟨s, hy, hmore⟩ := ih y fun z hz => h z (List.mem_cons_of_mem _ hz)
        refine ⟨',' :: (commas ((y :: ys).map f) ++ '}' :: rest), ?_,
          .nextMember (skipWs_cons _ rfl) hy hmore⟩
        rw [List.map_cons, List.map_cons, commas_cons_cons, List.append_assoc]
        exact h x List.mem_cons_self _ (ends_comma _)
    obtain ⟨s, hx, hmore⟩ := hfirst
    exact .firstMember hx hmore

/-! ### Uniqueness -/

/-- **A text stands for one value only.** -/
theorem Reads.unique {nt : Nonterminal} {s rest rest' : List Char} {v v' : Value}
    (h : Reads nt s v rest) (h' : Reads nt s v' rest') : v = v' ∧ rest = rest' := by
  have hquote := fun s => readScalar_eq_none (c := '"') s rfl (by decide)
  have hbracket := fun s => readScalar_eq_none (c := '[') s rfl (by decide)
  have hbrace := fun s => readScalar_eq_none (c := '{') s rfl (by decide)
  induction h generalizing v' rest' with
  | scalar hs =>
    cases h' with
    | scalar hs' => exact Prod.mk.inj (Option.some.inj (hs.symm.trans hs'))
    | string hs' _ => simp [hs', hquote] at hs
    | array hs' _ => simp [hs', hbracket] at hs
    | object hs' _ => simp [hs', hbrace] at hs
  | string hs hchars =>
    cases h' with
    | scalar hs' => simp [hs, hquote] at hs'
    | string hs' hchars' =>
      obtain rfl := (List.cons.inj (hs.symm.trans hs')).2
      obtain ⟨rfl, rfl⟩ := hchars.unique hchars'
      exact ⟨rfl, rfl⟩
    | array hs' _ => simp [hs] at hs'
    | object hs' _ => simp [hs] at hs'
  | array hs _ ih =>
    cases h' with
    | scalar hs' => simp [hs, hbracket] at hs'
    | string hs' _ => simp [hs] at hs'
    | array hs' helements =>
      obtain rfl := (List.cons.inj (hs.symm.trans hs')).2
      exact ih helements
    | object hs' _ => simp [hs] at hs'
  | object hs _ ih =>
    cases h' with
    | scalar hs' => simp [hs, hbrace] at hs'
    | string hs' _ => simp [hs] at hs'
    | array hs' _ => simp [hs] at hs'
    | object hs' hmembers =>
      obtain rfl := (List.cons.inj (hs.symm.trans hs')).2
      exact ih hmembers
  | noElements hs =>
    cases h' with
    | noElements hs' => exact ⟨rfl, (List.cons.inj (hs.symm.trans hs')).2⟩
    | firstElement hv _ => exact absurd hs hv.ne_bracket
  | firstElement hv _ ihv ihvs =>
    cases h' with
    | noElements hs' => exact absurd hs' hv.ne_bracket
    | firstElement hv' hvs' =>
      obtain ⟨rfl, rfl⟩ := ihv hv'
      obtain ⟨hvs, rfl⟩ := ihvs hvs'
      exact ⟨by rw [Value.array.inj hvs], rfl⟩
  | endElements hs =>
    cases h' with
    | endElements hs' => exact ⟨rfl, (List.cons.inj (hs.symm.trans hs')).2⟩
    | nextElement hs' _ _ => simp [hs] at hs'
  | nextElement hs _ _ ihv ihvs =>
    cases h' with
    | endElements hs' => simp [hs] at hs'
    | nextElement hs' hv' hvs' =>
      obtain rfl := (List.cons.inj (hs.symm.trans hs')).2
      obtain ⟨rfl, rfl⟩ := ihv hv'
      obtain ⟨hvs, rfl⟩ := ihvs hvs'
      exact ⟨by rw [Value.array.inj hvs], rfl⟩
  | member hs hkey hcolon _ ih =>
    cases h' with
    | member hs' hkey' hcolon' hv' =>
      obtain rfl := (List.cons.inj (hs.symm.trans hs')).2
      obtain ⟨rfl, rfl⟩ := hkey.unique hkey'
      obtain rfl := (List.cons.inj (hcolon.symm.trans hcolon')).2
      obtain ⟨rfl, rfl⟩ := ih hv'
      exact ⟨rfl, rfl⟩
  | noMembers hs =>
    cases h' with
    | noMembers hs' => exact ⟨rfl, (List.cons.inj (hs.symm.trans hs')).2⟩
    | firstMember hm _ => cases hm with | member hs' _ _ _ => simp [hs] at hs'
  | firstMember hm _ ihm ihms =>
    cases h' with
    | noMembers hs' => cases hm with | member hs _ _ _ => simp [hs] at hs'
    | firstMember hm' hms' =>
      obtain ⟨heq, rfl⟩ := ihm hm'
      obtain ⟨hms, rfl⟩ := ihms hms'
      exact ⟨by rw [(List.cons.inj (Value.object.inj heq)).1, Value.object.inj hms], rfl⟩
  | endMembers hs =>
    cases h' with
    | endMembers hs' => exact ⟨rfl, (List.cons.inj (hs.symm.trans hs')).2⟩
    | nextMember hs' _ _ => simp [hs] at hs'
  | nextMember hs _ _ ihm ihms =>
    cases h' with
    | endMembers hs' => simp [hs] at hs'
    | nextMember hs' hm' hms' =>
      obtain rfl := (List.cons.inj (hs.symm.trans hs')).2
      obtain ⟨heq, rfl⟩ := ihm hm'
      obtain ⟨hms, rfl⟩ := ihms hms'
      exact ⟨by rw [(List.cons.inj (Value.object.inj heq)).1, Value.object.inj hms], rfl⟩

theorem Denotes.unique {text : List Char} {v v' : Value} (h : Denotes text v)
    (h' : Denotes text v') : v = v' := by
  obtain ⟨rest, hv, -⟩ := h
  obtain ⟨rest', hv', -⟩ := h'
  exact (hv.unique hv').1

/-! ### Texts that stand for nothing -/

/-- No value begins with `text`, and no closing bracket. -/
structure Unreadable (text : List Char) : Prop where
  not_value : ∀ {rest v s}, ¬ Reads .value (text ++ rest) v s
  not_bracket : ∀ {rest s}, skipWs (text ++ rest) ≠ ']' :: s

/-- `text` stands for `v`, wherever it stands, or for nothing. -/
def Stands : Option Value → List Char → Prop
  | some v, text => ReadAs v text
  | none, text => Unreadable text

theorem unreadable_angle (text : List Char) : Unreadable ('<' :: text) where
  not_value := by
    intro rest v s h
    have hskip := skipWs_cons (text ++ rest) (rfl : isWs '<' = false)
    rw [List.cons_append] at h
    cases h with
    | scalar hs => simp [hskip, readScalar_eq_none (c := '<') _ rfl (by decide)] at hs
    | string hs _ => simp [hskip] at hs
    | array hs _ => simp [hskip] at hs
    | object hs _ => simp [hskip] at hs
  not_bracket := by
    intro rest s
    rw [List.cons_append, skipWs_cons _ rfl]
    simp

/-- The whole of a text that stands for `v` denotes `v` and nothing else. -/
theorem Stands.denotes_iff {v : Option Value} {text : List Char} (h : Stands v text) (w : Value) :
    Denotes text w ↔ v = some w := by
  cases v with
  | none =>
    refine iff_of_false ?_ (by simp)
    rintro ⟨rest, hread, -⟩
    rw [← List.append_nil text] at hread
    exact h.not_value hread
  | some v =>
    have hdenotes := ReadAs.denotes h
    constructor
    · intro hw
      rw [hdenotes.unique hw]
    · intro hv
      rwa [← Option.some.inj hv]

/-- A list of items with commas between them is not read to its end if one of them is no item: those
before it are read as a whole. -/
theorem not_more {P : α → Prop} {I : List Char → List Char → Prop} {M : List Char → Prop}
    {rest : List Char} (hnext : ∀ {s}, M (',' :: s) → ∃ s', I s s' ∧ M s')
    {xs : List α} (hitem : ∀ x ∈ xs, P x → ∀ {r s}, Ends r → I (f x ++ r) s → s = r)
    (hno : ∀ x ∈ xs, ¬ P x → ∀ {r s}, ¬ I (f x ++ r) s) (h : ¬ ∀ x ∈ xs, P x) {s : List Char}
    (hs : I (commas (xs.map f) ++ rest) s) : ¬ M s := by
  induction xs generalizing s with
  | nil => exact absurd (List.forall_mem_nil _) h
  | cons x xs ih =>
    by_cases hx : P x
    · cases xs with
      | nil => exact absurd (List.forall_mem_singleton.2 hx) h
      | cons y ys =>
        intro hmore
        rw [List.map_cons, List.map_cons, commas_cons_cons, List.append_assoc] at hs
        obtain rfl := hitem x List.mem_cons_self hx (ends_comma _) hs
        obtain ⟨s', hs', hmore'⟩ := hnext hmore
        exact ih (fun z hz => hitem z (List.mem_cons_of_mem _ hz))
          (fun z hz => hno z (List.mem_cons_of_mem _ hz))
          (fun hall => h (List.forall_mem_cons.2 ⟨hx, hall⟩)) hs' hmore'
    · cases xs with
      | nil => exact absurd hs (by simpa using hno x List.mem_cons_self hx)
      | cons y ys =>
        rw [List.map_cons, List.map_cons, commas_cons_cons, List.append_assoc] at hs
        exact absurd hs (hno x List.mem_cons_self hx)

theorem mapM_cases {β : Type*} [Inhabited β] (v : α → Option β) (xs : List α) :
    (∃ w : α → β, (∀ x ∈ xs, v x = some (w x)) ∧ xs.mapM v = some (xs.map w)) ∨
      (xs.mapM v = none ∧ ¬ ∀ x ∈ xs, v x ≠ none) := by
  induction xs with
  | nil => exact Or.inl ⟨fun _ => default, by simp, rfl⟩
  | cons x xs ih =>
    rw [List.mapM_cons]
    cases hx : v x with
    | none => exact Or.inr ⟨rfl, fun hall => hall x List.mem_cons_self hx⟩
    | some y =>
      rcases ih with ⟨w, hw, hmap⟩ | ⟨hmap, hno⟩
      · have hsome : ∀ z ∈ x :: xs, v z = some ((v z).getD default) := by
          intro z hz
          rcases List.mem_cons.1 hz with rfl | hz
          · rw [hx, Option.getD_some]
          · rw [hw z hz, Option.getD_some]
        refine Or.inl ⟨fun z => (v z).getD default, hsome, ?_⟩
        have htail : xs.map (fun z => (v z).getD default) = xs.map w :=
          List.map_congr_left fun z hz => by rw [hw z hz, Option.getD_some]
        rw [hmap, List.map_cons, htail, hx]
        rfl
      · refine Or.inr ⟨by rw [hmap]; rfl, fun hall => hno fun z hz => ?_⟩
        exact hall z (List.mem_cons_of_mem _ hz)

theorem Stands.readAs {v : Option Value} {w : Value} {text : List Char} (h : Stands v text)
    (hv : v = some w) : ReadAs w text := by
  rwa [hv] at h

theorem Stands.unreadable {v : Option Value} {text : List Char} (h : Stands v text)
    (hv : v = none) : Unreadable text := by
  rwa [hv] at h

theorem Stands.ne_bracket {v : Option Value} {text : List Char} (h : Stands v text)
    {rest s : List Char} (hrest : Ends rest) : skipWs (text ++ rest) ≠ ']' :: s := by
  cases v with
  | none => exact h.not_bracket
  | some v => exact (h rest hrest).ne_bracket

theorem not_reads_elements {v : α → Option Value} {xs : List α}
    (h : ∀ x ∈ xs, Stands (v x) (f x)) (hno : ¬ ∀ x ∈ xs, v x ≠ none) {rest s : List Char}
    {u : Value} : ¬ Reads .elements (commas (xs.map f) ++ ']' :: rest) u s := by
  intro hread
  cases hread with
  | noElements hs =>
    cases xs with
    | nil => exact hno (List.forall_mem_nil _)
    | cons x xs =>
      have hx := h x List.mem_cons_self
      cases xs with
      | nil => exact hx.ne_bracket (ends_bracket rest) (by simpa using hs)
      | cons y ys =>
        rw [List.map_cons, List.map_cons, commas_cons_cons, List.append_assoc] at hs
        exact hx.ne_bracket (ends_comma _) hs
  | firstElement hv hmore =>
    refine not_more (P := fun x => v x ≠ none) (I := fun s s' => ∃ w, Reads .value s w s')
      (M := fun s => ∃ w r, Reads .moreElements s w r) ?_ ?_ ?_ hno
      ⟨_, hv⟩ ⟨_, _, hmore⟩
    · rintro s ⟨w, r, hmore⟩
      cases hmore with
      | endElements hs => simp [skipWs_cons _ (rfl : isWs ',' = false)] at hs
      | nextElement hs hv hmore =>
        rw [skipWs_cons _ rfl] at hs
        obtain rfl := (List.cons.inj hs).2
        exact ⟨_, ⟨_, hv⟩, _, _, hmore⟩
    · rintro x hx hsome r s hr ⟨w, hw⟩
      obtain ⟨u, hu⟩ := Option.ne_none_iff_exists'.1 hsome
      exact (hw.unique ((h x hx).readAs hu r hr)).2
    · rintro x hx hnone r s ⟨w, hw⟩
      exact ((h x hx).unreadable (not_not.1 hnone)).not_value hw

theorem not_reads_members {m : α → Option (List Char × Value)} {xs : List α}
    (hsome : ∀ x ∈ xs, ∀ p, m x = some p → ∀ rest, Ends rest →
      Reads .member (f x ++ rest) (.object [p]) rest)
    (hnone : ∀ x ∈ xs, m x = none → ∀ {rest v s}, ¬ Reads .member (f x ++ rest) v s)
    (hquote : ∀ x ∈ xs, (f x).head? = some '"') (hno : ¬ ∀ x ∈ xs, m x ≠ none)
    {rest s : List Char} {u : Value} : ¬ Reads .members (commas (xs.map f) ++ '}' :: rest) u s := by
  intro hread
  cases hread with
  | noMembers hs =>
    cases xs with
    | nil => exact hno (List.forall_mem_nil _)
    | cons x xs =>
      obtain ⟨t, ht⟩ : ∃ t, f x = '"' :: t := by
        have hx := hquote x List.mem_cons_self
        cases hf : f x with
        | nil => simp [hf] at hx
        | cons c t => exact ⟨t, by simpa [hf] using hx⟩
      cases xs with
      | nil => simp [ht, skipWs_cons _ (rfl : isWs '"' = false)] at hs
      | cons y ys =>
        rw [List.map_cons, List.map_cons, commas_cons_cons, ht] at hs
        simp [skipWs_cons _ (rfl : isWs '"' = false)] at hs
  | firstMember hm hmore =>
    refine not_more (P := fun x => m x ≠ none) (I := fun s s' => ∃ w, Reads .member s w s')
      (M := fun s => ∃ w r, Reads .moreMembers s w r) ?_ ?_ ?_ hno
      ⟨_, hm⟩ ⟨_, _, hmore⟩
    · rintro s ⟨w, r, hmore⟩
      cases hmore with
      | endMembers hs => simp [skipWs_cons _ (rfl : isWs ',' = false)] at hs
      | nextMember hs hm hmore =>
        rw [skipWs_cons _ rfl] at hs
        obtain rfl := (List.cons.inj hs).2
        exact ⟨_, ⟨_, hm⟩, _, _, hmore⟩
    · rintro x hx hne r s hr ⟨w, hw⟩
      obtain ⟨p, hp⟩ := Option.ne_none_iff_exists'.1 hne
      exact (hw.unique (hsome x hx p hp r hr)).2
    · rintro x hx hne r s ⟨w, hw⟩
      exact hnone x hx (not_not.1 hne) hw

/-- What begins with an opening bracket or brace is a value only if what is behind it is read. -/
theorem unreadable_of_inside {c : Char} {text : List Char} (hc : c = '[' ∨ c = '{')
    (helements : c = '[' → ∀ {rest v s}, ¬ Reads .elements (text ++ rest) v s)
    (hmembers : c = '{' → ∀ {rest v s}, ¬ Reads .members (text ++ rest) v s) :
    Unreadable (c :: text) := by
  have hws : isWs c = false := by rcases hc with rfl | rfl <;> rfl
  have hscalar : ∀ t, readScalar (c :: t) = none := by
    rcases hc with rfl | rfl <;> exact fun t => readScalar_eq_none t rfl (by decide)
  have hne : c ≠ '"' ∧ c ≠ ']' := by rcases hc with rfl | rfl <;> decide
  constructor
  · intro rest v s h
    have hskip := skipWs_cons (text ++ rest) hws
    rw [List.cons_append] at h
    cases h with
    | scalar hs => simp [hskip, hscalar] at hs
    | string hs _ => exact hne.1 (List.cons.inj (hskip.symm.trans hs)).1
    | array hs hread =>
      obtain ⟨hbracket, rfl⟩ := List.cons.inj (hskip.symm.trans hs)
      exact helements hbracket hread
    | object hs hread =>
      obtain ⟨hbrace, rfl⟩ := List.cons.inj (hskip.symm.trans hs)
      exact hmembers hbrace hread
  · intro rest s h
    rw [List.cons_append, skipWs_cons _ hws] at h
    exact hne.2 (List.cons.inj h).1

theorem stands_array {v : α → Option Value} (xs : List α) (h : ∀ x ∈ xs, Stands (v x) (f x)) :
    Stands ((xs.mapM v).map .array) ("[".toList ++ (commas (xs.map f) ++ "]".toList)) := by
  rcases mapM_cases v xs with ⟨w, hw, hmap⟩ | ⟨hmap, hno⟩
  · rw [hmap, Option.map_some]
    exact readAs_array xs fun x hx => (h x hx).readAs (hw x hx)
  · rw [hmap, Option.map_none]
    change Unreadable ('[' :: (commas (xs.map f) ++ [']']))
    refine unreadable_of_inside (Or.inl rfl) (fun _ => ?_) (fun hc => absurd hc (by decide))
    intro rest u s hread
    rw [List.append_assoc] at hread
    exact not_reads_elements h hno hread

theorem stands_object {m : α → Option (List Char × Value)} (xs : List α)
    (hsome : ∀ x ∈ xs, ∀ p, m x = some p → ∀ rest, Ends rest →
      Reads .member (f x ++ rest) (.object [p]) rest)
    (hnone : ∀ x ∈ xs, m x = none → ∀ {rest v s}, ¬ Reads .member (f x ++ rest) v s)
    (hquote : ∀ x ∈ xs, (f x).head? = some '"') :
    Stands ((xs.mapM m).map .object) ("\x7b".toList ++ (commas (xs.map f) ++ "\x7d".toList)) := by
  rcases mapM_cases m xs with ⟨w, hw, hmap⟩ | ⟨hmap, hno⟩
  · rw [hmap, Option.map_some]
    exact readAs_object xs fun x hx => hsome x hx _ (hw x hx)
  · rw [hmap, Option.map_none]
    change Unreadable ('{' :: (commas (xs.map f) ++ ['}']))
    refine unreadable_of_inside (Or.inr rfl) (fun hc => absurd hc (by decide)) (fun _ => ?_)
    intro rest u s hread
    rw [List.append_assoc] at hread
    exact not_reads_members hsome hnone hquote hno hread

end JsonText

end LiteMonitor
