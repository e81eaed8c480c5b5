import LiteMonitor.Json.Serializer

/-!
# The HTTP responses

`struct HttpResponse`: a code, a message and the data, which are dumped as one JSON object.

* `Json.insertMember`, `Json.assign` : the assignment to `operator[]` of a key.
* `HttpResponse`, `success`, `error`, `dump` : the structure and its functions.
* `HttpResponse.root_eq` : the object that is dumped; its members are in the order of their keys.
* `HttpResponse.dump_readable` : **a response is dumped exactly if its strings are texts, and what
  is dumped tells its code, its message and its data, unless there are discarded values in them.**
-/

namespace LiteMonitor

open Utf8 JsonText Serializer

namespace Json

variable {F : Type}

/-- The member with the key gets the value, and is inserted in the order of the keys if there is
none. -/
def insertMember (key : StdString) (v : Json F) :
    List (StdString × Json F) → List (StdString × Json F)
  | [] => [(key, v)]
  | (k, w) :: members =>
    if key < k then (key, v) :: (k, w) :: members
    else if k = key then (k, v) :: members
    else (k, w) :: insertMember key v members

/-- `j[key] = v`; anything but a null or an object throws `type_error.305`. -/
def assign (j : Json F) (key : String) (v : Json F) : Option (Json F) :=
  match j with
  | .null => some (.object (insertMember (stdString key) v []))
  | .object members => some (.object (insertMember (stdString key) v members))
  | _ => none

/-- `basic_json::is_null`. -/
def is_null : Json F → Bool
  | .null => true
  | _ => false

end Json

/-- `struct HttpResponse`. -/
structure HttpResponse (F : Type) where
  code : Int32
  msg : StdString
  data : Json F

namespace HttpResponse

variable {F : Type}

/-- `HttpResponse::success`, with its default arguments. -/
def success (data : Json F := .object []) (msg : StdString := stdString "success") :
    HttpResponse F := ⟨200, msg, data⟩

/-- `HttpResponse::error`, with its default argument. -/
def error (code : Int32) (msg : StdString) (data : Json F := .object []) : HttpResponse F :=
  ⟨code, msg, data⟩

variable (r : HttpResponse F)

/-- The `data` of the response as it is dumped. -/
def dumpedData : Json F := if !r.data.is_null then r.data else .object []

/-- `j`, when everything is assigned. -/
def root : Option (Json F) := do
  let j ← Json.null.assign "code" (.number (.signed r.code.toInt64))
  let j ← j.assign "msg" (.string r.msg)
  j.assign "data" r.dumpedData

/-- `HttpResponse::dump`; `none` for an exception of `operator[]`. -/
def dump (ops : Floats F) : Option (Except Fault (List UInt8)) :=
  r.root.map fun j => j.dumpText ops

/-- What a response is. -/
def value (ops : Floats F) : Option Value :=
  (r.dumpedData.value ops).map fun data => .object [("code".toList, .number r.code.toInt),
    ("data".toList, data), ("msg".toList, .string (textOf r.msg))]

/-! ### What is dumped -/

theorem insert_msg (v w : Json F) :
    Json.insertMember (stdString "msg") w [(stdString "code", v)] =
      [(stdString "code", v), (stdString "msg", w)] := by
  have hlt : ¬ stdString "msg" < stdString "code" := by decide
  have hne : stdString "code" ≠ stdString "msg" := by decide
  rw [Json.insertMember, if_neg hlt, if_neg hne, Json.insertMember]

theorem insert_data (v w x : Json F) :
    Json.insertMember (stdString "data") x [(stdString "code", v), (stdString "msg", w)] =
      [(stdString "code", v), (stdString "data", x), (stdString "msg", w)] := by
  have hlt : ¬ stdString "data" < stdString "code" := by decide
  have hne : stdString "code" ≠ stdString "data" := by decide
  have hmsg : stdString "data" < stdString "msg" := by decide
  rw [Json.insertMember, if_neg hlt, if_neg hne, Json.insertMember, if_pos hmsg]

/-- No assignment throws, and the members are in the order of their keys. -/
theorem root_eq : r.root = some (.object [(stdString "code", .number (.signed r.code.toInt64)),
    (stdString "data", r.dumpedData), (stdString "msg", .string r.msg)]) := by
  have hmsg := insert_msg (F := F) (.number (.signed r.code.toInt64)) (.string r.msg)
  have hdata := insert_data (.number (.signed r.code.toInt64)) (.string r.msg) r.dumpedData
  have hcode (v : Json F) : Json.insertMember (stdString "code") v [] = [(stdString "code", v)] :=
    rfl
  simp only [root, Json.assign, Option.bind_eq_bind, Option.bind_some, hcode, hmsg, hdata]

theorem stdString_keys : stdString "code" = bytes "code".toList ∧
    stdString "data" = bytes "data".toList ∧ stdString "msg" = bytes "msg".toList := by decide

theorem strings_root {j : Json F} (h : r.root = some j) :
    (∀ s ∈ j.strings, IsText s) ↔ (∀ s ∈ r.data.strings, IsText s) ∧ IsText r.msg := by
  obtain rfl := Option.some.inj (r.root_eq.symm.trans h)
  obtain ⟨hcode, hdata, hmsg⟩ := stdString_keys
  have hdumped : r.dumpedData.strings = r.data.strings := by
    unfold dumpedData
    cases r.data <;> rfl
  rw [Json.strings, Json.memberStrings, Json.memberStrings, Json.memberStrings,
    Json.memberStrings, Json.strings, Json.strings, hdumped, hcode, hdata, hmsg]
  simp only [List.forall_mem_cons, List.forall_mem_append, List.append_nil]
  constructor
  · rintro ⟨-, -, -, hall, -, htext, -⟩
    exact ⟨hall, htext⟩
  · rintro ⟨hall, htext⟩
    exact ⟨⟨_, rfl⟩, List.forall_mem_nil _, ⟨_, rfl⟩, hall, ⟨_, rfl⟩, htext, List.forall_mem_nil _⟩

theorem value_root {ops : Floats F} {j : Json F} (h : r.root = some j) :
    j.value ops = r.value ops := by
  obtain rfl := Option.some.inj (r.root_eq.symm.trans h)
  obtain ⟨hcode, hdata, hmsg⟩ := stdString_keys
  rw [Json.value, Json.memberValues, Json.memberValues, Json.memberValues, Json.memberValues,
    Json.value, Json.value, hcode, hdata, hmsg, textOf_bytes, textOf_bytes, textOf_bytes, value,
    Integer.val, Int32.toInt_toInt64]
  cases r.dumpedData.value ops with
  | none => rfl
  | some data => rfl

theorem eq_of_value {ops : Floats F} {r r' : HttpResponse F} (h : r'.value ops = r.value ops)
    {data : Value} (hdata : r.dumpedData.value ops = some data) (hmsg : IsText r.msg)
    (hmsg' : IsText r'.msg) :
    r'.code = r.code ∧ r'.msg = r.msg ∧ r'.dumpedData.value ops = some data := by
  obtain ⟨text, htext⟩ := hmsg
  obtain ⟨text', htext'⟩ := hmsg'
  rw [value, value, hdata, Option.map_some] at h
  obtain ⟨data', hdata', h⟩ := Option.map_eq_some_iff.1 h
  simp only [Value.object.injEq, List.cons.injEq, Prod.mk.injEq, Value.number.injEq,
    Value.string.injEq, true_and, and_true, ← htext, ← htext', textOf_bytes] at h
  obtain ⟨hcode, rfl, rfl⟩ := h
  refine ⟨Int32.toInt_inj.1 (by exact_mod_cast hcode), ?_, hdata'⟩
  rw [← htext, ← htext']

theorem dump_of_texts {ops : Floats F} (hops : ops.Lawful)
    (h : (∀ s ∈ r.data.strings, IsText s) ∧ IsText r.msg) :
    ∃ text, r.dump ops = some (.ok (bytes text)) ∧
      ∀ v, Denotes text v ↔ r.value ops = some v := by
  obtain ⟨j, hj⟩ : ∃ j, r.root = some j := ⟨_, r.root_eq⟩
  refine ⟨j.text ops, ?_, fun v => ?_⟩
  · rw [dump, hj, Option.map_some, Json.dumpText_of_texts hops ((r.strings_root hj).2 h)]
  · rw [Json.denotes_text_iff hops, r.value_root hj]

theorem dump_of_not_texts {ops : Floats F} (hops : ops.Lawful)
    (h : ¬ ((∀ s ∈ r.data.strings, IsText s) ∧ IsText r.msg)) :
    ∃ fault, r.dump ops = some (.error fault) := by
  obtain ⟨j, hj⟩ : ∃ j, r.root = some j := ⟨_, r.root_eq⟩
  obtain ⟨-, -, -, fault, -, -, -, -, hdump⟩ :=
    Json.dumpText_of_not_texts hops (mt (r.strings_root hj).1 h)
  exact ⟨fault, by rw [dump, hj, Option.map_some, hdump]⟩

/-- **A response can be read back.**  It is dumped exactly if the message and all strings in the
data are texts.  Then what is dumped denotes the code, the data and the message and nothing else;
so two responses that are dumped alike have the same code, the same message, and data of the same
value, where null is an empty object, and a number that stands for a floating-point number rounds to
it.  With a discarded value in the data, what is dumped is no JSON text. -/
theorem dump_readable {ops : Floats F} (hops : ops.Accurate) (r : HttpResponse F) :
    ((∀ s ∈ r.data.strings, IsText s) ∧ IsText r.msg ∧
      ∃ text, r.dump ops = some (.ok (bytes text)) ∧
        (∀ v, Denotes text v ↔ r.value ops = some v) ∧
        ∀ (r' : HttpResponse F) (data : Value), r'.dump ops = r.dump ops →
          r.dumpedData.value ops = some data →
          r'.code = r.code ∧ r'.msg = r.msg ∧ r'.dumpedData.value ops = some data ∧
            r.dumpedData.Rounded ops data ∧ r'.dumpedData.Rounded ops data) ∨
      ¬ ((∀ s ∈ r.data.strings, IsText s) ∧ IsText r.msg) ∧
        ∃ fault, r.dump ops = some (.error fault) := by
  have hlawful := hops.toLawful
  by_cases h : (∀ s ∈ r.data.strings, IsText s) ∧ IsText r.msg
  · obtain ⟨text, hdump, hvalue⟩ := r.dump_of_texts hlawful h
    refine Or.inl ⟨h.1, h.2, text, hdump, hvalue, fun r' data hr' hdata => ?_⟩
    by_cases h' : (∀ s ∈ r'.data.strings, IsText s) ∧ IsText r'.msg
    · -- the same bytes are the same text, and denote one value
      obtain ⟨text', hdump', hvalue'⟩ := r'.dump_of_texts hlawful h'
      rw [hdump, hdump', Option.some.injEq, Except.ok.injEq] at hr'
      obtain rfl := bytes_injective hr'
      obtain ⟨v, hv⟩ : ∃ v, r.value ops = some v := ⟨_, by rw [value, hdata, Option.map_some]⟩
      have hsame : r'.value ops = r.value ops := by
        rw [(hvalue' _).1 ((hvalue _).2 hv), hv]
      obtain ⟨hcode, hmsg, hdata'⟩ := eq_of_value hsame hdata h.2 h'.2
      exact ⟨hcode, hmsg, hdata', Json.rounded_value hops hdata, Json.rounded_value hops hdata'⟩
    · obtain ⟨fault, hdump'⟩ := r'.dump_of_not_texts hlawful h'
      rw [hdump, hdump'] at hr'
      cases hr'
  · exact Or.inr ⟨h, r.dump_of_not_texts hlawful h⟩

/-- An error without data, whose message is a text. -/
theorem dump_readable_error : ∃ text,
    (error 404 (stdString "é") .null).dump .ones = some (.ok (bytes text)) ∧
      ∀ v, Denotes text v ↔ (error 404 (stdString "é") .null).value .ones = some v := by
  rcases dump_readable Floats.ones_accurate (error 404 (stdString "é") .null) with
    ⟨-, -, text, hdump, hvalue, -⟩ | ⟨hno, -⟩
  · exact ⟨text, hdump, hvalue⟩
  · exact absurd ⟨nofun, ['é'], by decide⟩ hno

end HttpResponse

end LiteMonitor
