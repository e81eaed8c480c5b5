import LiteMonitor.Json.Serializer
import LiteMonitor.Sender.Survival
import LiteMonitor.Sender.Wire

/-!
# The values in the packets

The sender with the serializer of JSON values as its `dump`.

* `rootOf batch` : the value that `buildPacket` dumps.
* `dumpItem ops j` : the text of an item.
* `body_eq_dumpText` : the body of a packet is what the serializer makes of the root.
* `delivers_values` : **over every run, the bodies that a reader decodes denote the batches sent,
  with the values enqueued and nothing else.**
* `survives_iff_texts` : **an iteration survives exactly if all strings in its batch are texts.**
-/

namespace LiteMonitor

namespace Sender

open LTS Utf8 JsonText Serializer

variable {F : Type} {ops : Floats F}

/-- `root`, with its members in the order of their keys. -/
def rootOf (batch : List (Json F)) : Json F :=
  .object [(stdString "items", .array batch), (stdString "type", .string (stdString "data"))]

/-- Every exception of `dump` is a `type_error.316`. -/
def jsonError {α : Type} (r : Except Fault α) : Except JsonError α :=
  r.mapError fun _ => .type_error_316

/-- The text of an item. -/
def dumpItem (ops : Floats F) (j : Json F) : Except JsonError (List Char) :=
  textOf <$> jsonError (j.dumpText ops)

theorem dumpItem_of_texts (hops : ops.Lawful) {j : Json F} (h : ∀ s ∈ j.strings, IsText s) :
    dumpItem ops j = .ok (j.text ops) := by
  rw [dumpItem, Json.dumpText_of_texts hops h]
  exact congrArg Except.ok (textOf_bytes _)

theorem dumpItem_ok_iff (hops : ops.Lawful) {j : Json F} :
    (∃ text, dumpItem ops j = .ok text) ↔ ∀ s ∈ j.strings, IsText s := by
  constructor
  · rintro ⟨text, htext⟩
    by_contra hno
    obtain ⟨p, s, q, fault, -, -, -, -, hdump⟩ := Json.dumpText_of_not_texts hops hno
    rw [dumpItem, hdump] at htext
    cases htext
  · intro h
    exact ⟨_, dumpItem_of_texts hops h⟩

/-! ### The body -/

theorem stdString_items : stdString "items" = bytes "items".toList := by decide

theorem stdString_type : stdString "type" = bytes "type".toList := by decide

theorem stdString_data : stdString "data" = bytes "data".toList := by decide

theorem strings_rootOf (batch : List (Json F)) : (rootOf batch).strings =
    bytes "items".toList :: (batch.flatMap Json.strings ++
      [bytes "type".toList, bytes "data".toList]) := by
  rw [rootOf, Json.strings, Json.memberStrings, Json.memberStrings, Json.memberStrings,
    Json.strings, Json.strings, Json.elementStrings_eq, stdString_items, stdString_type,
    stdString_data]
  simp

theorem texts_rootOf {batch : List (Json F)} :
    (∀ s ∈ (rootOf batch).strings, IsText s) ↔ ∀ j ∈ batch, ∀ s ∈ j.strings, IsText s := by
  rw [strings_rootOf]
  simp only [List.forall_mem_cons, List.forall_mem_append, List.forall_mem_flatMap]
  constructor
  · exact fun h => h.2.1
  · exact fun h => ⟨⟨_, rfl⟩, h, ⟨_, rfl⟩, ⟨_, rfl⟩, List.forall_mem_nil _⟩

theorem escaped_items : escaped "items".toList = "items".toList := by decide

theorem escaped_type : escaped "type".toList = "type".toList := by decide

theorem escaped_data : escaped "data".toList = "data".toList := by decide

theorem text_rootOf (batch : List (Json F)) : (rootOf batch).text ops =
    "\x7b\"items\":[".toList ++ [','].intercalate (batch.map (Json.text ops)) ++
      "],\"type\":\"data\"\x7d".toList := by
  rw [rootOf, Json.text, Json.memberTexts, Json.memberTexts, Json.memberTexts, Json.text,
    Json.text, Json.elementTexts_eq, Json.quoted, Json.quoted, Json.quoted, stdString_items,
    stdString_type, stdString_data, textOf_bytes, textOf_bytes, textOf_bytes, escaped_items,
    escaped_type, escaped_data]
  have hcommas : [','].intercalate (batch.map (Json.text ops)) =
    commas (batch.map (Json.text ops)) := rfl
  rw [hcommas, commas_cons_cons, commas_singleton]
  generalize commas _ = t
  simp

/-- **The body of a packet is what the serializer makes of the root.** -/
theorem body_eq_dumpText (hops : ops.Lawful) (batch : List (Json F)) :
    body (dumpItem ops) batch = jsonError ((rootOf batch).dumpText ops) := by
  by_cases h : ∀ j ∈ batch, ∀ s ∈ j.strings, IsText s
  · have hitems : batch.mapM (dumpItem ops) = .ok (batch.map (Json.text ops)) := by
      rw [mapM_eq_ok_iff, List.forall₂_map_right_iff, List.forall₂_same]
      exact fun j hj => dumpItem_of_texts hops (h j hj)
    rw [Json.dumpText_of_texts hops (texts_rootOf.2 h)]
    exact body_eq_ok_iff.2 ⟨_, hitems, by rw [text_rootOf]; rfl⟩
  · obtain ⟨p, s, q, fault, -, -, -, -, hdump⟩ :=
      Json.dumpText_of_not_texts hops (mt texts_rootOf.1 h)
    rw [hdump]
    cases hbody : body (dumpItem ops) batch with
    | error e => rfl
    | ok out =>
      obtain ⟨texts, hitems, -⟩ := body_eq_ok_iff.1 hbody
      exact absurd (fun j hj => (dumpItem_ok_iff hops).1 (mapM_ok_iff.1 ⟨texts, hitems⟩ j hj)) h

/-- The body of a packet with one string. -/
theorem body_eq_dumpText_string :
    body (dumpItem .ones) [.string (stdString "\n")] =
      jsonError ((rootOf [.string (stdString "\n")]).dumpText .ones) :=
  body_eq_dumpText Floats.ones_lawful _

/-! ### Over whole runs -/

variable {o : Options}

/-- What a body stands for: the object of the items' values and its type, if all of them have
values. -/
def valueOf (ops : Floats F) (batch : List (Item (Json F))) : Option Value :=
  (batch.mapM fun x : Item (Json F) => x.val.value ops).map fun items =>
    .object [("items".toList, .array items), ("type".toList, .string "data".toList)]

theorem value_rootOf (batch : List (Json F)) : (rootOf batch).value ops =
    (batch.mapM (Json.value ops)).map fun items =>
      .object [("items".toList, .array items), ("type".toList, .string "data".toList)] := by
  rw [rootOf, Json.value, Json.memberValues, Json.memberValues, Json.memberValues, Json.value,
    Json.value, Json.elementValues_eq, stdString_items, stdString_type, stdString_data,
    textOf_bytes, textOf_bytes, textOf_bytes]
  cases batch.mapM (Json.value ops) with
  | none => rfl
  | some items => rfl

/-- `bytes` are a text for the values of the batch, up to rounding, and for nothing else; they are
no JSON text if an item has a discarded value in it. -/
def Carried (ops : Floats F) (body : List UInt8) (batch : List (Item (Json F))) : Prop :=
  ∃ text, bytes text = body ∧ (∀ v, Denotes text v ↔ valueOf ops batch = some v) ∧
    ∀ v, Denotes text v → (rootOf (batch.map Item.val)).Rounded ops v

theorem carried_bodyOf (hops : ops.Accurate) {batch : List (Item (Json F))}
    (h : body (dumpItem ops) (batch.map Item.val) = .ok (bodyOf (dumpItem ops) batch)) :
    Carried ops (bodyOf (dumpItem ops) batch) batch := by
  have hlawful := hops.toLawful
  rw [body_eq_dumpText hlawful] at h
  by_cases htexts : ∀ s ∈ (rootOf (batch.map Item.val)).strings, IsText s
  · rw [Json.dumpText_of_texts hlawful htexts] at h
    have hdenotes := Json.denotes_text_iff hlawful (rootOf (batch.map Item.val))
    have hvalue : (rootOf (batch.map Item.val)).value ops = valueOf ops batch := by
      rw [value_rootOf, List.mapM_map]
      rfl
    refine ⟨_, Except.ok.inj h, fun v => ?_, fun v hv =>
      Json.rounded_value hops ((hdenotes v).1 hv)⟩
    rw [hdenotes, hvalue]
  · obtain ⟨p, s, q, fault, -, -, -, -, hdump⟩ := Json.dumpText_of_not_texts hlawful htexts
    rw [hdump] at h
    cases h

theorem Wired.encodable {J : Type*} {dump : J → Except JsonError (List Char)} {s : State J}
    (hs : Wired dump s) : ∀ b ∈ s.sent ++ s.worker.complete, Encodable dump b := by
  intro b hb
  rcases List.mem_append.1 hb with hb | hb
  · exact hs.decode.2 b hb
  · cases hs with
    | offline _ hw _ =>
      rw [Pc.complete_of_offline hw] at hb
      exact absurd hb List.not_mem_nil
    | online _ _ _ _ _ _ _ htail =>
      obtain ⟨_, -, -, henc, -⟩ := htail.split
      exact henc b hb

/-- **The values enqueued reach a reader.**  Over every run, a reader who decodes every connection
gets one body for each batch sent, in order, which is a text for the values of the items, up to
rounding, and for nothing else. -/
theorem delivers_values (hops : ops.Accurate)
    {tr : List (State (Json F) × Label (Json F))} {s : State (Json F)}
    (h : (lts o (dumpItem ops)).Run init tr s) (hshort : ShortBodies (dumpItem ops) tr) :
    List.Forall₂ (Carried ops) ((s.conns.map fun c => LengthPrefix.decode 4 c.wire).flatten)
      (s.sent ++ s.worker.complete) := by
  have hs := wired_run h hshort
  rw [hs.decode.1, List.forall₂_map_left_iff, List.forall₂_same]
  exact fun batch hbatch => carried_bodyOf hops (hs.encodable batch hbatch).body_eq

/-- The packet of one string arrives in two pieces. -/
theorem delivers_values_string : ∃ tr s, (lts {} (dumpItem .ones)).Run init tr s ∧
    s.sent.length = 1 ∧
    List.Forall₂ (Carried .ones) ((s.conns.map fun c => LengthPrefix.decode 4 c.wire).flatten)
      (s.sent ++ s.worker.complete) := by
  obtain ⟨tr, s, hrun, hsent, hall⟩ := Run.exists_of_trace (step {} (dumpItem .ones)) init
    [.enqueue (.string (stdString "\n")), .produce, .produce, .work .go, .work .go, .work .go,
      .work (.time true), .work (.connect (.connected 3)), .work .go,
      .work (.send (.accepted 10)), .work (.send (.accepted 24)), .work .go]
    (fun tr s => s.sent.length = 1 ∧ ∀ x ∈ tr, (x.1.worker.inFlight.all fun b =>
      (bodyOf (dumpItem .ones) b).length < 2 ^ 32) = true)
    (by decide +kernel)
  exact ⟨tr, s, hrun, hsent, delivers_values Floats.ones_accurate hrun (shortBodies_of_all hall)⟩

/-- **An iteration survives exactly if the strings in its batch are texts.** -/
theorem survives_iff_texts (hops : ops.Lawful) {s s₁ : State (Json F)}
    {b : List (Item (Json F))} {t : Bool} (hs : (lts o (dumpItem ops)).Reachable init s)
    (h : (lts o (dumpItem ops)).step s (.work (.time t)) s₁) (hb : s₁.worker.inFlight = some b) :
    Survives o (dumpItem ops) b s₁ ↔ ∀ x ∈ b, ∀ s ∈ x.val.strings, IsText s := by
  have hw := taken_cases h hb
  have htexts : (∀ x ∈ b, ∃ text, dumpItem ops x.val = .ok text) ↔
      ∀ x ∈ b, ∀ s ∈ x.val.strings, IsText s :=
    forall₂_congr fun x _ => dumpItem_ok_iff hops
  rw [← htexts]
  refine ⟨dumps_of_survives hw, survives_of_dumps (hs.next h) ?_ hb⟩
  rcases hw with hw | hw <;> exact hw ▸ rfl

/-- An iteration with the string `"\n"`. -/
theorem survives_iff_texts_string : ∃ s s₁, (lts {} (dumpItem .ones)).Reachable init s ∧
    (lts {} (dumpItem .ones)).step s (.work (.time true)) s₁ ∧
    Survives {} (dumpItem .ones) [⟨0, .string (stdString "\n")⟩] s₁ := by
  obtain ⟨s, s₁, hs, h, hb⟩ := takes_one (dumpItem .ones) (.string (stdString "\n"))
  refine ⟨s, s₁, hs, h, (survives_iff_texts Floats.ones_lawful hs h hb).2 ?_⟩
  intro x hx t ht
  obtain rfl := List.mem_singleton.1 hx
  obtain rfl := List.mem_singleton.1 ht
  decide

end Sender

end LiteMonitor
