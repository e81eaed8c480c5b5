import LiteMonitor.Stream.LengthPrefix

/-!
# Protocol messages

`Message<MT>`: a payload is the message type, the length of the body in two bytes, the body, and
zeros up to a header length of 38 bytes that counts fields the code no longer writes.  The
subclass's `bodySerialize` and `bodyDeserialize` are parameters; `mt_`, which only `parseBody`
sets, is left out.

* `loadBytes`, `store` : copies out of and into an array; they are undefined outside of it.
* `data` : the array of a string, which ends with a zero byte behind the contents.
* `Message.serialize`, `Message.deserialize` : the member functions.
* `Message.serialize_eq`, `deserialize_of_fits`, `deserialize_of_terminator`,
  `deserialize_of_overrun` : what they compute.
* `Message.roundTrips_iff` : **decoding undoes encoding exactly for the bodies of at most 65535
  bytes.**
* `Message.inBounds_iff` : **when `deserialize` copies bytes of the payload only.**
-/

namespace LiteMonitor

open LengthPrefix

/-- Why a member function does not return: it raises, or it is undefined. -/
inductive Fault where
  /-- `std::runtime_error(what)`. -/
  | raised (what : String)
  /-- A byte outside of an array is read or written. -/
  | outOfBounds
  deriving DecidableEq

/-- The byte at offset `i`. -/
def load (s : List UInt8) (i : ℕ) : Except Fault UInt8 :=
  match s[i]? with
  | some b => .ok b
  | none => .error .outOfBounds

/-- Copy `n` bytes from offset `pos` on, one after another. -/
def loadBytes (s : List UInt8) (pos n : ℕ) : Except Fault (List UInt8) :=
  (List.range' pos n).mapM (load s)

/-- Copy `bs` to the offset `pos`. -/
def store (s : List UInt8) (pos : ℕ) (bs : List UInt8) : Except Fault (List UInt8) :=
  if pos + bs.length ≤ s.length then .ok (s.take pos ++ bs ++ s.drop (pos + bs.length))
  else .error .outOfBounds

/-- What `data()` of a string points at: the contents, and a terminator that can be read. -/
def data (s : List UInt8) : List UInt8 := s ++ [0]

theorem load_of_lt {s : List UInt8} {i : ℕ} (hi : i < s.length) : load s i = .ok s[i] := by
  unfold load
  rw [List.getElem?_eq_getElem hi]

theorem load_of_le {s : List UInt8} {i : ℕ} (hi : s.length ≤ i) :
    load s i = .error .outOfBounds := by
  unfold load
  rw [List.getElem?_eq_none hi]

theorem loadBytes_of_le {s : List UInt8} {pos n : ℕ} (h : pos + n ≤ s.length) :
    loadBytes s pos n = .ok ((s.drop pos).take n) := by
  induction n generalizing pos with
  | zero => rfl
  | succ n ih =>
    have hlt : pos < s.length := by omega
    have hrest : loadBytes s (pos + 1) n = .ok ((s.drop (pos + 1)).take n) := ih (by omega)
    unfold loadBytes at hrest ⊢
    rw [List.range'_succ, List.mapM_cons, load_of_lt hlt, hrest, List.drop_eq_getElem_cons hlt]
    rfl

theorem loadBytes_of_lt {s : List UInt8} {pos n : ℕ} (hn : 0 < n) (h : s.length < pos + n) :
    loadBytes s pos n = .error .outOfBounds := by
  induction n generalizing pos with
  | zero => exact absurd hn (Nat.lt_irrefl 0)
  | succ n ih =>
    unfold loadBytes at ih ⊢
    rw [List.range'_succ, List.mapM_cons]
    by_cases hpos : s.length ≤ pos
    · rw [load_of_le hpos]
      rfl
    · have hrest : (List.range' (pos + 1) n).mapM (load s) = .error .outOfBounds :=
        ih (by omega) (by omega)
      rw [load_of_lt (Nat.lt_of_not_le hpos), hrest]
      rfl

theorem length_data (s : List UInt8) : (data s).length = s.length + 1 := List.length_append

theorem loadBytes_data {s : List UInt8} {pos n : ℕ} (h : pos + n ≤ s.length) :
    loadBytes (data s) pos n = .ok ((s.drop pos).take n) := by
  have hdrop : (data s).drop pos = s.drop pos ++ [0] :=
    List.drop_append_of_le_length (by omega)
  rw [loadBytes_of_le (by rw [length_data]; omega), hdrop,
    List.take_append_of_le_length (by rw [List.length_drop]; omega)]

/-- A copy of one byte more takes the terminator along. -/
theorem loadBytes_data_succ {s : List UInt8} {pos n : ℕ} (hpos : pos ≤ s.length)
    (h : pos + n = s.length + 1) : loadBytes (data s) pos n = .ok (s.drop pos ++ [0]) := by
  have hdrop : (data s).drop pos = s.drop pos ++ [0] := List.drop_append_of_le_length hpos
  have hlen : (s.drop pos ++ [(0 : UInt8)]).length = n := by
    rw [List.length_append, List.length_drop, List.length_singleton]
    omega
  rw [loadBytes_of_le (by rw [length_data, h]), hdrop, List.take_of_length_le hlen.le]

theorem store_append (a : List UInt8) {c d bs : List UInt8} (hc : c.length = bs.length) :
    store (a ++ c ++ d) a.length bs = .ok (a ++ bs ++ d) := by
  have hdrop : (a ++ c ++ d).drop (a.length + bs.length) = d := by
    rw [← hc, ← List.length_append, List.drop_left]
  have htake : (a ++ c ++ d).take a.length = a := by
    rw [List.append_assoc, List.take_left]
  unfold store
  rw [if_pos (by simp [hc]), htake, hdrop]

/-- `class Message`. -/
structure Message where
  _message_type : UInt8
  _message_len : UInt16
  body_ : List UInt8
  payload_ : List UInt8
  deriving DecidableEq

namespace Message

/-- "The length of the data other than the body". -/
def HEADER_LENGTH : ℕ := 38

def setPayload (m : Message) (data : List UInt8) : Message := { m with payload_ := data }

def setMessageType (m : Message) (message_type : UInt8) : Message :=
  { m with _message_type := message_type }

/-- The field has 16 bits, the parameter 32. -/
def setMessageLen (m : Message) (message_len : UInt32) : Message :=
  { m with _message_len := message_len.toUInt16 }

def getMessageLen (m : Message) : UInt32 := m._message_len.toUInt32

/-- `Message::serialize`, up to its missing `return`. -/
def serialize (bodySerialize : Message → Except String Message) (m : Message) :
    Except Fault Message := do
  let m ← (bodySerialize m).mapError .raised
  let payload := List.replicate (HEADER_LENGTH + m._message_len.toNat) 0
  let payload ← store payload 0 [m._message_type]
  let payload ← store payload 1 (toBE 2 m._message_len.toNat)
  let body ← loadBytes (data m.body_) 0 m._message_len.toNat
  let payload ← store payload 3 body
  return { m with payload_ := payload }

/-- `Message::deserialize`. -/
def deserialize (bodyDeserialize : Message → Except String Unit) (m : Message) :
    Except Fault Message :=
  if m.payload_.length < HEADER_LENGTH then .error (.raised "Invalid message data")
  else do
    let message_type ← load (data m.payload_) 0
    let net_len ← loadBytes (data m.payload_) 1 2
    let m := { m with _message_type := message_type, _message_len := UInt16.ofNat (ofBE net_len) }
    let body ← loadBytes (data m.payload_) 3 m._message_len.toNat
    let m := { m with body_ := body }
    if m._message_len.toNat ≠ m.body_.length then .error (.raised "Invalid message data")
    else do
      (bodyDeserialize m).mapError .raised
      return m

/-! ### What the two functions compute -/

/-- The payload of a message. -/
def layout (message_type : UInt8) (body : List UInt8) : List UInt8 :=
  message_type :: (toBE 2 body.length ++ (body ++ List.replicate 35 0))

theorem length_layout (t : UInt8) (body : List UInt8) :
    (layout t body).length = HEADER_LENGTH + body.length := by
  simp only [layout, HEADER_LENGTH, List.length_cons, List.length_append, length_toBE,
    List.length_replicate]
  omega

/-- What `serialize` leaves in `payload_`, if the body is as long as the length says. -/
theorem serialize_eq {bodySerialize : Message → Except String Message} {m m' : Message}
    (h : bodySerialize m = .ok m') (hlen : m'._message_len.toNat ≤ m'.body_.length) :
    serialize bodySerialize m = .ok { m' with
      payload_ := layout m'._message_type (m'.body_.take m'._message_len.toNat) } := by
  set n := m'._message_len.toNat with hn
  have hbody : (m'.body_.take n).length = n := by
    rw [List.length_take, Nat.min_eq_left hlen]
  have hload : loadBytes (data m'.body_) 0 n = .ok (m'.body_.take n) :=
    loadBytes_data (by rwa [Nat.zero_add])
  -- the zeros are overwritten front to back
  have hzeros : List.replicate (HEADER_LENGTH + n) (0 : UInt8) =
      [] ++ [0] ++ ([0, 0] ++ (List.replicate n 0 ++ List.replicate 35 0)) := by
    have hsum : HEADER_LENGTH + n = 3 + (n + 35) := by
      unfold HEADER_LENGTH
      omega
    rw [hsum, List.replicate_add, List.replicate_add]
    rfl
  have htype : store (List.replicate (HEADER_LENGTH + n) 0) 0 [m'._message_type] =
      .ok ([m'._message_type] ++ [0, 0] ++ (List.replicate n 0 ++ List.replicate 35 0)) := by
    rw [hzeros]
    exact store_append [] rfl
  have hlength : store ([m'._message_type] ++ [0, 0] ++ (List.replicate n 0 ++ List.replicate 35 0))
      1 (toBE 2 n) = .ok ([m'._message_type] ++ toBE 2 n ++ (List.replicate n 0 ++
        List.replicate 35 0)) :=
    store_append [m'._message_type] (length_toBE 2 n).symm
  have hrest : store ([m'._message_type] ++ toBE 2 n ++ (List.replicate n 0 ++
      List.replicate 35 0)) 3 (m'.body_.take n) =
      .ok (layout m'._message_type (m'.body_.take n)) := by
    have hcopy : store ([m'._message_type] ++ toBE 2 n ++ List.replicate n 0 ++
        List.replicate 35 0) ([m'._message_type] ++ toBE 2 n).length (m'.body_.take n) =
        .ok ([m'._message_type] ++ toBE 2 n ++ m'.body_.take n ++ List.replicate 35 0) :=
      store_append _ (by rw [hbody, List.length_replicate])
    have hthree : ([m'._message_type] ++ toBE 2 n).length = 3 := by simp
    rw [hthree, List.append_assoc _ (List.replicate n 0)] at hcopy
    rw [hcopy, layout, hbody]
    simp
  simp only [serialize, h, Except.mapError, ← hn, bind, Except.bind, htype, hlength, hload, hrest]
  rfl

/-- The length that a payload declares. -/
def declaredLen (payload : List UInt8) : ℕ := ofBE ((payload.drop 1).take 2)

section Deserialize

variable {bodyDeserialize : Message → Except String Unit} {m : Message}

theorem deserialize_of_short (h : m.payload_.length < HEADER_LENGTH) :
    deserialize bodyDeserialize m = .error (.raised "Invalid message data") := by
  unfold deserialize
  rw [if_pos h]

theorem exists_head {payload : List UInt8} (h : HEADER_LENGTH ≤ payload.length) :
    ∃ t, payload.head? = some t := by
  cases payload with
  | nil => exact absurd h (by decide)
  | cons t p => exact ⟨t, rfl⟩

theorem toNat_declaredLen (h : HEADER_LENGTH ≤ m.payload_.length) :
    (UInt16.ofNat (declaredLen m.payload_)).toNat = declaredLen m.payload_ := by
  have htwo : ((m.payload_.drop 1).take 2).length = 2 := by
    unfold HEADER_LENGTH at h
    rw [List.length_take, List.length_drop]
    omega
  have hlt := ofBE_lt ((m.payload_.drop 1).take 2)
  rw [htwo] at hlt
  rw [UInt16.toNat_ofNat']
  exact Nat.mod_eq_of_lt hlt

/-- The message that is decoded into `m`. -/
def decoded (m : Message) (message_type : UInt8) (body : List UInt8) : Message :=
  { m with _message_type := message_type, _message_len := UInt16.ofNat body.length, body_ := body }

theorem deserialize_of_long (h : HEADER_LENGTH ≤ m.payload_.length) {t : UInt8}
    (ht : m.payload_.head? = some t) :
    deserialize bodyDeserialize m =
      (loadBytes (data m.payload_) 3 (declaredLen m.payload_) >>= fun body =>
        if declaredLen m.payload_ ≠ body.length then .error (.raised "Invalid message data")
        else (bodyDeserialize { m with
            _message_type := t, _message_len := UInt16.ofNat (declaredLen m.payload_),
            body_ := body }).mapError .raised >>= fun _ =>
          .ok { m with
            _message_type := t, _message_len := UInt16.ofNat (declaredLen m.payload_),
            body_ := body }) := by
  have hnat := toNat_declaredLen h
  have hsize38 : 38 ≤ m.payload_.length := h
  have htype : load (data m.payload_) 0 = .ok t := by
    unfold load data
    rw [List.getElem?_append_left (by omega), ← List.head?_eq_getElem?, ht]
  have hlen : loadBytes (data m.payload_) 1 2 = .ok ((m.payload_.drop 1).take 2) :=
    loadBytes_data (by omega)
  unfold deserialize
  rw [if_neg (Nat.not_lt.2 h), htype, hlen]
  change (loadBytes (data m.payload_) 3
      (UInt16.ofNat (declaredLen m.payload_)).toNat >>= fun body =>
    if (UInt16.ofNat (declaredLen m.payload_)).toNat ≠ body.length then _ else _) = _
  rw [hnat]
  rfl

/-- A payload that is more than one byte shorter than it declares is read beyond the terminator. -/
theorem deserialize_of_overrun (h : HEADER_LENGTH ≤ m.payload_.length)
    (hover : m.payload_.length + 1 < 3 + declaredLen m.payload_) :
    deserialize bodyDeserialize m = .error .outOfBounds := by
  obtain ⟨t, ht⟩ := exists_head h
  have hsize38 : 38 ≤ m.payload_.length := h
  have hbody : loadBytes (data m.payload_) 3 (declaredLen m.payload_) = .error .outOfBounds :=
    loadBytes_of_lt (by omega) (by rwa [length_data])
  rw [deserialize_of_long h ht, hbody]
  rfl

/-- The second check compares the declared length with the size of a copy of that length. -/
theorem deserialize_of_copied (h : HEADER_LENGTH ≤ m.payload_.length) {t : UInt8}
    {body : List UInt8} (ht : m.payload_.head? = some t)
    (hcopy : loadBytes (data m.payload_) 3 (declaredLen m.payload_) = .ok body)
    (hsize : body.length = declaredLen m.payload_) :
    deserialize bodyDeserialize m =
      ((bodyDeserialize (m.decoded t body)).mapError .raised >>= fun _ =>
        .ok (m.decoded t body)) := by
  rw [deserialize_of_long h ht, hcopy]
  change (if declaredLen m.payload_ ≠ body.length then _ else _) = _
  rw [if_neg (not_not.2 hsize.symm), decoded, hsize]

theorem deserialize_of_fits (h : HEADER_LENGTH ≤ m.payload_.length)
    (hfits : 3 + declaredLen m.payload_ ≤ m.payload_.length) {t : UInt8} {body : List UInt8}
    (ht : m.payload_.head? = some t)
    (hb : (m.payload_.drop 3).take (declaredLen m.payload_) = body) :
    deserialize bodyDeserialize m =
      ((bodyDeserialize (m.decoded t body)).mapError .raised >>= fun _ =>
        .ok (m.decoded t body)) := by
  refine deserialize_of_copied h ht (hb ▸ loadBytes_data hfits) ?_
  rw [← hb, List.length_take, List.length_drop]
  omega

/-- The last byte of the body is the terminator, if the payload is one byte shorter than it
declares. -/
theorem deserialize_of_terminator (h : HEADER_LENGTH ≤ m.payload_.length)
    (hone : 3 + declaredLen m.payload_ = m.payload_.length + 1) {t : UInt8}
    (ht : m.payload_.head? = some t) :
    deserialize bodyDeserialize m =
      ((bodyDeserialize (m.decoded t (m.payload_.drop 3 ++ [0]))).mapError .raised >>= fun _ =>
        .ok (m.decoded t (m.payload_.drop 3 ++ [0]))) := by
  have hsize38 : 38 ≤ m.payload_.length := h
  refine deserialize_of_copied h ht (loadBytes_data_succ (by omega) hone) ?_
  rw [List.length_append, List.length_drop, List.length_singleton]
  omega

/-- What is decoded was long enough for the header and, with the terminator, for the length it
declares. -/
theorem fits_of_deserialize {m' : Message} (hok : deserialize bodyDeserialize m = .ok m') :
    HEADER_LENGTH ≤ m.payload_.length ∧ 3 + declaredLen m.payload_ ≤ m.payload_.length + 1 := by
  by_cases hshort : m.payload_.length < HEADER_LENGTH
  · rw [deserialize_of_short hshort] at hok
    simp at hok
  have hlong := Nat.le_of_not_lt hshort
  by_cases hfits : 3 + declaredLen m.payload_ ≤ m.payload_.length + 1
  · exact ⟨hlong, hfits⟩
  · rw [deserialize_of_overrun hlong (Nat.lt_of_not_le hfits)] at hok
    simp at hok

end Deserialize

/-! ### The round trip -/

/-- What a subclass with the body `b` does in `bodySerialize`. -/
def setBody (b : List UInt8) (m : Message) : Except String Message :=
  .ok ({ m with body_ := b }.setMessageLen (UInt32.ofNat b.length))

theorem toNat_setMessageLen (m : Message) (n : ℕ) :
    (m.setMessageLen (UInt32.ofNat n))._message_len.toNat = n % 2 ^ 16 := by
  unfold setMessageLen
  rw [UInt32.toNat_toUInt16, UInt32.toNat_ofNat']
  exact Nat.mod_mod_of_dvd n (Nat.pow_dvd_pow 2 (by decide : 16 ≤ 32))

/-- What of a body gets into the payload. -/
def sentBody (b : List UInt8) : List UInt8 := b.take (b.length % 2 ^ 16)

theorem length_sentBody (b : List UInt8) : (sentBody b).length = b.length % 2 ^ 16 := by
  unfold sentBody
  rw [List.length_take, Nat.min_eq_left (Nat.mod_le _ _)]

theorem sentBody_eq_iff (b : List UInt8) : sentBody b = b ↔ b.length ≤ 65535 := by
  constructor
  · intro h
    have hlen := length_sentBody b
    rw [h] at hlen
    have hlt := Nat.mod_lt b.length (Nat.two_pow_pos 16)
    omega
  · intro h
    unfold sentBody
    rw [Nat.mod_eq_of_lt (by omega), List.take_length]

theorem serialize_setBody (m : Message) (b : List UInt8) :
    ∃ m', serialize (setBody b) m = .ok m' ∧
      m'.payload_ = layout m._message_type (sentBody b) := by
  have hnat := toNat_setMessageLen { m with body_ := b } b.length
  have hle : (({ m with body_ := b }.setMessageLen (UInt32.ofNat b.length)))._message_len.toNat ≤
      b.length := by
    rw [hnat]
    exact Nat.mod_le _ _
  have hser := serialize_eq (m := m) (rfl : setBody b m = .ok _) hle
  rw [hnat] at hser
  exact ⟨_, hser, rfl⟩

theorem declaredLen_layout (t : UInt8) {body : List UInt8} (h : body.length < 2 ^ 16) :
    declaredLen (layout t body) = body.length := by
  have htake : ((layout t body).drop 1).take 2 = toBE 2 body.length := by
    simp [layout]
  unfold declaredLen
  rw [htake, ofBE_toBE_of_lt h]

variable {bodyDeserialize : Message → Except String Unit}

theorem deserialize_layout (hd : ∀ m, bodyDeserialize m = .ok ()) (m : Message) (t : UInt8)
    {body : List UInt8} (h : body.length < 2 ^ 16) :
    deserialize bodyDeserialize (m.setPayload (layout t body)) =
      .ok ((m.setPayload (layout t body)).decoded t body) := by
  have hlen := length_layout t body
  have hdecl := declaredLen_layout t h
  have hbody : ((layout t body).drop 3).take (declaredLen (layout t body)) = body := by
    rw [hdecl]
    simp [layout]
  have hdes : deserialize bodyDeserialize (m.setPayload (layout t body)) = _ :=
    deserialize_of_fits (by rw [setPayload, hlen]; omega)
      (by rw [setPayload, hdecl, hlen, HEADER_LENGTH]; omega) rfl hbody
  rw [hdes, hd]
  rfl

/-- Either `serialize` raises, or the payload it leaves, loaded into a fresh message, is decoded
to the type, the length and the body. -/
def RoundTrips (bodyDeserialize : Message → Except String Unit) (m fresh : Message)
    (b : List UInt8) : Prop :=
  (∃ what, serialize (setBody b) m = .error (.raised what)) ∨
    ∃ m₁ m₂, serialize (setBody b) m = .ok m₁ ∧
      deserialize bodyDeserialize (fresh.setPayload m₁.payload_) = .ok m₂ ∧
      m₂._message_type = m._message_type ∧ m₂.getMessageLen.toNat = b.length ∧ m₂.body_ = b

theorem deserialize_serialize (hd : ∀ m, bodyDeserialize m = .ok ()) (m fresh : Message)
    (b : List UInt8) :
    ∃ m₁ m₂, serialize (setBody b) m = .ok m₁ ∧
      deserialize bodyDeserialize (fresh.setPayload m₁.payload_) = .ok m₂ ∧
      m₂._message_type = m._message_type ∧ m₂.getMessageLen.toNat = b.length % 2 ^ 16 ∧
      m₂.body_ = sentBody b := by
  obtain ⟨m₁, hser, hpay⟩ := serialize_setBody m b
  have hlen := length_sentBody b
  have hlt : (sentBody b).length < 2 ^ 16 := hlen ▸ Nat.mod_lt _ (Nat.two_pow_pos 16)
  have hdes := deserialize_layout hd fresh m._message_type hlt
  rw [← hpay] at hdes
  refine ⟨m₁, _, hser, hdes, rfl, ?_, rfl⟩
  unfold getMessageLen decoded
  rw [UInt16.toNat_toUInt32, UInt16.toNat_ofNat', hlen]
  exact Nat.mod_eq_of_lt (Nat.mod_lt _ (Nat.two_pow_pos 16))

theorem roundTrips_of_sentBody (hd : ∀ m, bodyDeserialize m = .ok ()) (m fresh : Message)
    (b : List UInt8) : RoundTrips bodyDeserialize m fresh b ↔ sentBody b = b := by
  obtain ⟨m₁, m₂, hser, hdes, htype, hlen, hbody⟩ := deserialize_serialize hd m fresh b
  constructor
  · rintro (⟨what, hraise⟩ | ⟨m₃, m₄, hser', hdes', -, -, hbody'⟩)
    · rw [hser] at hraise
      cases hraise
    · obtain rfl : m₁ = m₃ := Except.ok.inj (hser.symm.trans hser')
      obtain rfl : m₂ = m₄ := Except.ok.inj (hdes.symm.trans hdes')
      exact hbody.symm.trans hbody'
  · intro h
    refine Or.inr ⟨m₁, m₂, hser, hdes, htype, ?_, hbody.trans h⟩
    rw [hlen, ← length_sentBody, h]

/-- **Decoding undoes encoding exactly for the bodies of at most 65535 bytes**: from there on the
length is cut to 16 bits, and so is the body. -/
theorem roundTrips_iff (hd : ∀ m, bodyDeserialize m = .ok ()) (m fresh : Message)
    (b : List UInt8) : RoundTrips bodyDeserialize m fresh b ↔ b.length ≤ 65535 :=
  (roundTrips_of_sentBody hd m fresh b).trans (sentBody_eq_iff b)

/-- A body of two bytes. -/
theorem roundTrips_iff_two : RoundTrips (fun _ => .ok ()) ⟨0xC1, 0, [], []⟩ ⟨0, 0, [], []⟩
    [0x41, 0x42] :=
  (roundTrips_iff (fun _ => rfl) _ _ _).2 (by decide)

/-- Of a body of 65536 bytes nothing comes back. -/
theorem not_roundTrips : ¬ ∀ (m fresh : Message) (b : List UInt8),
    RoundTrips (fun _ => .ok ()) m fresh b := by
  intro hclaim
  have h := hclaim ⟨0xC1, 0, [], []⟩ ⟨0, 0, [], []⟩ (List.replicate 65536 0)
  rw [roundTrips_of_sentBody (fun _ => rfl), sentBody_eq_iff, List.length_replicate] at h
  omega

/-! ### Reading inside of the payload -/

/-- `deserialize` raises, or the bytes it copies lie inside of the payload: the declared length
fits, and the body consists of the bytes at offset 3. -/
def InBounds (bodyDeserialize : Message → Except String Unit) (m : Message) : Prop :=
  (∃ what, deserialize bodyDeserialize m = .error (.raised what)) ∨
    (3 + declaredLen m.payload_ ≤ m.payload_.length ∧
      ∃ m', deserialize bodyDeserialize m = .ok m' ∧
        m'.body_ = (m.payload_.drop 3).take (declaredLen m.payload_))

theorem inBounds_of_fits (bodyDeserialize : Message → Except String Unit) {m : Message}
    (h : HEADER_LENGTH ≤ m.payload_.length)
    (hfits : 3 + declaredLen m.payload_ ≤ m.payload_.length) : InBounds bodyDeserialize m := by
  obtain ⟨t, ht⟩ := exists_head h
  have hdes : deserialize bodyDeserialize m = _ := deserialize_of_fits h hfits ht rfl
  cases hb : bodyDeserialize (m.decoded t ((m.payload_.drop 3).take (declaredLen m.payload_))) with
  | error what =>
    rw [hb] at hdes
    exact Or.inl ⟨what, hdes⟩
  | ok _ =>
    rw [hb] at hdes
    exact Or.inr ⟨hfits, _, hdes, rfl⟩

theorem not_inBounds_of_overrun (bodyDeserialize : Message → Except String Unit) {m : Message}
    (h : HEADER_LENGTH ≤ m.payload_.length)
    (hover : m.payload_.length + 1 < 3 + declaredLen m.payload_) :
    ¬ InBounds bodyDeserialize m := by
  rintro (⟨what, hraise⟩ | ⟨hfits, -⟩)
  · rw [deserialize_of_overrun h hover] at hraise
    cases hraise
  · omega

/-- The subclass's `bodyDeserialize` raises when the body is the rest of the payload and the
terminator. -/
def RefusesTerminated (bodyDeserialize : Message → Except String Unit) (m : Message) : Prop :=
  ∃ t what, m.payload_.head? = some t ∧
    bodyDeserialize (m.decoded t (m.payload_.drop 3 ++ [0])) = .error what

/-- A copy that takes the terminator along goes unnoticed, unless the subclass raises. -/
theorem inBounds_iff_of_terminator (bodyDeserialize : Message → Except String Unit) {m : Message}
    (h : HEADER_LENGTH ≤ m.payload_.length)
    (hone : 3 + declaredLen m.payload_ = m.payload_.length + 1) :
    InBounds bodyDeserialize m ↔ RefusesTerminated bodyDeserialize m := by
  obtain ⟨t, ht⟩ := exists_head h
  have hdes : deserialize bodyDeserialize m = _ := deserialize_of_terminator h hone ht
  constructor
  · rintro (⟨what, hraise⟩ | ⟨hfits, -⟩)
    · rw [hdes] at hraise
      cases hb : bodyDeserialize (m.decoded t (m.payload_.drop 3 ++ [0])) with
      | error what => exact ⟨t, what, ht, hb⟩
      | ok _ =>
        rw [hb] at hraise
        cases hraise
    · omega
  · rintro ⟨t', what, ht', hb⟩
    obtain rfl := Option.some.inj (ht.symm.trans ht')
    rw [hb] at hdes
    exact Or.inl ⟨what, hdes⟩

/-- **When `deserialize` copies bytes of the payload only**: when the payload is too short for a
header, or long enough for the length it declares; or when just the terminator is copied along, and
the subclass raises on that body.  The two checks of the code do not see the others: the first one
compares with a constant, the second one a copy with its own length. -/
theorem inBounds_iff (bodyDeserialize : Message → Except String Unit) (m : Message) :
    InBounds bodyDeserialize m ↔
      m.payload_.length < HEADER_LENGTH ∨ 3 + declaredLen m.payload_ ≤ m.payload_.length ∨
        (3 + declaredLen m.payload_ = m.payload_.length + 1 ∧
          RefusesTerminated bodyDeserialize m) := by
  by_cases hshort : m.payload_.length < HEADER_LENGTH
  · exact iff_of_true (Or.inl ⟨_, deserialize_of_short hshort⟩) (Or.inl hshort)
  have hlong := Nat.le_of_not_lt hshort
  rcases Nat.lt_trichotomy (3 + declaredLen m.payload_) (m.payload_.length + 1) with
    hfits | hone | hover
  · have hfits := Nat.le_of_lt_succ hfits
    exact iff_of_true (inBounds_of_fits bodyDeserialize hlong hfits) (Or.inr (Or.inl hfits))
  · have hnot : ¬ 3 + declaredLen m.payload_ ≤ m.payload_.length := by omega
    rw [inBounds_iff_of_terminator bodyDeserialize hlong hone, or_iff_right hshort,
      or_iff_right hnot, and_iff_right hone]
  · refine iff_of_false (not_inBounds_of_overrun bodyDeserialize hlong hover) ?_
    rintro (h | h | ⟨h, -⟩)
    · exact hshort h
    · omega
    · omega

/-- A header of zeros that declares one byte more than there is: the body that is decoded ends with
the terminator. -/
theorem not_inBounds : ¬ ∀ m : Message, InBounds (fun _ => .ok ()) m := by
  intro hclaim
  have hone : 3 + declaredLen (0xC1 :: 0 :: 36 :: List.replicate 35 0) =
      (0xC1 :: 0 :: 36 :: List.replicate 35 (0 : UInt8)).length + 1 := by decide
  have h := hclaim ⟨0, 0, [], 0xC1 :: 0 :: 36 :: List.replicate 35 0⟩
  rw [inBounds_iff_of_terminator _ (by decide) hone] at h
  obtain ⟨t, what, -, hraise⟩ := h
  cases hraise

end Message

end LiteMonitor
