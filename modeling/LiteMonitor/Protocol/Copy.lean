import LiteMonitor.Control.Traversal
import LiteMonitor.Protocol.Message

/-!
# Copies of messages

`Message` with its protobuf object, its constructors, and the calls that are made on it.  The copy
and the move constructor assign the payload.  `_message_type` and `_message_len` have no
initializers, so in a new object they are what was in its memory.

* `MessageObject MT` : the members of the class; `copy`, `move` : the two constructors.
* `call`, `calls` : the other member functions.
* `MessageObject.Preserves` : a copy has the same members, and is serialized in the same way.
* `MessageObject.carried_calls` : runs in which nothing is set that a copy would lose.
* `MessageObject.preserves_iff` : **so it is exactly if the new memory happens to hold the type and
  the length, and the body and the protobuf object are those of a new message.**
* `MessageObject.not_preserves` : a message whose type has been set.
-/

namespace LiteMonitor

/-- The members of `Message<MT>`. -/
structure MessageObject (MT : Type) extends Message where
  mt_ : MT
  deriving DecidableEq

/-- What is in the memory of the members that a constructor does not initialize. -/
structure Uninitialized where
  message_type : UInt8
  message_len : UInt16

namespace MessageObject

open Message

variable {MT : Type} [Inhabited MT]

/-- `Message() = default`; `default` is the protobuf object without fields. -/
def new (memory : Uninitialized) : MessageObject MT where
  _message_type := memory.message_type
  _message_len := memory.message_len
  body_ := []
  payload_ := []
  mt_ := default

/-- `Message(const std::string &)`. -/
def ofData (memory : Uninitialized) (data : List UInt8) : MessageObject MT :=
  { (new memory : MessageObject MT) with payload_ := data }

/-- `Message(const Message &)`. -/
def copy (memory : Uninitialized) (other : MessageObject MT) : MessageObject MT :=
  { (new memory : MessageObject MT) with payload_ := other.payload_ }

/-- `Message(Message &&)`: the new object, and the old one, whose payload is `rest` then. -/
def move (memory : Uninitialized) (other : MessageObject MT) (rest : List UInt8) :
    MessageObject MT × MessageObject MT :=
  ({ (new memory : MessageObject MT) with payload_ := other.payload_ },
    { other with payload_ := rest })

/-- The parts of a subclass. -/
structure Subclass (MT : Type) where
  bodySerialize : MT → Message → Except String Message
  bodyDeserialize : MT → Message → Except String MT

def serialize (sub : Subclass MT) (o : MessageObject MT) : Except Fault (MessageObject MT) :=
  (o.toMessage.serialize (sub.bodySerialize o.mt_)).map fun m => { o with toMessage := m }

def deserialize (sub : Subclass MT) (o : MessageObject MT) : Except Fault (MessageObject MT) := do
  let m ← o.toMessage.deserialize fun m => (sub.bodyDeserialize o.mt_ m).map fun _ => ()
  let mt ← (sub.bodyDeserialize o.mt_ m).mapError .raised
  return ⟨m, mt⟩

/-- A call of a member function. -/
inductive Call where
  | setPayload (data : List UInt8)
  | setMessageType (message_type : UInt8)
  | setMessageLen (message_len : UInt32)
  | serialize
  | deserialize
  deriving DecidableEq

def call (sub : Subclass MT) (o : MessageObject MT) : Call → Except Fault (MessageObject MT)
  | .setPayload data => .ok { o with toMessage := o.toMessage.setPayload data }
  | .setMessageType t => .ok { o with toMessage := o.toMessage.setMessageType t }
  | .setMessageLen n => .ok { o with toMessage := o.toMessage.setMessageLen n }
  | .serialize => o.serialize sub
  | .deserialize => o.deserialize sub

/-- The calls in order. -/
def calls (sub : Subclass MT) (o : MessageObject MT) (cs : List Call) :
    Except Fault (MessageObject MT) := cs.foldlM (call sub) o

/-- The copy `c` has the type, the length and the body of `o`, and in every subclass `serialize`
leaves the same payload. -/
structure Preserves (o c : MessageObject MT) : Prop where
  message_type : c._message_type = o._message_type
  message_len : c._message_len = o._message_len
  body : c.body_ = o.body_
  payload : ∀ sub, (c.serialize sub).map (·.payload_) = (o.serialize sub).map (·.payload_)

/-- What a constructor leaves is what there was. -/
structure Carried (memory : Uninitialized) (o : MessageObject MT) : Prop where
  message_type : memory.message_type = o._message_type
  message_len : memory.message_len = o._message_len
  body : o.body_ = []
  mt : o.mt_ = default

theorem move_fst (memory : Uninitialized) (o : MessageObject MT) (rest : List UInt8) :
    (move memory o rest).1 = copy memory o := rfl

theorem copy_eq {memory : Uninitialized} {o : MessageObject MT} (h : Carried memory o) :
    copy memory o = o := by
  obtain ⟨⟨t, n, body, payload⟩, mt⟩ := o
  obtain ⟨htype, hlen, hbody, hmt⟩ := h
  simp only at htype hlen hbody hmt
  rw [copy, new, htype, hlen, hbody, hmt]

theorem carried_ofData (memory : Uninitialized) (data : List UInt8) :
    Carried memory (ofData memory data : MessageObject MT) := ⟨rfl, rfl, rfl, rfl⟩

/-- The call sets nothing but what is in the memory. -/
def Call.Agrees (memory : Uninitialized) : Call → Prop
  | .setPayload _ => True
  | .setMessageType t => memory.message_type = t
  | .setMessageLen n => memory.message_len = n.toUInt16
  | .serialize | .deserialize => False

theorem Carried.call {memory : Uninitialized} {sub : Subclass MT} {o o' : MessageObject MT}
    {c : Call} (h : Carried memory o) (hc : c.Agrees memory) (hcall : o.call sub c = .ok o') :
    Carried memory o' := by
  cases c with
  | setPayload data =>
    obtain rfl := Except.ok.inj hcall
    exact ⟨h.message_type, h.message_len, h.body, h.mt⟩
  | setMessageType t =>
    obtain rfl := Except.ok.inj hcall
    exact ⟨hc, h.message_len, h.body, h.mt⟩
  | setMessageLen n =>
    obtain rfl := Except.ok.inj hcall
    exact ⟨h.message_type, hc, h.body, h.mt⟩
  | serialize | deserialize => exact hc.elim

/-- A message made from data, on which only agreeing calls are made, is its own copy. -/
theorem carried_calls {memory : Uninitialized} {sub : Subclass MT} {data : List UInt8}
    {cs : List Call} {o : MessageObject MT} (hcs : ∀ c ∈ cs, c.Agrees memory)
    (h : (ofData memory data).calls sub cs = .ok o) : copy memory o = o :=
  copy_eq (foldlM_keeps (fun c hc _ _ hcall hs => Carried.call hs (hcs c hc) hcall) h
    (carried_ofData memory data))

omit [Inhabited MT] in
theorem mt_eq_of_payload {o c : MessageObject MT}
    (h : ∀ sub, (c.serialize sub).map (·.payload_) = (o.serialize sub).map (·.payload_)) :
    c.mt_ = o.mt_ := by
  classical
  by_contra hne
  -- a subclass whose body is empty for one of the two only
  let sub : Subclass MT :=
    ⟨fun mt => setBody (if mt = c.mt_ then [] else [0]), fun mt _ => .ok mt⟩
  have hc : sub.bodySerialize c.mt_ = setBody [] := by
    simp only [sub, if_true]
  have ho : sub.bodySerialize o.mt_ = setBody [0] := by
    simp only [sub, if_neg (Ne.symm hne)]
  obtain ⟨m, hm, hmpay⟩ := serialize_setBody c.toMessage []
  obtain ⟨m', hm', hmpay'⟩ := serialize_setBody o.toMessage [0]
  have hpay := h sub
  rw [serialize, serialize, hc, ho, hm, hm'] at hpay
  have hlen := congrArg List.length (Except.ok.inj hpay)
  change m.payload_.length = m'.payload_.length at hlen
  rw [hmpay, hmpay', length_layout, length_layout, length_sentBody, length_sentBody] at hlen
  simp at hlen

/-- **When a copied or moved message is preserved.** -/
theorem preserves_iff (memory : Uninitialized) (o : MessageObject MT) (rest : List UInt8) :
    Preserves o (copy memory o) ∧ Preserves o (move memory o rest).1 ↔ Carried memory o := by
  rw [move_fst, and_self]
  constructor
  · intro h
    exact ⟨h.message_type, h.message_len, h.body.symm, (mt_eq_of_payload h.payload).symm⟩
  · intro h
    rw [copy_eq h]
    exact ⟨rfl, rfl, rfl, fun sub => rfl⟩

/-- A subclass with a body of one byte, which does not depend on the protobuf object. -/
def oneByte : Subclass Unit := ⟨fun _ => setBody [0x41], fun _ _ => .ok ()⟩

/-- A new message whose type is set has another type than its copy in memory of zeros. -/
theorem not_preserves : ∃ o : MessageObject Unit,
    calls oneByte (new ⟨0, 0⟩) [.setMessageType 0xC1] = .ok o ∧
      ¬ Preserves o (copy ⟨0, 0⟩ o) ∧ ¬ Preserves o (move ⟨0, 0⟩ o []).1 := by
  refine ⟨_, rfl, ?_, ?_⟩
  · intro h
    exact absurd h.message_type (by decide)
  · intro h
    exact absurd h.message_type (by decide)

end MessageObject

end LiteMonitor
