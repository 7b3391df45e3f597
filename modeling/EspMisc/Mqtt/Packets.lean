/-
The packets a broker sends, and what the readers of `mqtt_msg.c` find in them.

`BrokerPacket.encode` gives the bytes of a packet.  Each reader is shown to find
its field when the packet stands at the front of a buffer, whatever follows it.
-/
import EspMisc.Mqtt.Recv

namespace EspMisc
namespace Mqtt

/-- A packet identifier is a 16-bit number other than zero. -/
structure PacketId where
  val : Nat
  pos : 0 < val
  lt : val < 65536

/-- A topic name has at least one byte, and its length fits a word. -/
structure Topic where
  bytes : Bytes
  ne_nil : bytes ≠ []
  lt : bytes.length < 65536

inductive Qos where
  | zero
  | one (id : PacketId)
  | two (id : PacketId)

namespace Qos

def level : Qos → Nat
  | .zero => 0
  | .one _ => 1
  | .two _ => 2

theorem level_lt (q : Qos) : q.level < 3 := by
  cases q <;> simp [level]

/-- The packet identifier in a PUBLISH, which only the higher levels have. -/
def idBytes : Qos → Bytes
  | .zero => []
  | .one id => word id.val
  | .two id => word id.val

theorem length_idBytes (q : Qos) : q.idBytes.length = if q.level > 0 then 2 else 0 := by
  cases q <;> rfl

end Qos

inductive BrokerPacket where
  | publish (dup retain : Bool) (qos : Qos) (topic : Topic) (payload : Bytes)
  | puback (id : PacketId)
  | pubrec (id : PacketId)
  | pubrel (id : PacketId)
  | pubcomp (id : PacketId)
  | suback (id : PacketId) (codes : Bytes)
  | unsuback (id : PacketId)
  | pingresp

namespace BrokerPacket

def header : BrokerPacket → UInt8
  | publish dup retain qos _ _ =>
    UInt8.ofNat (0x30 + 8 * dup.toNat + 2 * qos.level + retain.toNat)
  | puback _ => 0x40
  | pubrec _ => 0x50
  | pubrel _ => 0x62
  | pubcomp _ => 0x70
  | suback _ _ => 0x90
  | unsuback _ => 0xB0
  | pingresp => 0xD0

def body : BrokerPacket → Bytes
  | publish _ _ qos topic payload =>
    word topic.bytes.length ++ topic.bytes ++ qos.idBytes ++ payload
  | puback id => word id.val
  | pubrec id => word id.val
  | pubrel id => word id.val
  | pubcomp id => word id.val
  | suback id codes => word id.val ++ codes
  | unsuback id => word id.val
  | pingresp => []

def encode (p : BrokerPacket) : Bytes := packet p.header p.body

def isPublish : BrokerPacket → Bool
  | publish .. => true
  | _ => false

end BrokerPacket

/-- The bytes of a range in a buffer; NULL has none. -/
def slice (buffer : Bytes) (range : Option Nat × Nat) : Bytes :=
  match range.1 with
  | none => []
  | some off => (buffer.drop off).take range.2

namespace BrokerPacket

/-- The offset of the body. -/
def bodyAt (p : BrokerPacket) : Nat := bodyOffset p.body

theorem encode_append (p : BrokerPacket) (rest : Bytes) :
    p.encode ++ rest = p.header :: (remaining p.body.length ++ (p.body ++ rest)) :=
  packet_append ..

theorem length_encode (p : BrokerPacket) : p.encode.length = p.bodyAt + p.body.length :=
  length_packet ..

theorem bodyAt_le (p : BrokerPacket) : 2 ≤ p.bodyAt ∧ p.bodyAt ≤ 3 := bodyOffset_le p.body

theorem encode_ne_nil (p : BrokerPacket) : p.encode ≠ [] := List.cons_ne_nil _ _

theorem length_body_lt {p : BrokerPacket} (hp : p.encode.length < mqttBufSize) :
    p.body.length < 16384 := by
  rw [length_encode] at hp
  unfold mqttBufSize at hp
  omega

theorem lengthLoop_encode {p : BrokerPacket} (hp : p.body.length < 16384)
    {rest : Bytes} {k : Nat} (hk : p.encode.length ≤ k) :
    lengthLoop (p.encode ++ rest) (k - 1) 1 0 = (p.bodyAt, (p.body.length : Int)) :=
  lengthLoop_packet hp hk

theorem messageLength_encode {p : BrokerPacket} (hp : p.body.length < 16384)
    (rest : Bytes) : messageLength (p.encode ++ rest) = p.encode.length := by
  have hloop : lengthLoop (p.encode ++ rest) ((p.encode ++ rest).length - 1) 1 0 = _ :=
    lengthLoop_encode hp (by simp)
  have hb := p.bodyAt_le
  have hlen := p.length_encode
  simp only [messageLength, mqttGetTotalLength, hloop]
  rw [i32_eq (by omega) (by omega)]
  omega

def type : BrokerPacket → MessageType
  | publish .. => .publish
  | puback _ => .puback
  | pubrec _ => .pubrec
  | pubrel _ => .pubrel
  | pubcomp _ => .pubcomp
  | suback _ _ => .suback
  | unsuback _ => .unsuback
  | pingresp => .pingresp

theorem mqttGetType_cons (h : UInt8) (rest : Bytes) :
    mqttGetType (h :: rest) = ((h &&& 0xf0) >>> 4).toNat := rfl

/-- The type and the level in the first byte of a PUBLISH. -/
theorem publish_header (dup retain : Bool) (q : Fin 3) :
    let h := UInt8.ofNat (0x30 + 8 * dup.toNat + 2 * q + retain.toNat)
    ((h &&& 0xf0) >>> 4).toNat = 3 ∧ ((h &&& 0x06) >>> 1).toNat = q := by
  revert dup retain q
  decide

theorem mqttGetType_encode (p : BrokerPacket) (rest : Bytes) :
    mqttGetType (p.encode ++ rest) = p.type.code := by
  rw [encode_append, mqttGetType_cons]
  cases p with
  | publish dup retain qos _ _ => exact (publish_header dup retain ⟨qos.level, qos.level_lt⟩).1
  | _ =>
    simp only [header, type, MessageType.code]
    decide

theorem mqttGetQos_encode (dup retain : Bool) (qos : Qos) (topic : Topic) (payload rest : Bytes) :
    mqttGetQos ((publish dup retain qos topic payload).encode ++ rest) = qos.level := by
  rw [encode_append]
  exact (publish_header dup retain ⟨qos.level, qos.level_lt⟩).2

theorem isPublish_encode_iff (p : BrokerPacket) (rest : Bytes) :
    IsPublish (p.encode ++ rest) ↔ p.isPublish = true := by
  unfold IsPublish
  rw [mqttGetType_encode]
  cases p <;> simp [type, isPublish, MessageType.code]

/-! ## The fields behind the header -/

theorem wordAt_encode {p : BrokerPacket} {a b : Bytes} {n : Nat} (hbody : p.body = a ++ word n ++ b)
    (hn : n < 65536) (rest : Bytes) : wordAt (p.encode ++ rest) (p.bodyAt + a.length) = n :=
  wordAt_packet p.header hbody hn rest

theorem slice_encode {p : BrokerPacket} {a b c : Bytes} (hbody : p.body = a ++ b ++ c)
    (rest : Bytes) : slice (p.encode ++ rest) (some (p.bodyAt + a.length), b.length) = b := by
  have hsplit : p.encode ++ rest =
      (p.header :: (remaining p.body.length ++ a)) ++ (b ++ (c ++ rest)) := by
    rw [encode_append, hbody]
    simp
  have hlen : p.bodyAt + a.length = (p.header :: (remaining p.body.length ++ a)).length := by
    simp only [bodyAt, bodyOffset, List.length_cons, List.length_append]
    omega
  show ((p.encode ++ rest).drop (p.bodyAt + a.length)).take b.length = b
  rw [hsplit, hlen, List.drop_left, List.take_left]

section Publish

variable {dup retain : Bool} {qos : Qos} {topic : Topic} {payload : Bytes}

theorem body_publish : (publish dup retain qos topic payload).body =
    word topic.bytes.length ++ topic.bytes ++ qos.idBytes ++ payload := rfl

theorem length_body_publish : (publish dup retain qos topic payload).body.length =
    2 + topic.bytes.length + qos.idBytes.length + payload.length := by
  simp only [body_publish, List.length_append, length_word]

theorem topic_length_at (rest : Bytes) :
    wordAt ((publish dup retain qos topic payload).encode ++ rest)
      (publish dup retain qos topic payload).bodyAt = topic.bytes.length := by
  refine wordAt_encode (a := []) (b := topic.bytes ++ qos.idBytes ++ payload) ?_ topic.lt rest
  simp [body_publish]

/-- The topic that `mqtt_get_publish_topic` finds. -/
theorem mqttGetPublishTopic_encode
    (hp : (publish dup retain qos topic payload).body.length < 16384) (rest : Bytes) {len : Nat}
    (hlen : (publish dup retain qos topic payload).encode.length ≤ len) :
    mqttGetPublishTopic ((publish dup retain qos topic payload).encode ++ rest) len =
      (some ((publish dup retain qos topic payload).bodyAt + 2), topic.bytes.length) := by
  have htop := List.length_pos_of_ne_nil topic.ne_nil
  have hle := length_encode (publish dup retain qos topic payload)
  rw [length_body_publish] at hle
  rw [mqttGetPublishTopic, lengthLoop_encode hp hlen]
  simp only [topic_length_at]
  rw [if_neg (by omega), if_neg (by omega)]

theorem slice_topic (rest : Bytes) :
    slice ((publish dup retain qos topic payload).encode ++ rest)
      (some ((publish dup retain qos topic payload).bodyAt + 2), topic.bytes.length) =
        topic.bytes := by
  refine slice_encode (a := word topic.bytes.length) (b := topic.bytes)
    (c := qos.idBytes ++ payload) ?_ rest
  simp [body_publish]

/-- The payload that `mqtt_get_publish_data` finds; it is given as NULL when it is
empty and nothing follows. -/
theorem mqttGetPublishData_encode
    (hp : (publish dup retain qos topic payload).body.length < 16384) (rest : Bytes) {len : Nat}
    (hlen : (publish dup retain qos topic payload).encode.length ≤ len) :
    let range := mqttGetPublishData ((publish dup retain qos topic payload).encode ++ rest) len
    range.2 = payload.length ∧
      slice ((publish dup retain qos topic payload).encode ++ rest) range = payload := by
  have htop := List.length_pos_of_ne_nil topic.ne_nil
  have hid := qos.length_idBytes
  have hle := length_encode (publish dup retain qos topic payload)
  have hbody : (publish dup retain qos topic payload).body.length = _ := length_body_publish
  rw [length_body_publish] at hle
  have hb := (publish dup retain qos topic payload).bodyAt_le
  have hnil : len ≤ (publish dup retain qos topic payload).bodyAt + 2 + topic.bytes.length +
      qos.idBytes.length → payload = [] := fun h => List.eq_nil_of_length_eq_zero (by omega)
  have htot : i32 (((publish dup retain qos topic payload).body.length : Int) +
      (publish dup retain qos topic payload).bodyAt) =
        (publish dup retain qos topic payload).encode.length := by
    rw [i32_eq (by omega) (by omega)]
    omega
  simp only [mqttGetPublishData, lengthLoop_encode hp hlen, topic_length_at, mqttGetQos_encode,
    htot]
  rw [if_neg (by omega)]
  by_cases hend : (publish dup retain qos topic payload).bodyAt + 2 + topic.bytes.length ≥ len
  · rw [if_pos hend, hnil (by omega)]
    exact ⟨rfl, rfl⟩
  rw [if_neg hend]
  by_cases hend' : qos.level > 0 ∧
      (publish dup retain qos topic payload).bodyAt + 2 + topic.bytes.length + 2 ≥ len
  · rw [if_pos hend', hnil (by rw [hid, if_pos hend'.1]; omega)]
    exact ⟨rfl, rfl⟩
  rw [if_neg hend']
  have hat : (if qos.level > 0 then
      (publish dup retain qos topic payload).bodyAt + 2 + topic.bytes.length + 2
      else (publish dup retain qos topic payload).bodyAt + 2 + topic.bytes.length) =
        (publish dup retain qos topic payload).bodyAt +
          (word topic.bytes.length ++ topic.bytes ++ qos.idBytes).length := by
    rw [List.length_append, List.length_append, length_word, hid]
    split <;> omega
  have hpay : (((publish dup retain qos topic payload).encode.length -
      ((publish dup retain qos topic payload).bodyAt +
        (word topic.bytes.length ++ topic.bytes ++ qos.idBytes).length : Nat) : Int) %
          65536).toNat = payload.length := by
    rw [List.length_append, List.length_append, length_word]
    omega
  rw [hat, if_neg (by rw [hle, List.length_append, List.length_append, length_word]; omega),
    if_pos (by omega), hpay]
  refine ⟨rfl, slice_encode (c := []) ?_ rest⟩
  simp [body_publish]

/-- The identifier that `mqtt_get_id` finds.  It takes one for missing that ends the
bytes it may look at. -/
theorem mqttGetId_publish (hp : (publish dup retain qos topic payload).body.length < 16384)
    {id : PacketId} (hid : qos.idBytes = word id.val) (hq : 0 < qos.level) (rest : Bytes)
    {len : Nat} (hlen : (publish dup retain qos topic payload).encode.length ≤ len) :
    mqttGetId ((publish dup retain qos topic payload).encode ++ rest) len =
      if (publish dup retain qos topic payload).encode.length < len + payload.length then id.val
      else 0 := by
  have hle := length_encode (publish dup retain qos topic payload)
  rw [length_body_publish, hid, length_word] at hle
  have hword : wordAt ((publish dup retain qos topic payload).encode ++ rest)
      ((publish dup retain qos topic payload).bodyAt + 2 + topic.bytes.length) = id.val := by
    have hbody : (publish dup retain qos topic payload).body =
        (word topic.bytes.length ++ topic.bytes) ++ word id.val ++ payload := by
      rw [body_publish, hid]
    have := wordAt_encode hbody id.lt rest
    rwa [List.length_append, length_word, ← Nat.add_assoc] at this
  have htype : MessageType.ofCode (mqttGetType
      ((publish dup retain qos topic payload).encode ++ rest)) = some .publish := by
    rw [mqttGetType_encode]
    rfl
  simp only [mqttGetId, htype, lengthLoop_encode hp hlen, topic_length_at,
    mqttGetQos_encode, hword]
  rw [if_neg (by omega), if_neg (by omega), if_neg (by omega), if_pos hq]
  by_cases hend : (publish dup retain qos topic payload).encode.length < len + payload.length
  · rw [if_pos hend, if_neg (by omega)]
  · rw [if_neg hend, if_pos (by omega)]

/-- It is found in `in_buffer`, which is larger than the packet. -/
theorem mqttGetId_publish_inside
    (hp : (publish dup retain qos topic payload).encode.length < mqttBufSize) {id : PacketId}
    (hid : qos.idBytes = word id.val) (hq : 0 < qos.level) (rest : Bytes) :
    mqttGetId ((publish dup retain qos topic payload).encode ++ rest) mqttBufSize = id.val :=
  (mqttGetId_publish (length_body_lt hp) hid hq rest (Nat.le_of_lt hp)).trans
    (if_pos (Nat.lt_of_lt_of_le hp (Nat.le_add_right _ _)))

end Publish

theorem mqttGetId_ack {p : BrokerPacket} {id : PacketId} (hbody : p.body = word id.val)
    (htype : p.type.idFirst = true) (rest : Bytes) {len : Nat} (hlen : 4 ≤ len) :
    mqttGetId (p.encode ++ rest) len = id.val := by
  have hof : MessageType.ofCode (mqttGetType (p.encode ++ rest)) = some p.type := by
    rw [mqttGetType_encode, MessageType.ofCode_code]
  have hfour : p.encode.length = 4 := by
    rw [length_encode, bodyAt, hbody]
    rfl
  have hread := mqttGetId_first p.header (hbody.trans (List.append_nil _).symm) id.lt rest hof
    htype (hfour ▸ hlen)
  rwa [if_pos (by rw [hbody, length_word]; decide)] at hread

end BrokerPacket
end Mqtt
end EspMisc
