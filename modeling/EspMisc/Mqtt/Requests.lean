/-
The packets that carry an identifier of the client's own.

`requestId` reads the identifier of a queued message, at the place where MQTT puts it.
Each builder of a request has one lemma here: how far it moves the counter of
identifiers, and which identifier the message it leaves carries.
-/
import EspMisc.Lib.Serial
import EspMisc.Mqtt.Packets
import EspMisc.Mqtt.Ready

namespace EspMisc
namespace Mqtt

/-! ## Reading a request -/

/-- The identifier of a PUBLISH with a quality of service, a SUBSCRIBE or an
UNSUBSCRIBE. -/
def requestId (m : Bytes) : Option Nat :=
  let i := (lengthLoop m (m.length - 1) 1 0).1
  match MessageType.ofCode (mqttGetType m) with
  | some .publish => if mqttGetQos m > 0 then some (wordAt m (i + 2 + wordAt m i)) else none
  | some .subscribe | some .unsubscribe => some (wordAt m i)
  | _ => none

theorem requestId_nil : requestId [] = none := rfl

/-- The messages of the client that are no requests. -/
theorem requestId_other {type : MessageType} (h : type ≠ .publish ∧ type ≠ .subscribe ∧
    type ≠ .unsubscribe) (qos retain : Int) (body : Bytes) :
    requestId (packet (headerByte type 0 qos retain) body) = none := by
  rw [requestId, packet_type, MessageType.ofCode_code]
  cases type <;> simp_all

section Packet

variable {body : Bytes} (hp : body.length < 16384)
include hp

theorem lengthLoop_self (h : UInt8) :
    (lengthLoop (packet h body) ((packet h body).length - 1) 1 0).1 = bodyOffset body := by
  have hloop : lengthLoop (packet h body ++ []) ((packet h body).length - 1) 1 0 = _ :=
    lengthLoop_packet hp (Nat.le_refl _)
  rw [List.append_nil] at hloop
  rw [hloop]

theorem requestId_subscribe {type : MessageType} (ht : type = .subscribe ∨ type = .unsubscribe)
    {id : Nat} (hid : id < 65536) {rest : Bytes} (hbody : body = word id ++ rest) :
    requestId (packet (headerByte type 0 1 0) body) = some id := by
  have hword := wordAt_packet (headerByte type 0 1 0) (a := []) (b := rest) hbody hid []
  rw [List.append_nil, List.length_nil, Nat.add_zero] at hword
  rw [requestId, packet_type, MessageType.ofCode_code, lengthLoop_self hp]
  rcases ht with rfl | rfl <;> exact congrArg some hword

theorem requestId_publish {qos retain : Int} {topic : Bytes} (ht : topic.length < 65536)
    {id : Nat} (hid : id < 65536) {data : Bytes}
    (hbody : body = word topic.length ++ topic ++ word id ++ data) :
    requestId (packet (headerByte .publish 0 qos retain) body) =
      if lowBits qos 4 > 0 then some id else none := by
  have hfirst : body = [] ++ word topic.length ++ (topic ++ word id ++ data) := by
    rw [hbody]
    simp
  have htopic := wordAt_packet (headerByte .publish 0 qos retain) hfirst ht []
  have hword := wordAt_packet (headerByte .publish 0 qos retain)
    (a := word topic.length ++ topic) (b := data) hbody hid []
  rw [List.append_nil, List.length_nil, Nat.add_zero] at htopic
  rw [List.append_nil, List.length_append, length_word, ← Nat.add_assoc] at hword
  rw [requestId, packet_type, MessageType.ofCode_code, lengthLoop_self hp, packet_qos, htopic,
    hword]

end Packet

theorem requestId_publish_zero (retain : Int) (body : Bytes) :
    requestId (packet (headerByte .publish 0 0 retain) body) = none := by
  rw [requestId, packet_type, MessageType.ofCode_code, packet_qos]
  rfl

/-! ## Building a request -/

/-- The identifiers that MQTT_Publish takes: one, when the topic leaves room for it. -/
def publishIds (topic : Option CString) (qos : Int) : Nat :=
  match nonEmpty topic with
  | none => 0
  | some topic => if 0 < qos ∧ maxFixedHeaderSize + topic.length + 2 ≤ mqttBufSize then 1 else 0

/-- The identifiers that MQTT_Subscribe and MQTT_UnSubscribe take. -/
def topicIds (topic : Option CString) : Nat := if (nonEmpty topic).isSome then 1 else 0

/-- What a request leaves: the counter, and the identifier in the message. -/
structure Numbered (c c' : MqttConnection) (n : Nat) : Prop where
  counter : c'.messageId = nextId^[n] c.messageId
  request : requestId c'.outbound = none ∨
    n = 1 ∧ requestId c'.outbound = some (nextId c.messageId)

/-! The counter moves when an identifier is looked for, whether or not it finds room. -/

theorem appendMessageId_counter (c : MqttConnection) (id : Nat) :
    (appendMessageId c id).1.messageId = nextId^[if id = 0 then 1 else 0] c.messageId := by
  simp only [appendMessageId]
  by_cases hid : id = 0
  · simp only [if_pos hid]
    split <;> rfl
  · simp only [if_neg hid]
    split <;> rfl

theorem appendString_messageId {c c' : MqttConnection} {s : Bytes}
    (h : appendString c s = some c') : c'.messageId = c.messageId := by
  unfold appendString at h
  split at h
  · exact absurd h (by simp)
  · obtain rfl := Option.some.inj h
    rfl

theorem mqttMsgSubscribe_counter (c : MqttConnection) (topic : Option CString) (qos : Int) :
    (mqttMsgSubscribe c topic qos).1.messageId = nextId^[topicIds topic] c.messageId := by
  have hid := appendMessageId_counter (initMessage c) 0
  simp only [mqttMsgSubscribe, topicIds]
  cases nonEmpty topic with
  | none => rfl
  | some t =>
    simp only [Option.isSome_some, if_true]
    split
    · exact hid
    · split
      · exact hid
      · next c' hs =>
        have hcount := (appendString_messageId hs).trans hid
        split
        · exact hcount
        · exact (finiMessage_messageId ..).trans hcount

theorem mqttMsgUnsubscribe_counter (c : MqttConnection) (topic : Option CString) :
    (mqttMsgUnsubscribe c topic).1.messageId = nextId^[topicIds topic] c.messageId := by
  have hid := appendMessageId_counter (initMessage c) 0
  simp only [mqttMsgUnsubscribe, topicIds]
  cases nonEmpty topic with
  | none => rfl
  | some t =>
    simp only [Option.isSome_some, if_true]
    split
    · exact hid
    · split
      · exact hid
      · next c' hs =>
        exact (finiMessage_messageId ..).trans ((appendString_messageId hs).trans hid)

theorem publishIds_some {c : MqttConnection} (h : Sound c) {topic : Option CString} {t : Bytes}
    (ht : nonEmpty topic = some t) (qos : Int) :
    publishIds topic qos = if 0 < qos ∧ (appendString (initMessage c) t).isSome then 1 else 0 := by
  simp only [publishIds, ht, appendString_isSome_iff, h.initMessage.bufferLength]
  rfl

theorem mqttMsgPublish_counter {c : MqttConnection} (h : Sound c) (topic : Option CString)
    (data : Bytes) (qos retain : Int) :
    (mqttMsgPublish c topic data qos retain).1.messageId =
      nextId^[publishIds topic qos] c.messageId := by
  simp only [mqttMsgPublish]
  cases ht : nonEmpty topic with
  | none =>
    rw [publishIds, ht]
    rfl
  | some t =>
    rw [publishIds_some h ht]
    simp only
    split
    · next hs =>
      rw [hs, Option.isSome_none, if_neg (by simp)]
      rfl
    · next c₁ hs =>
      rw [hs]
      have hsame : c₁.messageId = (initMessage c).messageId := appendString_messageId hs
      by_cases hq : qos > 0
      · have hcount := appendMessageId_counter c₁ 0
        rw [hsame] at hcount
        simp only [hq, if_true, Option.isSome_some, and_self, true_and]
        split
        · exact hcount
        · split
          · exact hcount
          · exact (finiMessage_messageId ..).trans hcount
      · simp only [hq, if_false, false_and]
        split
        · exact hsame
        · exact (finiMessage_messageId ..).trans hsame

/-! What was built carries the identifier, if anything was built. -/

theorem Failed.requestId_eq {n : Nat} {c : MqttConnection} (h : Failed n c) :
    requestId c.outbound = none := by
  rw [MqttConnection.outbound, h.length_eq, List.take_zero, requestId_nil]

theorem Finished.length_le {c : MqttConnection} {header : UInt8} {body : Bytes}
    (h : Finished mqttBufSize c header body) : body.length + maxFixedHeaderSize ≤ 1792 := by
  have hfits := h.fits
  unfold mqttBufSize at hfits
  omega

theorem Finished.requestId_subscribe {c : MqttConnection} {type : MessageType} {id : Nat}
    {rest : Bytes} (h : Finished mqttBufSize c (headerByte type 0 1 0) (word id ++ rest))
    (ht : type = .subscribe ∨ type = .unsubscribe) (hid : id < 65536) :
    requestId c.outbound = some id := by
  have hlen := h.length_le
  rw [h.outbound]
  exact Mqtt.requestId_subscribe (by omega) ht hid rfl

theorem mqttMsgSubscribe_numbered {c : MqttConnection} (h : Sound c) (topic : Option CString)
    (qos : Int) : Numbered c (mqttMsgSubscribe c topic qos).1 (topicIds topic) := by
  refine ⟨mqttMsgSubscribe_counter c topic qos, ?_⟩
  cases ht : nonEmpty topic with
  | none =>
    simp only [mqttMsgSubscribe, ht]
    exact Or.inl h.fitted.initMessage.fail.requestId_eq
  | some t =>
    rcases mqttMsgSubscribe_built h.fitted ht qos with hfail | ⟨hfin, -⟩
    · exact Or.inl hfail.requestId_eq
    · refine Or.inr ⟨by rw [topicIds, ht]; rfl, ?_⟩
      exact hfin.requestId_subscribe (Or.inl rfl) (nextId_lt _)

theorem mqttMsgUnsubscribe_numbered {c : MqttConnection} (h : Sound c) (topic : Option CString) :
    Numbered c (mqttMsgUnsubscribe c topic).1 (topicIds topic) := by
  refine ⟨mqttMsgUnsubscribe_counter c topic, ?_⟩
  cases ht : nonEmpty topic with
  | none =>
    simp only [mqttMsgUnsubscribe, ht]
    exact Or.inl h.fitted.initMessage.fail.requestId_eq
  | some t =>
    rcases mqttMsgUnsubscribe_built h.fitted ht with hfail | ⟨hfin, -⟩
    · exact Or.inl hfail.requestId_eq
    · refine Or.inr ⟨by rw [topicIds, ht]; rfl, ?_⟩
      exact hfin.requestId_subscribe (Or.inr rfl) (nextId_lt _)

/-- A negative `qos` would put a level into the header and no identifier behind the topic. -/
theorem mqttMsgPublish_numbered {c : MqttConnection} (h : Sound c) (topic : Option CString)
    (data : Bytes) {qos : Int} (hqos : 0 ≤ qos) (retain : Int) :
    Numbered c (mqttMsgPublish c topic data qos retain).1 (publishIds topic qos) := by
  refine ⟨mqttMsgPublish_counter h topic data qos retain, ?_⟩
  cases ht : nonEmpty topic with
  | none =>
    simp only [mqttMsgPublish, ht]
    exact Or.inl h.fitted.initMessage.fail.requestId_eq
  | some t =>
    rcases mqttMsgPublish_built h.fitted ht data qos retain with hfail | ⟨hfin, -⟩
    · exact Or.inl hfail.requestId_eq
    have hlen := hfin.length_le
    rw [hfin.outbound]
    by_cases hq : qos > 0
    · rw [publishId, if_pos hq] at hlen ⊢
      -- a topic that is in the packet leaves room for the identifier
      have hroom : maxFixedHeaderSize + t.length + 2 ≤ mqttBufSize := by
        simp only [List.length_append, length_word] at hlen
        unfold mqttBufSize
        omega
      have hone : publishIds topic qos = 1 := by
        simp only [publishIds, ht]
        exact if_pos ⟨hq, hroom⟩
      unfold maxFixedHeaderSize mqttBufSize at hroom
      rw [requestId_publish (by omega) (by omega) (nextId_lt _) rfl]
      split
      · exact Or.inr ⟨hone, rfl⟩
      · exact Or.inl rfl
    · obtain rfl : qos = 0 := by omega
      exact Or.inl (requestId_publish_zero ..)

/-- An acknowledgement takes an identifier when it is not given one. -/
theorem mqttMsgAck_numbered {c : MqttConnection} (h : Sound c) {type : MessageType}
    (ht : type ≠ .publish ∧ type ≠ .subscribe ∧ type ≠ .unsubscribe) (qos : Int) (id : Nat) :
    (mqttMsgAck c type qos id).messageId = nextId^[if id = 0 then 1 else 0] c.messageId ∧
      requestId (mqttMsgAck c type qos id).outbound = none := by
  constructor
  · have hcount := appendMessageId_counter (initMessage c) id
    simp only [mqttMsgAck]
    split
    · exact hcount
    · exact (finiMessage_messageId ..).trans hcount
  · rcases mqttMsgAck_built h.fitted type qos id with hfail | hfin
    · exact hfail.requestId_eq
    · rw [hfin.outbound]
      exact requestId_other ht ..

/-- A PINGREQ and a PINGRESP take none. -/
theorem finiMessage_numbered {c : MqttConnection} (h : Sound c) (type : MessageType)
    (ht : type ≠ .publish ∧ type ≠ .subscribe ∧ type ≠ .unsubscribe) :
    (finiMessage (initMessage c) type 0 0 0).messageId = c.messageId ∧
      requestId (finiMessage (initMessage c) type 0 0 0).outbound = none := by
  refine ⟨finiMessage_messageId .., ?_⟩
  rw [(finiMessage_outbound h.building type 0 0 0).1]
  exact requestId_other ht ..

end Mqtt
end EspMisc
