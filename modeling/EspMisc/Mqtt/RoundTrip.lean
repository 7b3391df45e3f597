/-
The readers of `mqtt_msg.c` on what its builders made.

A PUBLISH of the client has the layout of one from the broker, so what the readers find
in the one they find in the other.  `mqtt_get_id` does not read back every identifier
that a builder wrote: `packetId_iff` says of which packets it does.
-/
import EspMisc.Mqtt.Builders
import EspMisc.Mqtt.Packets

namespace EspMisc
namespace Mqtt

open BrokerPacket

/-- The identifier that a connection assigns next. -/
def MqttConnection.freshId (c : MqttConnection) : PacketId :=
  ⟨nextId c.messageId, nextId_pos _, nextId_lt _⟩

/-- A level of service, with an identifier where it has one. -/
def Qos.ofLevel (qos : Int) (id : PacketId) : Qos :=
  if qos = 0 then .zero else if qos = 1 then .one id else .two id

theorem Qos.level_ofLevel {qos : Int} (h : 0 ≤ qos ∧ qos ≤ 2) (id : PacketId) :
    ((ofLevel qos id).level : Int) = qos := by
  unfold ofLevel
  split
  · next h0 => exact h0.symm
  · split
    · next h1 => exact h1.symm
    · show (2 : Int) = qos
      omega

theorem Qos.idBytes_ofLevel {qos : Int} (h : 0 ≤ qos ∧ qos ≤ 2) (id : PacketId) :
    (ofLevel qos id).idBytes = publishId qos id.val := by
  unfold ofLevel publishId
  split
  · next h0 => rw [if_neg (by omega)]; rfl
  · split <;> rw [if_pos (by omega)] <;> rfl

/-- What `mqtt_msg_publish` builds, as a packet. -/
def publishPacket (c : MqttConnection) (topic : Topic) (data : Bytes) (qos retain : Int) :
    BrokerPacket :=
  .publish false (decide (retain % 2 = 1)) (.ofLevel qos c.freshId) topic data

theorem header_publishPacket (c : MqttConnection) (topic : Topic) (data : Bytes) {qos : Int}
    (hq : 0 ≤ qos ∧ qos ≤ 2) (retain : Int) :
    (publishPacket c topic data qos retain).header = headerByte .publish 0 qos retain := by
  have hbit : (decide (retain % 2 = 1)).toNat = lowBits retain 2 := by
    unfold lowBits
    rcases Int.emod_two_eq_zero_or_one retain with h | h <;> rw [Nat.cast_ofNat, h] <;> rfl
  have hlevel : (Qos.ofLevel qos c.freshId).level = lowBits qos 4 := by
    have hof := Qos.level_ofLevel hq c.freshId
    unfold lowBits
    omega
  show UInt8.ofNat (0x30 + 8 * 0 + 2 * (Qos.ofLevel qos c.freshId).level +
    (decide (retain % 2 = 1)).toNat) = _
  rw [headerByte_eq, hlevel, hbit]
  congr 1
  show 0x30 + 8 * 0 + 2 * lowBits qos 4 + lowBits retain 2 =
    16 * 3 + (2 * lowBits qos 4 + lowBits retain 2)
  omega

theorem mqttMsgPublish_packet {c : MqttConnection} (hc : c.buffer.length = c.bufferLength)
    (hmax : c.bufferLength ≤ 16386) {topic : CString} (ht : topic.bytes ≠ []) {data : Bytes}
    {qos retain : Int} (hq : 0 ≤ qos ∧ qos ≤ 2)
    (hlen : (mqttMsgPublish c (some topic) data qos retain).1.message.length ≠ 0) :
    ∃ t : Topic, t.bytes = topic.bytes ∧
      (publishPacket c t data qos retain).body.length < 16384 ∧
      (mqttMsgPublish c (some topic) data qos retain).1.outbound =
        (publishPacket c t data qos retain).encode ∧
      (mqttMsgPublish c (some topic) data qos retain).1.message.length =
        (publishPacket c t data qos retain).encode.length ∧
      (mqttMsgPublish c (some topic) data qos retain).2 =
        some (if qos > 0 then nextId c.messageId else 0) := by
  obtain ⟨hfin, hid⟩ := (mqttMsgPublish_built ⟨rfl, hc⟩ (nonEmpty_some ht) data qos
    retain).resolve_left fun hfail => hlen hfail.length_eq
  have hfits := hfin.fits
  unfold maxFixedHeaderSize at hfits
  have hshort : topic.bytes.length < 65536 := by
    simp only [List.length_append] at hfits
    omega
  let t : Topic := ⟨topic.bytes, ht, hshort⟩
  have hbody : (publishPacket c t data qos retain).body =
      word topic.bytes.length ++ topic.bytes ++ publishId qos (nextId c.messageId) ++ data := by
    show word t.bytes.length ++ t.bytes ++ (Qos.ofLevel qos c.freshId).idBytes ++ data = _
    rw [Qos.idBytes_ofLevel hq]
    rfl
  have henc : (publishPacket c t data qos retain).encode =
      packet (headerByte .publish 0 qos retain) (word topic.bytes.length ++ topic.bytes ++
        publishId qos (nextId c.messageId) ++ data) := by
    rw [encode, header_publishPacket c t data hq, hbody]
  refine ⟨t, rfl, ?_, ?_, ?_, hid⟩
  · rw [hbody]
    omega
  · rw [henc]
    exact hfin.outbound
  · rw [henc]
    exact hfin.length_eq

/-- What was published is read back, whatever follows it in the buffer.  The readers
take the length as an `uint16_t`. -/
theorem publish_roundtrip {c : MqttConnection} (hc : c.buffer.length = c.bufferLength)
    (hmax : c.bufferLength ≤ 16386) {topic : CString} (ht : topic.bytes ≠ []) {data : Bytes}
    {qos retain : Int} (hq : 0 ≤ qos ∧ qos ≤ 2)
    (hlen : (mqttMsgPublish c (some topic) data qos retain).1.message.length ≠ 0)
    (trailing : Bytes)
    (htrail : ((mqttMsgPublish c (some topic) data qos retain).1.outbound ++
      trailing).length ≤ 65535) :
    let m := (mqttMsgPublish c (some topic) data qos retain).1.outbound ++ trailing
    let readTopic := mqttGetPublishTopic m (m.length % 65536)
    let readData := mqttGetPublishData m (m.length % 65536)
    (slice m readTopic = topic.bytes ∧ readTopic.2 = topic.bytes.length) ∧
      (slice m readData = data ∧ readData.2 = data.length) ∧
      mqttGetType m = MessageType.publish.code ∧ (mqttGetQos m : Int) = qos := by
  obtain ⟨t, hbytes, hshort, hout, -, -⟩ := mqttMsgPublish_packet hc hmax ht hq hlen
  simp only [Nat.mod_eq_of_lt (Nat.lt_succ_of_le htrail)]
  rw [hout, ← hbytes]
  have hle : (publishPacket c t data qos retain).encode.length ≤
      ((publishPacket c t data qos retain).encode ++ trailing).length := by
    rw [List.length_append]
    exact Nat.le_add_right _ _
  have htopic : mqttGetPublishTopic ((publishPacket c t data qos retain).encode ++ trailing)
      ((publishPacket c t data qos retain).encode ++ trailing).length =
        (some ((publishPacket c t data qos retain).bodyAt + 2), t.bytes.length) :=
    mqttGetPublishTopic_encode hshort trailing hle
  obtain ⟨hdataLen, hdata⟩ := mqttGetPublishData_encode hshort trailing hle
  refine ⟨⟨?_, ?_⟩, ⟨hdata, hdataLen⟩, mqttGetType_encode _ _, ?_⟩
  · rw [htopic]
    exact slice_topic trailing
  · rw [htopic]
  · exact (congrArg Int.ofNat (mqttGetQos_encode ..)).trans (Qos.level_ofLevel hq _)

theorem sampleTopic_ok : (0 : UInt8) ∉ [0x74] ∧ [0x74].length < 2 ^ 30 := by decide

/-- `t`. -/
def sampleTopic : CString := ⟨[0x74], sampleTopic_ok.1, sampleTopic_ok.2⟩

/-- An empty payload at the level 1, with a PINGRESP behind it. -/
theorem publish_roundtrip_empty :
    let m := (mqttMsgPublish (sampleConnection 16) (some sampleTopic) [] 1 0).1.outbound ++
      [0xd0, 0x00]
    m = [0x32, 0x05, 0x00, 0x01, 0x74, 0x00, 0x01, 0xd0, 0x00] ∧
      slice m (mqttGetPublishTopic m (m.length % 65536)) = [0x74] ∧
      slice m (mqttGetPublishData m (m.length % 65536)) = [] := by
  have h := @publish_roundtrip (sampleConnection 16) (by decide) (by decide) sampleTopic
    (by decide) [] 1 0 (by decide) (by decide) [0xd0, 0x00] (by decide)
  exact ⟨by decide, h.1.1, h.2.1.1⟩

/-! ## Identifiers -/

namespace Build

/-- The calls whose packet carries an identifier. -/
def Identified : Build → Prop
  | publish _ _ qos _ => qos = 1 ∨ qos = 2
  | puback messageId | pubrec messageId | pubrel messageId | pubcomp messageId =>
    0 < messageId ∧ messageId < 65536
  | subscribe _ _ => True
  | unsubscribe _ => True
  | _ => False

/-- The identifier that the builder was given, or the one it stored for its caller. -/
def packetId (c : MqttConnection) : Build → Option Nat
  | publish topic data qos retain => (mqttMsgPublish c topic data qos retain).2
  | puback messageId | pubrec messageId | pubrel messageId | pubcomp messageId => some messageId
  | subscribe topic qos => (mqttMsgSubscribe c topic qos).2
  | unsubscribe topic => (mqttMsgUnsubscribe c topic).2
  | _ => none

/-- The calls whose identifier `mqtt_get_id` reads back: something has to follow the
identifier of a PUBLISH, the remaining length of a SUBSCRIBE has to fit one byte, and
an UNSUBSCRIBE is not looked at. -/
def IdReadable : Build → Prop
  | publish _ data _ _ => data ≠ []
  | subscribe topic _ => (topic.elim [] CString.bytes).length ≤ 122
  | unsubscribe _ => False
  | _ => True

end Build

theorem nonEmpty_bytes {s : Option CString} {t : Bytes} (h : nonEmpty s = some t) :
    ∃ topic : CString, s = some topic ∧ topic.bytes ≠ [] ∧ topic.bytes = t := by
  cases s with
  | none => exact absurd h (by simp [nonEmpty])
  | some topic =>
    by_cases hnil : topic.bytes = []
    · simp [nonEmpty, hnil] at h
    · rw [nonEmpty_some hnil] at h
      exact ⟨topic, rfl, hnil, Option.some.inj h⟩

theorem publish_packetId_iff {c : MqttConnection} (hc : c.buffer.length = c.bufferLength)
    (hmax : c.bufferLength ≤ 16386) {topic : CString} (ht : topic.bytes ≠ []) {data : Bytes}
    {qos retain : Int} (hq : qos = 1 ∨ qos = 2)
    (hlen : (mqttMsgPublish c (some topic) data qos retain).1.message.length ≠ 0) :
    let built := mqttMsgPublish c (some topic) data qos retain
    some (mqttGetId built.1.outbound built.1.message.length) = built.2 ↔ data ≠ [] := by
  obtain ⟨t, -, hshort, hout, hlength, hid⟩ :=
    mqttMsgPublish_packet hc hmax ht (show 0 ≤ qos ∧ qos ≤ 2 by omega) hlen
  have hpos := nextId_pos c.messageId
  have hread : mqttGetId (publishPacket c t data qos retain).encode
      (publishPacket c t data qos retain).encode.length =
        if (publishPacket c t data qos retain).encode.length <
          (publishPacket c t data qos retain).encode.length + data.length then
            nextId c.messageId else 0 := by
    have hbytes : (Qos.ofLevel qos c.freshId).idBytes = word c.freshId.val := by
      rw [Qos.idBytes_ofLevel (by omega), publishId, if_pos (by omega)]
    have hlevel := Qos.level_ofLevel (show 0 ≤ qos ∧ qos ≤ 2 by omega) c.freshId
    have hpub := mqttGetId_publish hshort hbytes (by omega) [] (Nat.le_refl _)
    rwa [List.append_nil] at hpub
  simp only [hout, hlength, hid, if_pos (show qos > 0 by omega), Option.some.injEq, hread,
    Nat.lt_add_right_iff_pos, List.length_pos_iff]
  by_cases hdata : data = []
  · rw [if_neg (not_not_intro hdata)]
    exact ⟨fun h => absurd h (by omega), fun h => absurd hdata h⟩
  · rw [if_pos hdata]
    exact ⟨fun _ => hdata, fun _ => rfl⟩

/-- The identifier of a packet that is finished and has it in front. -/
theorem Finished.packetId {n : Nat} {c : MqttConnection} {type : MessageType} {qos : Int} {id : Nat}
    {rest : Bytes} (h : Finished n c (headerByte type 0 qos 0) (word id ++ rest))
    (hid : id < 65536) (htype : type.idFirst = true) :
    mqttGetId c.outbound c.message.length = if (word id ++ rest).length ≤ 127 then id else 0 := by
  rw [h.outbound, h.length_eq]
  have hof : MessageType.ofCode (mqttGetType
      (packet (headerByte type 0 qos 0) (word id ++ rest) ++ [])) = some type := by
    rw [List.append_nil, packet_type, MessageType.ofCode_code]
  have hread := mqttGetId_first _ rfl hid [] hof htype (Nat.le_refl _)
  rwa [List.append_nil] at hread

/-- `mqtt_get_id` reads back the identifier of a built packet exactly when it can. -/
theorem packetId_iff {c : MqttConnection} (hc : c.buffer.length = c.bufferLength)
    (hmax : c.bufferLength ≤ 16386) {b : Build} (hb : b.Identified)
    (hlen : (b.run c).message.length ≠ 0) :
    some (mqttGetId (b.run c).outbound (b.run c).message.length) = b.packetId c ↔
      b.IdReadable := by
  have hfit : Fitted c.bufferLength c := ⟨rfl, hc⟩
  have hpos := nextId_pos c.messageId
  have hack : ∀ (type : MessageType) (qos : Int) (id : Nat), type.idFirst = true → 0 < id ∧ id < 65536 →
      (mqttMsgAck c type qos id).message.length ≠ 0 →
        mqttGetId (mqttMsgAck c type qos id).outbound (mqttMsgAck c type qos id).message.length =
          id := by
    intro type qos id htype hid hne
    have hfin := (mqttMsgAck_built hfit type qos id).finished hne
    rw [if_neg (by omega), ← List.append_nil (word id)] at hfin
    exact (hfin.packetId hid.2 htype).trans (if_pos (by simp))
  cases b with
  | publish topic data qos retain =>
    cases ht : nonEmpty topic with
    | none => simp [Build.run, mqttMsgPublish, ht, failMessage] at hlen
    | some t =>
      obtain ⟨topic, rfl, hne, -⟩ := nonEmpty_bytes ht
      exact publish_packetId_iff hc hmax hne hb hlen
  | subscribe topic qos =>
    cases ht : nonEmpty topic with
    | none => simp [Build.run, mqttMsgSubscribe, ht, failMessage] at hlen
    | some t =>
      obtain ⟨hfin, hid⟩ := (mqttMsgSubscribe_built hfit ht qos).resolve_left
        fun hfail => hlen hfail.length_eq
      obtain ⟨topic, rfl, -, rfl⟩ := nonEmpty_bytes ht
      have hread := hfin.packetId (nextId_lt _) rfl
      simp only [Build.run, Build.packetId, Build.IdReadable, hid, hread, Option.some.injEq,
        List.length_append, length_word, List.length_singleton, Option.elim_some]
      by_cases hsmall : topic.bytes.length ≤ 122
      · rw [if_pos (by omega)]
        exact ⟨fun _ => hsmall, fun _ => rfl⟩
      · rw [if_neg (by omega)]
        exact ⟨fun h => absurd h (by omega), fun h => absurd h hsmall⟩
  | unsubscribe topic =>
    cases ht : nonEmpty topic with
    | none => simp [Build.run, mqttMsgUnsubscribe, ht, failMessage] at hlen
    | some t =>
      obtain ⟨hfin, hid⟩ := (mqttMsgUnsubscribe_built hfit ht).resolve_left
        fun hfail => hlen hfail.length_eq
      have hread : mqttGetId (mqttMsgUnsubscribe c topic).1.outbound
          (mqttMsgUnsubscribe c topic).1.message.length = 0 := by
        rw [hfin.outbound]
        simp only [mqttGetId, packet_type, MessageType.ofCode_code]
        split <;> rfl
      simp only [Build.run, Build.packetId, Build.IdReadable, hid, hread, Option.some.injEq,
        iff_false]
      omega
  | puback id => exact ⟨fun _ => trivial, fun _ => congrArg some (hack .puback 0 id rfl hb hlen)⟩
  | pubrec id => exact ⟨fun _ => trivial, fun _ => congrArg some (hack .pubrec 0 id rfl hb hlen)⟩
  | pubrel id => exact ⟨fun _ => trivial, fun _ => congrArg some (hack .pubrel 1 id rfl hb hlen)⟩
  | pubcomp id =>
    exact ⟨fun _ => trivial, fun _ => congrArg some (hack .pubcomp 0 id rfl hb hlen)⟩
  | connect _ => exact hb.elim
  | pingreq => exact hb.elim
  | pingresp => exact hb.elim
  | disconnect => exact hb.elim

theorem packetId_iff_payload :
    let b : Build := .publish (some sampleTopic) [0x62] 2 0
    some (mqttGetId (b.run (sampleConnection 16)).outbound
      (b.run (sampleConnection 16)).message.length) = b.packetId (sampleConnection 16) :=
  (packetId_iff (b := .publish (some sampleTopic) [0x62] 2 0) (by decide) (by decide)
    (Or.inr rfl) (by decide)).mpr (List.cons_ne_nil _ _)

/-- The identifier 1 of a PUBLISH without a payload is read as 0. -/
theorem packetId_not_read :
    ∃ (c : MqttConnection) (b : Build), c.buffer.length = c.bufferLength ∧
      c.bufferLength ≤ 16386 ∧ b.Identified ∧ (b.run c).message.length ≠ 0 ∧
      some (mqttGetId (b.run c).outbound (b.run c).message.length) ≠ b.packetId c :=
  ⟨sampleConnection 16, .publish (some sampleTopic) [] 1 0, by decide, by decide, Or.inl rfl,
    by decide, by decide⟩

end Mqtt
end EspMisc
