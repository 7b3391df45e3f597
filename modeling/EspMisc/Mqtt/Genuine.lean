/-
What the requests put into the queue.

A builder reports that it failed by a message of no bytes.  MQTT_Publish and MQTT_Ping
look at the length.  MQTT_Subscribe and MQTT_UnSubscribe do not: they queue the empty
message, return TRUE, and the task sends it.  `genuine_requests` says for which requests
TRUE means that a packet with the topic is the newest message, and that over a run whose
subscriptions have topics that fit the task sends packets only.
-/
import EspMisc.Mqtt.Eviction
import EspMisc.Mqtt.Identifiers

namespace EspMisc
namespace Mqtt

open Machine

/-! ## The packets of the requests -/

/-- A topic of at most `n` bytes, and of at least one. -/
def TopicWithin (topic : Option CString) (n : Nat) : Prop :=
  ∃ t, nonEmpty topic = some t ∧ t.length ≤ n

theorem nonEmpty_eq_some {topic : Option CString} {t : Bytes} (h : nonEmpty topic = some t) :
    t ≠ [] ∧ topic.map CString.bytes = some t := by
  unfold nonEmpty at h
  split at h
  · exact absurd h (by simp)
  · next s =>
    split at h
    · exact absurd h (by simp)
    · next hne =>
      obtain rfl := Option.some.inj h
      exact ⟨hne, rfl⟩

theorem nonEmpty_of_map {topic : Option CString} {t : Bytes} (ht : t ≠ [])
    (h : topic.map CString.bytes = some t) : nonEmpty topic = some t := by
  obtain ⟨s, rfl, rfl⟩ := Option.map_eq_some_iff.mp h
  exact nonEmpty_some ht

namespace Request

/-- A well-formed packet of the kind of the request, with the topic of the request. -/
def Names (m : Bytes) : Request → Prop
  | .publish topic _ _ _ =>
    ∃ (t : Topic) (dup retain : Bool) (qos : Qos) (payload : Bytes),
      topic.map CString.bytes = some t.bytes ∧
        m = (BrokerPacket.publish dup retain qos t payload).encode
  | .subscribe topic _ =>
    ∃ (t : Topic) (id : PacketId) (level : Fin 3), topic.map CString.bytes = some t.bytes ∧
      m = Mqtt.packet 0x82 (word id.val ++ (field t.bytes ++ [UInt8.ofNat level]))
  | .unSubscribe topic =>
    ∃ (t : Topic) (id : PacketId), topic.map CString.bytes = some t.bytes ∧
      m = Mqtt.packet 0xA2 (word id.val ++ field t.bytes)
  | .ping => m = Mqtt.packet 0xC0 []

/-- The payload begins like an identifier: with two bytes that are not both 0. -/
def BeginsWithId (data : Bytes) : Prop := ∃ (id : PacketId) (rest : Bytes), data = word id.val ++ rest

/-- The buffer has room for the topic, and MQTT has the level of service.  A negative
level is announced by its low bits but takes no identifier, so that the payload has to
begin with one. -/
def Usable : Request → Prop
  | .publish _ data qos _ =>
    lowBits qos 4 = 0 ∨ lowBits qos 4 ≠ 3 ∧ (0 < qos ∨ BeginsWithId data)
  | .subscribe topic qos => TopicWithin topic 1784 ∧ qos % 256 < 3
  | .unSubscribe topic => TopicWithin topic 1785
  | .ping => True

end Request

theorem nextId_packetId (n : Nat) : ∃ id : PacketId, id.val = nextId n :=
  ⟨⟨nextId n, nextId_pos n, nextId_lt n⟩, rfl⟩

section Building

variable {c : MqttConnection} {topic : Option CString} {t : Bytes}

/-- The identifier and the topic of a subscription fit. -/
theorem appendTopic_building (h : Sound c) (hfit : 7 + t.length ≤ mqttBufSize) :
    ∃ c', (appendMessageId (initMessage c) 0).2 = nextId c.messageId ∧
      appendString (appendMessageId (initMessage c) 0).1 t = some c' ∧
      Building c' (word (nextId c.messageId) ++ field t) ∧
      c'.bufferLength = mqttBufSize := by
  have hroom : (initMessage c).message.length + 2 ≤ (initMessage c).bufferLength := by
    rw [h.initMessage.bufferLength]
    show 3 + 2 ≤ mqttBufSize
    decide
  obtain ⟨hb, hl, -, hval⟩ := appendMessageId_building h.building hroom 0
  rw [if_pos rfl] at hval
  rw [hval, List.nil_append] at hb
  have hstring : (appendMessageId (initMessage c) 0).1.message.length + t.length + 2 ≤
      (appendMessageId (initMessage c) 0).1.bufferLength := by
    rw [hb.length_eq, hl, h.initMessage.bufferLength, length_word]
    show 3 + 2 + t.length + 2 ≤ mqttBufSize
    omega
  obtain ⟨c', hsome, hb', hl', -⟩ := appendString_building hb hstring
  rw [List.append_assoc] at hb'
  exact ⟨c', hval, hsome, hb', hl'.trans (hl.trans h.bufferLength)⟩

theorem mqttMsgSubscribe_finished (h : Sound c) (ht : nonEmpty topic = some t)
    (hfit : t.length ≤ 1784) (qos : Int) :
    Finished mqttBufSize (mqttMsgSubscribe c topic qos).1 0x82
      (word (nextId c.messageId) ++ (field t ++ [UInt8.ofInt qos])) := by
  obtain ⟨c', hval, hsome, hb, hl⟩ := appendTopic_building h (t := t) (by unfold mqttBufSize; omega)
  have hlevel : c'.message.length + [UInt8.ofInt qos].length ≤ c'.bufferLength := by
    rw [hb.length_eq, hl]
    show 3 + (word _ ++ (word _ ++ t)).length + 1 ≤ 1792
    simp only [List.length_append, length_word]
    omega
  have hne : ¬nextId c.messageId = 0 := Nat.ne_of_gt (nextId_pos _)
  have hmore : ¬c'.message.length + 1 > c'.bufferLength := Nat.not_lt.mpr hlevel
  have hfin := (hb.append [UInt8.ofInt qos] hlevel).finish hl .subscribe 0 1 0
  rw [List.append_assoc] at hfin
  simp only [mqttMsgSubscribe, ht, hval, if_neg hne, hsome, if_neg hmore]
  exact hfin

theorem mqttMsgUnsubscribe_finished (h : Sound c) (ht : nonEmpty topic = some t)
    (hfit : t.length ≤ 1785) :
    Finished mqttBufSize (mqttMsgUnsubscribe c topic).1 0xA2
      (word (nextId c.messageId) ++ field t) := by
  obtain ⟨c', hval, hsome, hb, hl⟩ := appendTopic_building h (t := t) (by unfold mqttBufSize; omega)
  have hne : ¬nextId c.messageId = 0 := Nat.ne_of_gt (nextId_pos _)
  simp only [mqttMsgUnsubscribe, ht, hval, if_neg hne, hsome]
  exact hb.finish hl .unsubscribe 0 1 0

theorem Failed.outbound {n : Nat} (h : Failed n c) : c.outbound = [] := by
  rw [MqttConnection.outbound, h.length_eq, List.take_zero]

/-- A topic that was built into a subscription was within the bound. -/
theorem mqttMsgSubscribe_outbound (h : Sound c) (ht : nonEmpty topic = some t) (qos : Int) :
    (mqttMsgSubscribe c topic qos).1.outbound =
      if t.length ≤ 1784 then
        packet 0x82 (word (nextId c.messageId) ++ (field t ++ [UInt8.ofInt qos]))
      else [] := by
  by_cases hfit : t.length ≤ 1784
  · rw [if_pos hfit, (mqttMsgSubscribe_finished h ht hfit qos).outbound]
  · rw [if_neg hfit]
    rcases mqttMsgSubscribe_built h.fitted ht qos with hfail | ⟨hfin, -⟩
    · exact hfail.outbound
    · have hfits := hfin.length_le
      simp only [List.length_append, length_word, List.length_singleton] at hfits
      unfold maxFixedHeaderSize at hfits
      omega

theorem mqttMsgUnsubscribe_outbound (h : Sound c) (ht : nonEmpty topic = some t) :
    (mqttMsgUnsubscribe c topic).1.outbound =
      if t.length ≤ 1785 then packet 0xA2 (word (nextId c.messageId) ++ field t) else [] := by
  by_cases hfit : t.length ≤ 1785
  · rw [if_pos hfit, (mqttMsgUnsubscribe_finished h ht hfit).outbound]
  · rw [if_neg hfit]
    rcases mqttMsgUnsubscribe_built h.fitted ht with hfail | ⟨hfin, -⟩
    · exact hfail.outbound
    · have hfits := hfin.length_le
      simp only [List.length_append, length_word] at hfits
      unfold maxFixedHeaderSize at hfits
      omega

end Building

/-! ## When a request names its topic -/

section Names

variable {c : MqttConnection} {topic : Option CString}

/-- The fields of the packet that MQTT_Publish builds, as a reader finds them. -/
theorem encode_publish {t : Topic} {qos retain : Int} {q : Qos} {body payload : Bytes}
    (hq : q.level = lowBits qos 4)
    (hbody : body = word t.bytes.length ++ t.bytes ++ q.idBytes ++ payload) :
    packet (headerByte .publish 0 qos retain) body =
      (BrokerPacket.publish false (decide (lowBits retain 2 = 1)) q t payload).encode := by
  have hbit := lowBits_lt retain (show 0 < 2 by decide)
  have hretain : (decide (lowBits retain 2 = 1)).toNat = lowBits retain 2 := by
    by_cases h : lowBits retain 2 = 1
    · rw [decide_eq_true h, h]
      rfl
    · rw [decide_eq_false h]
      show 0 = lowBits retain 2
      omega
  have hheader : headerByte .publish 0 qos retain =
      (BrokerPacket.publish false (decide (lowBits retain 2 = 1)) q t payload).header := by
    rw [headerByte_eq, BrokerPacket.header, hretain, hq]
    show UInt8.ofNat (16 * 3 + (2 * lowBits qos 4 + lowBits retain 2)) =
      UInt8.ofNat (0x30 + 8 * 0 + 2 * lowBits qos 4 + lowBits retain 2)
    congr 1
    omega
  rw [hheader, hbody]
  rfl

/-- The packet names the topic exactly when what follows the topic in it can be read as
the level in its header asks. -/
theorem packet_names_iff {t : Bytes} (ht : t ≠ []) (hlt : t.length < 65536)
    (htopic : topic.map CString.bytes = some t) {rest data : Bytes} {qos retain : Int} :
    Request.Names (packet (headerByte .publish 0 qos retain) (word t.length ++ t ++ rest))
        (.publish topic data qos retain) ↔
      ∃ (q : Qos) (payload : Bytes), q.level = lowBits qos 4 ∧ rest = q.idBytes ++ payload := by
  constructor
  · rintro ⟨t', dup, r, q, payload, htopic', heq⟩
    have hqos := congrArg mqttGetQos heq
    rw [packet_qos, ← List.append_nil (BrokerPacket.encode _), BrokerPacket.mqttGetQos_encode]
      at hqos
    obtain rfl := Option.some.inj (htopic.symm.trans htopic')
    have hbody := body_eq_of_packet_eq heq
    rw [BrokerPacket.body_publish, List.append_assoc _ q.idBytes] at hbody
    exact ⟨q, payload, hqos.symm, List.append_cancel_left hbody⟩
  · rintro ⟨q, payload, hq, rfl⟩
    refine ⟨⟨t, ht, hlt⟩, false, _, q, payload, htopic, encode_publish hq ?_⟩
    exact (List.append_assoc ..).symm

theorem publish_names_iff (h : Sound c) {data : Bytes} {qos retain : Int}
    (hbuilt : (mqttMsgPublish c topic data qos retain).1.message.length ≠ 0) :
    Request.Names (mqttMsgPublish c topic data qos retain).1.outbound
      (.publish topic data qos retain) ↔ (Request.publish topic data qos retain).Usable := by
  cases ht : nonEmpty topic with
  | none =>
    refine absurd ?_ hbuilt
    simp only [mqttMsgPublish, ht]
    rfl
  | some t =>
    have hfin := ((mqttMsgPublish_built h.fitted ht data qos retain).resolve_left
      fun hfail => hbuilt hfail.length_eq).1
    have hlen := hfin.length_le
    simp only [List.length_append, length_word] at hlen
    obtain ⟨hne, htopic⟩ := nonEmpty_eq_some ht
    obtain ⟨id, hid⟩ := nextId_packetId c.messageId
    rw [hfin.outbound, List.append_assoc, packet_names_iff hne (by omega) htopic, ← hid]
    have hlow := lowBits_lt qos (show 0 < 4 by decide)
    constructor
    · rintro ⟨q, payload, hq, hrest⟩
      -- without an identifier of its own the packet has the one that begins the payload
      have hdata : 0 < qos ∨ data = q.idBytes ++ payload := by
        by_cases hpos : 0 < qos
        · exact .inl hpos
        · rw [publishId, if_neg hpos, List.nil_append] at hrest
          exact .inr hrest
      cases q with
      | zero => exact .inl hq.symm
      | one id' =>
        exact .inr ⟨hq ▸ (by simp [Qos.level]), hdata.imp_right fun hd => ⟨id', payload, hd⟩⟩
      | two id' =>
        exact .inr ⟨hq ▸ (by simp [Qos.level]), hdata.imp_right fun hd => ⟨id', payload, hd⟩⟩
    · intro huse
      have hcases : lowBits qos 4 = 0 ∨ lowBits qos 4 = 1 ∨ lowBits qos 4 = 2 := by
        rcases huse with hzero | ⟨hthree, -⟩ <;> omega
      have hlead : lowBits qos 4 ≠ 0 →
          ∃ (id' : PacketId) (payload : Bytes), publishId qos id.val ++ data =
            word id'.val ++ payload := by
        intro hlevel
        by_cases hpos : 0 < qos
        · exact ⟨id, data, by rw [publishId, if_pos hpos]⟩
        · obtain ⟨id', payload, hd⟩ := (huse.resolve_left hlevel).2.resolve_left hpos
          exact ⟨id', payload, by rw [publishId, if_neg hpos, List.nil_append, hd]⟩
      rcases hcases with hzero | hone | htwo
      · exact ⟨.zero, _, hzero.symm, rfl⟩
      · obtain ⟨id', payload, hd⟩ := hlead (by omega)
        exact ⟨.one id', payload, hone.symm, hd⟩
      · obtain ⟨id', payload, hd⟩ := hlead (by omega)
        exact ⟨.two id', payload, htwo.symm, hd⟩

/-- At the level -2 the header announces the level 2, and no identifier follows the topic. -/
example : (mqttMsgPublish (sampleConnection 16) (some sampleName) [] (-2) 0).1.outbound =
    [0x34, 0x03, 0x00, 0x01, 0x61] := by decide

theorem getLast?_packet (h : UInt8) (a b : Bytes) (x : UInt8) :
    (packet h (a ++ (b ++ [x]))).getLast? = some x := by
  rw [packet, ← List.append_assoc a, ← List.append_assoc, ← List.cons_append, List.getLast?_concat]

theorem ofInt_natCast (n : Nat) : UInt8.ofInt n = UInt8.ofNat (n % 256) := rfl

theorem subscribe_names_iff (h : Sound c) (qos : Nat) :
    Request.Names (mqttMsgSubscribe c topic qos).1.outbound (.subscribe topic qos) ↔
      TopicWithin topic 1784 ∧ qos % 256 < 3 := by
  constructor
  · rintro ⟨t, id, level, htopic, heq⟩
    have ht := nonEmpty_of_map t.ne_nil htopic
    rw [mqttMsgSubscribe_outbound h ht] at heq
    by_cases hfit : t.bytes.length ≤ 1784
    · rw [if_pos hfit] at heq
      have hlast := congrArg List.getLast? heq
      rw [getLast?_packet, getLast?_packet] at hlast
      have hbyte := congrArg UInt8.toNat (Option.some.inj hlast)
      rw [ofInt_natCast, UInt8.toNat_ofNat', UInt8.toNat_ofNat'] at hbyte
      exact ⟨⟨t.bytes, ht, hfit⟩, by omega⟩
    · rw [if_neg hfit] at heq
      exact absurd heq (by simp [packet])
  · rintro ⟨⟨t, ht, hfit⟩, hlevel⟩
    obtain ⟨hne, htopic⟩ := nonEmpty_eq_some ht
    obtain ⟨id, hid⟩ := nextId_packetId c.messageId
    refine ⟨⟨t, hne, by omega⟩, id, ⟨qos % 256, hlevel⟩, htopic, ?_⟩
    rw [mqttMsgSubscribe_outbound h ht, if_pos hfit, hid]
    rw [ofInt_natCast]

theorem unSubscribe_names_iff (h : Sound c) :
    Request.Names (mqttMsgUnsubscribe c topic).1.outbound (.unSubscribe topic) ↔
      TopicWithin topic 1785 := by
  constructor
  · rintro ⟨t, id, htopic, heq⟩
    have ht := nonEmpty_of_map t.ne_nil htopic
    rw [mqttMsgUnsubscribe_outbound h ht] at heq
    by_cases hfit : t.bytes.length ≤ 1785
    · exact ⟨t.bytes, ht, hfit⟩
    · rw [if_neg hfit] at heq
      exact absurd heq (by simp [packet])
  · rintro ⟨t, ht, hfit⟩
    obtain ⟨hne, htopic⟩ := nonEmpty_eq_some ht
    obtain ⟨id, hid⟩ := nextId_packetId c.messageId
    refine ⟨⟨t, hne, by omega⟩, id, htopic, ?_⟩
    rw [mqttMsgUnsubscribe_outbound h ht, if_pos hfit, hid]

end Names

namespace Request

variable {client : MqttClient}

/-- A packet that a request goes on with names the topic exactly when the request is
usable. -/
theorem names_iff (hready : Ready client) {r : Request}
    (h : ¬(r.checked = true ∧ r.Unbuilt client)) : r.Names (r.packet client) ↔ r.Usable := by
  cases r with
  | publish topic data qos retain =>
    exact publish_names_iff hready.connection fun hlen => h ⟨rfl, hlen⟩
  | subscribe topic qos => exact subscribe_names_iff hready.connection qos
  | unSubscribe topic => exact unSubscribe_names_iff hready.connection
  | ping =>
    refine iff_of_true ?_ trivial
    show (mqttMsgPingreq client.mqttState.mqttConnection).outbound = Mqtt.packet 0xC0 []
    exact (finiMessage_outbound hready.connection.building .pingreq 0 0 0).1

/-- A request that returns TRUE has put a packet with its topic at the end of the queue. -/
def Genuine (client : MqttClient) (answers : Answers) (r : Request) : Prop :=
  ∀ c out, r.call client answers = some (c, out, true) →
    ∃ m, c.msgQueue.messages.getLast? = some m ∧ r.Names m

/-- The request gets as far as the queue, and the queue admits what was built. -/
def Enters (client : MqttClient) (r : Request) : Prop :=
  ¬(r.checked = true ∧ r.Unbuilt client) ∧ client.msgQueue.Admits (r.packet client)

theorem genuine_iff (hready : Ready client) (answers : Answers) (r : Request) :
    r.Genuine client answers ↔ r.Usable ∨ ¬r.Enters client := by
  by_cases hun : r.checked = true ∧ r.Unbuilt client
  · refine iff_of_true (fun c out hcall => ?_) (.inr fun hin => hin.1 hun)
    obtain ⟨c', hcall', -⟩ := call_unbuilt hun.1 hun.2 answers
    exact absurd (hcall'.symm.trans hcall) (by simp)
  · obtain ⟨c, out, b, hcall, hiff, htrue, -⟩ := call_evicts hready hun answers
    rw [← names_iff hready hun]
    constructor
    · intro hgen
      by_cases hadmits : client.msgQueue.Admits (r.packet client)
      · obtain rfl := hiff.mpr hadmits
        obtain ⟨k, hk⟩ := htrue rfl
        obtain ⟨m, hlast, hnames⟩ := hgen c out hcall
        rw [hk, List.getLast?_concat] at hlast
        obtain rfl := Option.some.inj hlast
        exact .inl hnames
      · exact .inr fun hin => hadmits hin.2
    · intro hcond c' out' hcall'
      obtain ⟨rfl, hrest⟩ := Prod.mk.inj (Option.some.inj (hcall.symm.trans hcall'))
      obtain ⟨-, rfl⟩ := Prod.mk.inj hrest
      obtain ⟨k, hk⟩ := htrue rfl
      have hnames := hcond.resolve_right fun hout => hout ⟨hun, hiff.mp rfl⟩
      exact ⟨r.packet client, by rw [hk, List.getLast?_concat], hnames⟩

end Request

/-! ## What the queue holds -/

/-- Every message of the queue was there before, or has a byte. -/
def Adds (client c : MqttClient) : Prop :=
  ∀ m ∈ c.msgQueue.messages, m ∈ client.msgQueue.messages ∨ m ≠ []

theorem adds_same {client c : MqttClient} (h : c.msgQueue = client.msgQueue) : Adds client c := by
  intro m hm
  rw [h] at hm
  exact .inl hm

theorem Adds.trans {a b c : MqttClient} (h : Adds a b) (h' : Adds b c) : Adds a c := by
  intro m hm
  rcases h' m hm with hb | hne
  · exact h m hb
  · exact .inr hne

theorem handlePacket_adds {client : MqttClient} (h : Ready client) (t q i : Nat) :
    Adds client (handlePacket client t q i).1 := by
  have hqueue := (handlePacket_queue client t q i).1
  cases ha : answer client.mqttState.mqttConnection t q i with
  | none =>
    rw [ha] at hqueue
    exact adds_same hqueue
  | some c =>
    rw [ha] at hqueue
    intro m hm
    rw [hqueue] at hm
    rcases h.queue.messages_puts c.outbound with ⟨-, hms⟩ | ⟨-, hms⟩
    · exact .inl (hms ▸ hm)
    · rw [Option.elim_some, hms, List.mem_append, List.mem_singleton] at hm
      rcases hm with hold | rfl
      · exact .inl hold
      · exact .inr (answer_built h.connection ha).2.1

theorem readPacket_adds (segment : Bytes) {s : RecvState} (h : Ready s.client) :
    Adds s.client (readPacket segment s).2.client := by
  by_cases hd : InData s.client ∧ s.len < mqttBufSize ∧ s.len > 0
  · have hload : Ready (s.client.load (s.rest segment) s.len) := ⟨h.1, h.2, h.3, h.4⟩
    have hadds := handlePacket_adds hload
      (mqttGetType (s.client.load (s.rest segment) s.len).mqttState.inBuffer)
      (mqttGetQos (s.client.load (s.rest segment) s.len).mqttState.inBuffer)
      (mqttGetId (s.client.load (s.rest segment) s.len).mqttState.inBuffer
        (s.client.mqttState.inBufferLength % 65536))
    rw [readPacket_inData segment hd.1 hd.2]
    split
    · exact hadds
    · exact hadds
  · exact adds_same (readPacket_connection hd).2

theorem readPackets_adds {segment : Bytes} {fuel : Nat} {s r : RecvState} (hs : Ready s.client)
    (h : readPackets segment fuel s = some r) : Adds s.client r.client := by
  revert hs
  refine readPackets_rule (motive := fun s r => Ready s.client → Adds s.client r.client) ?_ ?_ h
  · intro s _ hs
    exact readPacket_adds segment hs
  · intro s r hgo ih hs
    exact (readPacket_adds segment hs).trans (ih (hs.goto hgo))

theorem Request.call_adds {client c : MqttClient} (hready : Ready client) {r : Request}
    (hpacket : ¬(r.checked = true ∧ r.Unbuilt client) → r.packet client ≠ [])
    {answers : Answers} {out : List Effect} {b : Bool}
    (hcall : r.call client answers = some (c, out, b)) : Adds client c := by
  by_cases hun : r.checked = true ∧ r.Unbuilt client
  · obtain ⟨c', hcall', hqueue⟩ := call_unbuilt hun.1 hun.2 answers
    obtain ⟨rfl, -⟩ := Prod.mk.inj (Option.some.inj (hcall'.symm.trans hcall))
    exact adds_same hqueue
  · obtain ⟨c', out', b', hcall', -, htrue, hfalse⟩ := call_evicts hready hun answers
    obtain ⟨rfl, hrest⟩ := Prod.mk.inj (Option.some.inj (hcall'.symm.trans hcall))
    intro m hm
    cases hb : b' with
    | true =>
      obtain ⟨k, hk⟩ := htrue hb
      rw [hk, List.mem_append, List.mem_singleton] at hm
      rcases hm with hold | rfl
      · exact .inl (List.mem_of_mem_drop hold)
      · exact .inr (hpacket hun)
    | false =>
      rw [hfalse hb] at hm
      exact absurd hm List.not_mem_nil

/-- MQTT_Publish goes on with a packet that was built. -/
theorem publish_packet_ne_nil {client : MqttClient} (hready : Ready client)
    {topic : Option CString} {data : Bytes} {qos retain : Int}
    (h : ¬(Request.publish topic data qos retain).Unbuilt client) :
    (Request.publish topic data qos retain).packet client ≠ [] := by
  obtain ⟨header, body, hbuilt, -⟩ :=
    (Build.publish topic data qos retain).built hready.connection.fitted (by decide)
  have hfin := hbuilt.finished h
  show ((Build.publish topic data qos retain).run _).outbound ≠ []
  rw [hfin.outbound]
  exact List.cons_ne_nil _ _

/-- The subscriptions have topics that fit. -/
def Event.Topical : Event → Prop
  | .subscribe topic _ => TopicWithin topic 1784
  | .unSubscribe topic => TopicWithin topic 1785
  | _ => True

theorem mqttTask_adds {client c : MqttClient} (hready : Ready client) {fresh : Nat}
    {answers : Answers} {out : List Effect} (h : TaskCase client fresh answers c out) :
    Adds client c := by
  cases h with
  | data _ =>
    intro m hm
    rcases sendQueued_spec hready answers with ⟨hsame, -, -⟩ | ⟨-, m', hcons, -⟩
    · exact .inl (hsame ▸ hm)
    · rw [hcons]
      exact .inl (List.mem_cons_of_mem m' hm)
  | keepalive _ =>
    refine adds_same ?_
    simp only [mqttSendKeepalive]
    split <;> rfl
  | reconnect _ hcase => cases hcase <;> exact adds_same rfl
  | disconnect _ => exact adds_same rfl
  | free _ => exact adds_same rfl
  | delete _ => exact adds_same rfl
  | idle _ => exact adds_same rfl

theorem mqttTimer_queue (client : MqttClient) :
    (mqttTimer client).1.msgQueue = client.msgQueue := by
  simp only [mqttTimer]
  split
  · split <;> rfl
  · split <;> rfl
  · rfl

theorem handle_adds {client c : MqttClient} (hready : Ready client) {fresh : Nat}
    {answers : Answers} {e : Event} (he : e.Topical) {out : List Effect}
    (h : e.handle client fresh answers = some (c, out)) : Adds client c := by
  cases e with
  | connect => cases mqttConnect_cases h <;> exact adds_same rfl
  | task => exact mqttTask_adds hready (mqttTask_cases h)
  | publish topic data qos retain =>
    obtain ⟨b, hr⟩ := request_returned h
    exact Request.call_adds (r := .publish topic data qos retain) hready
      (fun hun => publish_packet_ne_nil hready fun hlen => hun ⟨rfl, hlen⟩) hr
  | subscribe topic qos =>
    obtain ⟨b, hr⟩ := request_returned h
    obtain ⟨t, ht, hfit⟩ := he
    refine Request.call_adds (r := .subscribe topic qos) hready (fun _ => ?_) hr
    show (mqttMsgSubscribe _ topic qos).1.outbound ≠ []
    rw [mqttMsgSubscribe_outbound hready.connection ht, if_pos hfit]
    exact List.cons_ne_nil _ _
  | unSubscribe topic =>
    obtain ⟨b, hr⟩ := request_returned h
    obtain ⟨t, ht, hfit⟩ := he
    refine Request.call_adds (r := .unSubscribe topic) hready (fun _ => ?_) hr
    show (mqttMsgUnsubscribe _ topic).1.outbound ≠ []
    rw [mqttMsgUnsubscribe_outbound hready.connection ht, if_pos hfit]
    exact List.cons_ne_nil _ _
  | ping =>
    obtain ⟨b, hr⟩ := request_returned h
    refine Request.call_adds (r := .ping) hready (fun hun => ?_) hr
    rw [(Request.names_iff hready hun).mpr trivial]
    exact List.cons_ne_nil _ _
  | recv arg segment =>
    obtain ⟨r, hr, hc⟩ := Option.map_eq_some_iff.mp h
    obtain ⟨rfl, rfl⟩ := Prod.mk.inj hc
    have hstart : Ready (recvStart client segment).client :=
      ⟨hready.1, hready.2, hready.3, hready.4⟩
    exact readPackets_adds hstart hr
  | timer =>
    obtain ⟨rfl, rfl⟩ := Prod.mk.inj (Option.some.inj h)
    exact adds_same (mqttTimer_queue client)
  | dnsFound arg ipaddr => cases mqttDnsFound_cases h <;> exact adds_same rfl
  | connectCb | disconnect | deleteClient | sentCb | reconCb | disconCb | initLWT | on =>
    obtain ⟨rfl, rfl⟩ := Prod.mk.inj (Option.some.inj h)
    exact adds_same rfl

/-- No message of the queue is empty. -/
def Filled (w : World) : Prop := ∀ m ∈ w.client.msgQueue.messages, m ≠ []

theorem step_filled {w w' : World} {i : Event × Answers} {out : List Effect}
    (hready : Ready w.client) (h : Filled w) (hstep : step w i = some (w', out))
    (htopic : i.1.Topical) : Filled w' := by
  intro m hm
  rcases handle_adds hready htopic (step_handle hstep).2.1 m hm with hold | hne
  · exact h m hold
  · exact hne

theorem ClientRun.filled {u : Setup} {tr : List Record} {w : World} (h : ClientRun u tr w)
    (htopics : ∀ k ∈ tr, k.input.1.Topical) : Filled w := by
  have hempty : u.world.client.msgQueue.messages = [] :=
    (queueInit_holds _ (show 2 ≤ queueBufferSize by decide)).1.messages_eq
  have hall : Ready w.client ∧ Filled w := by
    refine h.invariant (fun w => Ready w.client ∧ Filled w) ⟨mqttInitClient_ready .., ?_⟩ ?_ htopics
    · intro m hm
      rw [hempty] at hm
      exact absurd hm List.not_mem_nil
    · intro w i w' out hw hstep htopic
      exact ⟨step_ready hw.1 hstep, step_filled hw.1 hw.2 hstep htopic⟩
  exact hall.2

/-! ## What the task sends -/

/-- What the task takes out of the queue. -/
def Record.got (k : Record) : Gets :=
  queueGets k.before.client.msgQueue k.input.2.dataBuffer (UInt16.ofNat mqttBufSize)
    (k.input.2.isBegin 0)

/-- A run of the task sends no empty message, and the bytes whose type it reads are a
message. -/
structure SendsPackets (k : Record) : Prop where
  sends : ∀ pCon m result, .espconnSend pCon m result ∈ k.output → m ≠ []
  data : k.before.client.connState = .mqttData → k.got.ret = 0 →
    k.got.message ≠ [] ∧ mqttGetType k.got.buffer = mqttGetType k.got.message
  keepalive : k.before.client.connState = .mqttKeepaliveSend →
    (mqttMsgPingreq k.before.client.mqttState.mqttConnection).outbound ≠ []

theorem not_mem_free (client : MqttClient) (p : Option Nat) (m : Bytes) (r : Int) :
    .espconnSend p m r ∉ client.free := by
  unfold MqttClient.free
  cases client.pCon <;> simp

theorem pingreq_ne_nil {c : MqttConnection} (h : Sound c) : (mqttMsgPingreq c).outbound ≠ [] := by
  rw [mqttMsgPingreq, (finiMessage_outbound h.building .pingreq 0 0 0).1]
  exact List.cons_ne_nil _ _

/-- Only two branches of the task send. -/
theorem task_sends {client c : MqttClient} (hready : Ready client)
    (hfilled : ∀ m ∈ client.msgQueue.messages, m ≠ []) {fresh : Nat} {answers : Answers}
    {out : List Effect} (h : TaskCase client fresh answers c out) {p : Option Nat} {m : Bytes}
    {r : Int} (hmem : .espconnSend p m r ∈ out) : m ≠ [] := by
  cases h with
  | data _ =>
    rcases sendQueued_spec hready answers with ⟨-, hout, -⟩ | ⟨-, m', hcons, hout⟩
    · rw [hout] at hmem
      exact absurd hmem List.not_mem_nil
    · rw [hout, mem_plain, Effect.espconnSend.injEq] at hmem
      rw [hmem.2.2.1]
      exact hfilled m' (by rw [hcons]; exact List.mem_cons_self)
  | keepalive _ =>
    have hout : .espconnSend p m r ∈ client.plain (.espconnSend client.pCon
        (mqttMsgPingreq client.mqttState.mqttConnection).outbound answers.send) ++
          [.systemOsPost] := by
      simp only [mqttSendKeepalive] at hmem
      split at hmem
      · exact hmem
      · exact hmem
    rw [List.mem_append, List.mem_singleton, mem_plain, Effect.espconnSend.injEq] at hout
    rcases hout with ⟨-, -, rfl, -⟩ | hpost
    · exact pingreq_ne_nil hready.connection
    · exact absurd hpost (by simp)
  | reconnect _ hcase =>
    cases hcase with
    | address _ =>
      rw [List.mem_append, mem_plain] at hmem
      rcases hmem with hfree | ⟨-, hconn⟩
      · exact absurd hfree (not_mem_free client p m r)
      · exact absurd hconn (by simp)
    | host _ _ =>
      rw [List.mem_append, List.mem_singleton] at hmem
      rcases hmem with hfree | hdns
      · exact absurd hfree (not_mem_free client p m r)
      · exact absurd hdns (by simp)
  | disconnect _ => exact absurd (mem_plain.mp hmem).2 (by simp)
  | free _ => exact absurd hmem (not_mem_free client p m r)
  | delete _ => exact absurd hmem (not_mem_free client p m r)
  | idle _ => exact absurd hmem List.not_mem_nil

theorem task_sendsPackets {k : Record} (hready : Ready k.before.client) (hfilled : Filled k.before)
    (htask : k.input.1 = .task) (hstep : step k.before k.input = some (k.after, k.output)) :
    SendsPackets k := by
  have hcase : TaskCase k.before.client k.before.net.fresh k.input.2 k.after.client k.output := by
    have hhandle := (step_handle hstep).2.1
    rw [htask] at hhandle
    exact mqttTask_cases hhandle
  refine ⟨fun p m r hmem => task_sends hready hfilled hcase hmem, fun _ hret => ?_,
    fun _ => pingreq_ne_nil hready.connection⟩
  rcases hready.queue.messages_gets k.input.2 (k.input.2.isBegin 0) with
    ⟨-, hneg, -⟩ | ⟨-, hcons⟩
  · exact absurd (hneg.symm.trans hret) (by decide)
  · have hne : k.got.message ≠ [] := hfilled _ (by rw [hcons]; exact List.mem_cons_self)
    refine ⟨hne, ?_⟩
    have hsplit : k.got.buffer = k.got.message ++ k.got.buffer.drop k.got.len :=
      (List.take_append_drop k.got.len k.got.buffer).symm
    rw [hsplit]
    exact mqttGetType_append hne _

/-- A request that returns TRUE has queued a packet with its topic exactly when it is usable
or does not enter the queue; and the task sends packets only, in every run whose
subscriptions have topics that fit. -/
theorem genuine_requests {u : Setup} {tr : List Record} {w : World} (h : ClientRun u tr w) :
    (∀ (r : Request) (answers : Answers),
      r.Genuine w.client answers ↔ r.Usable ∨ ¬r.Enters w.client) ∧
    ((∀ k ∈ tr, k.input.1.Topical) → ∀ k ∈ tr, k.input.1 = .task → SendsPackets k) := by
  constructor
  · intro r answers
    exact r.genuine_iff (ClientRun.ready h) answers
  · intro htopics k hk htask
    obtain ⟨tr', hrun, hsub, hstep⟩ := h.taken_of_mem hk
    have hfilled := ClientRun.filled hrun fun k' hk' => htopics k' (hsub k' hk')
    exact task_sendsPackets (ClientRun.ready hrun) hfilled htask hstep

theorem emptyName_noNul : (0 : UInt8) ∉ ([] : Bytes) := List.not_mem_nil

theorem emptyName_short : ([] : Bytes).length < 2 ^ 30 := by decide

def emptyName : CString := ⟨[], emptyName_noNul, emptyName_short⟩

/-- Connected, with the CONNECT sent and a subscription in the queue. -/
def subscribed (topic : CString) : List (Event × Answers) :=
  sampleConnect ++ [(.sentCb 0, sampleAnswers), (.subscribe (some topic) 1, sampleAnswers)]

theorem subscribed_empty_isSome : (exec step sampleSetup.world (subscribed emptyName)).isSome := by
  decide

def emptySubscribed : World :=
  ((exec step sampleSetup.world (subscribed emptyName)).get subscribed_empty_isSome).2

theorem emptySubscribed_task_isSome : (step emptySubscribed (.task, sampleAnswers)).isSome := by
  decide

/-- A subscription without a topic returns TRUE, and the task sends a message of no bytes. -/
theorem empty_subscribe_sent :
    (∃ tr, ClientRun sampleSetup tr sampleConnected ∧
      ¬(Request.subscribe (some emptyName) 1).Genuine sampleConnected.client sampleAnswers) ∧
    ∃ tr w, ClientRun sampleSetup tr w ∧
      ∃ k ∈ tr, k.input.1 = .task ∧ ∃ p r, .espconnSend p [] r ∈ k.output := by
  constructor
  · obtain ⟨tr, hrun⟩ := sampleConnected_run
    refine ⟨tr, hrun, fun hgen => ?_⟩
    rcases (Request.genuine_iff (ClientRun.ready hrun) sampleAnswers _).mp hgen with
      ⟨⟨t, ht, -⟩, -⟩ | hout
    · exact absurd ht (by simp [nonEmpty, emptyName])
    · exact hout ⟨fun hun => absurd hun.1 (by decide), .inl (by decide)⟩
  · have hrun : ClientRun sampleSetup _ emptySubscribed := exec_get subscribed_empty_isSome
    refine ⟨_, _, hrun.snoc_get emptySubscribed_task_isSome, _,
      List.mem_append_right _ (List.mem_singleton_self _), rfl, some 0, espconnOk, ?_⟩
    decide

theorem subscribed_sample_isSome :
    (exec step sampleSetup.world (subscribed sampleName ++ [(.task, sampleAnswers)])).isSome := by
  decide

theorem genuine_requests_sample :
    ∃ tr w, ClientRun sampleSetup tr w ∧
      (Request.unSubscribe (some sampleName)).Genuine w.client sampleAnswers ∧
      ∀ k ∈ tr, k.input.1 = .task → SendsPackets k := by
  have hrun := exec_get subscribed_sample_isSome
  have hname : nonEmpty (some sampleName) = some [0x61] := rfl
  obtain ⟨hgenuine, hsends⟩ := genuine_requests hrun
  refine ⟨_, _, hrun, (hgenuine _ _).mpr (.inl ⟨_, hname, by decide⟩), hsends fun k hk => ?_⟩
  have hinput := input_mem_of_exec subscribed_sample_isSome hk
  simp only [subscribed, sampleConnect, List.cons_append, List.nil_append, List.mem_cons,
    List.not_mem_nil, or_false] at hinput
  rcases hinput with h | h | h | h | h | h
  all_goals rw [h]
  case inr.inr.inr.inr.inl => exact ⟨_, hname, by decide⟩
  all_goals trivial

end Mqtt
end EspMisc
