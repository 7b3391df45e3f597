/-
The receiver's part in the quality of service.

`handshake` says what one packet that arrives alone makes of a client in `MQTT_DATA`:
the response that the packet asks for goes to the end of the queue, and a PUBLISH is
handed to the application, once, with its topic and its payload.
-/
import EspMisc.Mqtt.Segment

namespace EspMisc
namespace Mqtt

open Machine BrokerPacket

/-- A packet that may arrive.  Of a type that is no part of the handshake, which a
PINGREQ is not either, the body does not matter. -/
inductive Arrival where
  | broker (p : BrokerPacket)
  | other (header : UInt8) (body : Bytes)
      (h : ∀ t ∈ [MessageType.publish, .pubrec, .pubrel], mqttGetType [header] ≠ t.code)

/-- A call of `dataCb`, by the bytes and the lengths it is given. -/
structure DataCall where
  topic : Bytes
  topicLength : Nat
  data : Bytes
  dataLength : Nat

namespace Arrival

def encode : Arrival → Bytes
  | broker p => p.encode
  | other header body _ => packet header body

def response : Arrival → Option Bytes
  | broker p => p.response
  | other header _ _ =>
    if mqttGetType [header] = MessageType.pingreq.code then
      some (packet (headerByte .pingresp 0 0 0) [])
    else none

def call : Arrival → Option DataCall
  | broker (.publish _ _ _ topic payload) =>
    some ⟨topic.bytes, topic.bytes.length, payload, payload.length⟩
  | _ => none

end Arrival

/-- The calls of `dataCb` in a log. -/
def dataCalls (log : List Effect) : List DataCall :=
  log.filterMap fun
    | .dataCb buffer topic data => some ⟨slice buffer topic, topic.2, slice buffer data, data.2⟩
    | _ => none

/-! ## What is handed to the application -/

theorem deliverPublish_dataCalls {dup retain : Bool} {qos : Qos} {topic : Topic}
    {payload : Bytes} (client : MqttClient)
    (hlt : (publish dup retain qos topic payload).encode.length < mqttBufSize) (rest : Bytes) :
    dataCalls (deliverPublish client ((publish dup retain qos topic payload).encode ++ rest)
      (publish dup retain qos topic payload).encode.length) =
        if client.callbacks .data then
          [⟨topic.bytes, topic.bytes.length, payload, payload.length⟩] else [] := by
  have hmod := mod_of_lt_mqttBufSize hlt
  have htopic := mqttGetPublishTopic_encode (length_body_lt hlt) rest (Nat.le_refl _)
  obtain ⟨hlen, hdata⟩ :=
    mqttGetPublishData_encode (length_body_lt hlt) rest (Nat.le_refl _)
  rw [deliverPublish, hmod]
  by_cases hcb : client.callbacks .data = true
  · simp only [if_pos hcb, dataCalls, List.filterMap_cons, List.filterMap_nil, htopic, slice_topic,
      hlen, hdata]
  · simp only [if_neg hcb]
    rfl

theorem handle_dataCalls (client : MqttClient) (p : BrokerPacket)
    (hlt : p.encode.length < mqttBufSize) :
    dataCalls (client.handle p.encode).2 =
      if client.callbacks .data then (Arrival.broker p).call.toList else [] := by
  have htype : mqttGetType p.encode = p.type.code := by
    rw [← List.append_nil p.encode]
    exact mqttGetType_encode p []
  have hnone : dataCalls [] =
      if client.callbacks .data then (none : Option DataCall).toList else [] := by
    split <;> rfl
  simp only [MqttClient.handle, handlePacket, htype, MessageType.ofCode_code]
  cases p with
  | publish dup retain qos topic payload =>
    simp only [type, Arrival.call]
    refine Eq.trans ?_ (deliverPublish_dataCalls client hlt (client.mqttState.inBuffer.drop
      (publish dup retain qos topic payload).encode.length))
    rw [← load_inBuffer client _ (publish dup retain qos topic payload).encode.length]
    split
    · rfl
    · split <;> rfl
  | _ => exact hnone

/-! ## One packet alone -/

/-- A packet that fills its segment is handled in one turn of the loop. -/
theorem mqttTcpclientRecv_alone {client : MqttClient} (hd : InData client) {p : Bytes}
    (hne : p ≠ []) (hlt : p.length < mqttBufSize)
    (hml : IsPublish p → messageLength p = p.length) :
    mqttTcpclientRecv client p =
      some (({ client with keepAliveTick := 0 }.handle p).1,
        ({ client with keepAliveTick := 0 }.handle p).2 ++ [.systemOsPost]) := by
  have hlen : (recvStart client p).len = p.length := mod_of_lt_mqttBufSize hlt
  have hrest : (recvStart client p).rest p = p := by
    rw [recvStart_rest, received_eq hlt]
  have hturn := readPacket_data (recvStart_within client p) hd
    (by rw [hlen]; exact List.length_pos_of_ne_nil hne) (by rw [hlen]; exact hlt)
  rw [hrest, if_neg (fun h => absurd h.2 (by rw [hlen, hml h.1]; exact Nat.lt_irrefl _))] at hturn
  rw [mqttTcpclientRecv, mqttBufSize, readPackets, hturn]
  rfl

theorem cost_le (m : Bytes) : Queue.cost m ≤ 2 * m.length + 2 := by
  rw [Queue.cost, Stuffing.Code.length_frame]
  exact Nat.add_le_add_right (Stuffing.Code.length_body_le _ _) 2

theorem length_response {p : BrokerPacket} {m : Bytes} (h : p.response = some m) :
    m.length = 4 := by
  cases p with
  | publish dup retain qos topic payload =>
    cases qos with
    | zero => exact absurd h (by simp [BrokerPacket.response])
    | one id =>
      obtain rfl := Option.some.inj h
      rfl
    | two id =>
      obtain rfl := Option.some.inj h
      rfl
  | pubrec id =>
    obtain rfl := Option.some.inj h
    rfl
  | pubrel id =>
    obtain rfl := Option.some.inj h
    rfl
  | _ => exact absurd h (by simp [BrokerPacket.response])

/-- A response fits into ten bytes. -/
theorem messages_puts_short {q : Queue} (h : q.InOrder) (hfree : q.rb.fillCnt + 10 ≤ q.rb.size)
    {m : Bytes} (hm : m.length ≤ 4) : (queuePuts q m).1.messages = q.messages ++ [m] := by
  have hcost := cost_le m
  exact (queuePuts_fits h.holds (by omega)).1.messages_eq

theorem messages_respond_one {q : Queue} (h : q.InOrder) (hfree : q.rb.fillCnt + 10 ≤ q.rb.size)
    (p : BrokerPacket) : (respond q p).messages = q.messages ++ p.response.toList := by
  unfold respond
  cases hp : p.response with
  | none => exact (List.append_nil _).symm
  | some m => exact messages_puts_short h hfree (Nat.le_of_eq (length_response hp))

theorem handle_other {client : MqttClient} (hready : Ready client)
    (hfree : client.msgQueue.rb.fillCnt + 10 ≤ client.msgQueue.rb.size) {header : UInt8}
    (body : Bytes)
    (h : ∀ t ∈ [MessageType.publish, .pubrec, .pubrel], mqttGetType [header] ≠ t.code) :
    (client.handle (packet header body)).1.msgQueue.messages =
        client.msgQueue.messages ++ (Arrival.other header body h).response.toList ∧
      dataCalls (client.handle (packet header body)).2 = [] := by
  have htype : mqttGetType (packet header body) = mqttGetType [header] := rfl
  simp only [MqttClient.handle, handlePacket, htype, Arrival.response]
  by_cases hping : mqttGetType [header] = MessageType.pingreq.code
  · have hout : (mqttMsgPingresp client.mqttState.mqttConnection).outbound =
        packet (headerByte .pingresp 0 0 0) [] :=
      (finiMessage_outbound hready.connection.building .pingresp 0 0 0).1
    rw [if_pos hping, hping]
    refine ⟨?_, rfl⟩
    show (queuePuts client.msgQueue (mqttMsgPingresp _).outbound).1.messages = _
    rw [load_connection, hout]
    exact messages_puts_short hready.queue hfree (by decide)
  · rw [if_neg hping, Option.toList_none, List.append_nil]
    cases hof : MessageType.ofCode (mqttGetType [header]) with
    | none => exact ⟨rfl, rfl⟩
    | some t =>
      have hcode := MessageType.code_of_ofCode hof
      cases t with
      | publish => exact absurd hcode (h .publish (by simp))
      | pubrec => exact absurd hcode (h .pubrec (by simp))
      | pubrel => exact absurd hcode (h .pubrel (by simp))
      | pingreq => exact absurd hcode hping
      | _ => exact ⟨rfl, rfl⟩

/-- A packet that arrives alone in `MQTT_DATA`, with ten bytes free in the ring and
anything left in `in_buffer`, is answered and delivered as it asks to be. -/
theorem handshake {u : Setup} {tr : List Record} {w : World} (h : ClientRun u tr w)
    (hst : w.client.connState = .mqttData)
    (hfree : w.client.msgQueue.rb.fillCnt + 10 ≤ w.client.msgQueue.rb.size) (inBuffer : Bytes)
    {p : Arrival} (hlt : p.encode.length < mqttBufSize) :
    let client :=
      { w.client with mqttState := { w.client.mqttState with inBuffer := inBuffer } }
    ∃ c log, mqttTcpclientRecv client p.encode = some (c, log) ∧
      c.msgQueue.messages = client.msgQueue.messages ++ p.response.toList ∧
      dataCalls log = if client.callbacks .data then p.call.toList else [] := by
  intro client
  have hready : Ready { client with keepAliveTick := 0 } :=
    ⟨h.ready.connection, h.ready.inBufferLength, h.ready.outBufferLength, h.ready.queue⟩
  have hd : InData client := Or.inl hst
  cases p with
  | broker p =>
    rw [show (Arrival.broker p).encode = p.encode from rfl] at hlt ⊢
    have hml : messageLength p.encode = p.encode.length := by
      have := messageLength_encode (length_body_lt hlt) []
      rwa [List.append_nil] at this
    have habs := handle_absorbed hready p [] (by rw [List.append_nil]; exact hlt)
    rw [List.append_nil] at habs
    refine ⟨_, _, mqttTcpclientRecv_alone hd p.encode_ne_nil hlt fun _ => hml, ?_, ?_⟩
    · rw [habs.queue]
      exact messages_respond_one hready.queue hfree p
    · have hcalls := handle_dataCalls { client with keepAliveTick := 0 } p hlt
      rw [← hcalls, dataCalls, List.filterMap_append]
      exact List.append_nil _
  | other header body hother =>
    rw [show (Arrival.other header body hother).encode = packet header body from rfl] at hlt ⊢
    have hpub : ¬ IsPublish (packet header body) := hother .publish (by simp)
    obtain ⟨hqueue, hcalls⟩ := handle_other hready hfree body hother
    refine ⟨_, _, mqttTcpclientRecv_alone hd (List.cons_ne_nil _ _) hlt
      fun hp => absurd hp hpub, ?_, ?_⟩
    · exact hqueue
    · have hcall : (Arrival.other header body hother).call = none := rfl
      rw [dataCalls, List.filterMap_append, hcall]
      refine (congrArg (· ++ []) hcalls).trans ?_
      split <;> rfl

/-- A PUBLISH with an empty payload is acknowledged and delivered. -/
theorem handshake_samplePublish :
    ∃ tr, ClientRun sampleSetup tr sampleConnected ∧
      ∃ c log, mqttTcpclientRecv sampleConnected.client
          [0x32, 0x05, 0x00, 0x01, 0x61, 0x00, 0x01] = some (c, log) ∧
        c.msgQueue.messages = [[0x40, 0x02, 0x00, 0x01]] := by
  obtain ⟨tr, hrun⟩ := sampleConnected_run
  obtain ⟨c, log, hrecv, hqueue, -⟩ := handshake hrun (by decide) (by decide)
    sampleConnected.client.mqttState.inBuffer
    (p := .broker (.publish false false (.one sampleId) ⟨[0x61], by decide, by decide⟩ []))
    (by decide)
  exact ⟨tr, hrun, c, log, hrecv, hqueue.trans (by decide)⟩

end Mqtt
end EspMisc
