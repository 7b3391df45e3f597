/-
What the handlers of the client do.

The results about runs need little of what a handler computes, but they need it for
every way through the code.  Each handler has one lemma here that lists these ways, or
that says what the handler leaves alone, and later modules look no further.
-/
import EspMisc.Mqtt.System
import EspMisc.Mqtt.Ready
import EspMisc.Mqtt.Recv

namespace EspMisc
namespace Mqtt

/-! ## Calls -/

/-- The calls to the SDK that a connection depends on, and `connectedCb`. -/
def Effect.isCall : Effect → Bool
  | .espconnConnect .. => true
  | .espconnSend .. => true
  | .espconnDisconnect .. => true
  | .espconnDelete .. => true
  | .espconnGethostbyname .. => true
  | .callback .connected => true
  | _ => false

def calls (out : List Effect) : List Effect := out.filter Effect.isCall

@[simp] theorem calls_append (a b : List Effect) : calls (a ++ b) = calls a ++ calls b :=
  List.filter_append ..

@[simp] theorem calls_post : calls [.systemOsPost] = [] := rfl

theorem mem_calls {e : Effect} {out : List Effect} (he : e.isCall = true) :
    e ∈ calls out ↔ e ∈ out := by
  unfold calls
  rw [List.mem_filter]
  exact ⟨fun h => h.1, fun h => ⟨h, he⟩⟩

theorem calls_plain (client : MqttClient) {e : Effect} (h : e.isCall = true) :
    calls (client.plain e) = client.plain e := by
  unfold MqttClient.plain calls
  split
  · rfl
  · rw [List.filter_cons_of_pos h]
    rfl

theorem calls_connected (client : MqttClient) :
    calls (client.notify .connected) = client.notify .connected := by
  unfold MqttClient.notify
  split <;> rfl

theorem calls_notify (client : MqttClient) {cb : Callback} (h : cb ≠ .connected) :
    calls (client.notify cb) = [] := by
  unfold MqttClient.notify
  split
  · cases cb <;> first | rfl | exact absurd rfl h
  · rfl

theorem applyAll_calls (net : Net) (out : List Effect) :
    net.applyAll (calls out) = net.applyAll out := by
  unfold Net.applyAll calls
  rw [List.foldl_filter]
  congr 1
  funext net e
  cases e with
  | callback cb => cases cb <;> simp [Effect.isCall, Net.apply]
  | _ => simp [Effect.isCall, Net.apply]

/-! ## What the handlers leave alone -/

/-- The client with other buffers and another queue. -/
def MqttClient.withData (client : MqttClient) (st : MqttState) (q : Queue) : MqttClient :=
  { client with mqttState := st, msgQueue := q }

theorem deliverPublish_calls (client : MqttClient) (message : Bytes) (length : Nat) :
    calls (deliverPublish client message length) = [] := by
  simp only [deliverPublish]
  split <;> rfl

theorem handlePacket_frame (client : MqttClient) (t q i : Nat) :
    ∃ c queue, (handlePacket client t q i).1 =
        client.withData { client.mqttState with mqttConnection := c } queue ∧
      calls (handlePacket client t q i).2 = [] ∧
      (Ready client → Sound c ∧ queue.InOrder) := by
  have hput : ∀ {c : MqttConnection}, (Ready client → Sound c) →
      Ready client → Sound c ∧ (queuePuts client.msgQueue c.outbound).1.InOrder :=
    fun hc h => ⟨hc h, h.queue.puts _⟩
  simp only [handlePacket]
  split
  · by_cases h1 : q = 1
    · rw [if_pos h1]
      exact ⟨_, _, rfl, deliverPublish_calls .., hput fun h => h.connection.mqttMsgAck ..⟩
    · rw [if_neg h1]
      by_cases h2 : q = 2
      · rw [if_pos h2]
        exact ⟨_, _, rfl, deliverPublish_calls .., hput fun h => h.connection.mqttMsgAck ..⟩
      · rw [if_neg h2]
        exact ⟨_, _, rfl, deliverPublish_calls .., fun h => ⟨h.connection, h.queue⟩⟩
  · exact ⟨_, _, rfl, rfl, hput fun h => h.connection.mqttMsgAck ..⟩
  · exact ⟨_, _, rfl, rfl, hput fun h => h.connection.mqttMsgAck ..⟩
  · exact ⟨_, _, rfl, rfl, hput fun h => h.connection.run .pingresp⟩
  · exact ⟨_, _, rfl, rfl, fun h => ⟨h.connection, h.queue⟩⟩

theorem Ready.withData {client : MqttClient} (h : Ready client) {c : MqttConnection}
    (hc : Sound c) {q : Queue} (hq : q.InOrder) :
    Ready (client.withData { client.mqttState with mqttConnection := c } q) :=
  ⟨hc, h.inBufferLength, h.outBufferLength, hq⟩

/-! ## Answers -/

/-- The message that answers a packet. -/
def answer (c : MqttConnection) (msgType msgQos msgId : Nat) : Option MqttConnection :=
  match MessageType.ofCode msgType with
  | some .publish =>
    if msgQos = 1 then some (mqttMsgPuback c msgId)
    else if msgQos = 2 then some (mqttMsgPubrec c msgId)
    else none
  | some .pubrec => some (mqttMsgPubrel c msgId)
  | some .pubrel => some (mqttMsgPubcomp c msgId)
  | some .pingreq => some (mqttMsgPingresp c)
  | _ => none

theorem handlePacket_answer (client : MqttClient) (t q i : Nat) :
    (handlePacket client t q i).1 =
      (answer client.mqttState.mqttConnection t q i).elim client (queueResponse client) := by
  unfold handlePacket answer
  cases MessageType.ofCode t with
  | none => rfl
  | some type =>
    cases type with
    | publish =>
      by_cases h1 : q = 1
      · simp only [if_pos h1]
        rfl
      · by_cases h2 : q = 2
        · simp only [if_neg h1, if_pos h2]
          rfl
        · simp only [if_neg h1, if_neg h2]
          rfl
    | _ => rfl

theorem Finished.length_outbound {n : Nat} {c : MqttConnection} {header : UInt8} {body : Bytes}
    (h : Finished n c header body) (hbody : body.length ≤ 2) :
    c.outbound ≠ [] ∧ c.outbound.length ≤ 4 := by
  have hone : (remaining body.length).length = 1 := by
    rw [length_remaining, if_neg (by omega)]
  rw [h.outbound]
  refine ⟨List.cons_ne_nil _ _, ?_⟩
  rw [length_packet, bodyOffset, hone]
  omega

/-- An answer is built, and it is short. -/
theorem answer_built {c c' : MqttConnection} (h : Sound c) {t q id : Nat}
    (hc : answer c t q id = some c') :
    Sound c' ∧ c'.outbound ≠ [] ∧ c'.outbound.length ≤ 4 := by
  have hack (type : MessageType) (qos : Int) (hc' : mqttMsgAck c type qos id = c') :
      Sound c' ∧ c'.outbound ≠ [] ∧ c'.outbound.length ≤ 4 := by
    rw [← hc']
    exact ⟨h.mqttMsgAck .., (h.mqttMsgAck_finished type qos id).length_outbound (Nat.le_refl 2)⟩
  unfold answer at hc
  split at hc
  · split at hc
    · exact hack _ _ (Option.some.inj hc)
    · split at hc
      · exact hack _ _ (Option.some.inj hc)
      · exact absurd hc (by simp)
  · exact hack _ _ (Option.some.inj hc)
  · exact hack _ _ (Option.some.inj hc)
  · rw [← Option.some.inj hc]
    exact ⟨h.run .pingresp,
      (h.building.finish h.bufferLength .pingresp 0 0 0).length_outbound (Nat.zero_le 2)⟩
  · exact absurd hc (by simp)

/-- The queue and the buffer behind an answer. -/
theorem handlePacket_queue (client : MqttClient) (t q i : Nat) :
    (handlePacket client t q i).1.msgQueue =
        (answer client.mqttState.mqttConnection t q i).elim client.msgQueue
          (fun c => (queuePuts client.msgQueue c.outbound).1) ∧
      (handlePacket client t q i).1.mqttState.mqttConnection =
        (answer client.mqttState.mqttConnection t q i).getD client.mqttState.mqttConnection := by
  rw [handlePacket_answer]
  cases answer .. <;> exact ⟨rfl, rfl⟩

/-! ## The receive loop -/

/-- A turn of the receive loop in the data states. -/
theorem readPacket_frame (segment : Bytes) {s : RecvState} (hd : InData s.client) :
    ∃ st queue, (readPacket segment s).2.client = s.client.withData st queue ∧
      calls (readPacket segment s).2.log = calls s.log ∧
      (Ready s.client → Ready (readPacket segment s).2.client) := by
  by_cases hl : s.len < mqttBufSize ∧ s.len > 0
  · rw [readPacket_inData segment hd hl]
    obtain ⟨c, queue, hclient, hcalls, hready⟩ :=
      handlePacket_frame (s.client.load (s.rest segment) s.len) _ _ _
    have hr : Ready s.client → Ready (s.client.load (s.rest segment) s.len) :=
      fun h => ⟨h.connection, h.inBufferLength, h.outBufferLength, h.queue⟩
    split <;>
    · refine ⟨_, queue, hclient, ?_, fun h => ?_⟩
      · rw [calls_append, hcalls, List.append_nil]
      · show Ready (handlePacket ..).1
        rw [hclient]
        exact (hr h).withData (hready (hr h)).1 (hready (hr h)).2
  · rw [readPacket, if_neg hl]
    exact ⟨_, _, rfl, rfl, id⟩

theorem InData.readPacket (segment : Bytes) {s : RecvState} (hd : InData s.client) :
    InData (readPacket segment s).2.client := by
  obtain ⟨st, queue, hclient, -, -⟩ := readPacket_frame segment hd
  rw [hclient]
  exact hd

theorem Ready.goto {segment : Bytes} {s : RecvState} (h : Ready s.client)
    (hgo : (readPacket segment s).1 = true) : Ready (readPacket segment s).2.client := by
  obtain ⟨-, -, -, -, hready⟩ := readPacket_frame segment (inData_of_goto hgo)
  exact hready h

theorem readPackets_frame {segment : Bytes} {fuel : Nat} {s r : RecvState}
    (hd : InData s.client) (h : readPackets segment fuel s = some r) :
    ∃ st queue, r.client = s.client.withData st queue ∧ calls r.log = calls s.log ∧
      (Ready s.client → Ready r.client) := by
  revert hd
  refine readPackets_rule (motive := fun s r => InData s.client →
    ∃ st queue, r.client = s.client.withData st queue ∧ calls r.log = calls s.log ∧
      (Ready s.client → Ready r.client)) ?_ ?_ h
  · intro s _ hd
    exact readPacket_frame segment hd
  · intro s r _ ih hd
    obtain ⟨st, queue, hclient, hcalls, hready⟩ := readPacket_frame segment hd
    obtain ⟨st', queue', hclient', hcalls', hready'⟩ := ih (hd.readPacket segment)
    refine ⟨st', queue', ?_, hcalls'.trans hcalls, fun hr => hready' (hready hr)⟩
    rw [hclient', hclient]
    rfl

/-- What `mqtt_tcpclient_recv` can do: work on the buffers and the queue; accept a
CONNACK; or refuse one that it did not ask for. -/
inductive RecvCase (client : MqttClient) (segment : Bytes) (c : MqttClient) (out : List Effect) :
    Prop
  | data (st : MqttState) (q : Queue)
      (hc : c = { client.withData st q with keepAliveTick := 0 }) (hout : calls out = [])
  | connack (st : MqttState) (hst : client.connState = .mqttConnectSending)
      (hpend : client.mqttState.pendingMsgType = MessageType.connect.code)
      (hlen : (received segment).length < mqttBufSize)
      (htype : mqttGetType (received segment) = MessageType.connack.code)
      (hc : c = { client with mqttState := st, keepAliveTick := 0, connState := .mqttData })
      (hout : calls out = client.notify .connected)
  | refused (st : MqttState) (hst : client.connState = .mqttConnectSending)
      (hc : c = { client with mqttState := st, keepAliveTick := 0 })
      (hout : calls out = client.plain (.espconnDisconnect client.pCon))

theorem readPacket_cases {client : MqttClient} (segment : Bytes) (hd : ¬ InData client) :
    let r := (readPacket segment (recvStart client segment)).2
    RecvCase client segment r.client r.log ∧ (Ready client → Ready r.client) := by
  have hready : Ready client → Ready ((recvStart client segment).client.fill (received segment)) :=
    fun h => ⟨h.connection, h.inBufferLength, h.outBufferLength, h.queue⟩
  by_cases hl : (recvStart client segment).len < mqttBufSize ∧ (recvStart client segment).len > 0
  · have hlen : (received segment).length = (recvStart client segment).len :=
      RecvState.length_rest (recvStart_within client segment)
    have hne : received segment ≠ [] := List.ne_nil_of_length_pos (by omega)
    have htype : mqttGetType ((recvStart client segment).client.fill
        (received segment)).mqttState.inBuffer = mqttGetType (received segment) := by
      show mqttGetType (poke _ 0 _) = _
      rw [poke_zero, mqttGetType_append hne]
    unfold readPacket
    simp only [if_pos hl, recvStart_rest, fill_connState]
    unfold InData at hd
    cases hc : (recvStart client segment).client.connState <;>
      simp only [show client.connState = _ from hc, reduceCtorEq, or_self, not_false_eq_true,
        not_true_eq_false, or_true, true_or] at hd ⊢
    case mqttConnectSending =>
      have hpm : ((recvStart client segment).client.fill
          (received segment)).mqttState.pendingMsgType = client.mqttState.pendingMsgType := rfl
      by_cases ht : mqttGetType (received segment) = MessageType.connack.code
      · by_cases hp : client.mqttState.pendingMsgType ≠ MessageType.connect.code
        · simp only [htype, hpm, if_pos ht, if_pos hp]
          exact ⟨.refused _ hc rfl (calls_plain client rfl), hready⟩
        · simp only [htype, hpm, if_pos ht, if_neg hp]
          refine ⟨.connack _ hc (Decidable.not_not.mp hp) (by omega) ht rfl
            (calls_connected client), ?_⟩
          intro h
          exact ⟨(hready h).1, (hready h).2, (hready h).3, (hready h).4⟩
      · simp only [htype, if_neg ht]
        exact ⟨.data _ _ rfl rfl, hready⟩
    all_goals exact ⟨.data _ _ rfl rfl, hready⟩
  · rw [readPacket, if_neg hl]
    exact ⟨.data _ _ rfl rfl, fun h => ⟨h.1, h.2, h.3, h.4⟩⟩

theorem RecvCase.post {client c : MqttClient} {segment : Bytes} {out : List Effect}
    (h : RecvCase client segment c out) :
    RecvCase client segment c (out ++ [.systemOsPost]) := by
  have hpost : calls (out ++ [.systemOsPost]) = calls out := by
    rw [calls_append, calls_post, List.append_nil]
  cases h with
  | data st q hc hout => exact .data st q hc (hpost.trans hout)
  | connack st hst hpend hlen htype hc hout =>
    exact .connack st hst hpend hlen htype hc (hpost.trans hout)
  | refused st hst hc hout => exact .refused st hst hc (hpost.trans hout)

theorem mqttTcpclientRecv_cases {client c : MqttClient} {segment : Bytes} {out : List Effect}
    (h : mqttTcpclientRecv client segment = some (c, out)) :
    RecvCase client segment c out ∧ (Ready client → Ready c) := by
  obtain ⟨r, hr, hc⟩ := Option.map_eq_some_iff.mp h
  obtain ⟨rfl, rfl⟩ := Prod.mk.inj hc
  by_cases hd : InData client
  · obtain ⟨st, q, hclient, hcalls, hready⟩ := readPackets_frame hd hr
    refine ⟨RecvCase.post (.data st q ?_ hcalls), fun h => hready ⟨h.1, h.2, h.3, h.4⟩⟩
    rw [hclient]
    rfl
  · have hstop := readPacket_stops segment (s := recvStart client segment) fun h => hd h.1
    rw [mqttBufSize, readPackets] at hr
    simp only [hstop, Bool.false_eq_true, if_false] at hr
    obtain rfl := Option.some.inj hr
    obtain ⟨hcase, hready⟩ := readPacket_cases segment hd
    exact ⟨hcase.post, hready⟩

/-- A request works on the buffers and the queue. -/
def Requested (client c : MqttClient) (out : List Effect) : Prop :=
  ∃ st q, c = client.withData st q ∧ calls out = [] ∧ (Ready client → Ready c)

theorem length_messages_lt {q : Queue} (h : q.InOrder) :
    q.messages.length < q.rb.fillCnt + 1 := by
  have hlen := h.holds.framed.length_le
  rw [q.rb.length_content] at hlen
  omega

theorem queueRequest_requested {client : MqttClient} (st : MqttState)
    {conn : MqttConnection} {answers : Answers} {r : MqttClient × List Effect × Bool}
    (hst : Ready client → Ready { client with mqttState := st })
    (hconn : Ready client → Sound conn)
    (h : queueRequest { client with mqttState := st } conn answers = some r) :
    Requested client r.1 r.2.1 := by
  obtain ⟨put, hput, rfl⟩ := Option.map_eq_some_iff.mp h
  refine ⟨{ st with mqttConnection := conn }, put.1, rfl, ?_, fun hr => ?_⟩
  · show calls (if put.2 then [.systemOsPost] else []) = []
    split <;> rfl
  · obtain ⟨q', b, hloop, hq', -⟩ :=
      Queue.InOrder.putEvicting answers conn.outbound hr.queue (length_messages_lt hr.queue)
    have hsame : some put = some (q', b) := hput.symm.trans hloop
    refine ⟨hconn hr, (hst hr).inBufferLength, (hst hr).outBufferLength, ?_⟩
    rw [Option.some.inj hsame]
    exact hq'

theorem storeMsgId_ready {client : MqttClient} (h : Ready client) (id : Option Nat) :
    Ready (storeMsgId client id) := ⟨h.1, h.2, h.3, h.4⟩

theorem mqttPublish_requested {client : MqttClient} {topic : Option CString} {data : Bytes}
    {qos retain : Int} {answers : Answers} {r : MqttClient × List Effect × Bool}
    (h : mqttPublish client topic data qos retain answers = some r) :
    Requested client r.1 r.2.1 := by
  simp only [mqttPublish] at h
  split at h
  · obtain rfl := Option.some.inj h
    exact ⟨_, client.msgQueue, rfl, rfl, fun h =>
      ⟨h.connection.run (.publish ..), h.inBufferLength, h.outBufferLength, h.queue⟩⟩
  · exact queueRequest_requested _ (fun h => storeMsgId_ready h _)
      (fun h => h.connection.run (.publish ..)) h

theorem mqttSubscribe_requested {client : MqttClient} {topic : Option CString} {qos : Nat}
    {answers : Answers} {r : MqttClient × List Effect × Bool}
    (h : mqttSubscribe client topic qos answers = some r) : Requested client r.1 r.2.1 :=
  queueRequest_requested _ (fun h => storeMsgId_ready h _)
    (fun h => h.connection.run (.subscribe ..)) h

theorem mqttUnSubscribe_requested {client : MqttClient} {topic : Option CString}
    {answers : Answers} {r : MqttClient × List Effect × Bool}
    (h : mqttUnSubscribe client topic answers = some r) : Requested client r.1 r.2.1 :=
  queueRequest_requested _ (fun h => storeMsgId_ready h _)
    (fun h => h.connection.run (.unsubscribe ..)) h

theorem mqttPing_requested {client : MqttClient} {answers : Answers}
    {r : MqttClient × List Effect × Bool} (h : mqttPing client answers = some r) :
    Requested client r.1 r.2.1 := by
  simp only [mqttPing] at h
  split at h
  · obtain rfl := Option.some.inj h
    exact ⟨_, client.msgQueue, rfl, rfl, fun h =>
      ⟨h.connection.run .pingreq, h.inBufferLength, h.outBufferLength, h.queue⟩⟩
  · exact queueRequest_requested client.mqttState id (fun h => h.connection.run .pingreq) h

/-! ## One lemma for each handler -/

/-- The answer of a request is not part of the step. -/
theorem request_returned {x : Option (MqttClient × List Effect × Bool)} {c : MqttClient}
    {out : List Effect} (h : (x.map fun r => (r.1, r.2.1)) = some (c, out)) :
    ∃ b, x = some (c, out, b) := by
  obtain ⟨r, rfl, hr⟩ := Option.map_eq_some_iff.mp h
  obtain ⟨rfl, rfl⟩ := Prod.mk.inj hr
  exact ⟨r.2.2, rfl⟩

/-- The call of `mqtt_tcpclient_delete`. -/
def MqttClient.free (client : MqttClient) : List Effect :=
  (client.pCon.map Effect.espconnDelete).toList

theorem mqttTcpclientDelete_spec (client : MqttClient) :
    mqttTcpclientDelete client = ({ client with pCon := none }, client.free) := by
  obtain ⟨pCon⟩ := client
  cases pCon <;> rfl

def MqttClient.addressed (client : MqttClient) : Bool :=
  client.host.any fun host => (utilsStrToIP host.bytes).isSome

/-- What `MQTT_Connect` can do, for a host that is an address and for one that is not. -/
inductive ConnectCase (client : MqttClient) (fresh : Nat) (answers : Answers) :
    MqttClient → List Effect → Prop
  | address (ha : client.addressed = true) :
      ConnectCase client fresh answers
        { client with
          pCon := some fresh
          keepAliveTick := 0
          reconnectTick := 0
          mqttTimer := true
          connState := .tcpConnecting }
        (client.free ++ client.plain (.espconnConnect (some fresh) answers.connect))
  | host (host : CString) (ha : client.addressed = false) :
      ConnectCase client fresh answers
        { client with
          pCon := some fresh
          keepAliveTick := 0
          reconnectTick := 0
          mqttTimer := true
          ip := answers.lookup.store client.ip
          connState := .tcpConnecting }
        (client.free ++ [.espconnGethostbyname fresh host.bytes answers.lookup])

theorem mqttConnect_cases {client c : MqttClient} {fresh : Nat} {answers : Answers}
    {out : List Effect} (h : mqttConnect client fresh answers = some (c, out)) :
    ConnectCase client fresh answers c out := by
  simp only [mqttConnect, mqttTcpclientDelete_spec] at h
  split at h
  · exact absurd h (by simp)
  · next host hhost =>
    have ha : client.addressed = (utilsStrToIP host.bytes).isSome := by
      unfold MqttClient.addressed
      rw [show client.host = some host from hhost]
      rfl
    split at h
    · next hip =>
      obtain ⟨rfl, rfl⟩ := Prod.mk.inj (Option.some.inj h)
      exact .address (ha.trans hip)
    · next hip =>
      obtain ⟨rfl, rfl⟩ := Prod.mk.inj (Option.some.inj h)
      exact .host host (ha.trans (Bool.eq_false_iff.mpr hip))

/-- What `mqtt_dns_found` can do: give up, connect, or leave an answer it has no use for. -/
inductive DnsCase (client : MqttClient) (answers : Answers) :
    Option Nat → MqttClient → List Effect → Prop
  | failed : DnsCase client answers none { client with connState := .tcpReconnectReq } []
  | connects {addr : Nat} (hip : client.ip = 0) (haddr : addr ≠ 0) (hp : client.pCon ≠ none) :
      DnsCase client answers (some addr) { client with connState := .tcpConnecting }
        (client.plain (.espconnConnect client.pCon answers.connect) ++ [.systemOsPost])
  | ignored {addr : Nat} (h : ¬ (client.ip = 0 ∧ addr ≠ 0)) :
      DnsCase client answers (some addr) client [.systemOsPost]

theorem mqttDnsFound_cases {client c : MqttClient} {ipaddr : Option Nat} {answers : Answers}
    {out : List Effect} (h : mqttDnsFound client ipaddr answers = some (c, out)) :
    DnsCase client answers ipaddr c out := by
  cases ipaddr with
  | none =>
    obtain ⟨rfl, rfl⟩ := Prod.mk.inj (Option.some.inj h)
    exact .failed
  | some addr =>
    simp only [mqttDnsFound] at h
    split at h
    · next huse =>
      split at h
      · exact absurd h (by simp)
      · next pCon hp =>
        obtain ⟨rfl, rfl⟩ := Prod.mk.inj (Option.some.inj h)
        rw [← hp]
        exact .connects huse.1 huse.2 (by simp [hp])
    · next huse =>
      obtain ⟨rfl, rfl⟩ := Prod.mk.inj (Option.some.inj h)
      exact .ignored huse

/-- The task reconnects by `MQTT_Connect`, which frees the old object itself. -/
theorem mqttTask_reconnect {client : MqttClient} (hst : client.connState = .tcpReconnect)
    (fresh : Nat) (answers : Answers) :
    mqttTask client fresh answers = mqttConnect client fresh answers := by
  simp only [mqttTask, hst, mqttConnect, mqttTcpclientDelete_spec]
  split
  · rfl
  · split <;>
    · simp only [Option.map_some]
      rfl

theorem mqttTask_data {client : MqttClient} (hst : client.connState = .mqttData) (fresh : Nat)
    (answers : Answers) : mqttTask client fresh answers = some (sendQueued client answers) := by
  rw [mqttTask, hst]

theorem mqttTask_keepalive {client : MqttClient} (hst : client.connState = .mqttKeepaliveSend)
    (fresh : Nat) (answers : Answers) :
    mqttTask client fresh answers = some (mqttSendKeepalive client answers) := by
  rw [mqttTask, hst]

/-- What `MQTT_Task` can do, by the state it finds. -/
inductive TaskCase (client : MqttClient) (fresh : Nat) (answers : Answers) :
    MqttClient → List Effect → Prop
  | reconnect {c : MqttClient} {out : List Effect} (hst : client.connState = .tcpReconnect)
      (h : ConnectCase client fresh answers c out) : TaskCase client fresh answers c out
  | disconnect (hst : client.connState = .mqttDeleting ∨ client.connState = .tcpDisconnecting ∨
        client.connState = .tcpReconnectDisconnecting) :
      TaskCase client fresh answers client (client.plain (.espconnDisconnect client.pCon))
  | free (hst : client.connState = .tcpDisconnected) :
      TaskCase client fresh answers { client with pCon := none } client.free
  | delete (hst : client.connState = .mqttDeleted) :
      TaskCase client fresh answers (mqttClientDelete { client with pCon := none }).1 client.free
  | keepalive (hst : client.connState = .mqttKeepaliveSend) :
      TaskCase client fresh answers (mqttSendKeepalive client answers).1
        (mqttSendKeepalive client answers).2
  | data (hst : client.connState = .mqttData) :
      TaskCase client fresh answers (sendQueued client answers).1 (sendQueued client answers).2
  | idle (hst : client.connState ≠ .tcpReconnect) : TaskCase client fresh answers client []

theorem mqttTask_cases {client c : MqttClient} {fresh : Nat} {answers : Answers}
    {out : List Effect} (h : mqttTask client fresh answers = some (c, out)) :
    TaskCase client fresh answers c out := by
  by_cases hrec : client.connState = .tcpReconnect
  · rw [mqttTask_reconnect hrec] at h
    exact .reconnect hrec (mqttConnect_cases h)
  unfold mqttTask at h
  split at h
  case h_1 hst => exact absurd hst hrec
  all_goals replace h := Option.some.inj h
  case h_5 hst =>
    rw [mqttTcpclientDelete_spec] at h
    obtain ⟨rfl, rfl⟩ := Prod.mk.inj h
    exact .free hst
  case h_6 hst =>
    rw [mqttClientDelete, mqttTcpclientDelete_spec] at h
    obtain ⟨rfl, rfl⟩ := Prod.mk.inj h
    exact .delete hst
  all_goals obtain ⟨rfl, rfl⟩ := Prod.mk.inj h
  case h_2 hst => exact .disconnect (Or.inl hst)
  case h_3 hst => exact .disconnect (Or.inr (Or.inl hst))
  case h_4 hst => exact .disconnect (Or.inr (Or.inr hst))
  case h_7 hst => exact .keepalive hst
  case h_8 hst => exact .data hst
  case h_9 => exact .idle hrec

end Mqtt
end EspMisc
