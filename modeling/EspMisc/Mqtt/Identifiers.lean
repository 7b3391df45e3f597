/-
The identifiers of queued requests.

The counter of identifiers belongs to the connection structure, which
`mqtt_tcpclient_connect_cb` sets up afresh, while the queue lives on.  `Moved` says
what a step does to the two: it takes identifiers from the counter, drops requests
from the queue, and appends at most one request, which carries the identifier just
taken.  From this `requestIds_nodup` follows for every run that sets the counter back
only while no request is queued, and that does not take the counter all the way round
to a request that is.
-/
import EspMisc.Mqtt.Link
import EspMisc.Mqtt.Requests
import EspMisc.Mqtt.Sending

namespace EspMisc
namespace Mqtt

open Machine

/-- The counter of identifiers. -/
def MqttClient.counter (client : MqttClient) : Nat := client.mqttState.mqttConnection.messageId

/-- The identifiers of the requests in the queue. -/
def MqttClient.requestIds (client : MqttClient) : List Nat :=
  client.msgQueue.messages.filterMap requestId

/-! ## Acknowledgements -/

/-- `n` identifiers were taken, and the queued requests are what they were. -/
structure Acked (client c : MqttClient) (n : Nat) : Prop where
  counter : c.counter = nextId^[n] client.counter
  requestIds : c.requestIds = client.requestIds

theorem Acked.trans {a b c : MqttClient} {n m : Nat} (h : Acked a b n) (h' : Acked b c m) :
    Acked a c (n + m) := by
  refine ⟨?_, h'.requestIds.trans h.requestIds⟩
  rw [h'.counter, h.counter, Nat.add_comm, Function.iterate_add_apply]

theorem queueResponse_acked {client : MqttClient} (h : Ready client) {c : MqttConnection} {n : Nat}
    (hc : c.messageId = nextId^[n] client.counter ∧ requestId c.outbound = none) :
    Acked client (queueResponse client c) n := by
  refine ⟨hc.1, ?_⟩
  show (queuePuts client.msgQueue c.outbound).1.messages.filterMap requestId = _
  rcases h.queue.messages_puts c.outbound with ⟨-, hms⟩ | ⟨-, hms⟩
  · rw [hms]
    rfl
  · rw [hms, List.filterMap_append, List.filterMap_cons, hc.2, List.filterMap_nil, List.append_nil]
    rfl

/-- The identifiers that a packet of the broker makes the client take: one for an
acknowledgement of a packet that has none itself. -/
def packetIds (msgType msgQos msgId : Nat) : Nat :=
  match MessageType.ofCode msgType with
  | some .publish => if (msgQos = 1 ∨ msgQos = 2) ∧ msgId = 0 then 1 else 0
  | some .pubrec | some .pubrel => if msgId = 0 then 1 else 0
  | _ => 0

theorem handlePacket_acked {client : MqttClient} (h : Ready client) (t q i : Nat) :
    Acked client (handlePacket client t q i).1 (packetIds t q i) := by
  have hack : ∀ (type : MessageType) (qos : Int),
      (type ≠ .publish ∧ type ≠ .subscribe ∧ type ≠ .unsubscribe) →
      Acked client (queueResponse client (mqttMsgAck client.mqttState.mqttConnection type qos i))
        (if i = 0 then 1 else 0) :=
    fun type qos ht => queueResponse_acked h (mqttMsgAck_numbered h.connection ht qos i)
  simp only [handlePacket, packetIds]
  cases MessageType.ofCode t with
  | none => exact ⟨rfl, rfl⟩
  | some type =>
    cases type with
    | publish =>
      by_cases h1 : q = 1
      · simp only [h1, true_or, true_and, if_true]
        exact hack .puback 0 (by simp)
      · by_cases h2 : q = 2
        · simp only [h2, or_true, true_and, if_true, show ¬ (2 : Nat) = 1 by decide, if_false]
          exact hack .pubrec 0 (by simp)
        · simp only [h1, h2, or_self, false_and, if_false]
          exact ⟨rfl, rfl⟩
    | pubrec => exact hack .pubrel 1 (by simp)
    | pubrel => exact hack .pubcomp 0 (by simp)
    | pingreq => exact queueResponse_acked h (finiMessage_numbered h.connection .pingresp (by simp))
    | _ => exact ⟨rfl, rfl⟩

instance (client : MqttClient) : Decidable (InData client) := inferInstanceAs (Decidable (_ ∨ _))

/-- The identifiers that a turn of the receive loop takes. -/
def turnIds (segment : Bytes) (s : RecvState) : Nat :=
  if InData s.client ∧ s.len < mqttBufSize ∧ s.len > 0 then
    let b := (s.client.load (s.rest segment) s.len).mqttState.inBuffer
    packetIds (mqttGetType b) (mqttGetQos b)
      (mqttGetId b (s.client.mqttState.inBufferLength % 65536))
  else 0

def loopIds (segment : Bytes) : Nat → RecvState → Nat
  | 0, _ => 0
  | fuel + 1, s =>
    let turn := readPacket segment s
    turnIds segment s + if turn.1 then loopIds segment fuel turn.2 else 0

/-- Outside of the data states the receive loop builds no message. -/
theorem readPacket_connection {segment : Bytes} {s : RecvState}
    (h : ¬ (InData s.client ∧ s.len < mqttBufSize ∧ s.len > 0)) :
    (readPacket segment s).2.client.mqttState.mqttConnection =
        s.client.mqttState.mqttConnection ∧
      (readPacket segment s).2.client.msgQueue = s.client.msgQueue := by
  unfold readPacket
  split
  · next hl =>
    unfold InData at h
    cases hc : s.client.connState <;> simp only [fill_connState, hc] at h ⊢
    case mqttConnectSending =>
      split
      · split <;> exact ⟨rfl, rfl⟩
      · exact ⟨rfl, rfl⟩
    case mqttData => exact absurd ⟨Or.inl trivial, hl⟩ h
    case mqttKeepaliveSend => exact absurd ⟨Or.inr trivial, hl⟩ h
    all_goals exact ⟨rfl, rfl⟩
  · exact ⟨rfl, rfl⟩

theorem readPacket_acked (segment : Bytes) {s : RecvState} (h : Ready s.client) :
    Acked s.client (readPacket segment s).2.client (turnIds segment s) := by
  unfold turnIds
  by_cases hd : InData s.client ∧ s.len < mqttBufSize ∧ s.len > 0
  · rw [if_pos hd, readPacket_inData segment hd.1 hd.2]
    have hload : Ready (s.client.load (s.rest segment) s.len) := ⟨h.1, h.2, h.3, h.4⟩
    obtain ⟨hcount, hids⟩ := handlePacket_acked hload _ _ _
    split
    · exact ⟨hcount, hids⟩
    · exact ⟨hcount, hids⟩
  · rw [if_neg hd]
    obtain ⟨hconn, hq⟩ := readPacket_connection hd
    refine ⟨congrArg MqttConnection.messageId hconn, ?_⟩
    rw [MqttClient.requestIds, hq]
    rfl

theorem readPackets_acked {segment : Bytes} {fuel : Nat} :
    ∀ {s r : RecvState}, Ready s.client → readPackets segment fuel s = some r →
      Acked s.client r.client (loopIds segment fuel s) := by
  induction fuel with
  | zero =>
    intro s r _ h
    exact absurd h (by simp [readPackets])
  | succ fuel ih =>
    intro s r hs h
    have hturn := readPacket_acked segment hs
    simp only [readPackets] at h
    simp only [loopIds]
    by_cases hgo : (readPacket segment s).1 = true
    · rw [if_pos hgo] at h ⊢
      exact hturn.trans (ih (hs.goto hgo) h)
    · rw [if_neg hgo] at h ⊢
      obtain rfl := Option.some.inj h
      exact hturn

/-! ## Steps -/

/-- `n` identifiers were taken, queued requests may have left, and a new one carries the
identifier taken. -/
structure Moved (client c : MqttClient) (n : Nat) : Prop where
  counter : c.counter = nextId^[n] client.counter
  requestIds : c.requestIds.Sublist client.requestIds ∨
    n = 1 ∧ ∃ ids, ids.Sublist client.requestIds ∧ c.requestIds = ids ++ [nextId client.counter]

theorem Acked.moved {client c : MqttClient} {n : Nat} (h : Acked client c n) : Moved client c n :=
  ⟨h.counter, Or.inl (h.requestIds ▸ List.Sublist.refl _)⟩

/-- A step that builds no message and leaves the queue alone. -/
theorem moved_same {client c : MqttClient}
    (hc : c.mqttState.mqttConnection.messageId = client.mqttState.mqttConnection.messageId)
    (hq : c.msgQueue = client.msgQueue) : Moved client c 0 := by
  refine Acked.moved ⟨hc, ?_⟩
  rw [MqttClient.requestIds, hq]
  rfl

theorem queueRequest_moved {client client' : MqttClient} (h : Ready client)
    {conn : MqttConnection} {n : Nat} (hn : Numbered client.mqttState.mqttConnection conn n)
    {answers : Answers} {r : MqttClient × List Effect × Bool}
    (hr : queueRequest client' conn answers = some r)
    (hq : client'.msgQueue = client.msgQueue) : Moved client r.1 n := by
  obtain ⟨put, hput, rfl⟩ := Option.map_eq_some_iff.mp hr
  rw [hq] at hput
  obtain ⟨q', b, hloop, -, htrue, hfalse⟩ :=
    Queue.InOrder.putEvicting answers conn.outbound h.queue (length_messages_lt h.queue)
  obtain rfl := Option.some.inj (hput.symm.trans hloop)
  refine ⟨hn.counter, ?_⟩
  show (q'.messages.filterMap requestId).Sublist _ ∨
    _ ∧ ∃ ids, _ ∧ q'.messages.filterMap requestId = _
  cases b with
  | false =>
    rw [hfalse rfl]
    exact Or.inl (List.nil_sublist _)
  | true =>
    obtain ⟨k, hk⟩ := htrue rfl
    have hdrop : ((client.msgQueue.messages.drop k).filterMap requestId).Sublist
        client.requestIds := (List.drop_sublist k _).filterMap requestId
    rw [hk, List.filterMap_append, List.filterMap_cons, List.filterMap_nil]
    rcases hn.request with hreq | ⟨rfl, hreq⟩
    · rw [hreq, List.append_nil]
      exact Or.inl hdrop
    · rw [hreq]
      exact Or.inr ⟨rfl, _, hdrop, rfl⟩

theorem mqttPublish_moved {client : MqttClient} (h : Ready client) {topic : Option CString}
    {data : Bytes} {qos retain : Int} (hqos : 0 ≤ qos) {answers : Answers}
    {r : MqttClient × List Effect × Bool}
    (hr : mqttPublish client topic data qos retain answers = some r) :
    Moved client r.1 (publishIds topic qos) := by
  have hn := mqttMsgPublish_numbered h.connection topic data hqos retain
  simp only [mqttPublish] at hr
  split at hr
  · obtain rfl := Option.some.inj hr
    exact Acked.moved ⟨hn.counter, rfl⟩
  · exact queueRequest_moved h hn hr rfl

theorem mqttPing_moved {client : MqttClient} (h : Ready client) {answers : Answers}
    {r : MqttClient × List Effect × Bool} (hr : mqttPing client answers = some r) :
    Moved client r.1 0 := by
  have hping : Numbered client.mqttState.mqttConnection
      (mqttMsgPingreq client.mqttState.mqttConnection) 0 := by
    obtain ⟨hcount, hreq⟩ := finiMessage_numbered h.connection .pingreq (by simp)
    exact ⟨hcount, Or.inl hreq⟩
  simp only [mqttPing] at hr
  split at hr
  · obtain rfl := Option.some.inj hr
    exact Acked.moved ⟨hping.counter, rfl⟩
  · exact queueRequest_moved h hping hr rfl

theorem mqttConnect_moved {client c : MqttClient} {fresh : Nat} {answers : Answers}
    {out : List Effect} (h : ConnectCase client fresh answers c out) : Moved client c 0 := by
  cases h with
  | address ha => exact moved_same rfl rfl
  | host host ha => exact moved_same rfl rfl

theorem sendQueued_moved {client : MqttClient} (h : Ready client) (answers : Answers) :
    Moved client (sendQueued client answers).1 0 := by
  have hcount : (sendQueued client answers).1.counter = client.counter := by
    simp only [sendQueued]
    split
    · rfl
    · split <;> rfl
  refine ⟨hcount, Or.inl ?_⟩
  rcases sendQueued_spec h answers with ⟨hsame, -, -⟩ | ⟨-, m, hcons, -⟩
  · rw [MqttClient.requestIds, hsame]
    exact List.Sublist.refl _
  · rw [MqttClient.requestIds, MqttClient.requestIds, hcons]
    exact (List.sublist_cons_self m _).filterMap requestId

theorem mqttSendKeepalive_moved (client : MqttClient) (answers : Answers) :
    Moved client (mqttSendKeepalive client answers).1 0 := by
  have hcount : (mqttMsgPingreq client.mqttState.mqttConnection).messageId =
      client.mqttState.mqttConnection.messageId := finiMessage_messageId ..
  simp only [mqttSendKeepalive]
  split
  · exact moved_same hcount rfl
  · exact moved_same hcount rfl

theorem mqttTask_moved {client c : MqttClient} (hready : Ready client) {fresh : Nat}
    {answers : Answers} {out : List Effect} (h : TaskCase client fresh answers c out) :
    Moved client c 0 := by
  cases h with
  | reconnect _ hcase => exact mqttConnect_moved hcase
  | keepalive _ => exact mqttSendKeepalive_moved client answers
  | data _ => exact sendQueued_moved hready answers
  | disconnect _ => exact moved_same rfl rfl
  | free _ => exact moved_same rfl rfl
  | delete _ => exact moved_same rfl rfl
  | idle _ => exact moved_same rfl rfl

theorem mqttTimer_moved (client : MqttClient) : Moved client (mqttTimer client).1 0 := by
  simp only [mqttTimer]
  split
  · split <;> exact moved_same rfl rfl
  · split <;> exact moved_same rfl rfl
  · exact moved_same rfl rfl

theorem mqttDnsFound_moved {client c : MqttClient} {ipaddr : Option Nat} {answers : Answers}
    {out : List Effect} (h : DnsCase client answers ipaddr c out) : Moved client c 0 := by
  cases h <;> exact moved_same rfl rfl

/-- The identifiers that a step takes from the counter. -/
def idsTaken (client : MqttClient) : Event → Nat
  | .publish topic _ qos _ => publishIds topic qos
  | .subscribe topic _ => topicIds topic
  | .unSubscribe topic => topicIds topic
  | .recv _ segment => loopIds segment mqttBufSize (recvStart client segment)
  | _ => 0

/-- `MQTT_Publish` is called with a level of service, which is not negative. -/
def Event.levelled : Event → Bool
  | .publish _ _ qos _ => decide (0 ≤ qos)
  | _ => true

theorem handle_moved {client c : MqttClient} (hready : Ready client) {fresh : Nat}
    {answers : Answers} {e : Event} {out : List Effect}
    (h : e.handle client fresh answers = some (c, out)) (hlevel : e.levelled = true)
    (hne : e.isConnected = false) : Moved client c (idsTaken client e) := by
  cases e with
  | connectCb arg => exact absurd hne (by simp [Event.isConnected])
  | dnsFound arg ipaddr => exact mqttDnsFound_moved (mqttDnsFound_cases h)
  | connect => exact mqttConnect_moved (mqttConnect_cases h)
  | task => exact mqttTask_moved hready (mqttTask_cases h)
  | publish topic data qos retain =>
    obtain ⟨b, hr⟩ := request_returned h
    exact mqttPublish_moved hready (of_decide_eq_true hlevel) hr
  | subscribe topic qos =>
    obtain ⟨b, hr⟩ := request_returned h
    exact queueRequest_moved hready (mqttMsgSubscribe_numbered hready.connection topic qos) hr rfl
  | unSubscribe topic =>
    obtain ⟨b, hr⟩ := request_returned h
    exact queueRequest_moved hready (mqttMsgUnsubscribe_numbered hready.connection topic) hr rfl
  | ping =>
    obtain ⟨b, hr⟩ := request_returned h
    exact mqttPing_moved hready hr
  | recv arg segment =>
    obtain ⟨r, hr, hc⟩ := Option.map_eq_some_iff.mp h
    obtain ⟨rfl, rfl⟩ := Prod.mk.inj hc
    have hstart : Ready (recvStart client segment).client :=
      ⟨hready.1, hready.2, hready.3, hready.4⟩
    obtain ⟨hcount, hids⟩ := readPackets_acked hstart hr
    exact Acked.moved ⟨hcount, hids⟩
  | timer =>
    obtain ⟨rfl, rfl⟩ := Prod.mk.inj (Option.some.inj h)
    exact mqttTimer_moved client
  | disconnect | deleteClient | sentCb | reconCb | disconCb | initLWT | on =>
    obtain ⟨rfl, rfl⟩ := Prod.mk.inj (Option.some.inj h)
    exact moved_same rfl rfl

/-! ## Setting the counter back -/

theorem appendOptional_messageId {c c' : MqttConnection} {s : Option CString} {flag : UInt8}
    (h : appendOptional c s flag = some c') : c'.messageId = c.messageId := by
  unfold appendOptional at h
  split at h
  · rw [Option.some.inj h]
  · obtain ⟨c'', h', rfl⟩ := Option.map_eq_some_iff.mp h
    show c''.messageId = c.messageId
    exact appendString_messageId h'

theorem appendWill_messageId (c : MqttConnection) (info : ConnectInfo) :
    (appendWill c info).1.messageId = c.messageId := by
  unfold appendWill
  split
  · rfl
  · split
    · rfl
    · next c₁ h₁ =>
      split
      · exact appendString_messageId h₁
      · next c₂ h₂ =>
        refine Eq.trans ?_ ((appendString_messageId h₂).trans (appendString_messageId h₁))
        simp only [orFlag]
        split <;> rfl

theorem mqttMsgConnect_messageId (c : MqttConnection) (info : ConnectInfo) :
    (mqttMsgConnect c info).messageId = c.messageId := by
  simp only [mqttMsgConnect]
  split
  · rfl
  · have hflag : ∀ d : MqttConnection,
        (if info.cleanSession ≠ 0 then orFlag d 0x02 else d).messageId = d.messageId := by
      intro d
      split <;> rfl
    split
    · exact hflag _
    · split
      · exact hflag _
      · next c₁ h₁ =>
        have hw := (appendWill_messageId c₁ info).trans
          ((appendString_messageId h₁).trans (hflag _))
        split
        · exact hw
        · split
          · exact hw
          · next c₂ h₂ =>
            have hu := (appendOptional_messageId h₂).trans hw
            split
            · exact hu
            · next c₃ h₃ =>
              exact (finiMessage_messageId ..).trans ((appendOptional_messageId h₃).trans hu)

/-- `mqtt_tcpclient_connect_cb` starts the identifiers over and keeps the queue. -/
theorem mqttTcpclientConnectCb_reset (client : MqttClient) (answers : Answers) :
    (mqttTcpclientConnectCb client answers).1.counter = 0 ∧
      (mqttTcpclientConnectCb client answers).1.requestIds = client.requestIds :=
  ⟨mqttMsgConnect_messageId _ _, rfl⟩

/-! ## Runs -/

/-- The counter is set back only while no request is queued, and no step takes it round
to the oldest request in the queue. -/
def sparesIds (client : MqttClient) : Event → Bool
  | .connectCb _ => client.requestIds.isEmpty
  | e => decide (Serial.Spared 65535 client.counter client.requestIds (idsTaken client e))

theorem sparesIds_other {client : MqttClient} {e : Event} (hne : e.isConnected = false)
    (h : sparesIds client e = true) :
    Serial.Spared 65535 client.counter client.requestIds (idsTaken client e) := by
  cases e with
  | connectCb arg => exact absurd hne (by simp [Event.isConnected])
  | _ => exact of_decide_eq_true h

theorem nextId_eq {n : Nat} (hn : n ≤ 65535) : nextId n = Serial.next 65535 n := by
  unfold nextId Serial.next
  split <;> split <;> omega

theorem nextId_iterate {c : Nat} (hc : c ≤ 65535) (n : Nat) :
    nextId^[n] c = (Serial.next 65535)^[n] c := by
  induction n with
  | zero => rfl
  | succ n ih =>
    rw [Function.iterate_succ_apply', Function.iterate_succ_apply', ih,
      nextId_eq (Serial.iterate_next_le (by decide) hc)]

/-- The identifiers in use were given out by the counter, in the order of the queue. -/
def InUse (client : MqttClient) : Prop := Serial.Issued 65535 client.counter client.requestIds

theorem Moved.inUse {client c : MqttClient} {n : Nat} (h : Moved client c n)
    (hu : InUse client) (hn : Serial.Spared 65535 client.counter client.requestIds n) :
    InUse c := by
  have hcount : c.counter = (Serial.next 65535)^[n] client.counter :=
    h.counter.trans (nextId_iterate hu.counter n)
  unfold InUse
  rcases h.requestIds with hsub | ⟨rfl, ids, hsub, hids⟩
  · rw [hcount]
    exact (hu.advance (by decide) hn).sublist hsub
  · rw [hcount, hids, nextId_eq hu.counter]
    refine (hu.issue (by decide) hn).sublist ?_
    exact hsub.append (List.Sublist.refl _)

theorem step_inUse {w w' : World} {i : Event × Answers} {out : List Effect}
    (hr : Ready w.client) (hu : InUse w.client) (h : step w i = some (w', out))
    (hlevel : i.1.levelled = true) (hk : sparesIds w.client i.1 = true) : InUse w'.client := by
  have hhandle := (step_handle h).2.1
  by_cases hcon : i.1.isConnected = true
  · obtain ⟨arg, he⟩ := Event.eq_connectCb hcon
    rw [he] at hhandle hk
    have hc : (mqttTcpclientConnectCb w.client i.2).1 = w'.client :=
      congrArg Prod.fst (Option.some.inj hhandle)
    obtain ⟨hcount, hids⟩ := mqttTcpclientConnectCb_reset w.client i.2
    unfold InUse
    rw [← hc, hcount, hids, List.isEmpty_iff.mp hk]
    exact Serial.Issued.nil (Nat.zero_le _)
  · have hne : i.1.isConnected = false := Bool.eq_false_iff.mpr hcon
    exact (handle_moved hr hhandle hlevel hne).inUse hu (sparesIds_other hne hk)

theorem setup_inUse (u : Setup) : InUse u.world.client := by
  have hempty : u.world.client.requestIds = [] := by
    show (queueInit _ queueBufferSize).messages.filterMap requestId = []
    rw [(queueInit_holds _ (by decide)).1.messages_eq]
    rfl
  unfold InUse
  rw [hempty]
  exact Serial.Issued.nil (Nat.zero_le _)

/-- No identifier is zero, and no two queued requests have the same, in a run that
publishes at levels of service only. -/
theorem requestIds_nodup {u : Setup} {tr : List Record} {w : World} (h : ClientRun u tr w)
    (hlevel : ∀ k ∈ tr, k.input.1.levelled = true)
    (hok : ∀ k ∈ tr, sparesIds k.before.client k.input.1 = true) :
    (∀ c : MqttConnection, (appendMessageId c 0).1.messageId ≠ 0) ∧
      (∀ id ∈ w.client.requestIds, id ≠ 0) ∧ w.client.requestIds.Nodup := by
  have hboth : ∀ k ∈ tr, k.input.1.levelled = true ∧
      sparesIds k.before.client k.input.1 = true := fun k hk => ⟨hlevel k hk, hok k hk⟩
  have hinv : Ready w.client ∧ InUse w.client := by
    refine h.invariant (fun w => Ready w.client ∧ InUse w.client) ?_ ?_ hboth
    · exact ⟨mqttInitClient_ready .., setup_inUse u⟩
    · intro s i t out hs hstep hk
      exact ⟨step_ready hs.1 hstep, step_inUse hs.1 hs.2 hstep hk.1 hk.2⟩
  refine ⟨fun c => ?_, fun id hid => ?_, hinv.2.nodup⟩
  · rw [appendMessageId_counter]
    exact Nat.pos_iff_ne_zero.mp (nextId_pos _)
  · exact Nat.pos_iff_ne_zero.mp (hinv.2.valid id hid).1

/-- The request of a sample run, `b` on the topic `a`. -/
def samplePublish : Event := .publish (some sampleName) [0x62] 1 0

/-- The client publishes before it is connected, and again afterwards. -/
def sampleEarly : List (Event × Answers) :=
  [(samplePublish, sampleAnswers), (.connect, sampleAnswers), (.connectCb 1, sampleAnswers),
    (samplePublish, sampleAnswers)]

theorem sampleEarly_isSome : (exec step sampleSetup.world sampleEarly).isSome := by decide

/-- The two requests have the same identifier. -/
theorem requestIds_not_nodup :
    ∃ tr w, ClientRun sampleSetup tr w ∧ w.client.requestIds = [1, 1] ∧
      ¬ w.client.requestIds.Nodup := by
  have hrun : ClientRun sampleSetup _ _ := exec_get sampleEarly_isSome
  exact ⟨_, _, hrun, by decide +kernel, by decide +kernel⟩

/-- The client publishes twice once it is connected. -/
def sampleLate : List (Event × Answers) :=
  sampleConnect ++ [(samplePublish, sampleAnswers), (samplePublish, sampleAnswers)]

theorem sampleLate_isSome : (exec step sampleSetup.world sampleLate).isSome := by decide

theorem requestIds_nodup_sampleLate :
    ∃ tr w, ClientRun sampleSetup tr w ∧ w.client.requestIds = [1, 2] ∧
      w.client.requestIds.Nodup := by
  have hrun : ClientRun sampleSetup _ _ := exec_get sampleLate_isSome
  exact ⟨_, _, hrun, by decide +kernel, (requestIds_nodup hrun (by decide) (by decide +kernel)).2.2⟩

end Mqtt
end EspMisc
