/-
What a step can do to the connection.

Most of the client's data has no say in which calls it makes to the SDK.  `Control`
keeps the part that has, and `Move` lists the moves of that part, one for each way
through the code.  `handle_move` says that these are all: whatever event a client
handles, its control makes one of the moves.
-/
import EspMisc.Mqtt.Handlers

namespace EspMisc
namespace Mqtt

/-! ## Control -/

/-- The part of the client that decides which calls it makes. -/
structure Control where
  connState : ConnState
  pCon : Option Nat
  security : Nat
  ip : Nat
  mqttTimer : Bool
  /-- The host is an address, so there is nothing to look up. -/
  addressed : Bool

def MqttClient.control (client : MqttClient) : Control :=
  ⟨client.connState, client.pCon, client.security, client.ip, client.mqttTimer, client.addressed⟩

/-! ## The moves -/

/-- The events that leave the connection alone. -/
def Event.isRequest : Event → Bool
  | .publish .. => true
  | .subscribe .. => true
  | .unSubscribe .. => true
  | .ping => true
  | .sentCb _ => true
  | .initLWT .. => true
  | .on .. => true
  | _ => false

namespace Control

def plain (c : Control) (e : Effect) : List Effect := if c.security ≠ 0 then [] else [e]

/-- `mqtt_tcpclient_delete`. -/
def free (c : Control) : List Effect := (c.pCon.map Effect.espconnDelete).toList

/-- `MQTT_Connect` runs, called by the application or by the task. -/
def Connects (c : Control) (e : Event) : Prop :=
  e = .connect ∨ e = .task ∧ c.connState = .tcpReconnect

def afterDiscon : ConnState → ConnState
  | .tcpDisconnecting => .tcpDisconnected
  | .mqttDeleting => .mqttDeleted
  | _ => .tcpReconnectReq

theorem afterDiscon_cases (s : ConnState) :
    afterDiscon s = .tcpDisconnected ∨ afterDiscon s = .mqttDeleted ∨
      afterDiscon s = .tcpReconnectReq := by
  cases s <;> simp [afterDiscon]

end Control

/-- The moves of the connection on an event, with the calls they make. -/
inductive Move (fresh : Nat) (a : Answers) : Control → Event → List Effect → Control → Prop
  | request {c : Control} {e : Event} (he : e.isRequest = true) : Move fresh a c e [] c
  | disconnect {c : Control} :
      Move fresh a c .disconnect [] { c with connState := .tcpDisconnecting, mqttTimer := false }
  | deleteClient {c : Control} :
      Move fresh a c .deleteClient [] { c with connState := .mqttDeleting, mqttTimer := false }
  | connectAddress {c : Control} {e : Event} (he : c.Connects e) (ha : c.addressed = true) :
      Move fresh a c e (c.free ++ c.plain (.espconnConnect (some fresh) a.connect))
        { c with pCon := some fresh, mqttTimer := true, connState := .tcpConnecting }
  | connectHost {c : Control} {e : Event} (he : c.Connects e) (ha : c.addressed = false)
      (host : Bytes) :
      Move fresh a c e (c.free ++ [.espconnGethostbyname fresh host a.lookup])
        { c with
          pCon := some fresh
          mqttTimer := true
          connState := .tcpConnecting
          ip := a.lookup.store c.ip }
  | taskDisconnect {c : Control} (hst : c.connState = .mqttDeleting ∨
        c.connState = .tcpDisconnecting ∨ c.connState = .tcpReconnectDisconnecting) :
      Move fresh a c .task (c.plain (.espconnDisconnect c.pCon)) c
  | taskFree {c : Control} (hst : c.connState = .tcpDisconnected) :
      Move fresh a c .task c.free { c with pCon := none }
  | taskDelete {c : Control} (hst : c.connState = .mqttDeleted) :
      Move fresh a c .task c.free { c with pCon := none, addressed := false }
  | taskKeepalive {c : Control} (hst : c.connState = .mqttKeepaliveSend) (m : Bytes)
      (st : ConnState) (hnext : st = .mqttData ∨ st = .tcpReconnectDisconnecting) :
      Move fresh a c .task (c.plain (.espconnSend c.pCon m a.send)) { c with connState := st }
  | taskSend {c : Control} (hst : c.connState = .mqttData) (m : Bytes) :
      Move fresh a c .task (c.plain (.espconnSend c.pCon m a.send)) c
  | taskIdle {c : Control} (hst : c.connState ≠ .tcpReconnect) : Move fresh a c .task [] c
  | timerIdle {c : Control} : Move fresh a c .timer [] c
  | timerKeepalive {c : Control} (hst : c.connState = .mqttData) :
      Move fresh a c .timer [] { c with connState := .mqttKeepaliveSend }
  | timerReconnect {c : Control} (hst : c.connState = .tcpReconnectReq) :
      Move fresh a c .timer [] { c with connState := .tcpReconnect }
  | dnsFailed {c : Control} {arg : Nat} :
      Move fresh a c (.dnsFound arg none) [] { c with connState := .tcpReconnectReq }
  | dnsFound {c : Control} {arg addr : Nat} (hip : c.ip = 0) (haddr : addr ≠ 0)
      (hp : c.pCon ≠ none) :
      Move fresh a c (.dnsFound arg (some addr)) (c.plain (.espconnConnect c.pCon a.connect))
        { c with connState := .tcpConnecting }
  | dnsIgnored {c : Control} {arg addr : Nat} (h : ¬ (c.ip = 0 ∧ addr ≠ 0)) :
      Move fresh a c (.dnsFound arg (some addr)) [] c
  | connectCb {c : Control} {arg : Nat} (m : Bytes) :
      Move fresh a c (.connectCb arg) (c.plain (.espconnSend c.pCon m a.send))
        { c with connState := .mqttConnectSending }
  | recvData {c : Control} {arg : Nat} {segment : Bytes} : Move fresh a c (.recv arg segment) [] c
  | recvConnack {c : Control} {arg : Nat} {segment : Bytes} {out : List Effect}
      (hst : c.connState = .mqttConnectSending)
      (htype : mqttGetType (received segment) = MessageType.connack.code)
      (hout : ∀ e ∈ out, e = .callback .connected) :
      Move fresh a c (.recv arg segment) out { c with connState := .mqttData }
  | recvRefused {c : Control} {arg : Nat} {segment : Bytes}
      (hst : c.connState = .mqttConnectSending) :
      Move fresh a c (.recv arg segment) (c.plain (.espconnDisconnect c.pCon)) c
  | reconCb {c : Control} {arg : Nat} :
      Move fresh a c (.reconCb arg) [] { c with connState := .tcpReconnectReq }
  | disconCb {c : Control} {arg : Nat} :
      Move fresh a c (.disconCb arg) [] { c with connState := Control.afterDiscon c.connState }

theorem calls_free (c : Control) : calls c.free = c.free := by
  unfold Control.free
  cases c.pCon <;> rfl

theorem mqttConnect_move {client c : MqttClient} {fresh : Nat} {answers : Answers} {e : Event}
    {out : List Effect} (he : client.control.Connects e)
    (h : ConnectCase client fresh answers c out) :
    Move fresh answers client.control e (calls out) c.control ∧ (Ready client → Ready c) := by
  have hfree : calls client.free = client.control.free := calls_free client.control
  cases h with
  | address ha =>
    rw [calls_append, hfree, calls_plain _ rfl]
    exact ⟨.connectAddress he ha, Ready.same rfl rfl⟩
  | host host ha =>
    rw [calls_append, hfree]
    exact ⟨.connectHost he ha host.bytes, Ready.same rfl rfl⟩

theorem mqttSendKeepalive_move {client : MqttClient} (hst : client.connState = .mqttKeepaliveSend)
    (fresh : Nat) (answers : Answers) :
    Move fresh answers client.control .task (calls (mqttSendKeepalive client answers).2)
        (mqttSendKeepalive client answers).1.control ∧
      (Ready client → Ready (mqttSendKeepalive client answers).1) := by
  have hready : Ready client → Sound (mqttMsgPingreq client.mqttState.mqttConnection) :=
    fun h => h.connection.run .pingreq
  simp only [mqttSendKeepalive]
  split <;>
  · rw [calls_append, calls_post, List.append_nil, calls_plain _ rfl]
    refine ⟨.taskKeepalive hst _ _ ?_, fun h => ⟨hready h, h.2, h.3, h.4⟩⟩
    first | exact Or.inl rfl | exact Or.inr rfl

theorem sendQueued_move {client : MqttClient} (hst : client.connState = .mqttData) (fresh : Nat)
    (answers : Answers) :
    Move fresh answers client.control .task (calls (sendQueued client answers).2)
        (sendQueued client answers).1.control ∧
      (Ready client → Ready (sendQueued client answers).1) := by
  have hne : client.control.connState ≠ .tcpReconnect := by
    show client.connState ≠ .tcpReconnect
    simp [hst]
  simp only [sendQueued]
  split
  · exact ⟨.taskIdle hne, id⟩
  · split
    · rw [calls_plain _ rfl]
      exact ⟨.taskSend hst _, fun h => ⟨h.1, h.2, h.3, h.4.gets answers _⟩⟩
    · exact ⟨.taskIdle hne, fun h => ⟨h.1, h.2, h.3, h.4.gets answers _⟩⟩

theorem mqttTask_move {client c : MqttClient} {fresh : Nat} {answers : Answers}
    {out : List Effect} (h : TaskCase client fresh answers c out) :
    Move fresh answers client.control .task (calls out) c.control ∧ (Ready client → Ready c) := by
  cases h with
  | reconnect hst hcase => exact mqttConnect_move (Or.inr ⟨rfl, hst⟩) hcase
  | disconnect hst =>
    rw [calls_plain _ rfl]
    exact ⟨.taskDisconnect hst, id⟩
  | free hst =>
    rw [show calls client.free = _ from calls_free client.control]
    exact ⟨.taskFree hst, Ready.same rfl rfl⟩
  | delete hst =>
    rw [show calls client.free = _ from calls_free client.control]
    exact ⟨.taskDelete hst, fun h => ⟨h.1, h.2, h.3, h.4⟩⟩
  | keepalive hst => exact mqttSendKeepalive_move hst fresh answers
  | data hst => exact sendQueued_move hst fresh answers
  | idle hst => exact ⟨.taskIdle hst, id⟩

theorem mqttTimer_move (client : MqttClient) (fresh : Nat) (answers : Answers) :
    Move fresh answers client.control .timer (calls (mqttTimer client).2)
        (mqttTimer client).1.control ∧ (Ready client → Ready (mqttTimer client).1) := by
  simp only [mqttTimer]
  split
  · next hst =>
    split
    · exact ⟨.timerKeepalive hst, Ready.same rfl rfl⟩
    · exact ⟨.timerIdle, Ready.same rfl rfl⟩
  · next hst =>
    split
    · rw [← List.singleton_append, calls_append, calls_notify _ (by decide)]
      exact ⟨.timerReconnect hst, Ready.same rfl rfl⟩
    · exact ⟨.timerIdle, Ready.same rfl rfl⟩
  · exact ⟨.timerIdle, Ready.same rfl rfl⟩

theorem mqttDnsFound_move {client c : MqttClient} {ipaddr : Option Nat} {answers : Answers}
    {out : List Effect} (h : DnsCase client answers ipaddr c out) (fresh arg : Nat) :
    Move fresh answers client.control (.dnsFound arg ipaddr) (calls out) c.control ∧
      (Ready client → Ready c) := by
  cases h with
  | failed => exact ⟨.dnsFailed, Ready.same rfl rfl⟩
  | connects hip haddr hp =>
    rw [calls_append, calls_post, List.append_nil, calls_plain _ rfl]
    exact ⟨.dnsFound hip haddr hp, Ready.same rfl rfl⟩
  | ignored h => exact ⟨.dnsIgnored h, id⟩

theorem mqttTcpclientRecv_move {client c : MqttClient} {segment : Bytes} {out : List Effect}
    (h : mqttTcpclientRecv client segment = some (c, out)) (fresh arg : Nat) (answers : Answers) :
    Move fresh answers client.control (.recv arg segment) (calls out) c.control ∧
      (Ready client → Ready c) := by
  obtain ⟨hcase, hready⟩ := mqttTcpclientRecv_cases h
  refine ⟨?_, hready⟩
  cases hcase with
  | data st q hc hout =>
    rw [hc, hout]
    exact .recvData
  | connack st hst hpend hlen htype hc hout =>
    rw [hc, hout]
    refine .recvConnack hst htype fun e he => ?_
    unfold MqttClient.notify at he
    split at he
    · exact List.mem_singleton.mp he
    · exact absurd he List.not_mem_nil
  | refused st hst hc hout =>
    rw [hc, hout]
    exact .recvRefused hst

theorem Requested.move {client c : MqttClient} {out : List Effect} (h : Requested client c out)
    {e : Event} (he : e.isRequest = true) (fresh : Nat) (answers : Answers) :
    Move fresh answers client.control e (calls out) c.control ∧ (Ready client → Ready c) := by
  obtain ⟨st, q, rfl, hout, hready⟩ := h
  rw [hout]
  exact ⟨.request he, hready⟩

/-- Every way through the code is one of the moves. -/
theorem handle_move {client c : MqttClient} {fresh : Nat} {answers : Answers} {e : Event}
    {out : List Effect} (h : e.handle client fresh answers = some (c, out)) :
    Move fresh answers client.control e (calls out) c.control ∧ (Ready client → Ready c) := by
  cases e with
  | connect => exact mqttConnect_move (Or.inl rfl) (mqttConnect_cases h)
  | task => exact mqttTask_move (mqttTask_cases h)
  | recv arg segment => exact mqttTcpclientRecv_move h fresh arg answers
  | dnsFound arg ipaddr => exact mqttDnsFound_move (mqttDnsFound_cases h) fresh arg
  | publish topic data qos retain =>
    obtain ⟨b, hr⟩ := request_returned h
    exact (mqttPublish_requested hr).move rfl fresh answers
  | subscribe topic qos =>
    obtain ⟨b, hr⟩ := request_returned h
    exact (mqttSubscribe_requested hr).move rfl fresh answers
  | unSubscribe topic =>
    obtain ⟨b, hr⟩ := request_returned h
    exact (mqttUnSubscribe_requested hr).move rfl fresh answers
  | ping =>
    obtain ⟨b, hr⟩ := request_returned h
    exact (mqttPing_requested hr).move rfl fresh answers
  | timer =>
    obtain ⟨rfl, rfl⟩ := Prod.mk.inj (Option.some.inj h)
    exact mqttTimer_move client fresh answers
  | connectCb arg =>
    obtain ⟨rfl, rfl⟩ := Prod.mk.inj (Option.some.inj h)
    rw [calls_append, calls_post, List.append_nil, calls_plain _ rfl]
    refine ⟨.connectCb _, fun h => ⟨?_, h.2, h.3, h.4⟩⟩
    have hlen : client.mqttState.outBufferLength % 65536 = mqttBufSize := by
      rw [h.outBufferLength]
      rfl
    exact (Sound.mqttMsgInit h.connection.length_buffer hlen).run (.connect _)
  | sentCb arg =>
    obtain ⟨rfl, rfl⟩ := Prod.mk.inj (Option.some.inj h)
    rw [calls_append, calls_post, List.append_nil]
    split
    · rw [calls_notify _ (by decide)]
      exact ⟨.request rfl, Ready.same rfl rfl⟩
    · exact ⟨.request rfl, Ready.same rfl rfl⟩
  | disconCb arg =>
    obtain ⟨rfl, rfl⟩ := Prod.mk.inj (Option.some.inj h)
    rw [calls_append, calls_post, List.append_nil, calls_notify _ (by decide)]
    exact ⟨.disconCb, Ready.same rfl rfl⟩
  | disconnect =>
    obtain ⟨rfl, rfl⟩ := Prod.mk.inj (Option.some.inj h)
    exact ⟨.disconnect, Ready.same rfl rfl⟩
  | deleteClient =>
    obtain ⟨rfl, rfl⟩ := Prod.mk.inj (Option.some.inj h)
    exact ⟨.deleteClient, Ready.same rfl rfl⟩
  | reconCb arg =>
    obtain ⟨rfl, rfl⟩ := Prod.mk.inj (Option.some.inj h)
    exact ⟨.reconCb, Ready.same rfl rfl⟩
  | initLWT willTopic willMsg willQos willRetain =>
    obtain ⟨rfl, rfl⟩ := Prod.mk.inj (Option.some.inj h)
    exact ⟨.request rfl, Ready.same rfl rfl⟩
  | on cb set =>
    obtain ⟨rfl, rfl⟩ := Prod.mk.inj (Option.some.inj h)
    exact ⟨.request rfl, Ready.same rfl rfl⟩

end Mqtt
end EspMisc
