/-
What `MQTT_InitClient` sets up and every later step keeps: the two buffers have
their sizes, and the ring of the queue is in order.

The builders of `mqtt_msg.c` write into a buffer of fixed size.  `Sound` says that
the buffer has that size, so that keeping it means that no write fell outside.
-/
import EspMisc.Mqtt.Client
import EspMisc.Mqtt.Builders

namespace EspMisc
namespace Mqtt

/-- The connection has the buffer of `MQTT_InitClient`. -/
structure Sound (c : MqttConnection) : Prop where
  length_buffer : c.buffer.length = mqttBufSize
  bufferLength : c.bufferLength = mqttBufSize

namespace Sound

variable {c : MqttConnection}

theorem fitted (h : Sound c) : Fitted mqttBufSize c := ⟨h.bufferLength, h.length_buffer⟩

theorem of_fitted (h : Fitted mqttBufSize c) : Sound c := ⟨h.length_buffer, h.bufferLength⟩

theorem building (h : Sound c) : Building (initMessage c) [] := h.fitted.building (by decide)

theorem initMessage (h : Sound c) : Sound (initMessage c) := ⟨h.1, h.2⟩

theorem mqttMsgInit {buffer : Bytes} {n : Nat} (hb : buffer.length = mqttBufSize)
    (hn : n = mqttBufSize) : Sound (mqttMsgInit buffer n) := ⟨hb, hn⟩

theorem run (h : Sound c) (b : Build) : Sound (b.run c) :=
  of_fitted (b.fitted h.fitted (by decide))

theorem mqttMsgAck (h : Sound c) (type : MessageType) (qos : Int) (id : Nat) :
    Sound (mqttMsgAck c type qos id) := of_fitted (mqttMsgAck_built h.fitted type qos id).fitted

/-- The buffer has room for an acknowledgement, so one is always built. -/
theorem mqttMsgAck_finished (h : Sound c) (type : MessageType) (qos : Int) (id : Nat) :
    Finished mqttBufSize (Mqtt.mqttMsgAck c type qos id) (headerByte type 0 qos 0)
      (word (if id = 0 then nextId c.messageId else id)) := by
  have hroom : (Mqtt.initMessage c).message.length + 2 ≤ (Mqtt.initMessage c).bufferLength := by
    rw [h.initMessage.bufferLength]
    show 3 + 2 ≤ mqttBufSize
    decide
  obtain ⟨hb, hl, -, hval⟩ := appendMessageId_building h.building hroom id
  have hne : ¬(appendMessageId (Mqtt.initMessage c) id).2 = 0 := by
    rw [hval]
    split
    · exact Nat.ne_of_gt (nextId_pos _)
    · assumption
  rw [hval, List.nil_append] at hb
  simp only [Mqtt.mqttMsgAck, if_neg hne]
  exact hb.finish (hl.trans h.bufferLength) ..

end Sound

/-! ## The queue of the client -/

/-- The ring has the size of `MQTT_InitClient` and stores the queue's messages. -/
structure Queue.InOrder (q : Queue) : Prop where
  holds : q.Holds q.messages
  size : q.rb.size = queueBufferSize

open Queue

theorem Queue.Holds.inOrder {q : Queue} {ms : List Bytes} (h : q.Holds ms)
    (hsize : q.rb.size = queueBufferSize) : q.InOrder :=
  ⟨h.messages_eq ▸ h, hsize⟩

theorem length_dataBuffer_le (answers : Answers) :
    (UInt16.ofNat mqttBufSize).toNat ≤ answers.dataBuffer.length := by
  rw [answers.length_dataBuffer]
  decide

namespace Queue.InOrder

variable {q : Queue}

theorem puts (h : q.InOrder) (m : Bytes) : (queuePuts q m).1.InOrder := by
  have hsize := (queuePuts_size h.holds m).trans h.size
  by_cases hfit : q.rb.fillCnt + cost m ≤ q.rb.size
  · exact (queuePuts_fits h.holds hfit).1.inOrder hsize
  · exact (queuePuts_full h.holds hfit).1.inOrder hsize

/-- A put either fails and stores nothing or appends its message. -/
theorem messages_puts (h : q.InOrder) (m : Bytes) :
    ((queuePuts q m).2 = -1 ∧ (queuePuts q m).1.messages = q.messages) ∨
      ((queuePuts q m).2 ≠ -1 ∧ (queuePuts q m).1.messages = q.messages ++ [m]) := by
  have hret := queuePuts_ret_iff h.holds (by rw [h.size]; decide) m
  by_cases hfit : q.rb.fillCnt + cost m ≤ q.rb.size
  · exact Or.inr ⟨fun he => hret.mp he hfit, (queuePuts_fits h.holds hfit).1.messages_eq⟩
  · exact Or.inl ⟨hret.mpr hfit, (queuePuts_full h.holds hfit).1.messages_eq⟩

theorem gets (h : q.InOrder) (answers : Answers) (isBegin : UInt8) :
    (queueGets q answers.dataBuffer (UInt16.ofNat mqttBufSize) isBegin).queue.InOrder := by
  have hbuf := length_dataBuffer_le answers
  have hsize := (queueGets_size h.holds hbuf isBegin).trans h.size
  have hh := h.holds
  cases hm : q.messages with
  | nil =>
    rw [hm] at hh
    exact (queueGets_nil hh hbuf isBegin).2.1.inOrder hsize
  | cons m ms =>
    rw [hm] at hh
    exact (queueGets_cons hh hbuf isBegin).2.1.inOrder hsize

/-- A get takes the first message, whole, or finds none. -/
theorem messages_gets (h : q.InOrder) (answers : Answers) (isBegin : UInt8) :
    let got := queueGets q answers.dataBuffer (UInt16.ofNat mqttBufSize) isBegin
    (q.messages = [] ∧ got.ret = -1 ∧ got.queue.messages = []) ∨
      (got.ret = 0 ∧ q.messages = got.message :: got.queue.messages) := by
  have hbuf := length_dataBuffer_le answers
  have hh := h.holds
  cases hm : q.messages with
  | nil =>
    rw [hm] at hh
    obtain ⟨hret, hq, -⟩ := queueGets_nil hh hbuf isBegin
    exact Or.inl ⟨rfl, hret, hq.messages_eq⟩
  | cons m ms =>
    rw [hm] at hh
    obtain ⟨hret, hq, -, hmsg⟩ := queueGets_cons hh hbuf isBegin
    have hlen := hh.length_mem_le m List.mem_cons_self
    rw [h.size] at hlen
    have hle : m.length ≤ (UInt16.ofNat mqttBufSize).toNat := by
      show m.length ≤ 1792
      unfold queueBufferSize at hlen
      omega
    rw [List.take_of_length_le hle] at hmsg
    exact Or.inr ⟨hret, by rw [hmsg, hq.messages_eq]⟩

theorem messages_eq_nil (h : q.InOrder) (he : queueIsEmpty q = true) : q.messages = [] := by
  have hfill : q.rb.fillCnt ≤ 0 := of_decide_eq_true he
  have hlen := h.holds.framed.length_le
  rw [q.rb.length_content] at hlen
  exact List.eq_nil_of_length_eq_zero (by omega)

/-- The loop of a request puts its message behind what it did not have to evict, or
gives up on an empty queue. -/
theorem putEvicting (answers : Answers) (message : Bytes) {fuel : Nat} :
    ∀ {q : Queue}, q.InOrder → q.messages.length < fuel →
      ∃ q' b, putEvicting answers message fuel q = some (q', b) ∧ q'.InOrder ∧
        (b = true → ∃ k, q'.messages = q.messages.drop k ++ [message]) ∧
        (b = false → q'.messages = []) := by
  induction fuel with
  | zero =>
    intro q _ h
    exact absurd h (Nat.not_lt_zero _)
  | succ fuel ih =>
    intro q h hfuel
    have hput := h.puts message
    rcases h.messages_puts message with ⟨hret, hms⟩ | ⟨hret, hms⟩
    · have hgot := hput.gets answers (answers.isBegin fuel)
      rcases hput.messages_gets answers (answers.isBegin fuel) with
        ⟨-, hret', hms'⟩ | ⟨hret', hms'⟩
      · refine ⟨_, false, ?_, hgot, by simp, fun _ => hms'⟩
        simp only [Mqtt.putEvicting, hret, hret', if_true]
      · have hlen := congrArg List.length hms'
        rw [hms, List.length_cons] at hlen
        obtain ⟨q', b, hloop, hq', htrue, hfalse⟩ := ih hgot (by omega)
        refine ⟨q', b, ?_, hq', fun hb => ?_, hfalse⟩
        · rw [← hloop]
          simp only [Mqtt.putEvicting, hret, hret', if_true]
          rfl
        · obtain ⟨k, hk⟩ := htrue hb
          refine ⟨k + 1, ?_⟩
          rw [hk, ← hms, hms', List.drop_succ_cons]
    · refine ⟨_, true, ?_, hput, fun _ => ⟨0, hms⟩, by simp⟩
      simp only [Mqtt.putEvicting, if_neg hret]

end Queue.InOrder

/-! ## The client -/

structure Ready (client : MqttClient) : Prop where
  connection : Sound client.mqttState.mqttConnection
  inBufferLength : client.mqttState.inBufferLength = mqttBufSize
  outBufferLength : client.mqttState.outBufferLength = mqttBufSize
  queue : client.msgQueue.InOrder

/-- The other fields of the client have no part in it. -/
theorem Ready.same {client c : MqttClient} (hst : c.mqttState = client.mqttState)
    (hq : c.msgQueue = client.msgQueue) (h : Ready client) : Ready c := by
  obtain ⟨hconn, hin, hout, hqueue⟩ := h
  exact ⟨hst ▸ hconn, hst ▸ hin, hst ▸ hout, hq ▸ hqueue⟩

theorem mqttInitClient_ready (client : MqttClient) (clientId : CString)
    (clientUser clientPass : Option CString) (keepAliveTime : UInt32) (cleanSession : UInt8) :
    Ready (mqttInitClient client clientId clientUser clientPass keepAliveTime cleanSession) where
  connection := ⟨List.length_replicate, rfl⟩
  inBufferLength := rfl
  outBufferLength := rfl
  queue := by
    have h := queueInit_holds client.msgQueue (show 2 ≤ queueBufferSize by decide)
    exact h.1.inOrder h.2

theorem Ready.queueResponse {client : MqttClient} (h : Ready client) {c : MqttConnection}
    (hc : Sound c) : Ready (queueResponse client c) :=
  ⟨hc, h.inBufferLength, h.outBufferLength, h.queue.puts c.outbound⟩

end Mqtt
end EspMisc
