/-
The turns of the receive loop, and what each of them delivers.

The loop copies what is left of a segment to the front of `in_buffer`, over what it had
there before.  `Turn segment q b` says that it comes to a turn with `q` left and with `b`
in front of `in_buffer`: `q` and, behind it, bytes of the segment from the turns before.

`mqtt_get_publish_topic` looks for a topic up to the end of `q`, which may be behind the
end of the packet, and when it finds none it leaves the length as it was given.
`delivered_inside_iff` says for which segments the ranges that the application is given
are in the packet all the same.
-/
import EspMisc.Mqtt.Packets
import EspMisc.Mqtt.Handlers

namespace EspMisc
namespace Mqtt

/-! ## Turns -/

/-- A turn with `q` left of the segment and `b` in front of `in_buffer`. -/
inductive Turn (segment : Bytes) : Bytes → Bytes → Prop
  | start : Turn segment segment segment
  | goto {q b : Bytes} : Turn segment q b → IsPublish q → messageLength q < q.length →
      Turn segment (q.drop (messageLength q)) (poke b 0 (q.drop (messageLength q)))

theorem Turn.length {segment q b : Bytes} (h : Turn segment q b) :
    q.length ≤ b.length ∧ b.length = segment.length := by
  induction h with
  | start => exact ⟨Nat.le_refl _, rfl⟩
  | @goto q b _ _ _ ih =>
    have hdrop : (q.drop (messageLength q)).length ≤ q.length := by
      rw [List.length_drop]
      omega
    rw [length_poke (by omega)]
    exact ⟨by omega, ih.2⟩

/-- What is left is in front. -/
theorem Turn.take {segment q b : Bytes} (h : Turn segment q b) : b.take q.length = q := by
  cases h with
  | start => exact List.take_length
  | goto _ _ _ => rw [poke_zero, List.take_left]

/-- A packet that does not send the loop on is the only one it comes to. -/
theorem Turn.only {segment q b : Bytes} (h : Turn segment q b)
    (hstop : ¬(IsPublish segment ∧ messageLength segment < segment.length)) :
    q = segment ∧ b = segment := by
  induction h with
  | start => exact ⟨rfl, rfl⟩
  | goto _ hpub hml ih =>
    rw [ih.1] at hpub hml
    exact absurd ⟨hpub, hml⟩ hstop

/-- The loop of a call with `client` is at this turn. -/
structure AtTurn (client : MqttClient) (segment : Bytes) (s : RecvState) (q b : Bytes) : Prop where
  within : s.Within segment
  rest : s.rest segment = q
  inData : InData s.client
  callbacks : s.client.callbacks = client.callbacks
  inBufferLength : s.client.mqttState.inBufferLength = client.mqttState.inBufferLength
  inBuffer : q ++ s.client.mqttState.inBuffer.drop q.length =
    b ++ client.mqttState.inBuffer.drop segment.length

section Turns

variable {client : MqttClient} {segment q b : Bytes} {s s' : RecvState}

theorem AtTurn.len (h : AtTurn client segment s q b) : s.len = q.length := by
  rw [← h.rest, s.length_rest h.within]

theorem recvStart_atTurn (hd : InData client) (hlen : segment.length < mqttBufSize) :
    AtTurn client segment (recvStart client segment) segment segment where
  within := recvStart_within client segment
  rest := by
    rw [recvStart_rest, received_eq hlen]
  inData := hd
  callbacks := rfl
  inBufferLength := rfl
  inBuffer := rfl

/-- A packet changes the connection and the queue of the client it was loaded into. -/
theorem handle_frame (client : MqttClient) (p : Bytes) :
    (client.handle p).1.callbacks = client.callbacks ∧
      (client.handle p).1.mqttState.inBufferLength = client.mqttState.inBufferLength ∧
      (client.handle p).1.mqttState.inBuffer = p ++ client.mqttState.inBuffer.drop p.length := by
  obtain ⟨c, queue, hclient, -, -⟩ := handlePacket_frame (client.load p p.length)
    (mqttGetType p) (mqttGetQos p) (mqttGetId (p ++ client.mqttState.inBuffer.drop p.length)
      (client.mqttState.inBufferLength % 65536))
  unfold MqttClient.handle
  rw [hclient]
  exact ⟨rfl, rfl, load_inBuffer client p p.length⟩

/-- What a turn does, if there is anything left. -/
theorem AtTurn.readPacket (h : AtTurn client segment s q b) (hq : q ≠ [])
    (hlen : q.length < mqttBufSize) :
    Mqtt.readPacket segment s =
      if IsPublish q ∧ messageLength q < q.length then
        (true,
          { client := (s.client.handle q).1
            pdata := s.pdata + messageLength q
            len := s.len - messageLength q
            log := s.log ++ (s.client.handle q).2 })
      else
        (false,
          { s with
            client := (s.client.handle q).1
            log := s.log ++ (s.client.handle q).2 }) := by
  have hpos := List.length_pos_of_ne_nil hq
  have hs := h.len
  rw [readPacket_data h.within h.inData (by omega) (by omega), h.rest, hs]

theorem AtTurn.goto (h : AtTurn client segment s q b) (hturn : Turn segment q b)
    (hgo : Mqtt.readPacket segment s = (true, s')) :
    IsPublish q ∧ messageLength q < q.length ∧
      AtTurn client segment s' (q.drop (messageLength q))
        (poke b 0 (q.drop (messageLength q))) := by
  obtain ⟨⟨-, hpos, hlt⟩, hpub, hml, hd', hw', -, hrest'⟩ := readPacket_goto h.within hgo
  rw [h.rest, h.len] at hml
  rw [h.rest] at hpub hrest'
  have hne : q ≠ [] := List.ne_nil_of_length_pos (by rw [← h.len]; exact hpos)
  have hlen : q.length < mqttBufSize := by rw [← h.len]; exact hlt
  rw [h.readPacket hne hlen, if_pos ⟨hpub, hml⟩] at hgo
  obtain rfl := (Prod.mk.inj hgo).2
  obtain ⟨hcb, hin, hbuf⟩ := handle_frame s.client q
  refine ⟨hpub, hml, hw', hrest', hd', hcb.trans h.callbacks, hin.trans h.inBufferLength, ?_⟩
  have hle : (q.drop (messageLength q)).length ≤ b.length := by
    have hturn := hturn.length
    rw [List.length_drop]
    omega
  rw [hbuf, h.inBuffer, poke_zero, List.drop_append_of_le_length hle, List.append_assoc]

/-- The loop comes to the turns of the segment, and to no others. -/
theorem AtReadPacket.turn (hd : InData client) (hlen : segment.length < mqttBufSize)
    (h : AtReadPacket client segment s) :
    ∃ q b, Turn segment q b ∧ AtTurn client segment s q b := by
  induction h with
  | start => exact ⟨segment, segment, .start, recvStart_atTurn hd hlen⟩
  | goto _ hgo ih =>
    obtain ⟨q, b, hturn, hat⟩ := ih
    obtain ⟨hpub, hml, hat'⟩ := hat.goto hturn hgo
    exact ⟨_, _, hturn.goto hpub hml, hat'⟩

theorem Turn.reached (hd : InData client) (hlen : segment.length < mqttBufSize)
    (h : Turn segment q b) :
    ∃ s, AtReadPacket client segment s ∧ AtTurn client segment s q b := by
  induction h with
  | start => exact ⟨_, .start, recvStart_atTurn hd hlen⟩
  | goto hturn hpub hml ih =>
    obtain ⟨s, hs, hat⟩ := ih
    have hq := hturn.length
    have hgo := hat.readPacket (List.ne_nil_of_length_pos (by omega)) (by omega)
    rw [if_pos ⟨hpub, hml⟩] at hgo
    exact ⟨_, hs.goto hgo, (hat.goto hturn hgo).2.2⟩

end Turns

/-! ## What is delivered -/

/-- The index behind the remaining length. -/
def scanEnd (q : Bytes) : Nat := (lengthLoop q (q.length - 1) 1 0).1

theorem lengthLoop_self_append {q : Bytes} (hq : q ≠ []) (x : Bytes) :
    lengthLoop (q ++ x) (q.length - 1) 1 0 = lengthLoop q (q.length - 1) 1 0 := by
  have hpos := List.length_pos_of_ne_nil hq
  exact lengthLoop_append x (by omega) 0

theorem wordAt_append_left {q : Bytes} {i : Nat} (h : i + 1 < q.length) (x : Bytes) :
    wordAt (q ++ x) i = wordAt q i := by
  rw [wordAt, wordAt, byteAt_append_left (by omega), byteAt_append_left h]

theorem mqttGetPublishTopic_append {q : Bytes} (hq : q ≠ []) (x : Bytes) :
    mqttGetPublishTopic (q ++ x) q.length = mqttGetPublishTopic q q.length := by
  simp only [mqttGetPublishTopic, lengthLoop_self_append hq x]
  by_cases hend : (lengthLoop q (q.length - 1) 1 0).1 + 2 ≥ q.length
  · rw [if_pos hend, if_pos hend]
  · rw [if_neg hend, if_neg hend, wordAt_append_left (by omega)]

theorem mqttGetPublishData_append {q : Bytes} (hq : q ≠ []) (x : Bytes) :
    mqttGetPublishData (q ++ x) q.length = mqttGetPublishData q q.length := by
  simp only [mqttGetPublishData, lengthLoop_self_append hq x, mqttGetQos_append hq]
  by_cases hend : (lengthLoop q (q.length - 1) 1 0).1 + 2 ≥ q.length
  · rw [if_pos hend, if_pos hend]
  · rw [if_neg hend, if_neg hend, wordAt_append_left (by omega)]

theorem isPublish_iff (q : Bytes) :
    IsPublish q ↔ MessageType.ofCode (mqttGetType q) = some .publish := by
  constructor
  · intro h
    rw [h]
    rfl
  · intro h
    exact MessageType.code_of_ofCode h

/-- A PUBLISH is delivered if there is anyone to tell, and nothing else is. -/
theorem handle_log (client : MqttClient) {q : Bytes} (hq : q ≠ []) (hlen : q.length < mqttBufSize) :
    (client.handle q).2 =
      if IsPublish q ∧ client.callbacks .data = true then
        [.dataCb (q ++ client.mqttState.inBuffer.drop q.length)
          (mqttGetPublishTopic q q.length) (mqttGetPublishData q q.length)]
      else [] := by
  have hmod := mod_of_lt_mqttBufSize hlen
  have hdeliver (c : MqttClient) (hc : c.callbacks = client.callbacks)
      (hbuf : c.mqttState.inBuffer = q ++ client.mqttState.inBuffer.drop q.length)
      (hread : c.mqttState.messageLengthRead = q.length) :
      deliverPublish c c.mqttState.inBuffer c.mqttState.messageLengthRead =
        if client.callbacks .data = true then
          [.dataCb (q ++ client.mqttState.inBuffer.drop q.length)
            (mqttGetPublishTopic q q.length) (mqttGetPublishData q q.length)]
        else [] := by
    simp only [deliverPublish, hbuf, hread, hmod, hc, mqttGetPublishTopic_append hq,
      mqttGetPublishData_append hq]
  simp only [isPublish_iff]
  unfold MqttClient.handle handlePacket
  cases htype : MessageType.ofCode (mqttGetType q) with
  | none => simp
  | some type =>
    cases type with
    | publish =>
      dsimp only
      by_cases h1 : mqttGetQos q = 1
      · simp only [if_pos h1, true_and]
        exact hdeliver _ rfl (load_inBuffer client q q.length) rfl
      · by_cases h2 : mqttGetQos q = 2
        · simp only [if_neg h1, if_pos h2, true_and]
          exact hdeliver _ rfl (load_inBuffer client q q.length) rfl
        · simp only [if_neg h1, if_neg h2, true_and]
          exact hdeliver _ rfl (load_inBuffer client q q.length) rfl
    | _ => simp

/-- The end of the packet in front of `q`, which may come after the end of the segment. -/
def packetEnd (q : Bytes) : Int := min q.length (mqttGetTotalLength q q.length)

/-- A range of bytes of the packet; NULL has no bytes. -/
def InPacket (q : Bytes) (range : Option Nat × Nat) : Prop :=
  match range.1 with
  | none => range.2 = 0
  | some off => (off + range.2 : Nat) ≤ packetEnd q

/-- The topic, with its length, is in the packet. -/
def TopicInside (q : Bytes) : Prop :=
  scanEnd q + 2 < q.length ∧ (scanEnd q + 2 + wordAt q (scanEnd q) : Nat) ≤ packetEnd q

theorem inPacket_topic_iff {q : Bytes} (hq : q ≠ []) :
    InPacket q (mqttGetPublishTopic q q.length) ↔ TopicInside q := by
  have hpos := List.length_pos_of_ne_nil hq
  have hend : packetEnd q ≤ q.length := Int.min_le_left ..
  rw [show mqttGetPublishTopic q q.length =
    if scanEnd q + 2 ≥ q.length then (none, q.length)
    else if scanEnd q + 2 + wordAt q (scanEnd q) > q.length then (none, q.length)
    else (some (scanEnd q + 2), wordAt q (scanEnd q)) from rfl]
  unfold TopicInside
  by_cases hshort : scanEnd q + 2 ≥ q.length
  · rw [if_pos hshort]
    refine iff_of_false (fun hnull : q.length = 0 => ?_) (fun hin => ?_)
    · omega
    · omega
  · rw [if_neg hshort]
    by_cases hlong : scanEnd q + 2 + wordAt q (scanEnd q) > q.length
    · rw [if_pos hlong]
      refine iff_of_false (fun hnull : q.length = 0 => ?_) (fun hin => ?_)
      · omega
      · omega
    · rw [if_neg hlong]
      exact (and_iff_right (by omega)).symm

/-- The data is cut off at the end of the packet and at the end of the segment. -/
theorem inPacket_data (q : Bytes) (hlen : q.length < mqttBufSize) :
    InPacket q (mqttGetPublishData q q.length) := by
  have htotal : mqttGetTotalLength q q.length =
      i32 ((lengthLoop q (q.length - 1) 1 0).2 + (lengthLoop q (q.length - 1) 1 0).1) := rfl
  unfold mqttBufSize at hlen
  unfold mqttGetPublishData
  dsimp only
  rw [← htotal]
  generalize (lengthLoop q (q.length - 1) 1 0).1 = i
  by_cases hshort : i + 2 ≥ q.length
  · rw [if_pos hshort]
    rfl
  rw [if_neg hshort]
  by_cases htopic : i + 2 + wordAt q i ≥ q.length
  · rw [if_pos htopic]
    rfl
  rw [if_neg htopic]
  by_cases hid : mqttGetQos q > 0 ∧ i + 2 + wordAt q i + 2 ≥ q.length
  · rw [if_pos hid]
    rfl
  rw [if_neg hid]
  have hdata : (if mqttGetQos q > 0 then i + 2 + wordAt q i + 2 else i + 2 + wordAt q i) <
      q.length := by
    split <;> omega
  generalize (if mqttGetQos q > 0 then i + 2 + wordAt q i + 2 else i + 2 + wordAt q i) = d
    at hdata ⊢
  by_cases hless : mqttGetTotalLength q q.length < d
  · rw [if_pos hless]
    rfl
  rw [if_neg hless]
  by_cases hwhole : mqttGetTotalLength q q.length ≤ q.length
  · rw [if_pos hwhole]
    show ((d + ((mqttGetTotalLength q q.length - d) % 65536).toNat : Nat) : Int) ≤ packetEnd q
    unfold packetEnd
    omega
  · rw [if_neg hwhole]
    show ((d + (((q.length : Int) - d) % 65536).toNat : Nat) : Int) ≤ packetEnd q
    unfold packetEnd
    omega

/-- The calls that a turn makes. -/
def turnCalls (segment : Bytes) (s : RecvState) : List Effect :=
  (readPacket segment s).2.log.drop s.log.length

/-- Every call of `dataCb` is about the packet that is in front, and gives ranges in it. -/
def DeliversInside (client : MqttClient) (segment : Bytes) : Prop :=
  ∀ s, AtReadPacket client segment s → ∀ buffer topic data,
    .dataCb buffer topic data ∈ turnCalls segment s →
      s.rest segment <+: buffer ∧ InPacket (s.rest segment) topic ∧ InPacket (s.rest segment) data

theorem AtTurn.turnCalls_eq {client : MqttClient} {segment q b : Bytes} {s : RecvState}
    (h : AtTurn client segment s q b) (hq : q ≠ []) (hlen : q.length < mqttBufSize) :
    turnCalls segment s =
      if IsPublish q ∧ client.callbacks .data = true then
        [.dataCb (q ++ s.client.mqttState.inBuffer.drop q.length)
          (mqttGetPublishTopic q q.length) (mqttGetPublishData q q.length)]
      else [] := by
  have hlog : (Mqtt.readPacket segment s).2.log = s.log ++ (s.client.handle q).2 := by
    rw [h.readPacket hq hlen]
    split <;> rfl
  rw [turnCalls, hlog, List.drop_left, handle_log s.client hq hlen, h.callbacks]

/-- The ranges that are delivered are in their packets exactly when no one is told, or
every PUBLISH that the loop comes to has its topic inside. -/
theorem delivered_inside_iff {client : MqttClient} (hd : client.connState = .mqttData)
    {segment : Bytes} (hlen : segment.length < mqttBufSize) :
    DeliversInside client segment ↔
      client.callbacks .data = false ∨
        ∀ q b, Turn segment q b → IsPublish q → TopicInside q := by
  have hin : InData client := .inl hd
  constructor
  · intro hinside
    by_cases hcb : client.callbacks .data = true
    · refine .inr fun q b hturn hpub => ?_
      have hq : q ≠ [] := by
        rintro rfl
        exact absurd hpub (by decide)
      have hlt := hturn.length
      obtain ⟨s, hs, hat⟩ := hturn.reached hin hlen
      have hcalls := hat.turnCalls_eq hq (by omega)
      rw [if_pos ⟨hpub, hcb⟩] at hcalls
      have hranges := (hinside s hs _ _ _ (by rw [hcalls]; exact List.mem_singleton_self _)).2.1
      rw [hat.rest] at hranges
      exact (inPacket_topic_iff hq).mp hranges
    · exact .inl (by simpa using hcb)
  · intro hcond s hs buffer topic data hmem
    obtain ⟨q, b, hturn, hat⟩ := hs.turn hin hlen
    have hlt := hturn.length
    rw [hat.rest]
    by_cases hq : q = []
    · -- nothing was received
      have hstop : ¬(s.len < mqttBufSize ∧ s.len > 0) := by
        rw [hat.len, hq, List.length_nil]
        omega
      rw [turnCalls, readPacket, if_neg hstop, List.drop_length] at hmem
      exact absurd hmem List.not_mem_nil
    · rw [hat.turnCalls_eq hq (by omega)] at hmem
      by_cases htold : IsPublish q ∧ client.callbacks .data = true
      · rw [if_pos htold, List.mem_singleton] at hmem
        obtain ⟨rfl, rfl, rfl⟩ := Effect.dataCb.inj hmem
        refine ⟨List.prefix_append .., (inPacket_topic_iff hq).mpr ?_, inPacket_data q (by omega)⟩
        rcases hcond with hnone | htopics
        · exact absurd (htold.2.symm.trans hnone) (by simp)
        · exact htopics q b hturn htold.1
      · rw [if_neg htold] at hmem
        exact absurd hmem List.not_mem_nil

/-- The client that is told of what arrives. -/
def sampleListener : MqttClient := { sampleClient with callbacks := fun _ => true }

/-- A PUBLISH that ends behind its first two bytes: the topic is NULL, of length 2. -/
theorem delivered_not_inside : ¬DeliversInside sampleListener [0x30, 0x00] := by
  intro hinside
  have hmem : .dataCb (([0x30, 0x00] : Bytes) ++ List.replicate 1790 0) (none, 2) (none, 0) ∈
      turnCalls [0x30, 0x00] (recvStart sampleListener [0x30, 0x00]) := by decide +kernel
  have hnull : 2 = 0 := (hinside _ .start _ _ _ hmem).2.1
  omega

/-- A whole PUBLISH with the topic `a` and the data `b`. -/
def wholePublish : Bytes := [0x30, 0x04, 0x00, 0x01, 0x61, 0x62]

theorem delivered_inside_wholePublish : DeliversInside sampleListener wholePublish := by
  refine (delivered_inside_iff rfl (by decide)).mpr (.inr fun q b hturn _ => ?_)
  rw [(hturn.only (by decide)).1]
  exact ⟨by decide, by decide⟩

end Mqtt
end EspMisc
