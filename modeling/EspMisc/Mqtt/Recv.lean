/-
The receive loop of `mqtt_tcpclient_recv`.

Only a PUBLISH makes the loop read on, and it moves ahead by the total length the
packet declares.  The field that keeps this length has 16 bits, so a packet that
declares a multiple of 65536 bytes moves the loop nowhere.  `MeetsZeroLength` says
that the loop comes to such a packet, and `recv_terminates_iff` that nothing else
keeps the loop from ending.
-/
import EspMisc.Mqtt.Client
import EspMisc.Mqtt.Layout

namespace EspMisc
namespace Mqtt

theorem poke_zero (buffer bs : Bytes) : poke buffer 0 bs = bs ++ buffer.drop bs.length := by
  simp [poke]

/-! ## One turn of the loop -/

/-- The states in which packets are handled. -/
def InData (client : MqttClient) : Prop :=
  client.connState = .mqttData ∨ client.connState = .mqttKeepaliveSend

/-- `message_length` of a packet that starts these bytes. -/
def messageLength (p : Bytes) : Nat := (mqttGetTotalLength p p.length % 65536).toNat

def IsPublish (p : Bytes) : Prop := mqttGetType p = MessageType.publish.code

instance (p : Bytes) : Decidable (IsPublish p) :=
  inferInstanceAs (Decidable (mqttGetType p = MessageType.publish.code))

/-- `len` bytes are left of the segment. -/
def RecvState.Within (segment : Bytes) (s : RecvState) : Prop :=
  s.pdata + s.len ≤ segment.length

theorem RecvState.length_rest {segment : Bytes} {s : RecvState} (h : s.Within segment) :
    (s.rest segment).length = s.len := by
  unfold Within at h
  rw [rest, List.length_take, List.length_drop]
  omega

theorem handlePacket_connState (client : MqttClient) (t q i : Nat) :
    (handlePacket client t q i).1.connState = client.connState := by
  simp only [handlePacket]
  split
  · by_cases h1 : q = 1
    · rw [if_pos h1]; rfl
    · by_cases h2 : q = 2
      · rw [if_neg h1, if_pos h2]; rfl
      · rw [if_neg h1, if_neg h2]
  all_goals rfl

/-- The client with a packet in `in_buffer` and its lengths noted. -/
def MqttClient.load (client : MqttClient) (p : Bytes) (len : Nat) : MqttClient :=
  (client.fill p).measure len

theorem load_inBuffer (client : MqttClient) (p : Bytes) (len : Nat) :
    (client.load p len).mqttState.inBuffer = p ++ client.mqttState.inBuffer.drop p.length :=
  poke_zero _ _

theorem load_messageLength (client : MqttClient) {p : Bytes} (hp : p ≠ []) :
    (client.load p p.length).mqttState.messageLength = messageLength p := by
  show (mqttGetTotalLength (client.load p p.length).mqttState.inBuffer _ % 65536).toNat = _
  rw [load_inBuffer, mqttGetTotalLength_append hp, messageLength]

/-- What the data states do with the packet at the front of `p`. -/
def MqttClient.handle (client : MqttClient) (p : Bytes) : MqttClient × List Effect :=
  handlePacket (client.load p p.length) (mqttGetType p) (mqttGetQos p)
    (mqttGetId (p ++ client.mqttState.inBuffer.drop p.length)
      (client.mqttState.inBufferLength % 65536))

theorem MqttClient.handle_connState (client : MqttClient) (p : Bytes) :
    (client.handle p).1.connState = client.connState :=
  handlePacket_connState _ _ _ _

@[simp] theorem fill_connState (client : MqttClient) (p : Bytes) :
    (client.fill p).connState = client.connState := rfl

theorem readPacket_inData (segment : Bytes) {s : RecvState} (hd : InData s.client)
    (hl : s.len < mqttBufSize ∧ s.len > 0) :
    let c := s.client.load (s.rest segment) s.len
    let b := c.mqttState.inBuffer
    let handled := handlePacket c (mqttGetType b) (mqttGetQos b)
      (mqttGetId b (s.client.mqttState.inBufferLength % 65536))
    readPacket segment s =
      if IsPublish b ∧ c.mqttState.messageLength < s.len then
        (true,
          { client := handled.1
            pdata := s.pdata + c.mqttState.messageLength
            len := s.len - c.mqttState.messageLength
            log := s.log ++ handled.2 })
      else (false, { s with client := handled.1, log := s.log ++ handled.2 }) := by
  unfold readPacket
  rw [if_pos hl]
  rcases hd with hd | hd <;>
  · simp only [fill_connState, hd]
    rfl

/-- The same turn, in terms of the bytes that are left. -/
theorem readPacket_data {segment : Bytes} {s : RecvState} (hw : s.Within segment)
    (hd : InData s.client) (hpos : 0 < s.len) (hlt : s.len < mqttBufSize) :
    readPacket segment s =
      if IsPublish (s.rest segment) ∧ messageLength (s.rest segment) < s.len then
        (true,
          { client := (s.client.handle (s.rest segment)).1
            pdata := s.pdata + messageLength (s.rest segment)
            len := s.len - messageLength (s.rest segment)
            log := s.log ++ (s.client.handle (s.rest segment)).2 })
      else
        (false,
          { s with
            client := (s.client.handle (s.rest segment)).1
            log := s.log ++ (s.client.handle (s.rest segment)).2 }) := by
  have hlen := s.length_rest hw
  have hne : s.rest segment ≠ [] := List.ne_nil_of_length_pos (by omega)
  have htot := load_messageLength s.client hne
  rw [hlen] at htot
  rw [readPacket_inData segment hd ⟨hlt, hpos⟩]
  simp only [load_inBuffer, htot, IsPublish, MqttClient.handle, mqttGetType_append hne,
    mqttGetQos_append hne, hlen]

theorem readPacket_stops (segment : Bytes) {s : RecvState}
    (h : ¬ (InData s.client ∧ 0 < s.len ∧ s.len < mqttBufSize)) :
    (readPacket segment s).1 = false := by
  unfold readPacket
  split
  · next hl =>
    unfold InData at h
    cases hc : s.client.connState <;> simp only [fill_connState, hc] at h ⊢
    case mqttConnectSending => split <;> (try split) <;> rfl
    all_goals exact absurd ⟨by simp, hl.2, hl.1⟩ h
  · rfl

theorem inData_of_goto {segment : Bytes} {s : RecvState} (h : (readPacket segment s).1 = true) :
    InData s.client := by
  refine Classical.byContradiction fun hd => ?_
  rw [readPacket_stops segment fun hin => hd hin.1] at h
  exact absurd h Bool.false_ne_true

/-! ## The whole loop -/

/-- The rule for what the loop does: what a turn does that ends it, and what a turn does
before others. -/
theorem readPackets_rule {segment : Bytes} {motive : RecvState → RecvState → Prop}
    (stop : ∀ s, (readPacket segment s).1 = false → motive s (readPacket segment s).2)
    (goto : ∀ s r, (readPacket segment s).1 = true → motive (readPacket segment s).2 r →
      motive s r) {fuel : Nat} :
    ∀ {s r : RecvState}, readPackets segment fuel s = some r → motive s r := by
  induction fuel with
  | zero =>
    intro s r h
    exact absurd h (by simp [readPackets])
  | succ fuel ih =>
    intro s r h
    simp only [readPackets] at h
    cases hgo : (readPacket segment s).1 with
    | true =>
      rw [if_pos hgo] at h
      exact goto s r hgo (ih h)
    | false =>
      rw [if_neg (by rw [hgo]; exact Bool.false_ne_true)] at h
      obtain rfl := Option.some.inj h
      exact stop s hgo

/-- The states of one call at `READPACKET`. -/
inductive AtReadPacket (client : MqttClient) (segment : Bytes) : RecvState → Prop
  | start : AtReadPacket client segment (recvStart client segment)
  | goto {s s' : RecvState} : AtReadPacket client segment s →
      readPacket segment s = (true, s') → AtReadPacket client segment s'

/-- The loop ends, and each jump back to `READPACKET` leaves less of the segment. -/
structure RecvTerminates (client : MqttClient) (segment : Bytes) : Prop where
  ends : ∃ fuel s, readPackets segment fuel (recvStart client segment) = some s
  progress : ∀ s s', AtReadPacket client segment s → readPacket segment s = (true, s') →
    s'.len < s.len ∧ s'.pdata ≤ segment.length

/-- The walk from one PUBLISH to the next comes to one whose total length is a
multiple of 65536. -/
inductive MeetsZeroLength : Bytes → Prop
  | here {p : Bytes} : p ≠ [] → p.length < mqttBufSize → IsPublish p → messageLength p = 0 →
      MeetsZeroLength p
  | next {p : Bytes} : p.length < mqttBufSize → IsPublish p → messageLength p < p.length →
      MeetsZeroLength (p.drop (messageLength p)) → MeetsZeroLength p

/-- The part of a segment that `len` covers. -/
def received (segment : Bytes) : Bytes := segment.take (segment.length % 65536)

/-- A length that the buffer has room for fits into 16 bits. -/
theorem mod_of_lt_mqttBufSize {n : Nat} (h : n < mqttBufSize) : n % 65536 = n :=
  Nat.mod_eq_of_lt (Nat.lt_trans h (by decide))

theorem received_eq {segment : Bytes} (h : segment.length < mqttBufSize) :
    received segment = segment := by
  rw [received, mod_of_lt_mqttBufSize h, List.take_length]

theorem recvStart_within (client : MqttClient) (segment : Bytes) :
    (recvStart client segment).Within segment := by
  show 0 + segment.length % 65536 ≤ segment.length
  have := Nat.mod_le segment.length 65536
  omega

theorem recvStart_rest (client : MqttClient) (segment : Bytes) :
    (recvStart client segment).rest segment = received segment := rfl

/-- What a jump does to the locals. -/
theorem readPacket_goto {segment : Bytes} {s s' : RecvState} (hw : s.Within segment)
    (h : readPacket segment s = (true, s')) :
    (InData s.client ∧ 0 < s.len ∧ s.len < mqttBufSize) ∧ IsPublish (s.rest segment) ∧
      messageLength (s.rest segment) < s.len ∧
      InData s'.client ∧ s'.Within segment ∧
      s'.len = s.len - messageLength (s.rest segment) ∧
      s'.rest segment = (s.rest segment).drop (messageLength (s.rest segment)) := by
  by_cases hin : InData s.client ∧ 0 < s.len ∧ s.len < mqttBufSize
  · rw [readPacket_data hw hin.1 hin.2.1 hin.2.2] at h
    split at h
    · next hp =>
      obtain rfl := (Prod.mk.inj h).2
      unfold RecvState.Within at hw
      refine ⟨hin, hp.1, hp.2, ?_, ?_, rfl, ?_⟩
      · unfold InData
        rw [MqttClient.handle_connState]
        exact hin.1
      · show s.pdata + messageLength (s.rest segment) +
          (s.len - messageLength (s.rest segment)) ≤ segment.length
        omega
      · simp only [RecvState.rest, List.drop_take, List.drop_drop]
    · exact absurd (Prod.mk.inj h).1 (by simp)
  · have hstop := readPacket_stops segment hin
    rw [h] at hstop
    exact absurd hstop (by simp)

/-- What the loop keeps on a segment that does not trap it. -/
structure Clear (segment : Bytes) (s : RecvState) : Prop where
  within : s.Within segment
  clear : InData s.client → ¬ MeetsZeroLength (s.rest segment)

theorem Clear.goto {segment : Bytes} {s s' : RecvState} (hs : Clear segment s)
    (h : readPacket segment s = (true, s')) : Clear segment s' ∧ s'.len < s.len := by
  obtain ⟨⟨hd, hpos, hlt⟩, hpub, hml, -, hw', hlen', hrest'⟩ := readPacket_goto hs.within h
  have hlen := s.length_rest hs.within
  have hne : s.rest segment ≠ [] := List.ne_nil_of_length_pos (by omega)
  have hzero : messageLength (s.rest segment) ≠ 0 :=
    fun h0 => hs.clear hd (.here hne (by omega) hpub h0)
  refine ⟨⟨hw', fun _ hz => hs.clear hd (.next (by omega) hpub (by omega) ?_)⟩, by omega⟩
  rwa [hrest'] at hz

theorem Clear.ends {segment : Bytes} {n : Nat} :
    ∀ {s : RecvState}, Clear segment s → s.len ≤ n →
      ∃ r, readPackets segment (n + 1) s = some r := by
  induction n with
  | zero =>
    intro s hs hn
    have hstop : (readPacket segment s).1 = false :=
      readPacket_stops segment (fun h => by omega)
    exact ⟨(readPacket segment s).2, by simp [readPackets, hstop]⟩
  | succ n ih =>
    intro s hs hn
    cases hgo : (readPacket segment s).1 with
    | false => exact ⟨(readPacket segment s).2, by simp [readPackets, hgo]⟩
    | true =>
      have h : readPacket segment s = (true, (readPacket segment s).2) := by rw [← hgo]
      obtain ⟨hs', hlt⟩ := hs.goto h
      obtain ⟨r, hr⟩ := ih hs' (by omega)
      refine ⟨r, ?_⟩
      rw [readPackets]
      simp only [hgo, if_true]
      exact hr

theorem AtReadPacket.clear {client : MqttClient} {segment : Bytes}
    (h0 : Clear segment (recvStart client segment)) {s : RecvState}
    (h : AtReadPacket client segment s) : Clear segment s := by
  induction h with
  | start => exact h0
  | goto _ hgo ih => exact (ih.goto hgo).1

theorem readPacket_publish {segment : Bytes} {s : RecvState} (hw : s.Within segment)
    (hd : InData s.client) (hlt : (s.rest segment).length < mqttBufSize)
    (hpub : IsPublish (s.rest segment))
    (hml : messageLength (s.rest segment) < (s.rest segment).length) :
    ∃ s', readPacket segment s = (true, s') := by
  rw [s.length_rest hw] at hlt hml
  rw [readPacket_data hw hd (by omega) hlt, if_pos ⟨hpub, hml⟩]
  exact ⟨_, rfl⟩

/-- A trapped loop is trapped after every jump, so no fuel brings it to an end. -/
theorem readPackets_trapped {segment : Bytes} {fuel : Nat} :
    ∀ {s : RecvState}, s.Within segment → InData s.client → MeetsZeroLength (s.rest segment) →
      readPackets segment fuel s = none := by
  induction fuel with
  | zero =>
    intro s _ _ _
    rfl
  | succ fuel ih =>
    intro s hw hd hz
    have hjump : ∃ s', readPacket segment s = (true, s') ∧
        MeetsZeroLength ((s.rest segment).drop (messageLength (s.rest segment))) := by
      cases hz with
      | here hne hlt hpub hzero =>
        have hpos := List.length_pos_of_ne_nil hne
        obtain ⟨s', hgo⟩ := readPacket_publish hw hd hlt hpub (by omega)
        refine ⟨s', hgo, ?_⟩
        rw [hzero, List.drop_zero]
        exact .here hne hlt hpub hzero
      | next hlt hpub hml hnext =>
        obtain ⟨s', hgo⟩ := readPacket_publish hw hd hlt hpub hml
        exact ⟨s', hgo, hnext⟩
    obtain ⟨s', hgo, hz'⟩ := hjump
    obtain ⟨-, -, -, hd', hw', -, hrest'⟩ := readPacket_goto hw hgo
    rw [← hrest'] at hz'
    simp only [readPackets, hgo, if_true]
    exact ih hw' hd' hz'

/-- The loop ends unless the client handles packets and the segment leads it to a
PUBLISH that declares a multiple of 65536 bytes. -/
theorem recv_terminates_iff (client : MqttClient) (segment : Bytes) :
    RecvTerminates client segment ↔
      (InData client → ¬ MeetsZeroLength (received segment)) := by
  constructor
  · intro h hd hz
    obtain ⟨fuel, r, hr⟩ := h.ends
    rw [readPackets_trapped (recvStart_within client segment) hd hz] at hr
    exact absurd hr (by simp)
  · intro h
    have h0 : Clear segment (recvStart client segment) :=
      ⟨recvStart_within client segment, h⟩
    obtain ⟨r, hr⟩ := h0.ends (Nat.le_refl _)
    refine ⟨⟨_, r, hr⟩, fun s s' hs hgo => ?_⟩
    obtain ⟨hs', hlt⟩ := (hs.clear h0).goto hgo
    have hw := hs'.within
    unfold RecvState.Within at hw
    exact ⟨hlt, by omega⟩

/-- The function returns exactly when its loop ends. -/
theorem mqttTcpclientRecv_isSome_iff (client : MqttClient) (segment : Bytes) :
    (mqttTcpclientRecv client segment).isSome ↔
      (InData client → ¬ MeetsZeroLength (received segment)) := by
  have hw := recvStart_within client segment
  rw [mqttTcpclientRecv, Option.isSome_map]
  constructor
  · intro h hd hz
    rw [readPackets_trapped hw hd hz] at h
    exact absurd h (by simp)
  · intro h
    by_cases hlen : (recvStart client segment).len ≤ 1791
    · obtain ⟨r, hr⟩ := Clear.ends ⟨hw, h⟩ hlen
      rw [mqttBufSize, hr]
      rfl
    · have hstop : (readPacket segment (recvStart client segment)).1 = false :=
        readPacket_stops segment (fun hin => by
          have := hin.2.2
          unfold mqttBufSize at this
          omega)
      rw [mqttBufSize, readPackets]
      simp only [hstop]
      rfl

/-- A client as `MQTT_InitConnection` and `MQTT_InitClient` leave it, in the data
state. -/
def sampleClient : MqttClient :=
  { mqttInitClient (mqttInitConnection ⟨[0x61], by decide, by decide⟩ 0)
      ⟨[0x61], by decide, by decide⟩ none none 120 1 with connState := .mqttData }

/-- A PUBLISH whose remaining length is 65532, so that the total is 65536. -/
def zeroLengthPublish : Bytes := [0x30, 0xFC, 0xFF, 0x03]

theorem recv_not_terminates : ¬ RecvTerminates sampleClient zeroLengthPublish := by
  intro h
  let s := recvStart sampleClient zeroLengthPublish
  have hgo : (readPacket zeroLengthPublish s).1 = true := by decide
  have hlen : (readPacket zeroLengthPublish s).2.len = s.len := by decide
  have hlt := (h.progress s (readPacket zeroLengthPublish s).2 .start (by rw [← hgo])).1
  omega

end Mqtt
end EspMisc
