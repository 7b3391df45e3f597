/-
What `mqtt_tcpclient_recv` makes of bytes that earlier segments left in `in_buffer`.

`unaffected_iff` compares two calls that differ in these bytes alone.  They queue the same
answers, deliver the same and end in the same state exactly when the segment has every
identifier that an answer needs.  The ring has any size here, as `QUEUE_Init` takes it; with
room for every answer, one identifier that was left shows in the queue.
-/
import EspMisc.Mqtt.Located
import EspMisc.Mqtt.Handshake

namespace EspMisc
namespace Mqtt

/-! ## One packet -/

/-- A packet that needs its identifier is acknowledged under it. -/
theorem NeedsId.answer {b : Bytes} (h : NeedsId b) :
    ∃ type qos, ∀ c id, answer c (mqttGetType b) (mqttGetQos b) id =
      some (mqttMsgAck c type qos id) := by
  rcases h with ⟨hpub, hq | hq⟩ | hrec | hrel
  · refine ⟨.puback, 0, fun c id => ?_⟩
    rw [Mqtt.answer, (isPublish_iff b).mp hpub]
    simp only [if_pos hq]
    rfl
  · refine ⟨.pubrec, 0, fun c id => ?_⟩
    rw [Mqtt.answer, (isPublish_iff b).mp hpub]
    simp only [if_neg (show ¬mqttGetQos b = 1 by omega), if_pos hq]
    rfl
  · refine ⟨.pubrel, 1, fun c id => ?_⟩
    rw [Mqtt.answer, hrec]
    rfl
  · refine ⟨.pubcomp, 0, fun c id => ?_⟩
    rw [Mqtt.answer, hrel]
    rfl

theorem answer_of_not_needsId {b : Bytes} (h : ¬NeedsId b) (c : MqttConnection) (id id' : Nat) :
    answer c (mqttGetType b) (mqttGetQos b) id = answer c (mqttGetType b) (mqttGetQos b) id' := by
  unfold answer
  cases hof : MessageType.ofCode (mqttGetType b) with
  | none => rfl
  | some type =>
    have hcode := MessageType.code_of_ofCode hof
    cases type with
    | publish =>
      dsimp only
      rw [if_neg fun hq => h (.inl ⟨hcode, .inl hq⟩), if_neg fun hq => h (.inl ⟨hcode, .inr hq⟩),
        if_neg fun hq => h (.inl ⟨hcode, .inl hq⟩), if_neg fun hq => h (.inl ⟨hcode, .inr hq⟩)]
    | pubrec => exact absurd (.inr (.inl hcode)) h
    | pubrel => exact absurd (.inr (.inr hcode)) h
    | _ => rfl

/-- The client with other bytes in `in_buffer`. -/
def MqttClient.withIn (client : MqttClient) (inBuffer : Bytes) : MqttClient :=
  { client with mqttState := { client.mqttState with inBuffer := inBuffer } }

/-- The client, but for what is in `in_buffer`, after a packet was loaded. -/
def MqttClient.noted (client : MqttClient) (p : Bytes) : MqttClient :=
  { client with
    mqttState := { client.mqttState with
      messageLengthRead := p.length
      messageLength := messageLength p } }

theorem load_withIn (client : MqttClient) {p : Bytes} (hp : p ≠ []) :
    (client.load p p.length).withIn [] = (client.withIn []).noted p := by
  unfold MqttClient.noted
  rw [← load_messageLength client hp]
  rfl

theorem handle_withIn (client : MqttClient) {p : Bytes} (hp : p ≠ []) :
    (client.handle p).1.withIn [] =
      (answer client.mqttState.mqttConnection (mqttGetType p) (mqttGetQos p)
        (mqttGetId (p ++ client.mqttState.inBuffer.drop p.length)
          (client.mqttState.inBufferLength % 65536))).elim
        ((client.withIn []).noted p) (queueResponse ((client.withIn []).noted p)) := by
  unfold MqttClient.handle
  rw [handlePacket_answer, load_connection, ← load_withIn client hp]
  cases answer .. <;> rfl

/-! ## What the application is given -/

/-- The arguments of `dataCb`, with the bytes at its pointers. -/
structure DataArgs where
  topic : Option Nat × Nat
  data : Option Nat × Nat
  topicBytes : Bytes
  dataBytes : Bytes
  deriving DecidableEq

def dataArgs (log : List Effect) : List DataArgs :=
  log.filterMap fun
    | .dataCb buffer topic data => some ⟨topic, data, slice buffer topic, slice buffer data⟩
    | _ => none

theorem dataArgs_append (l l' : List Effect) : dataArgs (l ++ l') = dataArgs l ++ dataArgs l' :=
  List.filterMap_append

theorem slice_append_left {q : Bytes} {range : Option Nat × Nat}
    (h : ∀ off, range.1 = some off → off + range.2 ≤ q.length) (x : Bytes) :
    slice (q ++ x) range = slice q range := by
  unfold slice
  cases hoff : range.1 with
  | none => rfl
  | some off =>
    have hin := h off hoff
    show ((q ++ x).drop off).take range.2 = (q.drop off).take range.2
    rw [List.drop_append_of_le_length (by omega),
      List.take_append_of_le_length (by rw [List.length_drop]; omega)]

/-- Both ranges end before the segment does. -/
theorem publish_ranges {q : Bytes} (hlen : q.length < mqttBufSize) :
    (∀ off, (mqttGetPublishTopic q q.length).1 = some off →
        off + (mqttGetPublishTopic q q.length).2 ≤ q.length) ∧
      ∀ off, (mqttGetPublishData q q.length).1 = some off →
        off + (mqttGetPublishData q q.length).2 ≤ q.length := by
  constructor
  · intro off
    simp only [mqttGetPublishTopic]
    split
    · intro hoff
      exact absurd hoff (by simp)
    · split
      · intro hoff
        exact absurd hoff (by simp)
      · next hfits =>
        intro hoff
        obtain rfl := Option.some.inj hoff
        exact Nat.not_lt.mp hfits
  · intro off hoff
    have hin := inPacket_data q hlen
    unfold InPacket at hin
    rw [hoff] at hin
    have hend : packetEnd q ≤ q.length := Int.min_le_left ..
    exact Int.ofNat_le.mp (Int.le_trans hin hend)

theorem dataArgs_handle (client : MqttClient) {q : Bytes} (hq : q ≠ [])
    (hlen : q.length < mqttBufSize) :
    dataArgs (client.handle q).2 =
      if IsPublish q ∧ client.callbacks .data = true then
        [⟨mqttGetPublishTopic q q.length, mqttGetPublishData q q.length,
          slice q (mqttGetPublishTopic q q.length), slice q (mqttGetPublishData q q.length)⟩]
      else [] := by
  obtain ⟨htopic, hdata⟩ := publish_ranges hlen
  rw [handle_log client hq hlen]
  split
  · simp only [dataArgs, List.filterMap_cons, List.filterMap_nil, slice_append_left htopic,
      slice_append_left hdata]
  · rfl

/-! ## Two calls -/

/-- Two states of the loop that differ in `in_buffer` alone. -/
structure Alike (s s' : RecvState) : Prop where
  client : s.client.withIn [] = s'.client.withIn []
  pdata : s.pdata = s'.pdata
  len : s.len = s'.len
  args : dataArgs s.log = dataArgs s'.log

/-- What two such states have in common. -/
def RecvState.common (s : RecvState) : MqttClient × List DataArgs :=
  (s.client.withIn [], dataArgs s.log)

theorem Alike.common {s s' : RecvState} (h : Alike s s') : s.common = s'.common :=
  Prod.ext h.client h.args

theorem Turn.ne_nil {segment q b : Bytes} (hseg : segment ≠ []) (h : Turn segment q b) :
    q ≠ [] := by
  cases h with
  | start => exact hseg
  | goto _ _ hml => exact List.ne_nil_of_length_pos (by rw [List.length_drop]; omega)

theorem Turn.eq_append {segment q b : Bytes} (h : Turn segment q b) :
    b = q ++ b.drop q.length := by
  have hsplit := List.take_append_drop q.length b
  rw [h.take] at hsplit
  exact hsplit.symm

theorem Turn.first {segment q b : Bytes} (h : Turn segment q b) (hq : q ≠ []) :
    mqttGetType b = mqttGetType q ∧ mqttGetQos b = mqttGetQos q := by
  rw [h.eq_append]
  exact ⟨mqttGetType_append hq _, mqttGetQos_append hq _⟩

section TwoCalls

variable {client client' : MqttClient} {segment q b : Bytes} {s s' : RecvState}

/-- The identifier of the packet in front, as the loop reads it. -/
theorem AtTurn.mqttGetId (h : AtTurn client segment s q b)
    (hin : client.mqttState.inBufferLength = mqttBufSize) :
    mqttGetId (q ++ s.client.mqttState.inBuffer.drop q.length)
        (s.client.mqttState.inBufferLength % 65536) =
      Mqtt.mqttGetId (b ++ client.mqttState.inBuffer.drop segment.length) mqttBufSize := by
  rw [h.inBuffer, h.inBufferLength, hin]
  rfl

/-- Both loops are at this turn, and nothing but `in_buffer` differs. -/
structure Abreast (c c' : MqttClient) (segment : Bytes) (s s' : RecvState) (q b : Bytes) : Prop
    extends Alike s s' where
  turn : Turn segment q b
  here : AtTurn c segment s q b
  there : AtTurn c' segment s' q b

variable (hseg : segment ≠ []) (hlen : segment.length < mqttBufSize)
  (hin : client.mqttState.inBufferLength = mqttBufSize)
  (hin' : client'.mqttState.inBufferLength = mqttBufSize)
include hseg hlen hin hin'

theorem Abreast.handle (h : Abreast client client' segment s s' q b)
    (hknown : NeedsId b → IdKnown b) :
    (s.client.handle q).1.withIn [] = (s'.client.handle q).1.withIn [] ∧
      dataArgs (s.client.handle q).2 = dataArgs (s'.client.handle q).2 := by
  have hconn : s.client.mqttState.mqttConnection = s'.client.mqttState.mqttConnection :=
    congrArg (·.mqttState.mqttConnection) h.client
  have hcb : s.client.callbacks = s'.client.callbacks := congrArg (·.callbacks) h.client
  have hq := h.turn.ne_nil hseg
  have hle := h.turn.length
  obtain ⟨htype, hqos⟩ := h.turn.first hq
  have hb : b ≠ [] := by
    rw [h.turn.eq_append]
    exact List.append_ne_nil_of_left_ne_nil hq _
  constructor
  · rw [handle_withIn s.client hq, handle_withIn s'.client hq, h.client, hconn,
      h.here.mqttGetId hin, h.there.mqttGetId hin', ← htype, ← hqos]
    by_cases hneeds : NeedsId b
    · rw [(hknown hneeds).mqttGetId hb hneeds, (hknown hneeds).mqttGetId hb hneeds]
    · rw [answer_of_not_needsId hneeds]
  · rw [dataArgs_handle s.client hq (by omega), dataArgs_handle s'.client hq (by omega), hcb]

theorem Abreast.readPacket (h : Abreast client client' segment s s' q b)
    (hknown : NeedsId b → IdKnown b) :
    (Mqtt.readPacket segment s).1 = (Mqtt.readPacket segment s').1 ∧
      Alike (Mqtt.readPacket segment s).2 (Mqtt.readPacket segment s').2 := by
  obtain ⟨hclient, hargs⟩ := h.handle hseg hlen hin hin' hknown
  have hq := h.turn.ne_nil hseg
  have hle := h.turn.length
  have hlog : dataArgs (s.log ++ (s.client.handle q).2) =
      dataArgs (s'.log ++ (s'.client.handle q).2) := by
    rw [dataArgs_append, dataArgs_append, h.args, hargs]
  rw [h.here.readPacket hq (by omega), h.there.readPacket hq (by omega), h.pdata, h.len]
  split
  · exact ⟨rfl, hclient, rfl, rfl, hlog⟩
  · exact ⟨rfl, hclient, rfl, rfl, hlog⟩

/-- Both loops end alike, or neither ends. -/
theorem readPackets_alike (hknown : ∀ q b, Turn segment q b → NeedsId b → IdKnown b)
    (fuel : Nat) :
    ∀ {s s' : RecvState} {q b : Bytes}, Abreast client client' segment s s' q b →
      (readPackets segment fuel s).map RecvState.common =
        (readPackets segment fuel s').map RecvState.common := by
  induction fuel with
  | zero =>
    intro s s' q b _
    rfl
  | succ fuel ih =>
    intro s s' q b h
    obtain ⟨hgo, hnext⟩ := h.readPacket hseg hlen hin hin' (hknown q b h.turn)
    simp only [readPackets, ← hgo]
    cases hjump : (Mqtt.readPacket segment s).1 with
    | true =>
      have hs : Mqtt.readPacket segment s = (true, (Mqtt.readPacket segment s).2) := by
        rw [← hjump]
      have hs' : Mqtt.readPacket segment s' = (true, (Mqtt.readPacket segment s').2) := by
        rw [← hjump, hgo]
      obtain ⟨hpub, hml, hhere⟩ := h.here.goto h.turn hs
      obtain ⟨-, -, hthere⟩ := h.there.goto h.turn hs'
      exact ih ⟨hnext, h.turn.goto hpub hml, hhere, hthere⟩
    | false => exact congrArg some hnext.common

end TwoCalls

/-- The other states look at the type of the packet at most. -/
theorem readPacket_not_inData {client : MqttClient} {segment : Bytes} (hd : ¬InData client)
    (hseg : segment ≠ []) (hlen : segment.length < mqttBufSize) (left left' : Bytes) :
    Alike (readPacket segment (recvStart (client.withIn left) segment)).2
      (readPacket segment (recvStart (client.withIn left') segment)).2 := by
  have hmod := mod_of_lt_mqttBufSize hlen
  have hpos := List.length_pos_of_ne_nil hseg
  have hl (x : Bytes) : (recvStart (client.withIn x) segment).len < mqttBufSize ∧
      (recvStart (client.withIn x) segment).len > 0 := by
    show segment.length % 65536 < mqttBufSize ∧ segment.length % 65536 > 0
    omega
  have htype (x : Bytes) : mqttGetType ((recvStart (client.withIn x) segment).client.fill
      ((recvStart (client.withIn x) segment).rest segment)).mqttState.inBuffer =
        mqttGetType segment := by
    show mqttGetType (poke _ 0 (received segment)) = _
    rw [received_eq hlen, poke_zero, mqttGetType_append hseg]
  have hst (x : Bytes) : (recvStart (client.withIn x) segment).client.connState =
      client.connState := rfl
  unfold readPacket
  rw [if_pos (hl left), if_pos (hl left')]
  simp only [htype, fill_connState, hst]
  unfold InData at hd
  cases hc : client.connState with
  | mqttConnectSending =>
    have hpend (x : Bytes) : ((recvStart (client.withIn x) segment).client.fill
        ((recvStart (client.withIn x) segment).rest segment)).mqttState.pendingMsgType =
          client.mqttState.pendingMsgType := rfl
    simp only [hpend]
    split
    · split <;> exact ⟨rfl, rfl, rfl, rfl⟩
    · exact ⟨rfl, rfl, rfl, rfl⟩
  | mqttData => exact absurd (.inl hc) hd
  | mqttKeepaliveSend => exact absurd (.inr hc) hd
  | _ => exact ⟨rfl, rfl, rfl, rfl⟩

/-! ## The whole call -/

/-- What a call leaves for others to see: the queue, the arguments of `dataCb` and the state. -/
def seen (r : MqttClient × List Effect) : Queue × List DataArgs × ConnState :=
  (r.1.msgQueue, dataArgs r.2, r.1.connState)

/-- What was left in `in_buffer` makes no difference to a call in this state. -/
def Unaffected (segment : Bytes) (st : ConnState) : Prop :=
  ∀ client : MqttClient, client.connState = st →
    client.mqttState.inBufferLength = mqttBufSize →
    ∀ left left' : Bytes, left.length = mqttBufSize → left'.length = mqttBufSize →
      (mqttTcpclientRecv (client.withIn left) segment).map seen =
        (mqttTcpclientRecv (client.withIn left') segment).map seen

theorem mqttTcpclientRecv_seen (client : MqttClient) (segment : Bytes) :
    (mqttTcpclientRecv client segment).map seen =
      ((readPackets segment mqttBufSize (recvStart client segment)).map RecvState.common).map
        fun v => (v.1.msgQueue, v.2, v.1.connState) := by
  rw [mqttTcpclientRecv, Option.map_map, Option.map_map]
  congr 1
  funext r
  show (r.client.msgQueue, dataArgs (r.log ++ [.systemOsPost]), r.client.connState) = _
  rw [dataArgs_append, show dataArgs [.systemOsPost] = [] from rfl, List.append_nil]
  rfl

section WholeCall

variable {segment : Bytes} {st : ConnState}

theorem inData_withIn {client : MqttClient} (hclient : client.connState = st)
    (hst : st = .mqttData ∨ st = .mqttKeepaliveSend) (x : Bytes) : InData (client.withIn x) := by
  show client.connState = _ ∨ client.connState = _
  rw [hclient]
  exact hst

theorem unaffected_of_not_inData (hseg : segment ≠ []) (hlen : segment.length < mqttBufSize)
    (hst : ¬(st = .mqttData ∨ st = .mqttKeepaliveSend)) : Unaffected segment st := by
  intro client hclient _ left left' _ _
  have hd : ¬InData client := by
    unfold InData
    rw [hclient]
    exact hst
  have hread (x : Bytes) :
      readPackets segment mqttBufSize (recvStart (client.withIn x) segment) =
        some (readPacket segment (recvStart (client.withIn x) segment)).2 := by
    have hstop : (readPacket segment (recvStart (client.withIn x) segment)).1 = false :=
      readPacket_stops segment fun h => hd h.1
    rw [mqttBufSize, readPackets]
    simp only [hstop, Bool.false_eq_true, if_false]
  have halike := readPacket_not_inData hd hseg hlen left left'
  rw [mqttTcpclientRecv_seen, mqttTcpclientRecv_seen, hread left, hread left', Option.map_some,
    halike.common]
  rfl

theorem unaffected_of_trapped (hlen : segment.length < mqttBufSize)
    (hst : st = .mqttData ∨ st = .mqttKeepaliveSend) (hz : MeetsZeroLength segment) :
    Unaffected segment st := by
  intro client hclient _ left left' _ _
  have hnone (x : Bytes) :
      readPackets segment mqttBufSize (recvStart (client.withIn x) segment) = none := by
    refine readPackets_trapped (recvStart_within _ segment) (inData_withIn hclient hst x) ?_
    rw [recvStart_rest, received_eq hlen]
    exact hz
  rw [mqttTcpclientRecv_seen, mqttTcpclientRecv_seen, hnone left, hnone left']

theorem unaffected_of_known (hseg : segment ≠ []) (hlen : segment.length < mqttBufSize)
    (hst : st = .mqttData ∨ st = .mqttKeepaliveSend)
    (hknown : ∀ q b, Turn segment q b → NeedsId b → IdKnown b) : Unaffected segment st := by
  intro client hclient hbuf left left' _ _
  have hin (x : Bytes) : (client.withIn x).mqttState.inBufferLength = mqttBufSize := hbuf
  have hat (x : Bytes) := recvStart_atTurn (inData_withIn hclient hst x) hlen
  have hstart : Abreast (client.withIn left) (client.withIn left') segment
      (recvStart (client.withIn left) segment) (recvStart (client.withIn left') segment)
      segment segment := ⟨⟨rfl, rfl, rfl, rfl⟩, .start, hat left, hat left'⟩
  rw [mqttTcpclientRecv_seen, mqttTcpclientRecv_seen,
    readPackets_alike hseg hlen (hin left) (hin left') hknown mqttBufSize hstart]

end WholeCall

/-! ## A client that is affected -/

/-- Whether a packet is answered does not depend on its identifier. -/
theorem answer_isSome (c c' : MqttConnection) (t q id id' : Nat) :
    (answer c t q id).isSome = (answer c' t q id').isSome := by
  unfold answer
  cases MessageType.ofCode t with
  | none => rfl
  | some type =>
    cases type with
    | publish =>
      dsimp only
      by_cases h1 : q = 1
      · rw [if_pos h1, if_pos h1]
        rfl
      · by_cases h2 : q = 2
        · rw [if_neg h1, if_neg h1, if_pos h2, if_pos h2]
          rfl
        · rw [if_neg h1, if_neg h1, if_neg h2, if_neg h2]
    | _ => rfl

/-- The ring has ten bytes for each byte that is left, and stores all answers so far. -/
structure Roomy (s : RecvState) (ms : List Bytes) : Prop where
  sound : Sound s.client.mqttState.mqttConnection
  holds : s.client.msgQueue.Holds ms
  room : s.client.msgQueue.rb.fillCnt + 10 * s.len ≤ s.client.msgQueue.rb.size

/-- The answer to the packet in front. -/
def turnAnswer (s : RecvState) (q : Bytes) : Option MqttConnection :=
  answer s.client.mqttState.mqttConnection (mqttGetType q) (mqttGetQos q)
    (mqttGetId (q ++ s.client.mqttState.inBuffer.drop q.length)
      (s.client.mqttState.inBufferLength % 65536))

theorem Roomy.handle {s : RecvState} {ms : List Bytes} (h : Roomy s ms) (hpos : 0 < s.len)
    (q : Bytes) :
    Sound (s.client.handle q).1.mqttState.mqttConnection ∧
      (s.client.handle q).1.msgQueue.Holds
        (ms ++ ((turnAnswer s q).map MqttConnection.outbound).toList) ∧
      (s.client.handle q).1.msgQueue.rb.fillCnt ≤ s.client.msgQueue.rb.fillCnt + 10 ∧
      (s.client.handle q).1.msgQueue.rb.size = s.client.msgQueue.rb.size := by
  obtain ⟨hqueue, hconn⟩ := handlePacket_queue (s.client.load q q.length) (mqttGetType q)
    (mqttGetQos q) (mqttGetId (q ++ s.client.mqttState.inBuffer.drop q.length)
      (s.client.mqttState.inBufferLength % 65536))
  rw [load_connection, show answer _ _ _ _ = turnAnswer s q from rfl] at hqueue hconn
  unfold MqttClient.handle
  rw [hqueue, hconn]
  cases ha : turnAnswer s q with
  | none =>
    refine ⟨h.sound, ?_, Nat.le_add_right _ _, rfl⟩
    show s.client.msgQueue.Holds (ms ++ [])
    rw [List.append_nil]
    exact h.holds
  | some c =>
    obtain ⟨hsound, -, hlen⟩ := answer_built h.sound ha
    have hcost := cost_le c.outbound
    have hroom := h.room
    obtain ⟨hholds, -, hfill⟩ := queuePuts_fits h.holds (m := c.outbound) (by omega)
    exact ⟨hsound, hholds, by show (queuePuts s.client.msgQueue _).1.rb.fillCnt ≤ _; omega,
      queuePuts_size h.holds _⟩

section Affected

variable {client : MqttClient} {segment q b : Bytes} {s r : RecvState}

/-- A turn that goes on keeps the room, because it moves ahead. -/
theorem Roomy.goto {ms : List Bytes} (h : Roomy s ms) (hat : AtTurn client segment s q b)
    (hq : q ≠ []) (hlen : q.length < mqttBufSize) (hpub : IsPublish q)
    (hml : messageLength q < q.length) (hpos : messageLength q ≠ 0) :
    Roomy (readPacket segment s).2
      (ms ++ ((turnAnswer s q).map MqttConnection.outbound).toList) := by
  have hs := hat.len
  obtain ⟨hsound, hholds, hfill, hsize⟩ := h.handle (by omega) q
  have hroom := h.room
  rw [hat.readPacket hq hlen, if_pos ⟨hpub, hml⟩]
  refine ⟨hsound, hholds, ?_⟩
  show (s.client.handle q).1.msgQueue.rb.fillCnt + 10 * (s.len - messageLength q) ≤
    (s.client.handle q).1.msgQueue.rb.size
  omega

theorem AtReadPacket.messageLength_ne_zero (h : AtReadPacket client segment s)
    (hlen : segment.length < mqttBufSize) (hclear : ¬MeetsZeroLength segment)
    (hat : AtTurn client segment s q b) (hq : q ≠ []) (hlt : q.length < mqttBufSize)
    (hpub : IsPublish q) : messageLength q ≠ 0 := by
  have hstart : Clear segment (recvStart client segment) := by
    refine ⟨recvStart_within client segment, fun _ => ?_⟩
    rw [recvStart_rest, received_eq hlen]
    exact hclear
  have hnot := (h.clear hstart).clear hat.inData
  rw [hat.rest] at hnot
  exact fun hzero => hnot (.here hq hlt hpub hzero)

/-- Calls that start with room come to a turn with the same number of answers. -/
theorem Turn.roomy (hseg : segment ≠ []) (hlen : segment.length < mqttBufSize)
    (hclear : ¬MeetsZeroLength segment) (h : Turn segment q b) :
    ∃ k, ∀ client : MqttClient, InData client → Roomy (recvStart client segment) [] →
      ∃ s ms, AtReadPacket client segment s ∧ AtTurn client segment s q b ∧ Roomy s ms ∧
        ms.length = k := by
  induction h with
  | start =>
    refine ⟨0, fun client hd hroomy => ?_⟩
    exact ⟨_, [], .start, recvStart_atTurn hd hlen, hroomy, rfl⟩
  | @goto q b hturn hpub hml ih =>
    obtain ⟨k, hk⟩ := ih
    have hq := hturn.ne_nil hseg
    have hle := hturn.length
    refine ⟨k + (answer (mqttMsgInit [] 0) (mqttGetType q) (mqttGetQos q) 0).isSome.toNat,
      fun client hd hroomy => ?_⟩
    obtain ⟨s, ms, hs, hat, hroom, hms⟩ := hk client hd hroomy
    have hpos := hs.messageLength_ne_zero hlen hclear hat hq (by omega) hpub
    have hroom' := hroom.goto hat hq (by omega) hpub hml hpos
    have hgo := hat.readPacket hq (by omega)
    rw [if_pos ⟨hpub, hml⟩] at hgo
    rw [hgo] at hroom'
    refine ⟨_, _, hs.goto hgo, (hat.goto hturn hgo).2.2, hroom', ?_⟩
    rw [List.length_append, hms, answer_isSome _ s.client.mqttState.mqttConnection _ _ 0
      (mqttGetId (q ++ s.client.mqttState.inBuffer.drop q.length)
        (s.client.mqttState.inBufferLength % 65536))]
    show k + ((turnAnswer s q).map MqttConnection.outbound).toList.length =
      k + (turnAnswer s q).isSome.toNat
    cases turnAnswer s q <;> rfl

theorem handlePacket_grows {c : MqttClient} {ms : List Bytes} (h : c.msgQueue.Holds ms)
    (t q i : Nat) : ∃ more, (handlePacket c t q i).1.msgQueue.Holds (ms ++ more) := by
  rw [(handlePacket_queue c t q i).1]
  cases answer c.mqttState.mqttConnection t q i with
  | none => exact ⟨[], by rw [List.append_nil]; exact h⟩
  | some conn =>
    show ∃ more, (queuePuts c.msgQueue conn.outbound).1.Holds (ms ++ more)
    by_cases hfit : c.msgQueue.rb.fillCnt + Queue.cost conn.outbound ≤ c.msgQueue.rb.size
    · exact ⟨[conn.outbound], (queuePuts_fits h hfit).1⟩
    · exact ⟨[], by rw [List.append_nil]; exact (queuePuts_full h hfit).1⟩

theorem readPacket_grows (segment : Bytes) {ms : List Bytes} (hd : InData s.client)
    (h : s.client.msgQueue.Holds ms) :
    ∃ more, (readPacket segment s).2.client.msgQueue.Holds (ms ++ more) := by
  by_cases hl : s.len < mqttBufSize ∧ s.len > 0
  · rw [readPacket_inData segment hd hl]
    obtain ⟨more, hmore⟩ := handlePacket_grows (c := s.client.load (s.rest segment) s.len) h _ _ _
    refine ⟨more, ?_⟩
    split <;> exact hmore
  · rw [readPacket, if_neg hl]
    exact ⟨[], by rw [List.append_nil]; exact h⟩

/-- What a turn stored stays in front of what later turns store. -/
theorem readPackets_grows {fuel : Nat} {ms : List Bytes} (hd : InData s.client)
    (h : (readPacket segment s).2.client.msgQueue.Holds ms)
    (hr : readPackets segment fuel s = some r) :
    ∃ more, r.client.msgQueue.Holds (ms ++ more) := by
  revert hd ms
  refine readPackets_rule (motive := fun s r => ∀ {ms : List Bytes}, InData s.client →
    (readPacket segment s).2.client.msgQueue.Holds ms →
      ∃ more, r.client.msgQueue.Holds (ms ++ more)) ?_ ?_ hr
  · intro s _ ms _ h
    exact ⟨[], by rw [List.append_nil]; exact h⟩
  · intro s r _ ih ms hd h
    obtain ⟨more, hmore⟩ := readPacket_grows segment (hd.readPacket segment) h
    obtain ⟨more', hmore'⟩ := ih (hd.readPacket segment) hmore
    exact ⟨more ++ more', by rw [← List.append_assoc]; exact hmore'⟩

/-- The loop ends as it does from any state that it comes to. -/
theorem AtReadPacket.ends (h : AtReadPacket client segment s) {fuel : Nat}
    (hr : readPackets segment fuel (recvStart client segment) = some r) :
    ∃ fuel', readPackets segment fuel' s = some r := by
  induction h with
  | start => exact ⟨fuel, hr⟩
  | goto _ hgo ih =>
    obtain ⟨fuel', hr'⟩ := ih
    cases fuel' with
    | zero => exact absurd hr' (by simp [readPackets])
    | succ fuel' =>
      simp only [readPackets, hgo, if_true] at hr'
      exact ⟨fuel', hr'⟩

end Affected

/-- A client with room for the answers to any segment. -/
def roomyClient (st : ConnState) : MqttClient :=
  { sampleClient with
    connState := st
    msgQueue := queueInit sampleClient.msgQueue (10 * mqttBufSize) }

theorem roomyClient_roomy (st : ConnState) {segment : Bytes} (hlen : segment.length < mqttBufSize)
    (left : Bytes) : Roomy (recvStart ((roomyClient st).withIn left) segment) [] := by
  obtain ⟨hholds, hsize⟩ := queueInit_holds sampleClient.msgQueue
    (show 2 ≤ 10 * mqttBufSize by decide)
  refine ⟨⟨List.length_replicate, rfl⟩, hholds, ?_⟩
  show 0 + 10 * (segment.length % 65536) ≤
    (queueInit sampleClient.msgQueue (10 * mqttBufSize)).rb.size
  rw [hsize]
  have hmod := Nat.mod_le segment.length 65536
  omega

theorem wordAt_ack (header : UInt8) {n : Nat} (hn : n < 65536) :
    wordAt (packet header (word n)) 2 = n := by
  have hword := wordAt_append [header, UInt8.ofNat 2] [] hn
  rw [List.append_nil] at hword
  exact hword

section Leaks

variable {segment q b : Bytes} {st : ConnState}

theorem Turn.answer_leftWith (h : Turn segment q b) (hq : q ≠ []) (hneeds : NeedsId b)
    (hunknown : ¬IdKnown b) {type : MessageType} {qos : Int}
    (hanswer : ∀ c id, answer c (mqttGetType b) (mqttGetQos b) id =
      some (mqttMsgAck c type qos id)) {v : UInt8} {s : RecvState}
    (hat : AtTurn ((roomyClient st).withIn (leftWith (idAt b + 1) v)) segment s q b) :
    turnAnswer s q =
      some (mqttMsgAck s.client.mqttState.mqttConnection type qos (leftId b v)) := by
  have hid : mqttGetId (q ++ s.client.mqttState.inBuffer.drop q.length)
      (s.client.mqttState.inBufferLength % 65536) = leftId b v := by
    rw [hat.mqttGetId rfl, ← h.length.2]
    exact mqttGetId_leftWith hneeds hunknown v
  rw [turnAnswer, hid, ← (h.first hq).1, ← (h.first hq).2, hanswer]

/-- Behind `k` other answers a call stores one under the identifier that was left. -/
theorem Turn.stores (hseg : segment ≠ []) (hlen : segment.length < mqttBufSize)
    (hst : st = .mqttData ∨ st = .mqttKeepaliveSend) (hclear : ¬MeetsZeroLength segment)
    (h : Turn segment q b) (hneeds : NeedsId b) (hunknown : ¬IdKnown b) :
    ∃ k header, ∀ v : UInt8, v ≠ 0 →
      ∃ r ms more, readPackets segment mqttBufSize
          (recvStart ((roomyClient st).withIn (leftWith (idAt b + 1) v)) segment) = some r ∧
        ms.length = k ∧
        r.client.msgQueue.Holds (ms ++ packet header (word (leftId b v)) :: more) := by
  obtain ⟨k, hk⟩ := h.roomy hseg hlen hclear
  obtain ⟨type, qos, hanswer⟩ := hneeds.answer
  have hq := h.ne_nil hseg
  have hpos := List.length_pos_of_ne_nil hq
  have hle := h.length
  refine ⟨k, headerByte type 0 qos 0, fun v hv => ?_⟩
  have hd : InData ((roomyClient st).withIn (leftWith (idAt b + 1) v)) :=
    inData_withIn rfl hst _
  -- the call returns, and on its way it comes to this turn
  have hisSome := (mqttTcpclientRecv_isSome_iff _ segment).mpr fun (_ : InData
    ((roomyClient st).withIn (leftWith (idAt b + 1) v))) => by rwa [received_eq hlen]
  rw [mqttTcpclientRecv, Option.isSome_map] at hisSome
  obtain ⟨r, hr⟩ := Option.isSome_iff_exists.mp hisSome
  obtain ⟨s, ms, hs, hat, hroom, hms⟩ := hk _ hd (roomyClient_roomy st hlen _)
  have hout := mqttMsgAck_outbound hroom.sound type qos
    ⟨leftId b v, leftId_pos b hv, leftId_lt b v⟩
  obtain ⟨-, hholds, -, -⟩ := hroom.handle (by rw [hat.len]; exact hpos) q
  rw [h.answer_leftWith hq hneeds hunknown hanswer hat] at hholds
  have hstored : (readPacket segment s).2.client.msgQueue.Holds
      (ms ++ [packet (headerByte type 0 qos 0) (word (leftId b v))]) := by
    rw [hat.readPacket hq (by omega), ← hout]
    split <;> exact hholds
  obtain ⟨fuel, hr'⟩ := hs.ends hr
  obtain ⟨more, hmore⟩ := readPackets_grows hat.inData hstored hr'
  rw [List.append_assoc] at hmore
  exact ⟨r, ms, more, hr, hms, hmore⟩

theorem Turn.not_unaffected (hseg : segment ≠ []) (hlen : segment.length < mqttBufSize)
    (hst : st = .mqttData ∨ st = .mqttKeepaliveSend) (hclear : ¬MeetsZeroLength segment)
    (h : Turn segment q b) (hneeds : NeedsId b) (hunknown : ¬IdKnown b) :
    ¬Unaffected segment st := by
  intro hsame
  obtain ⟨k, header, hstores⟩ := h.stores hseg hlen hst hclear hneeds hunknown
  obtain ⟨r₁, ms₁, more₁, hr₁, hlen₁, hholds₁⟩ := hstores 1 (by decide)
  obtain ⟨r₂, ms₂, more₂, hr₂, hlen₂, hholds₂⟩ := hstores 2 (by decide)
  have hseen := hsame (roomyClient st) rfl rfl _ _ (length_leftWith (idAt b + 1) 1)
    (length_leftWith (idAt b + 1) 2)
  rw [mqttTcpclientRecv_seen, mqttTcpclientRecv_seen, hr₁, hr₂] at hseen
  have hqueue : r₁.client.msgQueue = r₂.client.msgQueue :=
    congrArg Prod.fst (Option.some.inj hseen)
  have hmessages := hholds₁.messages_eq.symm.trans (hqueue ▸ hholds₂.messages_eq)
  have hacks := (List.cons.inj (List.append_inj hmessages (hlen₁.trans hlen₂.symm)).2).1
  have hids : leftId b 1 = leftId b 2 := by
    rw [← wordAt_ack header (leftId_lt b 1), ← wordAt_ack header (leftId_lt b 2), hacks]
  exact absurd (Nat.add_left_cancel hids) (by decide)

end Leaks

/-- What was left in `in_buffer` makes no difference exactly when packets are not handled, or
the loop does not end, or every identifier that an answer needs was received. -/
theorem unaffected_iff {segment : Bytes} (hseg : segment ≠ [])
    (hlen : segment.length < mqttBufSize) (st : ConnState) :
    Unaffected segment st ↔
      ¬(st = .mqttData ∨ st = .mqttKeepaliveSend) ∨ MeetsZeroLength segment ∨
        ∀ q b, Turn segment q b → NeedsId b → IdKnown b := by
  by_cases hst : st = .mqttData ∨ st = .mqttKeepaliveSend
  · by_cases hz : MeetsZeroLength segment
    · exact iff_of_true (unaffected_of_trapped hlen hst hz) (.inr (.inl hz))
    · constructor
      · intro h
        refine .inr (.inr fun q b hturn hneeds => Decidable.byContradiction fun hunknown => ?_)
        exact hturn.not_unaffected hseg hlen hst hz hneeds hunknown h
      · intro h
        rcases h with hst' | hz' | hknown
        · exact absurd hst hst'
        · exact absurd hz' hz
        · exact unaffected_of_known hseg hlen hst hknown
  · exact iff_of_true (unaffected_of_not_inData hseg hlen hst) (.inl hst)

/-- A PUBREC that ends behind its header is answered under what was left. -/
theorem pubrec_header_affected : ¬Unaffected [0x50, 0x02] .mqttData := by
  intro h
  have hseen := h sampleClient rfl rfl (leftWith 3 1) (leftWith 3 2) (length_leftWith 3 1)
    (length_leftWith 3 2)
  revert hseen
  decide +kernel

theorem pubrec_unaffected : Unaffected [0x50, 0x02, 0x00, 0x05] .mqttData := by
  refine (unaffected_iff (by decide) (by decide) .mqttData).mpr (.inr (.inr ?_))
  intro q b hturn _
  rw [(hturn.only (by decide)).2]
  exact .inl (by decide)

end Mqtt
end EspMisc
