/-
Packets that arrive together.

TCP may hand several packets over in one segment.  `Absorbed c ps c' log` says that
between `c` and `c'` the client answered and delivered the packets `ps`, in order
and each once.  A call with one packet absorbs it.  A call with several absorbs the
PUBLISHes at the front and the first packet of another type, and drops what follows.
-/
import EspMisc.Mqtt.Packets
import EspMisc.Mqtt.Link

namespace EspMisc
namespace Mqtt

namespace BrokerPacket

/-- The packet that answers this one. -/
def response : BrokerPacket → Option Bytes
  | publish _ _ (.one id) _ _ => some (packet 0x40 (word id.val))
  | publish _ _ (.two id) _ _ => some (packet 0x50 (word id.val))
  | pubrec id => some (packet 0x62 (word id.val))
  | pubrel id => some (packet 0x70 (word id.val))
  | _ => none

/-- What the application is told of the packet: a topic and a payload. -/
def delivery : BrokerPacket → Option (Bytes × Bytes)
  | publish _ _ _ topic payload => some (topic.bytes, payload)
  | _ => none

end BrokerPacket

open Machine BrokerPacket

/-- The topics and payloads of the calls of `dataCb`. -/
def deliveries (log : List Effect) : List (Bytes × Bytes) :=
  log.filterMap fun
    | .dataCb buffer topic data => some (slice buffer topic, slice buffer data)
    | _ => none

theorem deliveries_append (l l' : List Effect) :
    deliveries (l ++ l') = deliveries l ++ deliveries l' :=
  List.filterMap_append

/-- A response goes to the queue if it fits. -/
def respond (q : Queue) (p : BrokerPacket) : Queue :=
  match p.response with
  | some m => (queuePuts q m).1
  | none => q

/-- The client handled the packets `ps`. -/
structure Absorbed (c : MqttClient) (ps : List BrokerPacket) (c' : MqttClient)
    (log : List Effect) : Prop where
  ready : Ready c'
  connState : c'.connState = c.connState
  callbacks : c'.callbacks = c.callbacks
  queue : c'.msgQueue = ps.foldl respond c.msgQueue
  deliveries : deliveries log = if c.callbacks .data then ps.filterMap delivery else []

theorem Absorbed.trans {c c' c'' : MqttClient} {ps qs : List BrokerPacket} {l l' : List Effect}
    (h : Absorbed c ps c' l) (h' : Absorbed c' qs c'' l') :
    Absorbed c (ps ++ qs) c'' (l ++ l') where
  ready := h'.ready
  connState := h'.connState.trans h.connState
  callbacks := h'.callbacks.trans h.callbacks
  queue := by rw [h'.queue, h.queue, List.foldl_append]
  deliveries := by
    rw [deliveries_append, h.deliveries, h'.deliveries, h.callbacks]
    split
    · rw [List.filterMap_append]
    · rfl

/-! ## One packet -/

theorem mqttMsgAck_outbound {c : MqttConnection} (h : Sound c) (type : MessageType) (qos : Int)
    (id : PacketId) :
    (mqttMsgAck c type qos id.val).outbound = packet (headerByte type 0 qos 0) (word id.val) := by
  have hid : ¬ id.val = 0 := Nat.pos_iff_ne_zero.mp id.pos
  rw [(h.mqttMsgAck_finished type qos id.val).outbound, if_neg hid]

theorem load_connection (client : MqttClient) (p : Bytes) (len : Nat) :
    (client.load p len).mqttState.mqttConnection = client.mqttState.mqttConnection := rfl

theorem load_ready {client : MqttClient} (h : Ready client) (p : Bytes) (len : Nat) :
    Ready (client.load p len) :=
  ⟨h.connection, h.inBufferLength, h.outBufferLength, h.queue⟩

theorem queueAck_absorbed {client : MqttClient} (h : Ready client) (b : Bytes) (len : Nat)
    {p : BrokerPacket} {c : MqttConnection} (hc : Sound c) (hp : p.response = some c.outbound)
    (hd : p.delivery = none) : Absorbed client [p] (queueResponse (client.load b len) c) [] where
  ready := (load_ready h b len).queueResponse hc
  connState := rfl
  callbacks := rfl
  queue := by
    show (queuePuts client.msgQueue c.outbound).1 = respond client.msgQueue p
    rw [respond, hp]
  deliveries := by
    rw [List.filterMap_cons, hd]
    split <;> rfl

theorem deliverPublish_deliveries {dup retain : Bool} {qos : Qos} {topic : Topic}
    {payload rest : Bytes} (client : MqttClient) {len : Nat}
    (hp : (publish dup retain qos topic payload).encode.length ≤ len) (hlen : len < mqttBufSize) :
    deliveries (deliverPublish client
      ((publish dup retain qos topic payload).encode ++ rest) len) =
        if client.callbacks .data then [(topic.bytes, payload)] else [] := by
  have hmod := mod_of_lt_mqttBufSize hlen
  have hlt : (publish dup retain qos topic payload).encode.length < mqttBufSize := by omega
  rw [deliverPublish, hmod]
  by_cases hcb : client.callbacks .data = true
  · simp only [if_pos hcb, deliveries, List.filterMap_cons, List.filterMap_nil,
      mqttGetPublishTopic_encode (length_body_lt hlt) _ hp, slice_topic,
      (mqttGetPublishData_encode (length_body_lt hlt) _ hp).2]
  · simp only [if_neg hcb]
    rfl

theorem deliverPublish_absorbed {dup retain : Bool} {qos : Qos} {topic : Topic}
    {payload rest : Bytes} {client c : MqttClient} (hc : Ready c)
    (hst : c.connState = client.connState) (hcb : c.callbacks = client.callbacks)
    (hq : c.msgQueue = respond client.msgQueue (publish dup retain qos topic payload))
    (hlen : ((publish dup retain qos topic payload).encode ++ rest).length < mqttBufSize) :
    Absorbed client [publish dup retain qos topic payload] c
      (deliverPublish c
        (client.load ((publish dup retain qos topic payload).encode ++ rest)
          ((publish dup retain qos topic payload).encode ++ rest).length).mqttState.inBuffer
        ((publish dup retain qos topic payload).encode ++ rest).length) where
  ready := hc
  connState := hst
  callbacks := hcb
  queue := hq
  deliveries := by
    rw [load_inBuffer, List.append_assoc, deliverPublish_deliveries c (by simp) hlen, hcb]
    rfl

theorem handle_absorbed {client : MqttClient} (h : Ready client) (p : BrokerPacket) (rest : Bytes)
    (hlen : (p.encode ++ rest).length < mqttBufSize) :
    Absorbed client [p] (client.handle (p.encode ++ rest)).1
      (client.handle (p.encode ++ rest)).2 := by
  have hp : p.encode.length < mqttBufSize := by
    rw [List.length_append] at hlen
    omega
  have hid : client.mqttState.inBufferLength % 65536 = mqttBufSize := by
    rw [h.inBufferLength]
    rfl
  have hload := load_ready h (p.encode ++ rest) (p.encode ++ rest).length
  -- a packet that asks for nothing leaves the client as it was loaded
  have hnone : p.response = none → p.delivery = none →
      Absorbed client [p] (client.load (p.encode ++ rest) (p.encode ++ rest).length) [] := by
    intro hr hd
    refine ⟨hload, rfl, rfl, ?_, ?_⟩
    · show client.msgQueue = respond client.msgQueue p
      rw [respond, hr]
    · rw [List.filterMap_cons, hd]
      split <;> rfl
  simp only [MqttClient.handle, handlePacket, mqttGetType_encode, MessageType.ofCode_code, hid]
  cases p with
  | publish dup retain qos topic payload =>
    simp only [type, mqttGetQos_encode]
    cases qos with
    | zero => exact deliverPublish_absorbed hload rfl rfl rfl hlen
    | one id =>
      rw [List.append_assoc, mqttGetId_publish_inside hp rfl (Nat.succ_pos 0)]
      refine deliverPublish_absorbed (hload.queueResponse (h.connection.mqttMsgAck ..)) rfl rfl ?_
        hlen
      show (queuePuts client.msgQueue (mqttMsgPuback _ id.val).outbound).1 = _
      rw [mqttMsgPuback, load_connection, mqttMsgAck_outbound h.connection]
      rfl
    | two id =>
      rw [List.append_assoc, mqttGetId_publish_inside hp rfl (Nat.succ_pos 1)]
      refine deliverPublish_absorbed (hload.queueResponse (h.connection.mqttMsgAck ..)) rfl rfl ?_
        hlen
      show (queuePuts client.msgQueue (mqttMsgPubrec _ id.val).outbound).1 = _
      rw [mqttMsgPubrec, load_connection, mqttMsgAck_outbound h.connection]
      rfl
  | pubrec id =>
    rw [List.append_assoc, mqttGetId_ack (p := .pubrec id) rfl rfl _ (by decide)]
    refine queueAck_absorbed h _ _ (h.connection.mqttMsgAck ..) ?_ rfl
    rw [load_connection, mqttMsgPubrel, mqttMsgAck_outbound h.connection]
    rfl
  | pubrel id =>
    rw [List.append_assoc, mqttGetId_ack (p := .pubrel id) rfl rfl _ (by decide)]
    refine queueAck_absorbed h _ _ (h.connection.mqttMsgAck ..) ?_ rfl
    rw [load_connection, mqttMsgPubcomp, mqttMsgAck_outbound h.connection]
    rfl
  | puback id => exact hnone rfl rfl
  | pubcomp id => exact hnone rfl rfl
  | suback id codes => exact hnone rfl rfl
  | unsuback id => exact hnone rfl rfl
  | pingresp => exact hnone rfl rfl

/-! ## One segment -/

def wire (ps : List BrokerPacket) : Bytes := ps.flatMap encode

theorem wire_cons (p : BrokerPacket) (ps : List BrokerPacket) :
    wire (p :: ps) = p.encode ++ wire ps := rfl

theorem length_le_length_wire (ps : List BrokerPacket) : ps.length ≤ (wire ps).length := by
  induction ps with
  | nil => exact Nat.le_refl 0
  | cons p ps ih =>
    have hp := List.length_pos_of_ne_nil p.encode_ne_nil
    rw [wire_cons, List.length_append, List.length_cons]
    omega

/-- The packets of a segment that the loop comes to. -/
def processed : List BrokerPacket → List BrokerPacket
  | [] => []
  | p :: ps => if p.isPublish then p :: processed ps else [p]

/-- The packets behind the first that is not a PUBLISH. -/
def skipped : List BrokerPacket → List BrokerPacket
  | [] => []
  | p :: ps => if p.isPublish then skipped ps else ps

theorem processed_append_skipped (ps : List BrokerPacket) : processed ps ++ skipped ps = ps := by
  induction ps with
  | nil => rfl
  | cons p ps ih =>
    rw [processed, skipped]
    split
    · rw [List.cons_append, ih]
    · rfl

/-- The loop absorbs the packets up to the first that is not a PUBLISH. -/
theorem readPackets_absorbed {segment : Bytes} (ps : List BrokerPacket) {fuel : Nat} :
    ∀ {s : RecvState}, s.Within segment → InData s.client → Ready s.client →
      s.rest segment = wire ps → (wire ps).length < mqttBufSize → ps.length < fuel →
      ∃ r l, readPackets segment fuel s = some r ∧ r.log = s.log ++ l ∧
        Absorbed s.client (processed ps) r.client l := by
  induction ps generalizing fuel with
  | nil =>
    intro s hw hd hr hrest _ hfuel
    obtain ⟨fuel, rfl⟩ : ∃ k, fuel = k + 1 := ⟨fuel - 1, by omega⟩
    have hlen := s.length_rest hw
    rw [hrest] at hlen
    have hstop : ¬ (s.len < mqttBufSize ∧ s.len > 0) := fun h => by
      have : s.len = 0 := hlen.symm
      omega
    refine ⟨s, [], ?_, (List.append_nil _).symm, hr, rfl, rfl, rfl, ?_⟩
    · simp only [readPackets, readPacket, if_neg hstop]
      rfl
    · split <;> rfl
  | cons p ps ih =>
    intro s hw hd hr hrest hlt hfuel
    obtain ⟨fuel, rfl⟩ : ∃ k, fuel = k + 1 := ⟨fuel - 1, by omega⟩
    rw [wire_cons] at hrest hlt
    have hlen := s.length_rest hw
    rw [hrest] at hlen
    have hpos := List.length_pos_of_ne_nil p.encode_ne_nil
    have hp : p.encode.length < mqttBufSize := by
      rw [List.length_append] at hlt
      omega
    have habs := handle_absorbed hr p (wire ps) hlt
    have hpub := isPublish_encode_iff p (wire ps)
    have hml := messageLength_encode (length_body_lt hp) (wire ps)
    have hdata := readPacket_data hw hd
      (by rw [← hlen, List.length_append]; omega) (by rw [← hlen]; exact hlt)
    rw [hrest, hml] at hdata
    by_cases hgo : IsPublish (p.encode ++ wire ps) ∧ p.encode.length < s.len
    · rw [if_pos hgo] at hdata
      obtain ⟨-, -, -, hd', hw', -, hrest'⟩ := readPacket_goto hw hdata
      rw [hrest, hml, List.drop_left] at hrest'
      obtain ⟨r, l, hloop, hlog, habs'⟩ := ih hw' hd' habs.ready hrest'
        (by rw [List.length_append] at hlt; omega)
        (show ps.length < fuel by rw [List.length_cons] at hfuel; omega)
      refine ⟨r, (s.client.handle (p.encode ++ wire ps)).2 ++ l, ?_, ?_, ?_⟩
      · rw [readPackets, hdata]
        exact hloop
      · rw [hlog, List.append_assoc]
      · rw [processed, if_pos (hpub.mp hgo.1)]
        exact habs.trans habs'
    · rw [if_neg hgo] at hdata
      refine ⟨(readPacket segment s).2, (s.client.handle (p.encode ++ wire ps)).2, ?_, ?_, ?_⟩
      · rw [readPackets, hdata]
        rfl
      · rw [hdata]
      · -- the loop stops behind the last packet, or behind one that is not a PUBLISH
        have hone : processed (p :: ps) = [p] := by
          rw [processed]
          split
          · next hp' =>
            have hend : ¬ p.encode.length < s.len := fun h => hgo ⟨hpub.mpr hp', h⟩
            rw [← hlen, List.length_append] at hend
            have hps := length_le_length_wire ps
            rw [List.eq_nil_of_length_eq_zero (show ps.length = 0 by omega)]
            rfl
          · rfl
        rw [hone, hdata]
        exact habs

theorem mqttTcpclientRecv_absorbed {client : MqttClient} (h : Ready client) (hd : InData client)
    {ps : List BrokerPacket} (hlt : (wire ps).length < mqttBufSize) :
    ∃ c l, mqttTcpclientRecv client (wire ps) = some (c, l) ∧
      Absorbed client (processed ps) c l := by
  have hrest : (recvStart client (wire ps)).rest (wire ps) = wire ps := by
    rw [recvStart_rest, received_eq hlt]
  have hps := length_le_length_wire ps
  obtain ⟨r, l, hloop, hlog, habs⟩ := readPackets_absorbed ps (recvStart_within client (wire ps)) hd
    ⟨h.connection, h.inBufferLength, h.outBufferLength, h.queue⟩ hrest hlt
    (show ps.length < mqttBufSize by omega)
  refine ⟨r.client, r.log ++ [.systemOsPost], by rw [mqttTcpclientRecv, hloop]; rfl,
    habs.ready, habs.connState, habs.callbacks, habs.queue, ?_⟩
  rw [hlog, deliveries_append]
  exact (List.append_nil _).trans habs.deliveries

/-! ## One packet per segment -/

/-- One call of `mqtt_tcpclient_recv` for each segment. -/
def recvEach (client : MqttClient) : List Bytes → Option (MqttClient × List Effect)
  | [] => some (client, [])
  | segment :: segments =>
    (mqttTcpclientRecv client segment).bind fun r =>
      (recvEach r.1 segments).map fun t => (t.1, r.2 ++ t.2)

theorem recvEach_absorbed (ps : List BrokerPacket) :
    ∀ {client : MqttClient}, Ready client → InData client → (wire ps).length < mqttBufSize →
      ∃ c l, recvEach client (ps.map encode) = some (c, l) ∧ Absorbed client ps c l := by
  induction ps with
  | nil =>
    intro client h _ _
    refine ⟨client, [], rfl, h, rfl, rfl, rfl, ?_⟩
    split <;> rfl
  | cons p ps ih =>
    intro client h hd hlt
    rw [wire_cons, List.length_append] at hlt
    have hone : wire [p] = p.encode := List.append_nil _
    have hproc : processed [p] = [p] := by
      rw [processed]
      split <;> rfl
    obtain ⟨c, l, hrecv, habs⟩ := mqttTcpclientRecv_absorbed h hd
      (show (wire [p]).length < mqttBufSize by rw [hone]; omega)
    rw [hone] at hrecv
    rw [hproc] at habs
    have hd' : InData c := by
      unfold InData
      rw [habs.connState]
      exact hd
    obtain ⟨c', l', hrecv', habs'⟩ := ih habs.ready hd' (by omega)
    refine ⟨c', l ++ l', ?_, habs.trans habs'⟩
    rw [List.map_cons, recvEach, hrecv, Option.bind_some, hrecv']
    rfl

/-! ## The room for the responses -/

/-- The messages that go into a ring with this many free bytes.  The first one that
does not fit fills the ring. -/
def fitting (free : Nat) : List Bytes → List Bytes
  | [] => []
  | m :: ms => if Queue.cost m ≤ free then m :: fitting (free - Queue.cost m) ms else []

def Queue.free (q : Queue) : Nat := q.rb.size - q.rb.fillCnt

def totalCost (ms : List Bytes) : Nat := (ms.map Queue.cost).sum

theorem cost_pos (m : Bytes) : 0 < Queue.cost m := by
  rw [Queue.cost, Stuffing.Code.length_frame]
  omega

theorem fitting_zero (ms : List Bytes) : fitting 0 ms = [] := by
  cases ms with
  | nil => rfl
  | cons m ms =>
    have := cost_pos m
    rw [fitting, if_neg (by omega)]

theorem fitting_append_eq_iff (a b : List Bytes) (free : Nat) :
    fitting free a = fitting free (a ++ b) ↔
      ∀ m, b.head? = some m → free < totalCost a + Queue.cost m := by
  induction a generalizing free with
  | nil =>
    cases b with
    | nil => simp [fitting]
    | cons m b =>
      have : totalCost [] = 0 := rfl
      simp only [List.nil_append, fitting, List.head?_cons, Option.some.injEq, forall_eq', this]
      split
      · next h => simp only [List.nil_eq, reduceCtorEq, false_iff]; omega
      · next h => simp only [true_iff]; omega
  | cons x a ih =>
    have hsum : totalCost (x :: a) = Queue.cost x + totalCost a := rfl
    simp only [List.cons_append, fitting, hsum]
    split
    · next h =>
      simp only [List.cons.injEq, true_and, ih]
      refine forall_congr' fun m => imp_congr_right fun _ => ?_
      omega
    · next h =>
      simp only [true_iff]
      intro m _
      omega

theorem messages_respond (ps : List BrokerPacket) {q : Queue} (h : q.InOrder) :
    (ps.foldl respond q).messages =
      q.messages ++ fitting q.free (ps.filterMap BrokerPacket.response) := by
  induction ps generalizing q with
  | nil => exact (List.append_nil _).symm
  | cons p ps ih =>
    rw [List.foldl_cons, List.filterMap_cons]
    cases hp : p.response with
    | none =>
      have hq : respond q p = q := by rw [respond, hp]
      rw [hq]
      exact ih h
    | some m =>
      have hq : respond q p = (queuePuts q m).1 := by rw [respond, hp]
      have hsize := queuePuts_size h.holds m
      rw [hq, ih (h.puts m)]
      by_cases hfit : q.rb.fillCnt + Queue.cost m ≤ q.rb.size
      · obtain ⟨hms, -, hfill⟩ := queuePuts_fits h.holds hfit
        have hfree : (queuePuts q m).1.free = q.free - Queue.cost m := by
          unfold Queue.free
          omega
        rw [hms.messages_eq, hfree, fitting, if_pos (by unfold Queue.free; omega),
          List.append_assoc, List.singleton_append]
      · obtain ⟨hms, -, hfill⟩ := queuePuts_full h.holds hfit
        have hle := h.holds.ok.fill_le
        have hfree : (queuePuts q m).1.free = 0 := by
          unfold Queue.free
          omega
        rw [hms.messages_eq, hfree, fitting_zero, fitting, if_neg (by unfold Queue.free; omega)]

/-! ## The comparison -/

/-- Both calls return, and leave the same messages to send and the same state, with
the same deliveries on the way. -/
def SameEffect (a b : Option (MqttClient × List Effect)) : Prop :=
  ∃ c l c' l', a = some (c, l) ∧ b = some (c', l') ∧
    c.msgQueue.messages = c'.msgQueue.messages ∧ deliveries l = deliveries l' ∧
    c.connState = c'.connState

/-- Nothing is lost with the packets that the loop does not come to: none of them is
delivered, and the ring has no room for the first response among them. -/
structure NothingSkipped (client : MqttClient) (ps : List BrokerPacket) : Prop where
  deliveries : client.callbacks .data = true → ∀ p ∈ skipped ps, p.isPublish = false
  responses : ∀ m, ((skipped ps).filterMap BrokerPacket.response).head? = some m →
    client.msgQueue.free <
      totalCost ((processed ps).filterMap BrokerPacket.response) + Queue.cost m

theorem delivery_eq_none_iff (p : BrokerPacket) : p.delivery = none ↔ p.isPublish = false := by
  cases p <;> simp [delivery, isPublish]

theorem sameEffect_iff {client : MqttClient} (h : Ready client) (hd : InData client)
    {ps : List BrokerPacket} (hlt : (wire ps).length < mqttBufSize) :
    SameEffect (mqttTcpclientRecv client (wire ps)) (recvEach client (ps.map encode)) ↔
      NothingSkipped client ps := by
  obtain ⟨c, l, hone, habs⟩ := mqttTcpclientRecv_absorbed h hd hlt
  obtain ⟨c', l', heach, habs'⟩ := recvEach_absorbed ps h hd hlt
  have hmsgs : c.msgQueue.messages = c'.msgQueue.messages ↔
      fitting client.msgQueue.free ((processed ps).filterMap BrokerPacket.response) =
        fitting client.msgQueue.free (ps.filterMap BrokerPacket.response) := by
    rw [habs.queue, habs'.queue, messages_respond _ h.queue, messages_respond _ h.queue,
      List.append_cancel_left_eq]
  have hsplit : ps.filterMap BrokerPacket.response =
      (processed ps).filterMap BrokerPacket.response ++
        (skipped ps).filterMap BrokerPacket.response := by
    rw [← List.filterMap_append, processed_append_skipped]
  have hdel : deliveries l = deliveries l' ↔
      (client.callbacks .data = true → ∀ p ∈ skipped ps, p.isPublish = false) := by
    rw [habs.deliveries, habs'.deliveries]
    by_cases hcb : client.callbacks .data = true
    · have hskip : (skipped ps).filterMap delivery = [] ↔
          ∀ p ∈ skipped ps, p.isPublish = false :=
        List.filterMap_eq_nil_iff.trans
          (forall_congr' fun p => imp_congr_right fun _ => delivery_eq_none_iff p)
      have hcat : ps.filterMap delivery =
          (processed ps).filterMap delivery ++ (skipped ps).filterMap delivery := by
        rw [← List.filterMap_append, processed_append_skipped]
      rw [if_pos hcb, if_pos hcb, hcat, List.self_eq_append_right, hskip]
      exact ⟨fun h _ => h, fun h => h hcb⟩
    · rw [if_neg hcb, if_neg hcb]
      exact ⟨fun _ h => absurd h hcb, fun _ => rfl⟩
  have hst : c.connState = c'.connState := habs.connState.trans habs'.connState.symm
  rw [hone, heach]
  constructor
  · rintro ⟨_, _, _, _, h₁, h₂, hm, hl, -⟩
    obtain ⟨rfl, rfl⟩ := Prod.mk.inj (Option.some.inj h₁)
    obtain ⟨rfl, rfl⟩ := Prod.mk.inj (Option.some.inj h₂)
    refine ⟨hdel.mp hl, ?_⟩
    rw [hmsgs, hsplit] at hm
    exact (fitting_append_eq_iff _ _ _).mp hm
  · rintro ⟨hnd, hnr⟩
    refine ⟨c, l, c', l', rfl, rfl, ?_, hdel.mpr hnd, hst⟩
    rw [hmsgs, hsplit]
    exact (fitting_append_eq_iff _ _ _).mpr hnr

/-- In the data state packets that arrive in one segment have the effect of the same
packets one by one exactly when nothing is lost behind the first packet that is not
a PUBLISH. -/
theorem segmentation_iff {u : Setup} {tr : List Record} {w : World} (h : ClientRun u tr w)
    (hst : w.client.connState = .mqttData) {ps : List BrokerPacket}
    (hlt : (wire ps).length < mqttBufSize) :
    SameEffect (mqttTcpclientRecv w.client (wire ps)) (recvEach w.client (ps.map encode)) ↔
      NothingSkipped w.client ps :=
  sameEffect_iff h.ready (Or.inl hst) hlt

def sampleId : PacketId := ⟨1, by decide, by decide⟩

/-- A PUBLISH with a PUBACK behind it. -/
def samplePackets : List BrokerPacket :=
  [.publish false false .zero ⟨[0x61], by decide, by decide⟩ [0x62], .puback sampleId]

theorem segmentation_iff_samplePackets :
    ∃ tr, ClientRun sampleSetup tr sampleConnected ∧
      SameEffect (mqttTcpclientRecv sampleConnected.client (wire samplePackets))
        (recvEach sampleConnected.client (samplePackets.map encode)) := by
  obtain ⟨tr, hrun⟩ := sampleConnected_run
  refine ⟨tr, hrun, (segmentation_iff hrun (by decide) (by decide)).mpr ⟨fun _ => ?_, ?_⟩⟩
  · intro p hp
    exact absurd hp List.not_mem_nil
  · intro m hm
    exact absurd hm (by simp [samplePackets, skipped, isPublish])

/-- Of two PUBRECs in one segment the second is not answered. -/
theorem segmentation_fails :
    ∃ tr, ClientRun sampleSetup tr sampleConnected ∧
      sampleConnected.client.connState = .mqttData ∧
      (wire [.pubrec sampleId, .pubrec sampleId]).length < mqttBufSize ∧
      ¬ SameEffect
        (mqttTcpclientRecv sampleConnected.client (wire [.pubrec sampleId, .pubrec sampleId]))
        (recvEach sampleConnected.client ([.pubrec sampleId, .pubrec sampleId].map encode)) := by
  obtain ⟨tr, hrun⟩ := sampleConnected_run
  refine ⟨tr, hrun, by decide, by decide, fun h => ?_⟩
  have hskip := (sameEffect_iff hrun.ready (Or.inl (by decide)) (by decide)).mp h
  exact absurd (hskip.responses _ rfl) (by decide)

end Mqtt
end EspMisc
