/-
What a request does to the queue.

A request whose packet does not fit evicts messages from the front until it does.  But
a put that fails has filled the ring with the start of its frame, so a turn of the loop
has room for no more than what its get took out: the next message with the abandoned
bytes before it.  The loop gives up once no message is left, also on a packet that an
empty ring has room for.  `Queue.Admits` is the exact condition under which it ends
with the packet in the queue.
-/
import EspMisc.Mqtt.Link

namespace EspMisc
namespace Mqtt

open Machine Stuffing

namespace Queue

/-- The bytes that each get would take out of the ring. -/
def strides (q : Queue) : List Nat := Stuffing.strides protoCode 0 q.rb.content

/-- The frame of the packet fits in the free bytes of the ring, or in the place of one
of the messages, with the abandoned bytes before it. -/
def Admits (q : Queue) (m : Bytes) : Prop :=
  q.rb.fillCnt + cost m ≤ q.rb.size ∨ ∃ n ∈ q.strides, cost m ≤ n

instance (q : Queue) (m : Bytes) : Decidable (q.Admits m) :=
  inferInstanceAs (Decidable (_ ∨ _))

end Queue

open Queue

theorem queuePuts_strides {q : Queue} {ms : List Bytes} (h : q.Holds ms) {m : Bytes}
    (hfull : ¬ q.rb.fillCnt + cost m ≤ q.rb.size) : (queuePuts q m).1.strides = q.strides := by
  obtain ⟨-, -, hcon, -⟩ := protoAddRb_spec h.ok m
  show Stuffing.strides protoCode 0 (protoAddRb q.rb m).1.content = _
  rw [hcon]
  refine strides_debris _ (protoCode.stop_not_mem_take_frame ?_) 0
  have hle := h.ok.fill_le
  unfold cost at hfull
  omega

theorem queueGets_strides {q : Queue} {ms : List Bytes} (h : q.Holds ms) {buffer : Bytes}
    {maxLen : UInt16} (hbuf : maxLen.toNat ≤ buffer.length) (isBegin : UInt8) :
    (q.strides = [] ∧ (queueGets q buffer maxLen isBegin).ret = -1) ∨
    ∃ n, q.strides = n :: (queueGets q buffer maxLen isBegin).queue.strides ∧
      q.rb.fillCnt = n + (queueGets q buffer maxLen isBegin).queue.rb.fillCnt ∧
      (queueGets q buffer maxLen isBegin).ret = 0 := by
  have hspec := protoParseRbLoop_spec q.rb.content h.ok rfl (protoInit_sees isBegin hbuf)
  rw [q.rb.length_content] at hspec
  rcases next_strides ⟨!(isBegin == 0), false, []⟩ q.rb.content 0 with
    ⟨hnone, hs⟩ | ⟨m, rest, n, hsome, hlen, hs⟩
  · rw [hnone] at hspec
    exact Or.inl ⟨hs, hspec.2.2.1⟩
  · rw [hsome] at hspec
    obtain ⟨-, -, hret, hcon, -⟩ := hspec
    have hrest : (queueGets q buffer maxLen isBegin).queue.rb.content = rest := hcon
    refine Or.inr ⟨n, ?_, ?_, hret⟩
    · show Stuffing.strides protoCode 0 q.rb.content = n :: Stuffing.strides protoCode 0 _
      rw [hrest, hs, Nat.zero_add]
    · rw [← q.rb.length_content, ← Ringbuf.length_content, hrest, hlen]

/-- A put that fails has filled the ring, so only the strides are left to decide. -/
theorem admits_step {q : Queue} (h : q.InOrder) {m : Bytes} (answers : Answers)
    (isBegin : UInt8) (hfull : ¬ q.rb.fillCnt + cost m ≤ q.rb.size) :
    let got := queueGets (queuePuts q m).1 answers.dataBuffer (UInt16.ofNat mqttBufSize) isBegin
    (got.ret = -1 → ¬ q.Admits m) ∧ (got.ret = 0 → (got.queue.Admits m ↔ q.Admits m)) := by
  intro got
  have hput := h.puts m
  have hstrides := queuePuts_strides h.holds hfull
  have hfill := (queuePuts_full h.holds hfull).2.2
  have hsize := h.size
  have hgot : got.queue.rb.size = queueBufferSize := (hput.gets answers isBegin).size
  rcases queueGets_strides hput.holds (length_dataBuffer_le answers) isBegin with
    ⟨hs, hret⟩ | ⟨n, hs, hcnt, hret⟩
  · rw [hstrides] at hs
    refine ⟨fun _ => ?_, fun hzero => absurd (hret.symm.trans hzero) (by decide)⟩
    rintro (hfit | ⟨n, hn, -⟩)
    · exact hfull hfit
    · rw [hs] at hn
      exact absurd hn List.not_mem_nil
  · rw [hstrides] at hs
    refine ⟨fun hneg => absurd (hret.symm.trans hneg) (by decide), fun _ => ?_⟩
    have hroom : got.queue.rb.fillCnt + cost m ≤ got.queue.rb.size ↔ cost m ≤ n := by
      rw [hgot]
      have hcnt' : q.rb.size = n + got.queue.rb.fillCnt := hfill ▸ hcnt
      omega
    have htail : q.strides = n :: got.queue.strides := hs
    simp only [Queue.Admits, hroom, htail, List.mem_cons, exists_eq_or_imp]
    rw [or_iff_right hfull]

/-- The loop of a request ends with the message put exactly when the queue admits it. -/
theorem putEvicting_true_iff (answers : Answers) (m : Bytes) {fuel : Nat} :
    ∀ {q q' : Queue} {b : Bool}, q.InOrder → putEvicting answers m fuel q = some (q', b) →
      (b = true ↔ q.Admits m) := by
  induction fuel with
  | zero =>
    intro q q' b _ h
    exact absurd h (by simp [putEvicting])
  | succ fuel ih =>
    intro q q' b hq h
    rw [putEvicting] at h
    have hret := queuePuts_ret_iff hq.holds (by rw [hq.size]; decide) m
    by_cases hfit : q.rb.fillCnt + cost m ≤ q.rb.size
    · have hne : ¬ (queuePuts q m).2 = -1 := fun he => hret.mp he hfit
      simp only [if_neg hne] at h
      obtain ⟨-, rfl⟩ := Prod.mk.inj (Option.some.inj h)
      exact iff_of_true rfl (Or.inl hfit)
    · simp only [if_pos (hret.mpr hfit)] at h
      obtain ⟨hfail, hmore⟩ := admits_step hq answers (answers.isBegin fuel) hfit
      have hnext := (hq.puts m).gets answers (answers.isBegin fuel)
      rcases (hq.puts m).messages_gets answers (answers.isBegin fuel) with
        ⟨-, hneg, -⟩ | ⟨hzero, -⟩
      · simp only [if_pos hneg] at h
        obtain ⟨-, rfl⟩ := Prod.mk.inj (Option.some.inj h)
        exact iff_of_false Bool.false_ne_true (hfail hneg)
      · simp only [hzero] at h
        rw [← hmore hzero]
        exact ih hnext h

/-! ## The four requests -/

inductive Request where
  | publish (topic : Option CString) (data : Bytes) (qos retain : Int)
  | subscribe (topic : Option CString) (qos : Nat)
  | unSubscribe (topic : Option CString)
  | ping

namespace Request

def call (client : MqttClient) (answers : Answers) :
    Request → Option (MqttClient × List Effect × Bool)
  | .publish topic data qos retain => mqttPublish client topic data qos retain answers
  | .subscribe topic qos => mqttSubscribe client topic qos answers
  | .unSubscribe topic => mqttUnSubscribe client topic answers
  | .ping => mqttPing client answers

def build (c : MqttConnection) : Request → MqttConnection
  | .publish topic data qos retain => (mqttMsgPublish c topic data qos retain).1
  | .subscribe topic qos => (mqttMsgSubscribe c topic qos).1
  | .unSubscribe topic => (mqttMsgUnsubscribe c topic).1
  | .ping => mqttMsgPingreq c

/-- The packet, which is empty when none was built. -/
def packet (client : MqttClient) (r : Request) : Bytes :=
  (r.build client.mqttState.mqttConnection).outbound

def checked : Request → Bool
  | .publish .. => true
  | .ping => true
  | _ => false

def Unbuilt (client : MqttClient) (r : Request) : Prop :=
  (r.build client.mqttState.mqttConnection).message.length = 0

theorem call_unbuilt {client : MqttClient} {r : Request} (hchecked : r.checked = true)
    (h : r.Unbuilt client) (answers : Answers) :
    ∃ c, r.call client answers = some (c, [], false) ∧ c.msgQueue = client.msgQueue := by
  cases r with
  | publish topic data qos retain =>
    let built := mqttMsgPublish client.mqttState.mqttConnection topic data qos retain
    refine ⟨(requestFailed (storeMsgId client built.2) built.1).1, ?_, rfl⟩
    rw [call, mqttPublish]
    exact if_pos h
  | ping =>
    refine ⟨(requestFailed client (mqttMsgPingreq client.mqttState.mqttConnection)).1, ?_, rfl⟩
    rw [call, mqttPing]
    exact if_pos h
  | subscribe => exact absurd hchecked Bool.false_ne_true
  | unSubscribe => exact absurd hchecked Bool.false_ne_true

theorem call_loop {client : MqttClient} {r : Request}
    (h : ¬(r.checked = true ∧ r.Unbuilt client)) (answers : Answers) :
    ∃ c : MqttClient, c.msgQueue = client.msgQueue ∧
      r.call client answers =
        queueRequest c (r.build client.mqttState.mqttConnection) answers := by
  cases r with
  | publish topic data qos retain =>
    let built := mqttMsgPublish client.mqttState.mqttConnection topic data qos retain
    refine ⟨storeMsgId client built.2, rfl, ?_⟩
    rw [call, mqttPublish]
    exact if_neg fun hlen => h ⟨rfl, hlen⟩
  | ping =>
    refine ⟨client, rfl, ?_⟩
    rw [call, mqttPing]
    exact if_neg fun hlen => h ⟨rfl, hlen⟩
  | subscribe topic qos =>
    let built := mqttMsgSubscribe client.mqttState.mqttConnection topic qos
    exact ⟨storeMsgId client built.2, rfl, rfl⟩
  | unSubscribe topic =>
    let built := mqttMsgUnsubscribe client.mqttState.mqttConnection topic
    exact ⟨storeMsgId client built.2, rfl, rfl⟩

theorem handle_publish (client : MqttClient) (fresh : Nat) (answers : Answers)
    (topic : Option CString) (data : Bytes) (qos retain : Int) :
    (Event.publish topic data qos retain).handle client fresh answers =
      ((Request.publish topic data qos retain).call client answers).map
        fun r => (r.1, r.2.1) := rfl

theorem call_evicts {client : MqttClient} (hready : Ready client) {r : Request}
    (h : ¬(r.checked = true ∧ r.Unbuilt client)) (answers : Answers) :
    ∃ c out b, r.call client answers = some (c, out, b) ∧
      (b = true ↔ client.msgQueue.Admits (r.packet client)) ∧
      (b = true → ∃ k, c.msgQueue.messages =
        client.msgQueue.messages.drop k ++ [r.packet client]) ∧
      (b = false → c.msgQueue.messages = []) := by
  obtain ⟨c, hqueue, hcall⟩ := call_loop h answers
  have hq : c.msgQueue.InOrder := hqueue ▸ hready.queue
  obtain ⟨q', b, hloop, -, htrue, hfalse⟩ :=
    hq.putEvicting answers (r.packet client) (length_messages_lt hq)
  have hiff := putEvicting_true_iff answers (r.packet client) hq hloop
  rw [hcall, queueRequest]
  rw [hqueue] at hiff htrue
  exact ⟨_, _, b, by rw [show (r.build client.mqttState.mqttConnection).outbound =
    r.packet client from rfl, hloop]; rfl, hiff, htrue, hfalse⟩

end Request

/-- A request for a packet that was built puts it behind the messages that it did not
evict exactly when the queue admits it. -/
theorem request_delivers_iff {u : Setup} {tr : List Record} {w : World}
    (hrun : ClientRun u tr w) (r : Request) (answers : Answers) (hbuilt : ¬ r.Unbuilt w.client) :
    ∃ c out b, r.call w.client answers = some (c, out, b) ∧
      ((b = true ∧ ∃ k, c.msgQueue.messages =
        w.client.msgQueue.messages.drop k ++ [r.packet w.client]) ↔
        w.client.msgQueue.Admits (r.packet w.client)) := by
  obtain ⟨c, out, b, hcall, hiff, htrue, -⟩ :=
    Request.call_evicts (ClientRun.ready hrun) (fun h => hbuilt h.2) answers
  refine ⟨c, out, b, hcall, ?_⟩
  rw [← hiff]
  exact ⟨fun h => h.1, fun hb => ⟨hb, htrue hb⟩⟩

/-- A request that fails has evicted from the front of the queue, if anything: nothing
when it found that no packet was built, and everything when its packet fits in no
ring. -/
theorem request_fails {u : Setup} {tr : List Record} {w : World} (hrun : ClientRun u tr w)
    (r : Request) (answers : Answers) {c : MqttClient} {out : List Effect}
    (hcall : r.call w.client answers = some (c, out, false)) :
    c.msgQueue.messages <:+ w.client.msgQueue.messages ∧
      (r.checked = true → r.Unbuilt w.client →
        c.msgQueue.messages = w.client.msgQueue.messages) ∧
      (queueBufferSize < cost (r.packet w.client) → c.msgQueue.messages = []) := by
  by_cases hun : r.checked = true ∧ r.Unbuilt w.client
  · obtain ⟨c', hcall', hqueue⟩ := Request.call_unbuilt hun.1 hun.2 answers
    obtain ⟨rfl, -⟩ := Prod.mk.inj (Option.some.inj (hcall'.symm.trans hcall))
    have hempty : r.packet w.client = [] := by
      rw [Request.packet, MqttConnection.outbound, hun.2, List.take_zero]
    rw [hqueue, hempty]
    exact ⟨List.suffix_refl _, fun _ _ => rfl, fun hlt => absurd hlt (by decide)⟩
  · obtain ⟨c', out', b, hcall', -, -, hfalse⟩ :=
      Request.call_evicts (ClientRun.ready hrun) hun answers
    obtain ⟨rfl, heq⟩ := Prod.mk.inj (Option.some.inj (hcall'.symm.trans hcall))
    have hnil := hfalse (Prod.mk.inj heq).2
    rw [hnil]
    exact ⟨List.nil_suffix, fun hch hu => absurd ⟨hch, hu⟩ hun, fun _ => rfl⟩

/-! ## Two publications that do not share the ring -/

theorem mqttMsgPublish_zero {c : MqttConnection} (h : Sound c) {topic : CString}
    (ht : topic.bytes ≠ []) {data : Bytes}
    (hfit : 3 + topic.bytes.length + 2 + data.length ≤ mqttBufSize) (retain : Int) :
    Finished mqttBufSize (mqttMsgPublish c (some topic) data 0 retain).1
      (headerByte .publish 0 0 retain) (word topic.bytes.length ++ topic.bytes ++ data) := by
  have hlen := h.bufferLength
  have hroom : (initMessage c).message.length + topic.bytes.length + 2 ≤
      (initMessage c).bufferLength := by
    show 3 + topic.bytes.length + 2 ≤ c.bufferLength
    omega
  obtain ⟨c₁, hsome, -⟩ := appendString_building h.building hroom
  obtain ⟨hb, hl, -⟩ := appendString_first h.fitted hsome
  have hdata : c₁.message.length + data.length ≤ c₁.bufferLength := by
    rw [hb.length_eq, hl, List.length_append]
    show 3 + (2 + topic.bytes.length) + data.length ≤ mqttBufSize
    omega
  have hmsg : (mqttMsgPublish c (some topic) data 0 retain).1 =
      finiMessage (appendBytes c₁ data) .publish 0 0 retain := by
    simp [mqttMsgPublish, nonEmpty_some ht, hsome, Nat.not_lt.mpr hdata]
  rw [hmsg]
  exact (hb.append data hdata).finish hl ..

def repeatedPublish (n : Nat) (x : UInt8) : Request :=
  .publish (some sampleName) (List.replicate n x) 0 0

def samplePrefix (n : Nat) : Bytes := 0x30 :: (remaining (n + 3) ++ [0, 1, 0x61])

/-- The publication is built, and its frame has the bytes of the prefix and of the
payload. -/
theorem repeatedPublish_cost {client : MqttClient} (h : Ready client) {n : Nat}
    (hn : n + 6 ≤ mqttBufSize) (x : UInt8) :
    ¬(repeatedPublish n x).Unbuilt client ∧
      cost ((repeatedPublish n x).packet client) =
        (protoCode.body (samplePrefix n)).length + n * (protoCode.escape x).length + 2 := by
  have hroom : 3 + sampleName.bytes.length + 2 + (List.replicate n x).length ≤ mqttBufSize := by
    rw [List.length_replicate]
    show 3 + 1 + 2 + n ≤ mqttBufSize
    omega
  have hfin := mqttMsgPublish_zero h.connection (by decide) hroom 0
  refine ⟨Nat.ne_of_gt hfin.length_pos, ?_⟩
  have hlen : ([0, 1, 0x61] ++ List.replicate n x).length = n + 3 := by
    rw [List.length_append, List.length_replicate, Nat.add_comm]
    rfl
  have hout : (repeatedPublish n x).packet client =
      0x30 :: (remaining ([0, 1, 0x61] ++ List.replicate n x).length ++
        ([0, 1, 0x61] ++ List.replicate n x)) := hfin.outbound
  have hsplit : (repeatedPublish n x).packet client = samplePrefix n ++ List.replicate n x := by
    rw [hout, hlen, ← List.append_assoc]
    rfl
  rw [hsplit, cost, protoCode.length_frame, protoCode.body_append, List.length_append,
    protoCode.length_body_replicate]

theorem Request.call_fits {client : MqttClient} (hready : Ready client) {r : Request}
    (hbuilt : ¬r.Unbuilt client) (answers : Answers)
    (hfit : client.msgQueue.rb.fillCnt + cost (r.packet client) ≤ queueBufferSize) :
    ∃ c, r.call client answers = some (c, [.systemOsPost], true) ∧
      c.msgQueue = (queuePuts client.msgQueue (r.packet client)).1 := by
  obtain ⟨c, hqueue, hcall⟩ := Request.call_loop (fun h => hbuilt h.2) answers
  have hret := queuePuts_ret_iff hready.queue.holds (by rw [hready.queue.size]; decide)
    (r.packet client)
  have hne : ¬ (queuePuts client.msgQueue (r.packet client)).2 = -1 := by
    rw [hret, hready.queue.size, not_not]
    exact hfit
  have hloop : putEvicting answers (r.packet client) (c.msgQueue.rb.fillCnt + 1) c.msgQueue =
      some ((queuePuts client.msgQueue (r.packet client)).1, true) := by
    rw [hqueue, putEvicting]
    simp only [if_neg hne]
  rw [hcall, queueRequest]
  exact ⟨_, congrArg (Option.map _) hloop, rfl⟩

theorem queuePuts_empty {q : Queue} (h : q.InOrder) (hcontent : q.rb.content = []) {m : Bytes}
    (hfit : cost m ≤ queueBufferSize) :
    (queuePuts q m).1.messages = [m] ∧ (queuePuts q m).1.rb.fillCnt = cost m ∧
      (queuePuts q m).1.strides = [cost m] := by
  have hzero : q.rb.fillCnt = 0 := by rw [← q.rb.length_content, hcontent]; rfl
  have hholds : q.Holds [] := ⟨h.holds.ok, by rw [hcontent]; exact .nil⟩
  have hroom : q.rb.fillCnt + cost m ≤ q.rb.size := by rw [hzero, h.size, Nat.zero_add]; exact hfit
  obtain ⟨hput, -, hfill⟩ := queuePuts_fits hholds hroom
  refine ⟨hput.messages_eq, by rw [hfill, hzero, Nat.zero_add], ?_⟩
  obtain ⟨-, -, hcon, -⟩ := protoAddRb_spec h.holds.ok m
  show Stuffing.strides protoCode 0 (protoAddRb q.rb m).1.content = _
  rw [hcon, hcontent, List.nil_append, List.take_of_length_le (by unfold cost at hroom; omega)]
  have hone := strides_frame (k := protoCode) m []
  rwa [List.append_nil] at hone

theorem sampleFilled :
    ∃ tr w m, ClientRun sampleSetup tr w ∧ w.client.msgQueue.messages = [m] ∧
      ∀ p, w.client.msgQueue.Admits p ↔ 1008 + cost p ≤ 1792 ∨ cost p ≤ 1008 := by
  have hready : Ready sampleSetup.world.client := ClientRun.ready .nil
  obtain ⟨hbuilt, hcost⟩ := repeatedPublish_cost hready (n := 1000) (by decide) 0
  have hsum : (protoCode.body (samplePrefix 1000)).length +
      1000 * (protoCode.escape 0).length + 2 = 1008 := rfl
  rw [hsum] at hcost
  obtain ⟨c, hcall, hqueue⟩ := Request.call_fits hready hbuilt sampleAnswers
    (by rw [hcost]; decide)
  obtain ⟨hmessages, hfill, hstrides⟩ := queuePuts_empty hready.queue rfl
    (show cost ((repeatedPublish 1000 0).packet sampleSetup.world.client) ≤ _ by
      rw [hcost]; decide)
  rw [hcost, ← hqueue] at hfill hstrides
  rw [← hqueue] at hmessages
  have hhandle : (Event.publish (some sampleName) (List.replicate 1000 0) 0 0).handle
      sampleSetup.world.client sampleSetup.world.net.fresh sampleAnswers =
        some (c, [.systemOsPost]) := by
    rw [Request.handle_publish, ← repeatedPublish, hcall]
    rfl
  have hrun : ClientRun sampleSetup _ _ := Run.single (step_eq sampleAnswers rfl hhandle)
  refine ⟨_, _, _, hrun, hmessages, fun p => ?_⟩
  have hsize : c.msgQueue.rb.size = 1792 := (ClientRun.ready hrun).queue.size
  simp only [Queue.Admits, hfill, hstrides, hsize, List.mem_singleton, exists_eq_left]

/-- A packet that fits neither behind the message in the queue nor into its place is not
put. -/
theorem sampleUnputtable {n k : Nat} {x : UInt8} (hn : n + 6 ≤ mqttBufSize)
    (hsum : (protoCode.body (samplePrefix n)).length + n * (protoCode.escape x).length + 2 = k)
    (hbig : ¬(1008 + k ≤ 1792 ∨ k ≤ 1008)) :
    ∃ tr w m c out, ClientRun sampleSetup tr w ∧ w.client.msgQueue.messages = [m] ∧
      ¬(repeatedPublish n x).Unbuilt w.client ∧
      cost ((repeatedPublish n x).packet w.client) = k ∧
      (repeatedPublish n x).call w.client sampleAnswers = some (c, out, false) := by
  obtain ⟨tr, w, m, hrun, hmessages, hadmits⟩ := sampleFilled
  have hready := ClientRun.ready hrun
  obtain ⟨hbuilt, hcost⟩ := repeatedPublish_cost hready hn x
  rw [hsum] at hcost
  obtain ⟨c, out, b, hcall, hiff, -⟩ :=
    Request.call_evicts hready (fun h => hbuilt h.2) sampleAnswers
  rw [hadmits, hcost] at hiff
  have hfalse : b = false := Bool.eq_false_iff.mpr fun hb => hbig (hiff.mp hb)
  exact ⟨tr, w, m, c, out, hrun, hmessages, hbuilt, hcost, by rw [hcall, hfalse]⟩

/-- A packet of 1108 bytes, which the empty ring has room for, is not put: the message
before it takes fewer bytes. -/
theorem publish_not_delivered :
    ∃ tr w r, ClientRun sampleSetup tr w ∧ ¬Request.Unbuilt w.client r ∧
      cost (r.packet w.client) ≤ queueBufferSize ∧
      ∃ c out, r.call w.client sampleAnswers = some (c, out, false) := by
  obtain ⟨tr, w, m, c, out, hrun, -, hbuilt, hcost, hcall⟩ :=
    sampleUnputtable (n := 1100) (x := 0) (k := 1108) (by decide) rfl (by decide)
  exact ⟨tr, w, _, hrun, hbuilt, by rw [hcost]; decide, c, out, hcall⟩

/-- A packet of 998 bytes is put once the message before it is evicted. -/
theorem request_delivers_shorter :
    ∃ tr w, ClientRun sampleSetup tr w ∧ w.client.msgQueue.messages.length = 1 ∧
      ∃ c out k, (repeatedPublish 990 0).call w.client sampleAnswers = some (c, out, true) ∧
        c.msgQueue.messages =
          w.client.msgQueue.messages.drop k ++ [(repeatedPublish 990 0).packet w.client] := by
  obtain ⟨tr, w, m, hrun, hmessages, hadmits⟩ := sampleFilled
  obtain ⟨hbuilt, hcost⟩ := repeatedPublish_cost (ClientRun.ready hrun) (n := 990) (by decide) 0
  have hsum : (protoCode.body (samplePrefix 990)).length +
      990 * (protoCode.escape 0).length + 2 = 998 := rfl
  rw [hsum] at hcost
  obtain ⟨c, out, b, hcall, hiff⟩ := request_delivers_iff hrun _ sampleAnswers hbuilt
  rw [hadmits, hcost] at hiff
  obtain ⟨rfl, k, hk⟩ := hiff.mpr (by decide)
  exact ⟨tr, w, hrun, by rw [hmessages]; rfl, c, out, k, hcall, hk⟩

theorem sampleOversized :
    ∃ tr w m c out, ClientRun sampleSetup tr w ∧ w.client.msgQueue.messages = [m] ∧
      (repeatedPublish 900 0x7E).call w.client sampleAnswers = some (c, out, false) ∧
      queueBufferSize < cost ((repeatedPublish 900 0x7E).packet w.client) := by
  obtain ⟨tr, w, m, c, out, hrun, hmessages, -, hcost, hcall⟩ :=
    sampleUnputtable (n := 900) (x := 0x7E) (k := 1808) (by decide) rfl (by decide)
  exact ⟨tr, w, m, c, out, hrun, hmessages, hcall, by rw [hcost]; decide⟩

/-- It fails, and the message before it is gone. -/
theorem failed_publish_evicts :
    ∃ tr w r c out, ClientRun sampleSetup tr w ∧
      Request.call w.client sampleAnswers r = some (c, out, false) ∧
      c.msgQueue.messages ≠ w.client.msgQueue.messages := by
  obtain ⟨tr, w, m, c, out, hrun, hmessages, hcall, hcost⟩ := sampleOversized
  have hready := ClientRun.ready hrun
  obtain ⟨hbuilt, -⟩ := repeatedPublish_cost hready (n := 900) (by decide) 0x7E
  obtain ⟨c', out', b, hcall', -, -, hfailed⟩ :=
    Request.call_evicts hready (fun h => hbuilt h.2) sampleAnswers
  obtain ⟨rfl, heq⟩ := Prod.mk.inj (Option.some.inj (hcall'.symm.trans hcall))
  refine ⟨tr, w, _, c', out, hrun, hcall, ?_⟩
  rw [hfailed (Prod.mk.inj heq).2, hmessages]
  exact (List.cons_ne_nil m []).symm

theorem request_fails_oversized :
    ∃ tr w c out, ClientRun sampleSetup tr w ∧ w.client.msgQueue.messages ≠ [] ∧
      (repeatedPublish 900 0x7E).call w.client sampleAnswers = some (c, out, false) ∧
      c.msgQueue.messages = [] := by
  obtain ⟨tr, w, m, c, out, hrun, hmessages, hcall, hcost⟩ := sampleOversized
  refine ⟨tr, w, c, out, hrun, by rw [hmessages]; simp, hcall, ?_⟩
  exact (request_fails hrun _ sampleAnswers hcall).2.2 hcost

end Mqtt
end EspMisc
