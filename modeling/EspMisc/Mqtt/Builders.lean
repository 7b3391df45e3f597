/-
What the builders of `mqtt_msg.c` leave in their connection.

A builder gives up and leaves an empty message, `Failed`, or it leaves a packet,
`Finished`.  Each builder has one lemma that says which packet.  The lemmas hold for a
buffer of any size, and `builders_framed` puts them together for the sizes whose
remaining length fits two bytes.
-/
import EspMisc.Mqtt.Layout

namespace EspMisc
namespace Mqtt

/-- The connection has the whole of a buffer of `n` bytes to build in. -/
structure Fitted (n : Nat) (c : MqttConnection) : Prop where
  bufferLength : c.bufferLength = n
  length_buffer : c.buffer.length = n

/-- No message was built. -/
structure Failed (n : Nat) (c : MqttConnection) : Prop extends Fitted n c where
  length_eq : c.message.length = 0

/-- A packet was built, and it lies in the buffer. -/
structure Finished (n : Nat) (c : MqttConnection) (header : UInt8) (body : Bytes) : Prop
    extends Fitted n c where
  outbound : c.outbound = packet header body
  length_eq : c.message.length = (packet header body).length
  end_eq : c.message.data + c.message.length = maxFixedHeaderSize + body.length
  fits : maxFixedHeaderSize + body.length ≤ n

theorem Building.fitted {c : MqttConnection} {body : Bytes} {n : Nat} (h : Building c body)
    (hn : c.bufferLength = n) : Fitted n c := ⟨hn, h.length_buffer.trans hn⟩

theorem Fitted.initMessage {n : Nat} {c : MqttConnection} (h : Fitted n c) :
    Fitted n (initMessage c) := ⟨h.1, h.2⟩

theorem Fitted.building {n : Nat} {c : MqttConnection} (h : Fitted n c) (hn : 3 ≤ n) :
    Building (Mqtt.initMessage c) [] :=
  initMessage_building (h.length_buffer.trans h.bufferLength.symm) (h.bufferLength.symm ▸ hn)

theorem Fitted.fail {n : Nat} {c : MqttConnection} (h : Fitted n c) : Failed n (failMessage c) :=
  ⟨⟨h.1, h.2⟩, rfl⟩

@[simp] theorem finiMessage_bufferLength (c : MqttConnection) (type : MessageType)
    (dup qos retain : Int) :
    (finiMessage c type dup qos retain).bufferLength = c.bufferLength := by
  simp only [finiMessage]
  split <;> rfl

theorem Building.finish {n : Nat} {c : MqttConnection} {body : Bytes} (h : Building c body)
    (hn : c.bufferLength = n) (type : MessageType) (dup qos retain : Int) :
    Finished n (finiMessage c type dup qos retain) (headerByte type dup qos retain) body := by
  obtain ⟨hout, hbuf⟩ := finiMessage_outbound h type dup qos retain
  obtain ⟨hlen, hend⟩ := finiMessage_message h type dup qos retain
  exact ⟨⟨(finiMessage_bufferLength ..).trans hn, hbuf.trans hn⟩, hout, hlen, hend, hn ▸ h.fits⟩

/-- A finished message is not empty, so the length tells the two ends apart. -/
theorem Finished.length_pos {n : Nat} {c : MqttConnection} {header : UInt8} {body : Bytes}
    (h : Finished n c header body) : 0 < c.message.length := by
  rw [h.length_eq]
  exact Nat.succ_pos _

/-- A builder ends in one of the two ways. -/
def Built (n : Nat) (c : MqttConnection) (header : UInt8) (body : Bytes) : Prop :=
  Failed n c ∨ Finished n c header body

theorem Built.fitted {n : Nat} {c : MqttConnection} {header : UInt8} {body : Bytes}
    (h : Built n c header body) : Fitted n c := h.elim (·.toFitted) (·.toFitted)

theorem Built.finished {n : Nat} {c : MqttConnection} {header : UInt8} {body : Bytes}
    (h : Built n c header body) (hlen : c.message.length ≠ 0) : Finished n c header body :=
  h.resolve_left fun hfail => hlen hfail.length_eq

/-! ## The appends -/

theorem appendString_isSome_iff (c : MqttConnection) (s : Bytes) :
    (appendString c s).isSome ↔ c.message.length + s.length + 2 ≤ c.bufferLength := by
  unfold appendString
  split
  · next h => exact iff_of_false (by simp) (Nat.not_le.mpr h)
  · next h => exact iff_of_true (by simp) (Nat.not_lt.mp h)

theorem appendString_some {c c' : MqttConnection} {body s : Bytes} (h : Building c body)
    (hs : appendString c s = some c') :
    Building c' (body ++ word s.length ++ s) ∧ c'.bufferLength = c.bufferLength ∧
      c'.messageId = c.messageId := by
  have hfit := (appendString_isSome_iff c s).mp (by rw [hs]; rfl)
  obtain ⟨c'', hsome, hbuild⟩ := appendString_building h hfit
  obtain rfl := Option.some.inj (hs.symm.trans hsome)
  exact hbuild

/-- The first string of a message is appended only where the header has its bytes. -/
theorem appendString_first {n : Nat} {c c' : MqttConnection} {s : Bytes} (h : Fitted n c)
    (hs : appendString (initMessage c) s = some c') :
    Building c' (word s.length ++ s) ∧ c'.bufferLength = n ∧ c'.messageId = c.messageId := by
  have hfit := (appendString_isSome_iff (initMessage c) s).mp (by rw [hs]; rfl)
  have hthree : 3 ≤ n := by
    have : 3 + s.length + 2 ≤ n := h.bufferLength ▸ hfit
    omega
  obtain ⟨hb, hl, hid⟩ := appendString_some (h.building hthree) hs
  exact ⟨hb, hl.trans h.bufferLength, hid⟩

theorem nextId_pos (n : Nat) : 0 < nextId n := by
  unfold nextId
  split <;> omega

theorem nextId_lt (n : Nat) : nextId n < 65536 := by
  unfold nextId
  split <;> omega

/-- The identifier does not fit, or it is appended. -/
theorem appendMessageId_cases {c : MqttConnection} {body : Bytes} (h : Building c body)
    (id : Nat) :
    let appended := appendMessageId c id
    appended.1.bufferLength = c.bufferLength ∧ appended.1.buffer.length = c.bufferLength ∧
      (appended.2 = 0 ∨ appended.2 = (if id = 0 then nextId c.messageId else id) ∧
        Building appended.1 (body ++ word appended.2)) := by
  by_cases hfit : c.message.length + 2 ≤ c.bufferLength
  · obtain ⟨hb, hl, -, hval⟩ := appendMessageId_building h hfit id
    exact ⟨hl, hb.length_buffer.trans hl, Or.inr ⟨hval, hb⟩⟩
  · simp only [appendMessageId]
    by_cases hid : id = 0
    · simp only [hid, if_true, if_pos (Nat.not_le.mp hfit)]
      exact ⟨trivial, h.length_buffer, Or.inl trivial⟩
    · simp only [hid, if_false, if_pos (Nat.not_le.mp hfit)]
      exact ⟨trivial, h.length_buffer, Or.inl trivial⟩

/-! ## The builders -/

theorem nonEmpty_some {s : CString} (h : s.bytes ≠ []) : nonEmpty (some s) = some s.bytes :=
  if_neg h

/-- The identifier of a PUBLISH, at the levels that have one. -/
def publishId (qos : Int) (id : Nat) : Bytes := if qos > 0 then word id else []

theorem mqttMsgPublish_built {n : Nat} {c : MqttConnection} (h : Fitted n c)
    {topic : Option CString} {t : Bytes} (ht : nonEmpty topic = some t) (data : Bytes)
    (qos retain : Int) :
    let built := mqttMsgPublish c topic data qos retain
    Failed n built.1 ∨
      Finished n built.1 (headerByte .publish 0 qos retain)
        (word t.length ++ t ++ publishId qos (nextId c.messageId) ++ data) ∧
      built.2 = some (if qos > 0 then nextId c.messageId else 0) := by
  simp only [mqttMsgPublish, ht, publishId]
  cases hs : appendString (initMessage c) t with
  | none => exact Or.inl h.initMessage.fail
  | some c₁ =>
    obtain ⟨hb, hl, hid⟩ := appendString_first h hs
    by_cases hq : qos > 0
    · obtain ⟨hl₂, hlen₂, hcases⟩ := appendMessageId_cases hb 0
      have hfit₂ : Fitted n (appendMessageId c₁ 0).1 := ⟨hl₂.trans hl, hlen₂.trans hl⟩
      simp only [hq, if_true, true_and]
      split
      · exact Or.inl hfit₂.fail
      · next hne =>
        obtain ⟨hval, hb₂⟩ := hcases.resolve_left hne
        rw [if_pos rfl, hid] at hval
        split
        · exact Or.inl hfit₂.fail
        · next hroom =>
          rw [hval] at hb₂ ⊢
          exact Or.inr ⟨(hb₂.append data (Nat.not_lt.mp hroom)).finish (hl₂.trans hl) .., rfl⟩
    · simp only [hq, if_false, false_and]
      split
      · exact Or.inl (hb.fitted hl).fail
      · next hroom =>
        rw [List.append_nil]
        exact Or.inr ⟨(hb.append data (Nat.not_lt.mp hroom)).finish hl .., rfl⟩

/-- The room for an identifier right behind the header includes that for the header. -/
theorem appendMessageId_first {n : Nat} {c : MqttConnection} (h : Fitted n c) (id : Nat) :
    let appended := appendMessageId (initMessage c) id
    Fitted n appended.1 ∧
      (appended.2 = 0 ∨ appended.2 = (if id = 0 then nextId c.messageId else id) ∧
        Building appended.1 (word appended.2)) := by
  by_cases hthree : 3 ≤ n
  · obtain ⟨hl, hlen, hcases⟩ := appendMessageId_cases (h.building hthree) id
    exact ⟨⟨hl.trans h.bufferLength, hlen.trans h.bufferLength⟩, hcases⟩
  · have hfull : (initMessage c).message.length + 2 > (initMessage c).bufferLength := by
      show 3 + 2 > c.bufferLength
      rw [h.bufferLength]
      omega
    simp only [appendMessageId]
    by_cases hid : id = 0
    · simp only [hid, if_true, if_pos hfull]
      exact ⟨⟨h.1, h.2⟩, Or.inl trivial⟩
    · simp only [hid, if_false, if_pos hfull]
      exact ⟨⟨h.1, h.2⟩, Or.inl trivial⟩

theorem mqttMsgAck_built {n : Nat} {c : MqttConnection} (h : Fitted n c) (type : MessageType)
    (qos : Int) (id : Nat) :
    Built n (mqttMsgAck c type qos id) (headerByte type 0 qos 0)
      (word (if id = 0 then nextId c.messageId else id)) := by
  obtain ⟨hfit, hcases⟩ := appendMessageId_first h id
  simp only [mqttMsgAck]
  split
  · exact Or.inl hfit.fail
  · next hne =>
    obtain ⟨hval, hb⟩ := hcases.resolve_left hne
    rw [hval] at hb
    exact Or.inr (hb.finish hfit.bufferLength ..)

theorem mqttMsgSubscribe_built {n : Nat} {c : MqttConnection} (h : Fitted n c)
    {topic : Option CString} {t : Bytes} (ht : nonEmpty topic = some t) (qos : Int) :
    let built := mqttMsgSubscribe c topic qos
    Failed n built.1 ∨
      Finished n built.1 (headerByte .subscribe 0 1 0)
        (word (nextId c.messageId) ++ (word t.length ++ t ++ [UInt8.ofInt qos])) ∧
      built.2 = some (nextId c.messageId) := by
  obtain ⟨hfit, hcases⟩ := appendMessageId_first h 0
  simp only [mqttMsgSubscribe, ht]
  split
  · exact Or.inl hfit.fail
  · next hne =>
    obtain ⟨hval, hb⟩ := hcases.resolve_left hne
    rw [if_pos rfl] at hval
    split
    · exact Or.inl hfit.fail
    · next c₁ hs =>
      obtain ⟨hb₁, hl₁, -⟩ := appendString_some hb hs
      split
      · exact Or.inl (hb₁.fitted (hl₁.trans hfit.bufferLength)).fail
      · next hroom =>
        have hfin := hb₁.append [UInt8.ofInt qos] (by rw [List.length_singleton]; omega)
        rw [List.append_assoc, List.append_assoc, hval] at hfin
        rw [hval]
        exact Or.inr ⟨hfin.finish (hl₁.trans hfit.bufferLength) .., rfl⟩

theorem mqttMsgUnsubscribe_built {n : Nat} {c : MqttConnection} (h : Fitted n c)
    {topic : Option CString} {t : Bytes} (ht : nonEmpty topic = some t) :
    let built := mqttMsgUnsubscribe c topic
    Failed n built.1 ∨
      Finished n built.1 (headerByte .unsubscribe 0 1 0)
        (word (nextId c.messageId) ++ (word t.length ++ t)) ∧
      built.2 = some (nextId c.messageId) := by
  obtain ⟨hfit, hcases⟩ := appendMessageId_first h 0
  simp only [mqttMsgUnsubscribe, ht]
  split
  · exact Or.inl hfit.fail
  · next hne =>
    obtain ⟨hval, hb⟩ := hcases.resolve_left hne
    rw [if_pos rfl] at hval
    split
    · exact Or.inl hfit.fail
    · next c₁ hs =>
      obtain ⟨hb₁, hl₁, -⟩ := appendString_some hb hs
      rw [List.append_assoc, hval] at hb₁
      rw [hval]
      exact Or.inr ⟨hb₁.finish (hl₁.trans hfit.bufferLength) .., rfl⟩

/-- PINGREQ, PINGRESP and DISCONNECT have no body. -/
theorem finiMessage_built {n : Nat} {c : MqttConnection} (h : Fitted n c) (hn : 3 ≤ n)
    (type : MessageType) :
    Built n (finiMessage (initMessage c) type 0 0 0) (headerByte type 0 0 0) [] :=
  Or.inr ((h.building hn).finish h.bufferLength ..)

/-! ## CONNECT -/

/-- The name of the protocol and its level. -/
def connectProtocol : Bytes := [0, 4, 0x4d, 0x51, 0x54, 0x54, 4]

/-- The variable header of CONNECT. -/
def connectHead (info : ConnectInfo) (flags : UInt8) : Bytes :=
  connectProtocol ++ flags :: word info.keepalive

/-- A string with its length before it. -/
def field (s : Bytes) : Bytes := word s.length ++ s

def optionalField : Option Bytes → Bytes
  | none => []
  | some s => field s

def optionalFlag (s : Option Bytes) (flag : UInt8) : UInt8 := if s.isSome then flag else 0

def willFlags (info : ConnectInfo) : UInt8 :=
  match nonEmpty info.willTopic with
  | none => 0
  | some _ =>
    (0x04 : UInt8) ||| (if info.willRetain ≠ 0 then (0x20 : UInt8) else 0) |||
      UInt8.ofNat ((info.willQos &&& 3) <<< 3)

def willFields (info : ConnectInfo) : Bytes :=
  match nonEmpty info.willTopic with
  | none => []
  | some topic => field topic ++ field (info.willMessage.elim [] CString.bytes)

def connectFlags (info : ConnectInfo) : UInt8 :=
  (if info.cleanSession ≠ 0 then 0x02 else 0) ||| willFlags info |||
    optionalFlag (nonEmpty info.username) 0x80 ||| optionalFlag (nonEmpty info.password) 0x40

def connectFields (info : ConnectInfo) (clientId : Bytes) : Bytes :=
  field clientId ++ willFields info ++ optionalField (nonEmpty info.username) ++
    optionalField (nonEmpty info.password)

theorem poke_at (a b : Bytes) (x y : UInt8) : poke (a ++ x :: b) a.length [y] = a ++ y :: b := by
  simp [poke]

/-- The bytes around what has been appended. -/
theorem Building.buffer_eq {c : MqttConnection} {body : Bytes} (h : Building c body) :
    c.buffer = c.buffer.take 3 ++ (body ++ c.buffer.drop (3 + body.length)) ∧
      (c.buffer.take 3).length = 3 := by
  have hfits := h.fits
  have hbody : (c.buffer.drop 3).take body.length = body := h.body_eq
  unfold maxFixedHeaderSize at hfits
  refine ⟨?_, ?_⟩
  · calc c.buffer = c.buffer.take 3 ++ c.buffer.drop 3 := (List.take_append_drop 3 _).symm
      _ = c.buffer.take 3 ++ ((c.buffer.drop 3).take body.length ++
          (c.buffer.drop 3).drop body.length) := by
        rw [List.take_append_drop body.length, List.take_append_drop]
      _ = c.buffer.take 3 ++ (body ++ c.buffer.drop (3 + body.length)) := by
        rw [hbody, List.drop_drop]
  · rw [List.length_take, h.length_buffer]
    omega

theorem Building.orFlag {c : MqttConnection} {info : ConnectInfo} {flags : UInt8}
    {fields : Bytes} (h : Building c (connectHead info flags ++ fields)) (flag : UInt8) :
    Building (orFlag c flag) (connectHead info (flags ||| flag) ++ fields) := by
  obtain ⟨hbuf, hthree⟩ := h.buffer_eq
  generalize c.buffer.take 3 = front at hbuf hthree
  generalize c.buffer.drop _ = back at hbuf
  have hsplit : ∀ x, front ++ (connectHead info x ++ fields ++ back) =
      (front ++ connectProtocol) ++ x :: (word info.keepalive ++ fields ++ back) := by
    intro x
    simp [connectHead]
  have hten : (front ++ connectProtocol).length = 10 := by
    rw [List.length_append, hthree]
    rfl
  have hbyte : byteAt c.buffer 10 = flags := by
    have hat := byteAt_append_right (front ++ connectProtocol)
      (flags :: (word info.keepalive ++ fields ++ back)) 0
    rw [hten] at hat
    rw [hbuf, hsplit]
    exact hat
  have hnew : (Mqtt.orFlag c flag).buffer =
      front ++ (connectHead info (flags ||| flag) ++ fields ++ back) := by
    show poke c.buffer 10 [byteAt c.buffer 10 ||| flag] = _
    rw [hbyte, hbuf, hsplit, hsplit, ← hten, poke_at]
  have hlen : (connectHead info (flags ||| flag) ++ fields).length =
      (connectHead info flags ++ fields).length := by
    simp [connectHead]
  refine ⟨?_, ?_, ?_, ?_⟩
  · rw [hnew, ← show c.buffer.length = (Mqtt.orFlag c flag).bufferLength from h.length_buffer,
      hbuf]
    simp [connectHead]
  · rw [hlen]
    exact h.fits
  · rw [hlen]
    exact h.length_eq
  · rw [hnew, show maxFixedHeaderSize = front.length from hthree.symm, List.drop_left,
      List.take_left]

theorem Building.orFlagIf {c : MqttConnection} {info : ConnectInfo} {flags : UInt8}
    {fields : Bytes} (h : Building c (connectHead info flags ++ fields)) (p : Prop) [Decidable p]
    (flag : UInt8) :
    Building (if p then Mqtt.orFlag c flag else c)
      (connectHead info (flags ||| if p then flag else 0) ++ fields) := by
  split
  · exact h.orFlag flag
  · rw [UInt8.or_zero]
    exact h

theorem Building.appendOptional {c c' : MqttConnection} {info : ConnectInfo} {flags : UInt8}
    {fields : Bytes} (h : Building c (connectHead info flags ++ fields)) {s : Option CString}
    {flag : UInt8} (hs : appendOptional c s flag = some c') :
    Building c' (connectHead info (flags ||| optionalFlag (nonEmpty s) flag) ++
        (fields ++ optionalField (nonEmpty s))) ∧ c'.bufferLength = c.bufferLength := by
  simp only [Mqtt.appendOptional] at hs
  cases hne : nonEmpty s with
  | none =>
    rw [hne] at hs
    obtain rfl := Option.some.inj hs
    simp only [optionalFlag, optionalField, List.append_nil, Option.isSome_none,
      Bool.false_eq_true, if_false, UInt8.or_zero]
    exact ⟨h, trivial⟩
  | some t =>
    rw [hne] at hs
    obtain ⟨c₁, hs₁, rfl⟩ := Option.map_eq_some_iff.mp hs
    obtain ⟨hb, hl, -⟩ := appendString_some h hs₁
    rw [List.append_assoc, List.append_assoc] at hb
    exact ⟨hb.orFlag flag, hl⟩

/-- The will does not fit, or it is appended with its flags. -/
theorem appendWill_cases {c : MqttConnection} {info : ConnectInfo} {flags : UInt8}
    {fields : Bytes} (h : Building c (connectHead info flags ++ fields)) :
    let will := appendWill c info
    Fitted c.bufferLength will.1 ∧ (will.2 = true →
      Building will.1 (connectHead info (flags ||| willFlags info) ++
        (fields ++ willFields info))) := by
  simp only [appendWill, willFlags, willFields]
  cases nonEmpty info.willTopic with
  | none =>
    simp only [UInt8.or_zero, List.append_nil]
    exact ⟨h.fitted rfl, fun _ => h⟩
  | some topic =>
    simp only
    split
    · exact ⟨h.fitted rfl, fun hok => absurd hok (by simp)⟩
    · next c₁ hs =>
      obtain ⟨hb₁, hl₁, -⟩ := appendString_some h hs
      split
      · exact ⟨hb₁.fitted hl₁, fun hok => absurd hok (by simp)⟩
      · next c₂ hs₂ =>
        obtain ⟨hb₂, hl₂, -⟩ := appendString_some hb₁ hs₂
        simp only [List.append_assoc] at hb₂
        have hb₃ := ((hb₂.orFlag 0x04).orFlagIf (info.willRetain ≠ 0) 0x20).orFlag
          (UInt8.ofNat ((info.willQos &&& 3) <<< 3))
        have hl₃ : (Mqtt.orFlag (if info.willRetain ≠ 0 then
            Mqtt.orFlag (Mqtt.orFlag c₂ 0x04) 0x20 else Mqtt.orFlag c₂ 0x04)
              (UInt8.ofNat ((info.willQos &&& 3) <<< 3))).bufferLength = c.bufferLength := by
          refine Eq.trans ?_ (hl₂.trans hl₁)
          split <;> rfl
        refine ⟨hb₃.fitted hl₃, fun _ => ?_⟩
        simp only [field, ← UInt8.or_assoc, List.append_assoc]
        exact hb₃

/-- The variable header, with the flag of a clean session. -/
theorem connectHeader_building {n : Nat} {c : MqttConnection} (h : Fitted n c)
    (info : ConnectInfo)
    (hroom : ¬ (initMessage c).message.length + connectHeaderSize > (initMessage c).bufferLength) :
    let c₀ := appendBytes (initMessage c) (connectHeader info)
    let c₁ := if info.cleanSession ≠ 0 then orFlag c₀ 0x02 else c₀
    Building c₁ (connectHead info (if info.cleanSession ≠ 0 then 0x02 else 0) ++ []) ∧
      c₁.bufferLength = n := by
  have hn : 13 ≤ n := by
    have : ¬ 3 + 10 > c.bufferLength := hroom
    rw [h.bufferLength] at this
    omega
  have hb : Building (appendBytes (initMessage c) (connectHeader info))
      (connectHead info 0 ++ []) :=
    (h.building (by omega)).append _ (Nat.not_lt.mp hroom)
  have hb₁ := hb.orFlagIf (info.cleanSession ≠ 0) 0x02
  rw [UInt8.zero_or] at hb₁
  refine ⟨hb₁, ?_⟩
  refine Eq.trans ?_ h.bufferLength
  split <;> rfl

theorem mqttMsgConnect_failed {n : Nat} {c : MqttConnection} (h : Fitted n c)
    {info : ConnectInfo} (hid : nonEmpty info.clientId = none) :
    Failed n (mqttMsgConnect c info) := by
  simp only [mqttMsgConnect, hid]
  split
  · exact h.initMessage.fail
  · next hroom =>
    obtain ⟨hb, hl⟩ := connectHeader_building h info hroom
    exact (hb.fitted hl).fail

theorem mqttMsgConnect_built {n : Nat} {c : MqttConnection} (h : Fitted n c)
    {info : ConnectInfo} {clientId : Bytes} (hid : nonEmpty info.clientId = some clientId) :
    Built n (mqttMsgConnect c info) (headerByte .connect 0 0 0)
      (connectHead info (connectFlags info) ++ connectFields info clientId) := by
  simp only [mqttMsgConnect, hid]
  split
  · exact Or.inl h.initMessage.fail
  · next hroom =>
    obtain ⟨hb₁, hl₁⟩ := connectHeader_building h info hroom
    split
    · exact Or.inl (hb₁.fitted hl₁).fail
    · next c₂ hs₂ =>
      obtain ⟨hb₂, hl₂, -⟩ := appendString_some hb₁ hs₂
      simp only [List.append_nil, List.append_assoc] at hb₂
      obtain ⟨hfit₃, hwill⟩ := appendWill_cases hb₂
      rw [hl₂, hl₁] at hfit₃
      split
      · exact Or.inl hfit₃.fail
      · next hok =>
        have hb₃ := hwill (by simpa using hok)
        split
        · exact Or.inl hfit₃.fail
        · next c₄ hs₄ =>
          obtain ⟨hb₄, hl₄⟩ := hb₃.appendOptional hs₄
          split
          · exact Or.inl (hb₄.fitted (hl₄.trans hfit₃.bufferLength)).fail
          · next c₅ hs₅ =>
            obtain ⟨hb₅, hl₅⟩ := hb₄.appendOptional hs₅
            have hfin := hb₅.finish (hl₅.trans (hl₄.trans hfit₃.bufferLength)) .connect 0 0 0
            exact Or.inr (by simpa only [connectFlags, connectFields, field,
              List.append_assoc] using hfin)

/-! ## All of them -/

/-- A call of a builder. -/
inductive Build where
  | connect (info : ConnectInfo)
  | publish (topic : Option CString) (data : Bytes) (qos retain : Int)
  | puback (messageId : Nat)
  | pubrec (messageId : Nat)
  | pubrel (messageId : Nat)
  | pubcomp (messageId : Nat)
  | subscribe (topic : Option CString) (qos : Int)
  | unsubscribe (topic : Option CString)
  | pingreq
  | pingresp
  | disconnect

namespace Build

def run (c : MqttConnection) : Build → MqttConnection
  | connect info => mqttMsgConnect c info
  | publish topic data qos retain => (mqttMsgPublish c topic data qos retain).1
  | puback messageId => mqttMsgPuback c messageId
  | pubrec messageId => mqttMsgPubrec c messageId
  | pubrel messageId => mqttMsgPubrel c messageId
  | pubcomp messageId => mqttMsgPubcomp c messageId
  | subscribe topic qos => (mqttMsgSubscribe c topic qos).1
  | unsubscribe topic => (mqttMsgUnsubscribe c topic).1
  | pingreq => mqttMsgPingreq c
  | pingresp => mqttMsgPingresp c
  | disconnect => mqttMsgDisconnect c

def type : Build → MessageType
  | connect _ => .connect
  | publish .. => .publish
  | puback _ => .puback
  | pubrec _ => .pubrec
  | pubrel _ => .pubrel
  | pubcomp _ => .pubcomp
  | subscribe .. => .subscribe
  | unsubscribe _ => .unsubscribe
  | pingreq => .pingreq
  | pingresp => .pingresp
  | disconnect => .disconnect

/-- The lower half of the first byte, as MQTT has it. -/
def flags : Build → Nat
  | publish _ _ qos retain => 2 * qos.toNat + (retain % 2).toNat
  | pubrel _ | subscribe .. | unsubscribe _ => 2
  | _ => 0

/-- The payload's length is an `int`, an identifier has 16 bits, and there are three
levels of service. -/
def Valid : Build → Prop
  | publish _ data qos _ => data.length < 2 ^ 30 ∧ 0 ≤ qos ∧ qos ≤ 2
  | puback messageId | pubrec messageId | pubrel messageId | pubcomp messageId =>
    messageId < 65536
  | subscribe _ qos => 0 ≤ qos ∧ qos ≤ 2
  | _ => True

def header (b : Build) : UInt8 := UInt8.ofNat (16 * b.type.code + b.flags)

/-- Every builder gives up or leaves a packet, and a valid call leaves its header. -/
theorem built {n : Nat} {c : MqttConnection} (h : Fitted n c) (hn : 3 ≤ n) (b : Build) :
    ∃ header body, Built n (b.run c) header body ∧ (b.Valid → header = b.header) := by
  cases b with
  | connect info =>
    cases hid : nonEmpty info.clientId with
    | none => exact ⟨_, [], Or.inl (mqttMsgConnect_failed h hid), fun _ => rfl⟩
    | some clientId => exact ⟨_, _, mqttMsgConnect_built h hid, fun _ => rfl⟩
  | publish topic data qos retain =>
    cases ht : nonEmpty topic with
    | none =>
      refine ⟨_, [], Or.inl ?_, fun _ => rfl⟩
      simp only [run, mqttMsgPublish, ht]
      exact h.initMessage.fail
    | some t =>
      refine ⟨_, _, (mqttMsgPublish_built h ht data qos retain).imp_right And.left, fun hv => ?_⟩
      have hlow : lowBits qos 4 = qos.toNat :=
        congrArg Int.toNat (Int.emod_eq_of_lt hv.2.1 (by have := hv.2.2; omega))
      rw [headerByte_eq, hlow]
      rfl
  | subscribe topic qos =>
    cases ht : nonEmpty topic with
    | none =>
      refine ⟨_, [], Or.inl ?_, fun _ => rfl⟩
      simp only [run, mqttMsgSubscribe, ht]
      exact h.initMessage.fail
    | some t =>
      exact ⟨_, _, (mqttMsgSubscribe_built h ht qos).imp_right And.left, fun _ => rfl⟩
  | unsubscribe topic =>
    cases ht : nonEmpty topic with
    | none =>
      refine ⟨_, [], Or.inl ?_, fun _ => rfl⟩
      simp only [run, mqttMsgUnsubscribe, ht]
      exact h.initMessage.fail
    | some t => exact ⟨_, _, (mqttMsgUnsubscribe_built h ht).imp_right And.left, fun _ => rfl⟩
  | puback id => exact ⟨_, _, mqttMsgAck_built h .puback 0 id, fun _ => rfl⟩
  | pubrec id => exact ⟨_, _, mqttMsgAck_built h .pubrec 0 id, fun _ => rfl⟩
  | pubrel id => exact ⟨_, _, mqttMsgAck_built h .pubrel 1 id, fun _ => rfl⟩
  | pubcomp id => exact ⟨_, _, mqttMsgAck_built h .pubcomp 0 id, fun _ => rfl⟩
  | pingreq => exact ⟨_, _, finiMessage_built h hn .pingreq, fun _ => rfl⟩
  | pingresp => exact ⟨_, _, finiMessage_built h hn .pingresp, fun _ => rfl⟩
  | disconnect => exact ⟨_, _, finiMessage_built h hn .disconnect, fun _ => rfl⟩

/-- No builder writes outside of the buffer. -/
theorem fitted {n : Nat} {c : MqttConnection} (h : Fitted n c) (hn : 3 ≤ n) (b : Build) :
    Fitted n (b.run c) := by
  obtain ⟨header, body, hbuilt, -⟩ := b.built h hn
  exact hbuilt.fitted

end Build

/-- What a builder does to its buffer and to the message: every write falls inside (`poke`
makes the buffer longer where one does not, and nothing makes it shorter), and the message
is empty or a packet that declares its own length. -/
structure WellFramed (b : Build) (c c' : MqttConnection) : Prop where
  inside : c'.buffer.length = c.bufferLength
  message : c'.message.length = 0 ∨
    0 < c'.message.length ∧ c'.message.data + c'.message.length ≤ c.bufferLength ∧
      mqttGetTotalLength (c'.buffer.drop c'.message.data) c'.message.length = c'.message.length ∧
      ∃ body, c'.outbound = b.header :: (varint body.length ++ body)

theorem builders_framed {c : MqttConnection} (hc : c.buffer.length = c.bufferLength)
    (hmin : 3 ≤ c.bufferLength) (hmax : c.bufferLength ≤ 16386) {b : Build} (hb : b.Valid) :
    WellFramed b c (b.run c) := by
  obtain ⟨header, body, hbuilt, hhead⟩ := b.built ⟨rfl, hc⟩ hmin
  obtain rfl := hhead hb
  refine ⟨hbuilt.fitted.length_buffer, ?_⟩
  rcases hbuilt with hfail | hfin
  · exact Or.inl hfail.length_eq
  · have hfits := hfin.fits
    unfold maxFixedHeaderSize at hfits
    have hlen : body.length < 16384 := by omega
    refine Or.inr ⟨hfin.length_pos, hfin.end_eq ▸ hfin.fits, ?_, body, ?_⟩
    · have hsplit : (b.run c).buffer.drop (b.run c).message.data =
          packet b.header body ++
            ((b.run c).buffer.drop (b.run c).message.data).drop (b.run c).message.length := by
        rw [← hfin.outbound, MqttConnection.outbound, List.take_append_drop]
      rw [hsplit, hfin.length_eq]
      exact mqttGetTotalLength_packet b.header hlen _ (Nat.le_refl _)
    · rw [hfin.outbound, packet, remaining_eq_varint hlen]

def sampleConnection (n : Nat) : MqttConnection := mqttMsgInit (List.replicate n 0) n

/-- A PUBREL fills a buffer of five bytes. -/
theorem builders_framed_pubrel :
    WellFramed (.pubrel 7) (sampleConnection 5) ((Build.pubrel 7).run (sampleConnection 5)) ∧
      ((Build.pubrel 7).run (sampleConnection 5)).outbound = [0x62, 0x02, 0x00, 0x07] :=
  ⟨builders_framed (by decide) (by decide) (by decide) (show 7 < 65536 by decide), by decide⟩

end Mqtt
end EspMisc
