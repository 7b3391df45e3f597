/-
The CONNECT packet, read back by the grammar of MQTT 3.1.1.

`decodeConnect` follows the grammar: the protocol's name and level, the flags, the
keepalive, and then the fields, of which all but the client's identifier are there only
when their flag is set.  A packet is accepted only as a whole.  `connect_decodes` says
that what `mqtt_msg_connect` builds decodes to the settings it was given.
-/
import EspMisc.Mqtt.Builders

namespace EspMisc
namespace Mqtt

/-! ## The grammar -/

structure Will where
  topic : Bytes
  message : Bytes
  qos : Nat
  retain : Bool
  deriving Repr, DecidableEq

structure ConnectPacket where
  clientId : Bytes
  will : Option Will
  username : Option Bytes
  password : Option Bytes
  cleanSession : Bool
  keepalive : Nat
  deriving Repr, DecidableEq

def readByte : Bytes → Option (UInt8 × Bytes)
  | [] => none
  | b :: m => some (b, m)

def readWord : Bytes → Option (Nat × Bytes)
  | a :: b :: m => some (a.toNat <<< 8 ||| b.toNat, m)
  | _ => none

/-- A number in at most `k` bytes of seven bits each. -/
def readVarint : Nat → Bytes → Option (Nat × Bytes)
  | 0, _ => none
  | _, [] => none
  | k + 1, b :: m =>
    if b.toNat < 128 then some (b.toNat, m)
    else (readVarint k m).map fun r => (b.toNat - 128 + 128 * r.1, r.2)

/-- A string with its length before it. -/
def readField (m : Bytes) : Option (Bytes × Bytes) := do
  let (n, m) ← readWord m
  if n ≤ m.length then some (m.take n, m.drop n) else none

def readOptional (present : Bool) (m : Bytes) : Option (Option Bytes × Bytes) :=
  if present then (readField m).map fun r => (some r.1, r.2) else some (none, m)

/-- The flags that announce the fields, with what they say of the will. -/
structure ConnectFlags where
  cleanSession : Bool
  will : Option (Nat × Bool)
  username : Bool
  password : Bool
  deriving Repr, DecidableEq

/-- The lowest bit is reserved, there is no fourth level of service, and without a
will there is nothing to say of it. -/
def readFlags (b : UInt8) : Option ConnectFlags :=
  let qos := ((b >>> 3) &&& 3).toNat
  let retain := b &&& 0x20 != 0
  if b &&& 0x01 ≠ 0 ∨ qos = 3 then none
  else if b &&& 0x04 = 0 ∧ (qos ≠ 0 ∨ retain = true) then none
  else some
    { cleanSession := b &&& 0x02 != 0
      will := if b &&& 0x04 = 0 then none else some (qos, retain)
      username := b &&& 0x80 != 0
      password := b &&& 0x40 != 0 }

def readWill (will : Option (Nat × Bool)) (m : Bytes) : Option (Option Will × Bytes) :=
  match will with
  | none => some (none, m)
  | some (qos, retain) => do
    let (topic, m) ← readField m
    let (message, m) ← readField m
    some (some ⟨topic, message, qos, retain⟩, m)

def decodeConnect (m : Bytes) : Option ConnectPacket := do
  let (header, m) ← readByte m
  guard (header = 0x10)
  let (length, m) ← readVarint 4 m
  guard (m.length = length)
  let (name, m) ← readField m
  guard (name = [0x4d, 0x51, 0x54, 0x54])
  let (level, m) ← readByte m
  guard (level = 4)
  let (flags, m) ← readByte m
  let flags ← readFlags flags
  let (keepalive, m) ← readWord m
  let (clientId, m) ← readField m
  let (will, m) ← readWill flags.will m
  let (username, m) ← readOptional flags.username m
  let (password, m) ← readOptional flags.password m
  guard (m = [])
  return { clientId, will, username, password, cleanSession := flags.cleanSession, keepalive }

/-! ## Reading what was written -/

theorem readVarint_small {n : Nat} (h : n < 128) (k : Nat) (m : Bytes) :
    readVarint (k + 1) (varint n ++ m) = some (n, m) := by
  have hb : (UInt8.ofNat n).toNat = n := toNat_ofNat_lt (by omega)
  rw [varint, if_pos h]
  simp only [List.cons_append, List.nil_append, readVarint, hb, if_pos h]

theorem readVarint_varint {k n : Nat} (h : n < 128 ^ (k + 1)) (m : Bytes) :
    readVarint (k + 1) (varint n ++ m) = some (n, m) := by
  induction k generalizing n with
  | zero => exact readVarint_small h 0 m
  | succ k ih =>
    by_cases hsmall : n < 128
    · exact readVarint_small hsmall _ m
    · have hb : (UInt8.ofNat (128 + n % 128)).toNat = 128 + n % 128 := toNat_ofNat_lt (by omega)
      have hdiv : n / 128 < 128 ^ (k + 1) := by
        rw [Nat.pow_succ] at h
        exact Nat.div_lt_of_lt_mul (by omega)
      rw [varint, if_neg hsmall]
      simp only [List.cons_append, readVarint, hb, if_neg (show ¬ 128 + n % 128 < 128 by omega)]
      rw [ih hdiv, Option.map_some, show 128 + n % 128 - 128 + 128 * (n / 128) = n by omega]

theorem readWord_word {n : Nat} (h : n < 65536) (m : Bytes) :
    readWord (word n ++ m) = some (n, m) := by
  show some ((UInt8.ofNat (n >>> 8)).toNat <<< 8 ||| (UInt8.ofNat (n &&& 0xff)).toNat, m) = _
  rw [word_value h]

theorem readField_field {s : Bytes} (h : s.length < 65536) (m : Bytes) :
    readField (field s ++ m) = some (s, m) := by
  rw [readField, field, List.append_assoc, readWord_word h]
  simp

theorem readOptional_optionalField {s : Option Bytes} (h : (optionalField s).length < 65536)
    (m : Bytes) : readOptional s.isSome (optionalField s ++ m) = some (s, m) := by
  cases s with
  | none => rfl
  | some s =>
    have hs : s.length < 65536 := by
      simp only [optionalField, field, List.length_append] at h
      omega
    simp [readOptional, optionalField, readField_field hs]

/-- What the flags of a CONNECT say. -/
theorem readFlags_connectFlags {info : ConnectInfo} (hqos : info.willQos ≤ 2) :
    readFlags (connectFlags info) = some
      { cleanSession := decide (info.cleanSession ≠ 0)
        will := (nonEmpty info.willTopic).map fun _ =>
          (info.willQos, decide (info.willRetain ≠ 0))
        username := (nonEmpty info.username).isSome
        password := (nonEmpty info.password).isSome } := by
  have hwith : ∀ (clean retain user pass : Bool) (q : Fin 3),
      readFlags ((if clean = true then (0x02 : UInt8) else 0) |||
        ((0x04 : UInt8) ||| (if retain = true then (0x20 : UInt8) else 0) |||
          UInt8.ofNat ((q.val &&& 3) <<< 3)) |||
        (if user = true then (0x80 : UInt8) else 0) |||
        (if pass = true then (0x40 : UInt8) else 0)) =
          some ⟨clean, some (q.val, retain), user, pass⟩ := by decide
  have hwithout : ∀ clean user pass : Bool,
      readFlags ((if clean = true then (0x02 : UInt8) else 0) ||| 0 |||
        (if user = true then (0x80 : UInt8) else 0) |||
        (if pass = true then (0x40 : UInt8) else 0)) =
          some ⟨clean, none, user, pass⟩ := by decide
  unfold connectFlags willFlags optionalFlag
  cases nonEmpty info.willTopic with
  | none =>
    have := hwithout (decide (info.cleanSession ≠ 0)) (nonEmpty info.username).isSome
      (nonEmpty info.password).isSome
    simpa using this
  | some topic =>
    have := hwith (decide (info.cleanSession ≠ 0)) (decide (info.willRetain ≠ 0))
      (nonEmpty info.username).isSome (nonEmpty info.password).isSome ⟨info.willQos, by omega⟩
    simpa using this

/-! ## The packet of the settings -/

/-- The will of the settings.  Without a topic there is none. -/
def ConnectInfo.will (info : ConnectInfo) : Option Will :=
  match nonEmpty info.willTopic, info.willMessage with
  | some topic, some message =>
    some ⟨topic, message.bytes, info.willQos, decide (info.willRetain ≠ 0)⟩
  | _, _ => none

/-- What the settings ask for.  An empty optional field counts as absent. -/
def ConnectInfo.packet (info : ConnectInfo) (clientId : Bytes) : ConnectPacket where
  clientId := clientId
  will := info.will
  username := nonEmpty info.username
  password := nonEmpty info.password
  cleanSession := decide (info.cleanSession ≠ 0)
  keepalive := info.keepalive

theorem readWill_willFields {info : ConnectInfo}
    (hwill : nonEmpty info.willTopic ≠ none → info.willMessage ≠ none)
    (hlen : (willFields info).length < 65536) (m : Bytes) :
    readWill ((nonEmpty info.willTopic).map fun _ =>
      (info.willQos, decide (info.willRetain ≠ 0))) (willFields info ++ m) =
        some (info.will, m) := by
  unfold willFields at hlen ⊢
  unfold ConnectInfo.will
  cases htopic : nonEmpty info.willTopic with
  | none => rfl
  | some topic =>
    cases hmsg : info.willMessage with
    | none => exact absurd hmsg (hwill (by simp [htopic]))
    | some message =>
      simp only [htopic, hmsg, Option.elim_some, field, List.length_append] at hlen
      have ht : topic.length < 65536 := by omega
      have hm : message.bytes.length < 65536 := by omega
      simp [readWill, readField_field ht, readField_field hm, List.append_assoc]

theorem decodeConnect_packet {info : ConnectInfo} {clientId : Bytes}
    (hlen : (connectHead info (connectFlags info) ++ connectFields info clientId).length < 16384)
    (hkeep : info.keepalive < 65536) (hqos : info.willQos ≤ 2)
    (hwill : nonEmpty info.willTopic ≠ none → info.willMessage ≠ none) :
    decodeConnect (packet (headerByte .connect 0 0 0)
      (connectHead info (connectFlags info) ++ connectFields info clientId)) =
        some (info.packet clientId) := by
  have hbody : connectHead info (connectFlags info) ++ connectFields info clientId =
      field [0x4d, 0x51, 0x54, 0x54] ++ (4 :: connectFlags info :: (word info.keepalive ++
        (field clientId ++ (willFields info ++ (optionalField (nonEmpty info.username) ++
          (optionalField (nonEmpty info.password) ++ [])))))) := by
    simp [connectHead, connectFields, connectProtocol, field, word]
  have hid : clientId.length < 65536 ∧ (willFields info).length < 65536 ∧
      (optionalField (nonEmpty info.username)).length < 65536 ∧
      (optionalField (nonEmpty info.password)).length < 65536 := by
    simp only [connectFields, field, List.length_append] at hlen
    omega
  rw [packet, remaining_eq_varint hlen]
  have hnum : ∀ m, readVarint 4 (varint (connectHead info (connectFlags info) ++
      connectFields info clientId).length ++ m) = some (_, m) :=
    fun m => readVarint_varint (Nat.lt_trans hlen (by decide)) m
  unfold decodeConnect guard
  simp only [readByte, hnum, Option.bind_eq_bind, Option.bind_some]
  rw [hbody]
  simp only [if_true, Option.pure_def, Option.bind_some,
    readField_field (s := [0x4d, 0x51, 0x54, 0x54]) (by decide), readFlags_connectFlags hqos,
    readWord_word hkeep, readField_field hid.1, readWill_willFields hwill hid.2.1,
    readOptional_optionalField hid.2.2.1, readOptional_optionalField hid.2.2.2]
  rfl

/-- What `mqtt_msg_connect` builds decodes to the settings. -/
theorem connect_decodes {c : MqttConnection} (hc : c.buffer.length = c.bufferLength)
    (hmax : c.bufferLength ≤ 16386) {info : ConnectInfo} {clientId : CString}
    (hid : info.clientId = some clientId) (hne : clientId.bytes ≠ [])
    (hkeep : info.keepalive < 65536) (hqos : info.willQos ≤ 2)
    (hwill : nonEmpty info.willTopic ≠ none → info.willMessage ≠ none)
    (hlen : (mqttMsgConnect c info).message.length ≠ 0) :
    decodeConnect (mqttMsgConnect c info).outbound = some (info.packet clientId.bytes) := by
  have hsome : nonEmpty info.clientId = some clientId.bytes := by
    rw [hid, nonEmpty_some hne]
  have hfin := (mqttMsgConnect_built ⟨rfl, hc⟩ hsome).finished hlen
  have hfits := hfin.fits
  unfold maxFixedHeaderSize at hfits
  rw [hfin.outbound]
  exact decodeConnect_packet (by omega) hkeep hqos hwill

theorem sampleWord_ok : (0 : UInt8) ∉ [0x61, 0x62] ∧ [0x61, 0x62].length < 2 ^ 30 := by decide

/-- `ab`. -/
def sampleWord : CString := ⟨[0x61, 0x62], sampleWord_ok.1, sampleWord_ok.2⟩

def emptyWord : CString := ⟨[], List.not_mem_nil, Nat.two_pow_pos 30⟩

/-- Settings with a will and a password, and with an empty user name. -/
def sampleInfo : ConnectInfo :=
  { clientId := some sampleWord, username := some emptyWord, password := some sampleWord,
    willTopic := some sampleWord, willMessage := some emptyWord, keepalive := 300, willQos := 2,
    willRetain := 1, cleanSession := 0 }

theorem connect_decodes_sampleInfo :
    decodeConnect (mqttMsgConnect (sampleConnection 64) sampleInfo).outbound = some
      { clientId := [0x61, 0x62], will := some ⟨[0x61, 0x62], [], 2, true⟩, username := none,
        password := some [0x61, 0x62], cleanSession := false, keepalive := 300 } := by
  have h := @connect_decodes (sampleConnection 64) (by decide) (by decide) sampleInfo sampleWord
    rfl (by decide) (by decide) (by decide) (by decide) (by decide)
  exact h

end Mqtt
end EspMisc
