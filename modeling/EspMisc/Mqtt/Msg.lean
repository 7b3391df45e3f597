/-
The MQTT packet builders and readers of `app_common/mqtt/mqtt_msg.c`.

A connection owns one buffer, in which every packet is built.  Three bytes at
its front are kept for the fixed header, the variable header and the payload are
appended behind them, and `finiMessage` writes the header backwards from the
third byte, so that the packet starts at offset 0 or 1 according to the size of
its remaining length.

Writes go through `poke`, which makes the buffer longer when a byte falls
outside of it.  A write inside the buffer is therefore one that keeps its length.
`MQTT_PROTOCOL_VER` is 311, as `config.mk` has it.
-/
import Mathlib.Algebra.Ring.Int.Defs
import Mathlib.Algebra.Ring.Nat
import EspMisc.Mqtt.Ringbuf

namespace EspMisc
namespace Mqtt

/-- `enum mqtt_message_type`. -/
inductive MessageType where
  | connect | connack | publish | puback | pubrec | pubrel | pubcomp
  | subscribe | suback | unsubscribe | unsuback | pingreq | pingresp | disconnect
  deriving Repr, DecidableEq

def MessageType.code : MessageType → Nat
  | .connect => 1
  | .connack => 2
  | .publish => 3
  | .puback => 4
  | .pubrec => 5
  | .pubrel => 6
  | .pubcomp => 7
  | .subscribe => 8
  | .suback => 9
  | .unsubscribe => 10
  | .unsuback => 11
  | .pingreq => 12
  | .pingresp => 13
  | .disconnect => 14

/-- The enumerator with a given value, if there is one. -/
def MessageType.ofCode : Nat → Option MessageType
  | 1 => some .connect
  | 2 => some .connack
  | 3 => some .publish
  | 4 => some .puback
  | 5 => some .pubrec
  | 6 => some .pubrel
  | 7 => some .pubcomp
  | 8 => some .subscribe
  | 9 => some .suback
  | 10 => some .unsubscribe
  | 11 => some .unsuback
  | 12 => some .pingreq
  | 13 => some .pingresp
  | 14 => some .disconnect
  | _ => none

theorem MessageType.ofCode_code (t : MessageType) : ofCode t.code = some t := by
  cases t <;> rfl

theorem MessageType.code_of_ofCode {n : Nat} {t : MessageType} (h : ofCode n = some t) :
    n = t.code := by
  unfold ofCode at h
  split at h <;> cases h <;> rfl

/-- A C string: its bytes before the terminating NUL.  It lies in the address
space of the device, so the `int` sums over its length do not overflow. -/
structure CString where
  bytes : Bytes
  noNul : 0 ∉ bytes
  short : bytes.length < 2 ^ 30

structure MqttMessage where
  /-- The offset of `data` in the connection's buffer. -/
  data : Nat
  length : Nat
  deriving Repr, DecidableEq

structure MqttConnection where
  message : MqttMessage
  messageId : Nat
  buffer : Bytes
  bufferLength : Nat
  deriving Repr, DecidableEq

structure ConnectInfo where
  clientId : Option CString
  username : Option CString
  password : Option CString
  willTopic : Option CString
  willMessage : Option CString
  keepalive : Nat
  willQos : Nat
  willRetain : Nat
  cleanSession : Nat

/-- The bytes of the message last built. -/
def MqttConnection.outbound (c : MqttConnection) : Bytes :=
  (c.buffer.drop c.message.data).take c.message.length

def byteAt (buffer : Bytes) (i : Nat) : UInt8 := buffer.getD i 0

/-- Overwrite the bytes from `off` on. -/
def poke (buffer : Bytes) (off : Nat) (bs : Bytes) : Bytes :=
  buffer.take off ++ bs ++ buffer.drop (off + bs.length)

def maxFixedHeaderSize : Nat := 3

/-! ## Reading -/

/-- The value of a 32-bit `int` after wrapping around. -/
def i32 (x : Int) : Int := (x + 2147483648) % 4294967296 - 2147483648

/-- `x << s` on `int`.  C leaves a shift by 32 or more undefined, and the shift
instruction of the target takes the amount modulo 32. -/
def shl32 (x : Int) (s : Nat) : Int := i32 (x * 2 ^ (s % 32))

def mqttGetType (buffer : Bytes) : Nat := ((byteAt buffer 0 &&& 0xf0) >>> 4).toNat

def mqttGetQos (buffer : Bytes) : Nat := ((byteAt buffer 0 &&& 0x06) >>> 1).toNat

/-- The loop over the remaining length shared by the readers, with `n` bytes of
the buffer still ahead of `i`: the final `i` and the sum. -/
def lengthLoop (buffer : Bytes) : Nat → Nat → Int → Nat × Int
  | 0, i, totlen => (i, totlen)
  | n + 1, i, totlen =>
    let totlen := i32 (totlen + shl32 (byteAt buffer i &&& 0x7f).toNat (7 * (i - 1)))
    if byteAt buffer i &&& 0x80 = 0 then (i + 1, totlen)
    else lengthLoop buffer n (i + 1) totlen

def mqttGetTotalLength (buffer : Bytes) (length : Nat) : Int :=
  let scan := lengthLoop buffer (length - 1) 1 0
  i32 (scan.2 + scan.1)

/-- The big-endian word at `i`. -/
def wordAt (buffer : Bytes) (i : Nat) : Nat :=
  (byteAt buffer i).toNat <<< 8 ||| (byteAt buffer (i + 1)).toNat

/-- The pointer as an offset, and what is left in `*length`. -/
def mqttGetPublishTopic (buffer : Bytes) (length : Nat) : Option Nat × Nat :=
  let i := (lengthLoop buffer (length - 1) 1 0).1
  if i + 2 ≥ length then (none, length)
  else
    let topiclen := wordAt buffer i
    let i := i + 2
    if i + topiclen > length then (none, length)
    else (some i, topiclen)

def mqttGetPublishData (buffer : Bytes) (length : Nat) : Option Nat × Nat :=
  let scan := lengthLoop buffer (length - 1) 1 0
  let totlen := i32 (scan.2 + scan.1)
  let i := scan.1
  if i + 2 ≥ length then (none, 0)
  else
    let topiclen := wordAt buffer i
    let i := i + 2
    if i + topiclen ≥ length then (none, 0)
    else
      let i := i + topiclen
      if mqttGetQos buffer > 0 ∧ i + 2 ≥ length then (none, 0)
      else
        let i := if mqttGetQos buffer > 0 then i + 2 else i
        if totlen < i then (none, 0)
        else if totlen ≤ length then (some i, ((totlen - i) % 65536).toNat)
        else (some i, ((length - i : Int) % 65536).toNat)

def mqttGetId (buffer : Bytes) (length : Nat) : Nat :=
  if length < 1 then 0
  else
    match MessageType.ofCode (mqttGetType buffer) with
    | some .publish =>
      let i := (lengthLoop buffer (length - 1) 1 0).1
      if i + 2 ≥ length then 0
      else
        let topiclen := wordAt buffer i
        let i := i + 2
        if i + topiclen ≥ length then 0
        else
          let i := i + topiclen
          if mqttGetQos buffer > 0 then
            if i + 2 ≥ length then 0 else wordAt buffer i
          else 0
    | some .puback | some .pubrec | some .pubrel | some .pubcomp | some .suback
    | some .unsuback | some .subscribe =>
      if length ≥ 4 ∧ byteAt buffer 1 &&& 0x80 = 0 then wordAt buffer 2 else 0
    | _ => 0

/-! ## Building -/

/-- `buffer[message.length++] = b` for each byte `b`, and the `memcpy` behind the
message with the length advanced. -/
def appendBytes (c : MqttConnection) (bs : Bytes) : MqttConnection :=
  { c with
    buffer := poke c.buffer c.message.length bs
    message := { c.message with length := c.message.length + bs.length } }

/-- The result is `none` for `-1`, which leaves the connection as it was. -/
def appendString (c : MqttConnection) (string : Bytes) : Option MqttConnection :=
  if c.message.length + string.length + 2 > c.bufferLength then none
  else
    let c := appendBytes c [UInt8.ofNat (string.length >>> 8)]
    let c := appendBytes c [UInt8.ofNat (string.length &&& 0xff)]
    some (appendBytes c string)

/-- The identifier after `n`.  The counter has 16 bits, and the loop of
`append_message_id` takes a second turn when it comes to zero. -/
def nextId (n : Nat) : Nat :=
  if (n + 1) % 65536 = 0 then 1 else (n + 1) % 65536

/-- The identifier written, or `0` when it does not fit.  The counter has
advanced in either case. -/
def appendMessageId (c : MqttConnection) (messageId : Nat) : MqttConnection × Nat :=
  let c := if messageId = 0 then { c with messageId := nextId c.messageId } else c
  let messageId := if messageId = 0 then c.messageId else messageId
  if c.message.length + 2 > c.bufferLength then (c, 0)
  else
    let c := appendBytes c [UInt8.ofNat (messageId >>> 8)]
    (appendBytes c [UInt8.ofNat (messageId &&& 0xff)], messageId)

def initMessage (c : MqttConnection) : MqttConnection :=
  { c with message := { c.message with length := maxFixedHeaderSize } }

def failMessage (c : MqttConnection) : MqttConnection :=
  { c with message := { data := 0, length := 0 } }

/-- `x & (n - 1)` on `int`, for a power of two `n`.  The bits of a negative number are
those of its two's complement. -/
def lowBits (x : Int) (n : Nat) : Nat := (x % n).toNat

theorem lowBits_lt (x : Int) {n : Nat} (h : 0 < n) : lowBits x n < n := by
  have hlt := Int.emod_lt_of_pos x (Int.natCast_pos.mpr h)
  unfold lowBits
  omega

/-- The first byte of a packet. -/
def headerByte (type : MessageType) (dup qos retain : Int) : UInt8 :=
  UInt8.ofNat ((type.code &&& 0x0f) <<< 4 ||| lowBits dup 2 <<< 3 ||| lowBits qos 4 <<< 1 |||
    lowBits retain 2)

def finiMessage (c : MqttConnection) (type : MessageType) (dup qos retain : Int) :
    MqttConnection :=
  let remainingLength := c.message.length - maxFixedHeaderSize
  if remainingLength > 127 then
    let buffer := poke c.buffer 0 [headerByte type dup qos retain]
    let buffer := poke buffer 1 [UInt8.ofNat (0x80 ||| remainingLength % 128)]
    let buffer := poke buffer 2 [UInt8.ofNat (remainingLength / 128)]
    { c with buffer := buffer, message := { data := 0, length := remainingLength + 3 } }
  else
    let buffer := poke c.buffer 1 [headerByte type dup qos retain]
    let buffer := poke buffer 2 [UInt8.ofNat remainingLength]
    { c with buffer := buffer, message := { data := 1, length := remainingLength + 2 } }

def mqttMsgInit (buffer : Bytes) (bufferLength : Nat) : MqttConnection :=
  { message := { data := 0, length := 0 }, messageId := 0, buffer := buffer,
    bufferLength := bufferLength }

/-- The size of `struct mqtt_connect_variable_header` and the offset of its
`flags` in it. -/
def connectHeaderSize : Nat := 10
def connectFlagsOffset : Nat := 7

/-- `variable_header->flags |= flag`. -/
def orFlag (c : MqttConnection) (flag : UInt8) : MqttConnection :=
  let off := maxFixedHeaderSize + connectFlagsOffset
  { c with buffer := poke c.buffer off [byteAt c.buffer off ||| flag] }

/-- A string argument that is neither NULL nor empty. -/
def nonEmpty (s : Option CString) : Option Bytes :=
  match s with
  | none => none
  | some s => if s.bytes = [] then none else some s.bytes

/-- An optional field of CONNECT with the flag that announces it. -/
def appendOptional (c : MqttConnection) (s : Option CString) (flag : UInt8) :
    Option MqttConnection :=
  match nonEmpty s with
  | none => some c
  | some s => (appendString c s).map (orFlag · flag)

/-- The will topic and the will message with their flags, and whether they fit.
A NULL message is read as the empty one. -/
def appendWill (c : MqttConnection) (info : ConnectInfo) : MqttConnection × Bool :=
  match nonEmpty info.willTopic with
  | none => (c, true)
  | some topic =>
    match appendString c topic with
    | none => (c, false)
    | some c =>
      match appendString c (info.willMessage.elim [] CString.bytes) with
      | none => (c, false)
      | some c =>
        let c := orFlag c 0x04
        let c := if info.willRetain ≠ 0 then orFlag c 0x20 else c
        (orFlag c (UInt8.ofNat ((info.willQos &&& 3) <<< 3)), true)

/-- The variable header of CONNECT, with no flag set. -/
def connectHeader (info : ConnectInfo) : Bytes :=
  [0, 4, 0x4d, 0x51, 0x54, 0x54, 4, 0,
    UInt8.ofNat (info.keepalive >>> 8), UInt8.ofNat (info.keepalive &&& 0xff)]

def mqttMsgConnect (c : MqttConnection) (info : ConnectInfo) : MqttConnection :=
  let c := initMessage c
  if c.message.length + connectHeaderSize > c.bufferLength then failMessage c
  else
    let c := appendBytes c (connectHeader info)
    let c := if info.cleanSession ≠ 0 then orFlag c 0x02 else c
    match nonEmpty info.clientId with
    | none => failMessage c
    | some clientId =>
      match appendString c clientId with
      | none => failMessage c
      | some c =>
        let will := appendWill c info
        if will.2 = false then failMessage will.1
        else
          match appendOptional will.1 info.username 0x80 with
          | none => failMessage will.1
          | some c =>
            match appendOptional c info.password 0x40 with
            | none => failMessage c
            | some c => finiMessage c .connect 0 0 0

/-- The connection, and what is stored in `*message_id`, if anything. -/
def mqttMsgPublish (c : MqttConnection) (topic : Option CString) (data : Bytes)
    (qos retain : Int) : MqttConnection × Option Nat :=
  let c := initMessage c
  match nonEmpty topic with
  | none => (failMessage c, none)
  | some topic =>
    match appendString c topic with
    | none => (failMessage c, none)
    | some c =>
      let appended := if qos > 0 then appendMessageId c 0 else (c, 0)
      let c := appended.1
      if qos > 0 ∧ appended.2 = 0 then (failMessage c, some 0)
      else if c.message.length + data.length > c.bufferLength then
        (failMessage c, some appended.2)
      else (finiMessage (appendBytes c data) .publish 0 qos retain, some appended.2)

/-- The four acknowledgements, which differ in their type and in one flag. -/
def mqttMsgAck (c : MqttConnection) (type : MessageType) (qos : Int) (messageId : Nat) :
    MqttConnection :=
  let appended := appendMessageId (initMessage c) messageId
  if appended.2 = 0 then failMessage appended.1 else finiMessage appended.1 type 0 qos 0

def mqttMsgPuback (c : MqttConnection) (messageId : Nat) : MqttConnection :=
  mqttMsgAck c .puback 0 messageId

def mqttMsgPubrec (c : MqttConnection) (messageId : Nat) : MqttConnection :=
  mqttMsgAck c .pubrec 0 messageId

def mqttMsgPubrel (c : MqttConnection) (messageId : Nat) : MqttConnection :=
  mqttMsgAck c .pubrel 1 messageId

def mqttMsgPubcomp (c : MqttConnection) (messageId : Nat) : MqttConnection :=
  mqttMsgAck c .pubcomp 0 messageId

def mqttMsgSubscribe (c : MqttConnection) (topic : Option CString) (qos : Int) :
    MqttConnection × Option Nat :=
  let c := initMessage c
  match nonEmpty topic with
  | none => (failMessage c, none)
  | some topic =>
    let appended := appendMessageId c 0
    if appended.2 = 0 then (failMessage appended.1, some 0)
    else
      match appendString appended.1 topic with
      | none => (failMessage appended.1, some appended.2)
      | some c =>
        if c.message.length + 1 > c.bufferLength then (failMessage c, some appended.2)
        else
          (finiMessage (appendBytes c [UInt8.ofInt qos]) .subscribe 0 1 0, some appended.2)

def mqttMsgUnsubscribe (c : MqttConnection) (topic : Option CString) :
    MqttConnection × Option Nat :=
  let c := initMessage c
  match nonEmpty topic with
  | none => (failMessage c, none)
  | some topic =>
    let appended := appendMessageId c 0
    if appended.2 = 0 then (failMessage appended.1, some 0)
    else
      match appendString appended.1 topic with
      | none => (failMessage appended.1, some appended.2)
      | some c => (finiMessage c .unsubscribe 0 1 0, some appended.2)

def mqttMsgPingreq (c : MqttConnection) : MqttConnection :=
  finiMessage (initMessage c) .pingreq 0 0 0

def mqttMsgPingresp (c : MqttConnection) : MqttConnection :=
  finiMessage (initMessage c) .pingresp 0 0 0

def mqttMsgDisconnect (c : MqttConnection) : MqttConnection :=
  finiMessage (initMessage c) .disconnect 0 0 0

end Mqtt
end EspMisc
