/-
The layout of the packets that `mqtt_msg.c` builds.

`Building c body` says that the connection is between `initMessage` and
`finiMessage` and that `body` has been appended so far.  Each append has one
lemma in these terms, and `finiMessage_outbound` turns the finished body into
the packet: the first byte, the remaining length, the body.
-/
import EspMisc.Mqtt.Msg

namespace EspMisc
namespace Mqtt

/-! ## Bytes and words -/

theorem toNat_ofNat_lt {n : Nat} (h : n < 256) : (UInt8.ofNat n).toNat = n := by
  simp [Nat.mod_eq_of_lt h]

/-- The two bytes of a 16-bit number. -/
def word (n : Nat) : Bytes := [UInt8.ofNat (n >>> 8), UInt8.ofNat (n &&& 0xff)]

@[simp] theorem length_word (n : Nat) : (word n).length = 2 := rfl

theorem word_value {n : Nat} (h : n < 65536) :
    (UInt8.ofNat (n >>> 8)).toNat <<< 8 ||| (UInt8.ofNat (n &&& 0xff)).toNat = n := by
  have hhi : n >>> 8 < 256 := by rw [Nat.shiftRight_eq_div_pow]; omega
  have hlo : n &&& 0xff = n % 256 := Nat.and_two_pow_sub_one_eq_mod n 8
  have hlt : n % 256 < 2 ^ 8 := Nat.mod_lt n (by decide)
  rw [hlo, toNat_ofNat_lt hhi, toNat_ofNat_lt hlt, ← Nat.shiftLeft_add_eq_or_of_lt hlt,
    Nat.shiftLeft_eq, Nat.shiftRight_eq_div_pow]
  omega

theorem byteAt_append_left {a : Bytes} {i : Nat} (h : i < a.length) (b : Bytes) :
    byteAt (a ++ b) i = byteAt a i := by
  simp only [byteAt, List.getD_eq_getElem?_getD, List.getElem?_append_left h]

theorem byteAt_append_right (a b : Bytes) (i : Nat) :
    byteAt (a ++ b) (a.length + i) = byteAt b i := by
  simp only [byteAt, List.getD_eq_getElem?_getD]
  rw [List.getElem?_append_right (Nat.le_add_right _ _), Nat.add_sub_cancel_left]

theorem wordAt_append (a b : Bytes) {n : Nat} (h : n < 65536) :
    wordAt (a ++ word n ++ b) a.length = n := by
  have h0 : byteAt (a ++ word n ++ b) a.length = UInt8.ofNat (n >>> 8) := by
    rw [List.append_assoc]
    exact byteAt_append_right a (word n ++ b) 0
  have h1 : byteAt (a ++ word n ++ b) (a.length + 1) = UInt8.ofNat (n &&& 0xff) := by
    rw [List.append_assoc]
    exact byteAt_append_right a (word n ++ b) 1
  rw [wordAt, h0, h1, word_value h]

/-! ## Writing into the buffer -/

theorem length_poke {buffer : Bytes} {off : Nat} {bs : Bytes}
    (h : off + bs.length ≤ buffer.length) : (poke buffer off bs).length = buffer.length := by
  simp only [poke, List.length_append, List.length_take, List.length_drop]
  omega

/-- The connection has `body` appended behind the bytes kept for the header. -/
structure Building (c : MqttConnection) (body : Bytes) : Prop where
  length_buffer : c.buffer.length = c.bufferLength
  fits : maxFixedHeaderSize + body.length ≤ c.bufferLength
  length_eq : c.message.length = maxFixedHeaderSize + body.length
  body_eq : (c.buffer.drop maxFixedHeaderSize).take body.length = body

theorem initMessage_building {c : MqttConnection} (hb : c.buffer.length = c.bufferLength)
    (h : 3 ≤ c.bufferLength) : Building (initMessage c) [] where
  length_buffer := hb
  fits := h
  length_eq := rfl
  body_eq := rfl

theorem Building.append {c : MqttConnection} {body : Bytes} (h : Building c body) (bs : Bytes)
    (hfit : c.message.length + bs.length ≤ c.bufferLength) :
    Building (appendBytes c bs) (body ++ bs) := by
  have hlen := h.length_eq
  have hbuf := h.length_buffer
  have hfits := h.fits
  unfold maxFixedHeaderSize at hlen hfits
  refine ⟨?_, ?_, ?_, ?_⟩
  · show (poke c.buffer c.message.length bs).length = c.bufferLength
    rw [length_poke (by omega), hbuf]
  · show maxFixedHeaderSize + (body ++ bs).length ≤ c.bufferLength
    rw [List.length_append]
    unfold maxFixedHeaderSize
    omega
  · show c.message.length + bs.length = maxFixedHeaderSize + (body ++ bs).length
    rw [List.length_append]
    unfold maxFixedHeaderSize
    omega
  · show ((poke c.buffer c.message.length bs).drop 3).take (body ++ bs).length = body ++ bs
    have hbody : (c.buffer.drop 3).take body.length = body := h.body_eq
    have htake : (c.buffer.take (3 + body.length)).drop 3 = body := by
      rw [List.drop_take, Nat.add_sub_cancel_left]
      exact hbody
    have hthree : 3 ≤ (c.buffer.take (3 + body.length)).length := by
      rw [List.length_take]
      omega
    rw [poke, hlen, List.append_assoc, List.drop_append_of_le_length hthree, htake,
      ← List.append_assoc, List.take_left]

theorem appendString_building {c : MqttConnection} {body : Bytes} (h : Building c body)
    {s : Bytes} (hfit : c.message.length + s.length + 2 ≤ c.bufferLength) :
    ∃ c', appendString c s = some c' ∧ Building c' (body ++ word s.length ++ s) ∧
      c'.bufferLength = c.bufferLength ∧ c'.messageId = c.messageId := by
  have hn : ¬ c.message.length + s.length + 2 > c.bufferLength := by omega
  refine ⟨_, if_neg hn, ?_, rfl, rfl⟩
  have h1 := h.append [UInt8.ofNat (s.length >>> 8)] (by simp; omega)
  have h2 := h1.append [UInt8.ofNat (s.length &&& 0xff)] (by simp [appendBytes]; omega)
  have h3 := h2.append s (by simp [appendBytes]; omega)
  simpa [word, List.append_assoc] using h3

theorem appendMessageId_building {c : MqttConnection} {body : Bytes} (h : Building c body)
    (hfit : c.message.length + 2 ≤ c.bufferLength) (id : Nat) :
    Building (appendMessageId c id).1 (body ++ word (appendMessageId c id).2) ∧
      (appendMessageId c id).1.bufferLength = c.bufferLength ∧
      (appendMessageId c id).1.messageId = (if id = 0 then nextId c.messageId else c.messageId) ∧
      (appendMessageId c id).2 = (if id = 0 then nextId c.messageId else id) := by
  have hn : ¬ c.message.length + 2 > c.bufferLength := by omega
  by_cases hid : id = 0
  · have hc : Building { c with messageId := nextId c.messageId } body :=
      ⟨h.length_buffer, h.fits, h.length_eq, h.body_eq⟩
    have h1 := hc.append [UInt8.ofNat (nextId c.messageId >>> 8)] (by simp; omega)
    have h2 := h1.append [UInt8.ofNat (nextId c.messageId &&& 0xff)]
      (by simp [appendBytes]; omega)
    simp only [appendMessageId, hid, if_true, hn, if_false]
    exact ⟨by simpa [word, List.append_assoc] using h2, rfl, rfl, trivial⟩
  · have h1 := h.append [UInt8.ofNat (id >>> 8)] (by simp; omega)
    have h2 := h1.append [UInt8.ofNat (id &&& 0xff)] (by simp [appendBytes]; omega)
    simp only [appendMessageId, hid, hn, if_false]
    exact ⟨by simpa [word, List.append_assoc] using h2, rfl, rfl, trivial⟩

/-! ## The finished packet -/

/-- The remaining length in one byte or two. -/
def remaining (n : Nat) : Bytes :=
  if n > 127 then [UInt8.ofNat (0x80 ||| n % 128), UInt8.ofNat (n / 128)] else [UInt8.ofNat n]

/-- A packet: its first byte, its remaining length, its body. -/
def packet (header : UInt8) (body : Bytes) : Bytes := header :: (remaining body.length ++ body)

/-- The variable length encoding of MQTT: seven bits to a byte, the lowest first, and a
set eighth bit where another byte follows. -/
def varint (n : Nat) : Bytes :=
  if n < 128 then [UInt8.ofNat n] else UInt8.ofNat (128 + n % 128) :: varint (n / 128)

theorem remaining_eq_varint {n : Nat} (h : n < 16384) : remaining n = varint n := by
  have hlow : ∀ k : Fin 128, 0x80 ||| k.val = 128 + k.val := by decide
  unfold remaining varint
  by_cases hbig : n > 127
  · rw [if_pos hbig, if_neg (by omega), varint, if_pos (by omega),
      hlow ⟨n % 128, Nat.mod_lt _ (by decide)⟩]
  · rw [if_neg hbig, if_pos (by omega)]

/-- The first byte has the type in its upper half and the flags in its lower. -/
theorem headerByte_eq (type : MessageType) (qos retain : Int) :
    headerByte type 0 qos retain =
      UInt8.ofNat (16 * type.code + (2 * lowBits qos 4 + lowBits retain 2)) := by
  have hall : ∀ q : Fin 4, ∀ r : Fin 2,
      UInt8.ofNat ((type.code &&& 0x0f) <<< 4 ||| lowBits 0 2 <<< 3 ||| q.val <<< 1 ||| r.val) =
        UInt8.ofNat (16 * type.code + (2 * q.val + r.val)) := by
    cases type <;> decide
  exact hall ⟨lowBits qos 4, lowBits_lt _ (by decide)⟩ ⟨lowBits retain 2, lowBits_lt _ (by decide)⟩

/-- The type and the level that the readers take from it. -/
theorem headerByte_fields (type : MessageType) (qos retain : Int) :
    ((headerByte type 0 qos retain &&& 0xf0) >>> 4).toNat = type.code ∧
      ((headerByte type 0 qos retain &&& 0x06) >>> 1).toNat = lowBits qos 4 := by
  have hall : ∀ q : Fin 4, ∀ r : Fin 2,
      let h := UInt8.ofNat (16 * type.code + (2 * q.val + r.val))
      ((h &&& 0xf0) >>> 4).toNat = type.code ∧ ((h &&& 0x06) >>> 1).toNat = q.val := by
    cases type <;> decide
  rw [headerByte_eq]
  exact hall ⟨lowBits qos 4, lowBits_lt _ (by decide)⟩ ⟨lowBits retain 2, lowBits_lt _ (by decide)⟩

theorem packet_type (type : MessageType) (qos retain : Int) (body : Bytes) :
    mqttGetType (packet (headerByte type 0 qos retain) body) = type.code :=
  (headerByte_fields type qos retain).1

theorem packet_qos (type : MessageType) (qos retain : Int) (body : Bytes) :
    mqttGetQos (packet (headerByte type 0 qos retain) body) = lowBits qos 4 :=
  (headerByte_fields type qos retain).2

theorem finiMessage_outbound {c : MqttConnection} {body : Bytes} (h : Building c body)
    (type : MessageType) (dup qos retain : Int) :
    (finiMessage c type dup qos retain).outbound = packet (headerByte type dup qos retain) body ∧
      (finiMessage c type dup qos retain).buffer.length = c.bufferLength := by
  obtain ⟨hbuf, hfits, hlen, hbody⟩ := h
  unfold maxFixedHeaderSize at hfits hlen hbody
  have hrem : c.message.length - maxFixedHeaderSize = body.length := by
    unfold maxFixedHeaderSize
    omega
  obtain ⟨b0, b1, b2, rest, hcons⟩ : ∃ b0 b1 b2 rest, c.buffer = b0 :: b1 :: b2 :: rest := by
    match hb : c.buffer with
    | [] => rw [hb] at hbuf; simp at hbuf; omega
    | [_] => rw [hb] at hbuf; simp at hbuf; omega
    | [_, _] => rw [hb] at hbuf; simp at hbuf; omega
    | b0 :: b1 :: b2 :: rest => exact ⟨b0, b1, b2, rest, rfl⟩
  have hrest : rest.take body.length = body := by
    rw [hcons] at hbody
    exact hbody
  have hl : rest.length + 3 = c.bufferLength := by
    rw [← hbuf, hcons]
    rfl
  simp only [finiMessage, hrem, packet, remaining]
  by_cases hbig : body.length > 127
  · simp only [hbig, if_true, MqttConnection.outbound, hcons, poke, List.take_succ_cons,
      List.take_zero, List.drop_succ_cons, List.drop_zero, List.nil_append, List.cons_append,
      List.length_cons, List.length_nil, Nat.zero_add, hrest]
    exact ⟨trivial, by omega⟩
  · simp only [hbig, if_false, MqttConnection.outbound, hcons, poke, List.take_succ_cons,
      List.take_zero, List.drop_succ_cons, List.drop_zero, List.nil_append, List.cons_append,
      List.length_cons, List.length_nil, Nat.zero_add, hrest]
    exact ⟨trivial, by omega⟩

/-- The message that `finiMessage` leaves is the packet, and ends where the body did. -/
theorem finiMessage_message {c : MqttConnection} {body : Bytes} (h : Building c body)
    (type : MessageType) (dup qos retain : Int) :
    let c' := finiMessage c type dup qos retain
    c'.message.length = (packet (headerByte type dup qos retain) body).length ∧
      c'.message.data + c'.message.length = maxFixedHeaderSize + body.length := by
  have hrem : c.message.length - maxFixedHeaderSize = body.length := by
    rw [h.length_eq, Nat.add_sub_cancel_left]
  simp only [finiMessage, hrem, packet, remaining]
  unfold maxFixedHeaderSize
  by_cases hbig : body.length > 127
  · simp only [if_pos hbig, List.length_cons, List.length_append, List.length_nil]
    omega
  · simp only [if_neg hbig, List.length_cons, List.length_append, List.length_nil]
    omega

@[simp] theorem finiMessage_messageId (c : MqttConnection) (type : MessageType)
    (dup qos retain : Int) :
    (finiMessage c type dup qos retain).messageId = c.messageId := by
  simp only [finiMessage]
  split <;> rfl

/-! ## What the readers look at -/

theorem lengthLoop_append {a : Bytes} (b : Bytes) {n i : Nat} (h : i + n ≤ a.length)
    (totlen : Int) : lengthLoop (a ++ b) n i totlen = lengthLoop a n i totlen := by
  induction n generalizing i totlen with
  | zero => rfl
  | succ n ih =>
    have hi : byteAt (a ++ b) i = byteAt a i := byteAt_append_left (by omega) b
    simp only [lengthLoop, hi, ih (show i + 1 + n ≤ a.length by omega)]

theorem mqttGetTotalLength_append {a : Bytes} (ha : a ≠ []) (b : Bytes) :
    mqttGetTotalLength (a ++ b) a.length = mqttGetTotalLength a a.length := by
  have hpos := List.length_pos_of_ne_nil ha
  simp only [mqttGetTotalLength, lengthLoop_append b (show 1 + (a.length - 1) ≤ a.length by omega)]

theorem mqttGetType_append {a : Bytes} (ha : a ≠ []) (b : Bytes) :
    mqttGetType (a ++ b) = mqttGetType a := by
  simp only [mqttGetType, byteAt_append_left (List.length_pos_of_ne_nil ha) b]

theorem mqttGetQos_append {a : Bytes} (ha : a ≠ []) (b : Bytes) :
    mqttGetQos (a ++ b) = mqttGetQos a := by
  simp only [mqttGetQos, byteAt_append_left (List.length_pos_of_ne_nil ha) b]

/-! ## Reading the fixed header -/

theorem i32_eq {x : Int} (h : -2147483648 ≤ x) (h' : x < 2147483648) : i32 x = x := by
  unfold i32
  omega

theorem shl32_low {m : Nat} (h : m < 128) : shl32 m (7 * (1 - 1)) = m := by
  show i32 ((m : Int) * 1) = m
  rw [Int.mul_one, i32_eq (by omega) (by omega)]

theorem shl32_high {m : Nat} (h : m < 128) : shl32 m (7 * (1 + 1 - 1)) = m * 128 := by
  show i32 ((m : Int) * 128) = m * 128
  rw [i32_eq (by omega) (by omega)]

theorem length_remaining (n : Nat) : (remaining n).length = if n > 127 then 2 else 1 := by
  unfold remaining
  split <;> rfl

theorem toNat_and_low {m : Nat} (h : m < 128) : (UInt8.ofNat m &&& 0x7f).toNat = m := by
  have hm : m < 2 ^ 7 := h
  rw [UInt8.toNat_and, toNat_ofNat_lt (by omega)]
  exact (Nat.and_two_pow_sub_one_eq_mod m 7).trans (Nat.mod_eq_of_lt hm)

theorem and_high {m : Nat} (h : m < 128) : UInt8.ofNat m &&& 0x80 = 0 := by
  have : ∀ k : Fin 128, UInt8.ofNat k &&& 0x80 = 0 := by decide
  exact this ⟨m, h⟩

theorem toNat_or_low {m : Nat} (h : m < 128) : (UInt8.ofNat (0x80 ||| m) &&& 0x7f).toNat = m := by
  have : ∀ k : Fin 128, (UInt8.ofNat (0x80 ||| k) &&& 0x7f).toNat = k := by decide
  exact this ⟨m, h⟩

theorem or_high {m : Nat} (h : m < 128) : ¬ UInt8.ofNat (0x80 ||| m) &&& 0x80 = 0 := by
  have : ∀ k : Fin 128, ¬ UInt8.ofNat (0x80 ||| k) &&& 0x80 = 0 := by decide
  exact this ⟨m, h⟩

/-- The loop over the remaining length reads it and stops behind it. -/
theorem lengthLoop_remaining {n k : Nat} (hn : n < 16384) (hk : (remaining n).length ≤ k)
    (h : UInt8) (rest : Bytes) :
    lengthLoop (h :: (remaining n ++ rest)) k 1 0 = (1 + (remaining n).length, (n : Int)) := by
  unfold remaining at hk ⊢
  by_cases hbig : n > 127
  · rw [if_pos hbig] at hk ⊢
    obtain ⟨k, rfl⟩ : ∃ j, k = j + 2 := ⟨k - 2, by simp at hk; omega⟩
    have hlo : n % 128 < 128 := Nat.mod_lt n (by decide)
    have hhi : n / 128 < 128 := by omega
    have hb1 : byteAt (h :: ([UInt8.ofNat (0x80 ||| n % 128), UInt8.ofNat (n / 128)] ++ rest)) 1 =
        UInt8.ofNat (0x80 ||| n % 128) := rfl
    have hb2 : byteAt (h :: ([UInt8.ofNat (0x80 ||| n % 128), UInt8.ofNat (n / 128)] ++ rest)) 2 =
        UInt8.ofNat (n / 128) := rfl
    have hsum : i32 (i32 (0 + ((n % 128 : Nat) : Int)) + ((n / 128 : Nat) : Int) * 128) = n := by
      unfold i32
      omega
    simp only [lengthLoop, hb1, hb2, or_high hlo, and_high hhi, toNat_or_low hlo,
      toNat_and_low hhi, if_true, if_false, shl32_low hlo, shl32_high hhi, hsum]
    rfl
  · rw [if_neg hbig] at hk ⊢
    obtain ⟨k, rfl⟩ : ∃ j, k = j + 1 := ⟨k - 1, by simp at hk; omega⟩
    have hlo : n < 128 := by omega
    have hb1 : byteAt (h :: ([UInt8.ofNat n] ++ rest)) 1 = UInt8.ofNat n := rfl
    have hsum : i32 (0 + (n : Int)) = n := by
      rw [i32_eq (by omega) (by omega), Int.zero_add]
    simp only [lengthLoop, hb1, and_high hlo, toNat_and_low hlo, if_true, shl32_low hlo, hsum]
    rfl

/-- The offset of the body in a packet. -/
def bodyOffset (body : Bytes) : Nat := 1 + (remaining body.length).length

theorem length_packet (h : UInt8) (body : Bytes) :
    (packet h body).length = bodyOffset body + body.length := by
  simp only [packet, bodyOffset, List.length_cons, List.length_append]
  omega

/-- A packet has one body, since a longer one makes it longer. -/
theorem body_eq_of_packet_eq {h h' : UInt8} {a b : Bytes} (heq : packet h a = packet h' b) :
    a = b := by
  have hlen := congrArg List.length heq
  have hsame : a.length = b.length := by
    rw [length_packet, length_packet, bodyOffset, bodyOffset, length_remaining,
      length_remaining] at hlen
    split at hlen <;> split at hlen <;> omega
  exact (List.append_inj' (List.cons.inj heq).2 hsame).2

theorem packet_append (h : UInt8) (body rest : Bytes) :
    packet h body ++ rest = h :: (remaining body.length ++ (body ++ rest)) := by
  simp [packet]

/-- What the loop over the remaining length finds in a buffer that starts with a
packet. -/
theorem lengthLoop_packet {h : UInt8} {body : Bytes} (hp : body.length < 16384)
    {rest : Bytes} {k : Nat} (hk : (packet h body).length ≤ k) :
    lengthLoop (packet h body ++ rest) (k - 1) 1 0 = (bodyOffset body, (body.length : Int)) := by
  rw [length_packet] at hk
  rw [packet_append]
  exact lengthLoop_remaining hp (by unfold bodyOffset at hk; omega) h _

theorem wordAt_packet (h : UInt8) {body a b : Bytes} {n : Nat} (hbody : body = a ++ word n ++ b)
    (hn : n < 65536) (rest : Bytes) :
    wordAt (packet h body ++ rest) (bodyOffset body + a.length) = n := by
  have hsplit : packet h body ++ rest =
      (h :: (remaining body.length ++ a)) ++ word n ++ (b ++ rest) := by
    rw [packet_append, hbody]
    simp
  have hlen : bodyOffset body + a.length = (h :: (remaining body.length ++ a)).length := by
    simp only [bodyOffset, List.length_cons, List.length_append]
    omega
  rw [hsplit, hlen, wordAt_append _ _ hn]

theorem bodyOffset_le (body : Bytes) : 2 ≤ bodyOffset body ∧ bodyOffset body ≤ 3 := by
  unfold bodyOffset
  rw [length_remaining]
  split <;> omega

/-- A packet that starts a buffer has the length it declares. -/
theorem mqttGetTotalLength_packet (h : UInt8) {body : Bytes} (hp : body.length < 16384)
    (rest : Bytes) {len : Nat} (hlen : (packet h body).length ≤ len) :
    mqttGetTotalLength (packet h body ++ rest) len = (packet h body).length := by
  have hb := bodyOffset_le body
  simp only [mqttGetTotalLength, lengthLoop_packet hp hlen]
  rw [i32_eq (by omega) (by omega), length_packet]
  omega

/-- The types of which `mqtt_get_id` expects the identifier right behind the header. -/
def MessageType.idFirst : MessageType → Bool
  | .puback | .pubrec | .pubrel | .pubcomp | .suback | .unsuback | .subscribe => true
  | _ => false

/-- There it is found only when the remaining length has one byte. -/
theorem mqttGetId_first (h : UInt8) {body b : Bytes} {id : Nat} (hbody : body = word id ++ b)
    (hid : id < 65536) (rest : Bytes) {type : MessageType}
    (hof : MessageType.ofCode (mqttGetType (packet h body ++ rest)) = some type)
    (htype : type.idFirst = true) {len : Nat} (hlen : (packet h body).length ≤ len) :
    mqttGetId (packet h body ++ rest) len = if body.length ≤ 127 then id else 0 := by
  have hfour : 4 ≤ len := by
    have hb := bodyOffset_le body
    have hword : 2 ≤ body.length := by
      rw [hbody, List.length_append, length_word]
      omega
    rw [length_packet] at hlen
    omega
  have hread : mqttGetId (packet h body ++ rest) len =
      if len ≥ 4 ∧ byteAt (packet h body ++ rest) 1 &&& 0x80 = 0 then
        wordAt (packet h body ++ rest) 2 else 0 := by
    simp only [mqttGetId, hof]
    rw [if_neg (by omega)]
    cases type <;> first | rfl | exact absurd htype (by decide)
  rw [hread]
  by_cases hsmall : body.length ≤ 127
  · have hrem : remaining body.length = [UInt8.ofNat body.length] := if_neg (by omega)
    have hone : byteAt (packet h body ++ rest) 1 = UInt8.ofNat body.length := by
      rw [packet_append, hrem]
      rfl
    have hword := wordAt_packet h (a := []) (b := b) hbody hid rest
    rw [bodyOffset, hrem] at hword
    rw [if_pos ⟨hfour, by rw [hone, and_high (by omega)]⟩, if_pos hsmall]
    exact hword
  · have hrem : remaining body.length =
        [UInt8.ofNat (0x80 ||| body.length % 128), UInt8.ofNat (body.length / 128)] :=
      if_pos (by omega)
    have hone : byteAt (packet h body ++ rest) 1 = UInt8.ofNat (0x80 ||| body.length % 128) := by
      rw [packet_append, hrem]
      rfl
    rw [if_neg (fun hc => or_high (Nat.mod_lt _ (by decide)) (hone ▸ hc.2)), if_neg hsmall]

end Mqtt
end EspMisc
