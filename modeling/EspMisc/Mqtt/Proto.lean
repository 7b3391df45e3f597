/-
The framing protocol of `app_common/mqtt/proto.c`.

`PROTO_AddRb` writes a packet into a ring as a stuffed frame and gives up at the
first byte that does not fit, leaving what it has written.  `PROTO_ParseRb`
reads the ring byte by byte until a frame ends.  Its parser is a local variable
of which `PROTO_Init` sets every field but `isBegin`, so the byte the stack held
there is an argument of `protoParseRb`.
-/
import EspMisc.Lib.Stuffing
import EspMisc.Mqtt.Ringbuf

namespace EspMisc
namespace Mqtt

open Stuffing

/-- `PROTO_PARSER`.  The callback is NULL wherever a parser is made. -/
structure ProtoParser where
  buf : Bytes
  bufSize : Nat
  dataLen : Nat
  isEsc : UInt8
  isBegin : UInt8

/-- `PROTO_Init`, with the value it leaves in `isBegin`. -/
def protoInit (isBegin : UInt8) (buf : Bytes) (bufSize : Nat) : ProtoParser :=
  { buf := buf, bufSize := bufSize, dataLen := 0, isEsc := 0, isBegin := isBegin }

def protoParseByte (parser : ProtoParser) (value : UInt8) : ProtoParser × Int :=
  if value = 0x7D then ({ parser with isEsc := 1 }, -1)
  else if value = 0x7E then ({ parser with dataLen := 0, isEsc := 0, isBegin := 1 }, -1)
  else if value = 0x7F then ({ parser with isBegin := 0 }, 0)
  else if parser.isBegin = 0 then (parser, -1)
  else
    let value := if parser.isEsc ≠ 0 then value ^^^ 0x20 else value
    let parser := if parser.isEsc ≠ 0 then { parser with isEsc := 0 } else parser
    if parser.dataLen < parser.bufSize then
      ({ parser with
          buf := parser.buf.set parser.dataLen value
          dataLen := parser.dataLen + 1 }, -1)
    else (parser, -1)

/-- What `PROTO_ParseRb` leaves behind; `len` is written when `ret` is `0`. -/
structure ParseRb where
  rb : Ringbuf
  bufOut : Bytes
  len : Nat
  ret : Int

/-- The loop of `PROTO_ParseRb`.  Every turn takes a byte out of the ring, so
`fillCnt` turns are all it can make. -/
def protoParseRbLoop : Nat → Ringbuf → ProtoParser → ParseRb
  | 0, rb, proto => { rb := rb, bufOut := proto.buf, len := 0, ret := -1 }
  | n + 1, rb, proto =>
    let got := ringbufGet rb
    if got.2.2 = 0 then
      let parsed := protoParseByte proto got.2.1
      if parsed.2 = 0 then
        { rb := got.1, bufOut := parsed.1.buf, len := parsed.1.dataLen, ret := 0 }
      else protoParseRbLoop n got.1 parsed.1
    else { rb := got.1, bufOut := proto.buf, len := 0, ret := -1 }

def protoParseRb (rb : Ringbuf) (bufOut : Bytes) (maxBufLen : UInt16) (isBegin : UInt8) :
    ParseRb :=
  protoParseRbLoop rb.fillCnt rb (protoInit isBegin bufOut maxBufLen.toNat)

/-- The conversion of a `U16` to an `I16` result. -/
def toI16 (i : Nat) : Int := if i < 32768 then i else (i : Int) - 65536

theorem toI16_of_lt {i : Nat} (h : i < 32768) : toI16 i = i := if_pos h

/-- The loop of `PROTO_AddRb` and the closing byte after it. -/
def protoAddRbLoop : Bytes → Nat → Ringbuf → Ringbuf × Int
  | [], i, rb =>
    let put := ringbufPut rb 0x7F
    if put.2 = -1 then (put.1, -1) else (put.1, toI16 i)
  | c :: packet, i, rb =>
    if c = 0x7D ∨ c = 0x7E ∨ c = 0x7F then
      let put := ringbufPut rb 0x7D
      if put.2 = -1 then (put.1, -1)
      else
        let put := ringbufPut put.1 (c ^^^ 0x20)
        if put.2 = -1 then (put.1, -1)
        else protoAddRbLoop packet ((i + 2) % 65536) put.1
    else
      let put := ringbufPut rb c
      if put.2 = -1 then (put.1, -1)
      else protoAddRbLoop packet ((i + 1) % 65536) put.1

def protoAddRb (rb : Ringbuf) (packet : Bytes) : Ringbuf × Int :=
  let put := ringbufPut rb 0x7E
  if put.2 = -1 then (put.1, -1) else protoAddRbLoop packet 2 put.1

def protoCode : Code UInt8 where
  start := 0x7E
  stop := 0x7F
  esc := 0x7D
  flip x := x ^^^ 0x20
  start_ne_stop := by decide
  start_ne_esc := by decide
  stop_ne_esc := by decide
  flip_plain := by rintro x (rfl | rfl | rfl) <;> decide
  flip_flip := by rintro x (rfl | rfl | rfl) <;> decide

/-! ## Writing a frame -/

/-- Put bytes until one does not fit. -/
def ringbufPutAll : Ringbuf → Bytes → Ringbuf × Int
  | rb, [] => (rb, 0)
  | rb, b :: bs =>
    if (ringbufPut rb b).2 = -1 then ((ringbufPut rb b).1, -1)
    else ringbufPutAll (ringbufPut rb b).1 bs

theorem ringbufPutAll_spec (bs : Bytes) {rb : Ringbuf} (hrb : rb.Ok) :
    (ringbufPutAll rb bs).1.Ok ∧
      (ringbufPutAll rb bs).1.size = rb.size ∧
      (ringbufPutAll rb bs).1.content = rb.content ++ bs.take (rb.size - rb.fillCnt) ∧
      (ringbufPutAll rb bs).2 = if rb.fillCnt + bs.length ≤ rb.size then 0 else -1 := by
  induction bs generalizing rb with
  | nil =>
    have := hrb.fill_le
    simp [ringbufPutAll, hrb, this]
  | cons b bs ih =>
    by_cases hroom : rb.fillCnt < rb.size
    · obtain ⟨hret, hok, hcon, hsize, hfill⟩ := ringbufPut_room hrb hroom b
      have hne : ¬ (ringbufPut rb b).2 = -1 := by rw [hret]; decide
      obtain ⟨ihok, ihsize, ihcon, ihret⟩ := ih hok
      rw [ringbufPutAll, if_neg hne]
      refine ⟨ihok, ihsize.trans hsize, ?_, ?_⟩
      · have hsub : rb.size - rb.fillCnt = (rb.size - (rb.fillCnt + 1)) + 1 := by omega
        rw [ihcon, hcon, hsize, hfill, hsub, List.take_succ_cons, List.append_assoc,
          List.singleton_append]
      · rw [ihret, hsize, hfill, List.length_cons, show rb.fillCnt + 1 + bs.length
          = rb.fillCnt + (bs.length + 1) by omega]
    · have hfull : rb.size ≤ rb.fillCnt := by omega
      have hput := ringbufPut_full hfull b
      have hsub : rb.size - rb.fillCnt = 0 := by omega
      have hlen : ¬ rb.fillCnt + (b :: bs).length ≤ rb.size := by
        rw [List.length_cons]; omega
      rw [ringbufPutAll, hput, if_pos rfl, hsub, List.take_zero, List.append_nil, if_neg hlen]
      exact ⟨hrb, rfl, rfl, rfl⟩

theorem special_iff (c : UInt8) :
    protoCode.Special c ↔ c = 0x7D ∨ c = 0x7E ∨ c = 0x7F := by
  show c = 0x7E ∨ c = 0x7F ∨ c = 0x7D ↔ _
  tauto

/-- The write loop is the byte-wise writing of the rest of the frame. -/
theorem protoAddRbLoop_eq (packet : Bytes) (i : Nat) (rb : Ringbuf) :
    protoAddRbLoop packet (i % 65536) rb =
      ((ringbufPutAll rb (protoCode.body packet ++ [0x7F])).1,
        if (ringbufPutAll rb (protoCode.body packet ++ [0x7F])).2 = -1 then -1
        else toI16 ((i + (protoCode.body packet).length) % 65536)) := by
  induction packet generalizing i rb with
  | nil =>
    simp only [protoAddRbLoop, Code.body_nil, List.nil_append, ringbufPutAll, List.length_nil,
      Nat.add_zero]
    by_cases h : (ringbufPut rb 0x7F).2 = -1
    · simp only [h, if_true]
    · simp only [h, if_false]
      rw [if_neg (by decide)]
  | cons c packet ih =>
    by_cases hc : c = 0x7D ∨ c = 0x7E ∨ c = 0x7F
    · have hesc : protoCode.escape c = [0x7D, c ^^^ 0x20] :=
        if_pos ((special_iff c).mpr hc)
      simp only [protoAddRbLoop, hc, if_true, Code.body_cons, hesc, List.cons_append,
        List.nil_append, ringbufPutAll, List.length_cons]
      by_cases h1 : (ringbufPut rb 0x7D).2 = -1
      · simp only [h1, if_true]
      · simp only [h1, if_false]
        by_cases h2 : (ringbufPut (ringbufPut rb 0x7D).1 (c ^^^ 0x20)).2 = -1
        · simp only [h2, if_true]
        · simp only [h2, if_false]
          have hi : (i % 65536 + 2) % 65536 = (i + 2) % 65536 := by omega
          rw [hi, ih (i + 2), show i + 2 + (protoCode.body packet).length
            = i + ((protoCode.body packet).length + 1 + 1) by omega]
    · have hesc : protoCode.escape c = [c] := if_neg fun h => hc ((special_iff c).mp h)
      simp only [protoAddRbLoop, hc, if_false, Code.body_cons, hesc, List.cons_append,
        List.nil_append, ringbufPutAll, List.length_cons]
      by_cases h1 : (ringbufPut rb c).2 = -1
      · simp only [h1, if_true]
      · simp only [h1, if_false]
        have hi : (i % 65536 + 1) % 65536 = (i + 1) % 65536 := by omega
        rw [hi, ih (i + 1), show i + 1 + (protoCode.body packet).length
          = i + ((protoCode.body packet).length + 1) by omega]

/-- `PROTO_AddRb` writes the packet's frame, or as much of it as there is room
for. -/
theorem protoAddRb_spec {rb : Ringbuf} (hrb : rb.Ok) (packet : Bytes) :
    (protoAddRb rb packet).1.Ok ∧
      (protoAddRb rb packet).1.size = rb.size ∧
      (protoAddRb rb packet).1.content =
        rb.content ++ (protoCode.frame packet).take (rb.size - rb.fillCnt) ∧
      (protoAddRb rb packet).2 =
        if rb.fillCnt + (protoCode.frame packet).length ≤ rb.size
        then toI16 ((protoCode.frame packet).length % 65536) else -1 := by
  have heq : protoAddRb rb packet =
      ((ringbufPutAll rb (protoCode.frame packet)).1,
        if (ringbufPutAll rb (protoCode.frame packet)).2 = -1 then -1
        else toI16 ((protoCode.frame packet).length % 65536)) := by
    have hframe : protoCode.frame packet = 0x7E :: (protoCode.body packet ++ [0x7F]) := rfl
    have hloop := protoAddRbLoop_eq packet 2 (ringbufPut rb 0x7E).1
    rw [show (2 : Nat) % 65536 = 2 from rfl] at hloop
    simp only [protoAddRb, hframe, ringbufPutAll]
    by_cases h : (ringbufPut rb 0x7E).2 = -1
    · simp only [h, if_true]
    · simp only [h, if_false, hloop, List.length_cons, List.length_append, List.length_nil]
      rw [show 2 + (protoCode.body packet).length
        = (protoCode.body packet).length + (0 + 1) + 1 by omega]
  obtain ⟨hok, hsize, hcon, hret⟩ := ringbufPutAll_spec (protoCode.frame packet) hrb
  rw [heq]
  refine ⟨hok, hsize, hcon, ?_⟩
  show (if (ringbufPutAll rb (protoCode.frame packet)).2 = -1 then (-1 : Int) else _) = _
  rw [hret]
  by_cases hfit : rb.fillCnt + (protoCode.frame packet).length ≤ rb.size
  · simp [hfit]
  · simp [hfit]

/-! ## Reading a frame -/

/-- The parser stands where the receiver `st` stands.  Its buffer holds the
message so far, cut at `bufSize`. -/
structure ProtoParser.Sees (p : ProtoParser) (st : Rx UInt8) : Prop where
  begun : p.isBegin = 0 ↔ st.begun = false
  escaped : p.isEsc = 0 ↔ st.escaped = false
  room : p.bufSize ≤ p.buf.length
  dataLen_eq : p.dataLen = min st.data.length p.bufSize
  buf_eq : p.buf.take p.dataLen = st.data.take p.bufSize

theorem protoInit_sees (isBegin : UInt8) {buf : Bytes} {bufSize : Nat}
    (h : bufSize ≤ buf.length) :
    (protoInit isBegin buf bufSize).Sees ⟨!(isBegin == 0), false, []⟩ where
  begun := by simp [protoInit]
  escaped := by simp [protoInit]
  room := h
  dataLen_eq := by simp [protoInit]
  buf_eq := by simp [protoInit]

/-- Appending one byte to the message, when the buffer still has room for it
and when it has not. -/
theorem ProtoParser.Sees.store {p : ProtoParser} {st : Rx UInt8} (h : p.Sees st) (v : UInt8)
    (hb : st.begun = true) :
    (if p.dataLen < p.bufSize then
        { p with isEsc := 0, buf := p.buf.set p.dataLen v, dataLen := p.dataLen + 1 }
      else { p with isEsc := 0 } : ProtoParser).Sees ⟨true, false, st.data ++ [v]⟩ := by
  have hroom := h.room
  have hlen := h.dataLen_eq
  have hbegun : ¬ p.isBegin = 0 := fun h0 => by simp [h.begun.mp h0] at hb
  by_cases hlt : p.dataLen < p.bufSize
  · rw [if_pos hlt]
    have hdl : p.dataLen = st.data.length := by omega
    have hfull : st.data.take p.bufSize = st.data := List.take_of_length_le (by omega)
    have hbuf := h.buf_eq
    rw [hfull] at hbuf
    refine ⟨by simp [hbegun], by simp, by simpa using hroom, ?_, ?_⟩
    · show p.dataLen + 1 = min (st.data ++ [v]).length p.bufSize
      rw [List.length_append, List.length_singleton]
      omega
    · show (p.buf.set p.dataLen v).take (p.dataLen + 1) = (st.data ++ [v]).take p.bufSize
      rw [List.take_add_one, List.take_set_of_le (Nat.le_refl _), hbuf,
        List.getElem?_set_self (by omega), Option.toList_some,
        List.take_of_length_le (by rw [List.length_append, List.length_singleton]; omega)]
  · rw [if_neg hlt]
    refine ⟨by simp [hbegun], by simp, hroom, ?_, ?_⟩
    · show p.dataLen = min (st.data ++ [v]).length p.bufSize
      rw [List.length_append, List.length_singleton]
      omega
    · show p.buf.take p.dataLen = (st.data ++ [v]).take p.bufSize
      rw [h.buf_eq, List.take_append_of_le_length (by omega)]

/-- The parser follows the receiver on every byte but the stop byte. -/
theorem protoParseByte_feed {p : ProtoParser} {st : Rx UInt8} (h : p.Sees st) {v : UInt8}
    (hv : v ≠ 0x7F) :
    (protoParseByte p v).2 = -1 ∧ (protoParseByte p v).1.Sees (st.feed protoCode v) ∧
      (protoParseByte p v).1.bufSize = p.bufSize := by
  by_cases h1 : v = 0x7D
  · subst h1
    have hf : st.feed protoCode 0x7D = { st with escaped := true } := feed_esc (k := protoCode) st
    rw [hf]
    exact ⟨rfl, ⟨h.begun, by simp [protoParseByte], h.room, h.dataLen_eq, h.buf_eq⟩, rfl⟩
  by_cases h2 : v = 0x7E
  · subst h2
    have hf : st.feed protoCode 0x7E = ⟨true, false, []⟩ := feed_start (k := protoCode) st
    rw [hf]
    refine ⟨rfl, ⟨by simp [protoParseByte], by simp [protoParseByte], h.room, ?_, ?_⟩, rfl⟩
    · simp [protoParseByte]
    · simp [protoParseByte]
  have hs : ¬ protoCode.Special v := by
    rw [special_iff]
    tauto
  by_cases h0 : p.isBegin = 0
  · have hb := h.begun.mp h0
    have hf : st.feed protoCode v = st := by
      have he : v ≠ protoCode.esc := h1
      have hst : v ≠ protoCode.start := h2
      simp [Rx.feed, he, hst, hb]
    have hp : protoParseByte p v = (p, -1) := by
      simp [protoParseByte, h1, h2, hv, h0]
    rw [hf, hp]
    exact ⟨rfl, h, rfl⟩
  · have hb : st.begun = true := by
      cases hbt : st.begun
      · exact absurd (h.begun.mpr hbt) h0
      · rfl
    have hst : st = ⟨true, st.escaped, st.data⟩ := by rw [← hb]
    have hf : st.feed protoCode v =
        ⟨true, false, st.data ++ [if p.isEsc ≠ 0 then v ^^^ 0x20 else v]⟩ := by
      rw [hst, feed_plain hs]
      by_cases he : p.isEsc = 0
      · simp [he, h.escaped.mp he]
      · have : st.escaped = true := by
          cases het : st.escaped
          · exact absurd (h.escaped.mpr het) he
          · rfl
        simp only [this, if_true, ne_eq, he, not_false_eq_true]
        rfl
    have hp : protoParseByte p v =
        ((if p.dataLen < p.bufSize then
            { p with isEsc := 0, dataLen := p.dataLen + 1,
                     buf := p.buf.set p.dataLen (if p.isEsc ≠ 0 then v ^^^ 0x20 else v) }
          else { p with isEsc := 0 }), -1) := by
      obtain ⟨buf, bufSize, dataLen, isEsc, isBegin⟩ := p
      simp only at h0
      by_cases he : isEsc = 0
      · subst he
        simp only [protoParseByte, h1, h2, hv, h0, if_false, ne_eq, not_true_eq_false]
        split <;> rfl
      · simp only [protoParseByte, h1, h2, hv, h0, if_false, ne_eq, he, not_false_eq_true,
          if_true]
        split <;> rfl
    rw [hf, hp]
    refine ⟨rfl, h.store _ hb, ?_⟩
    show (if p.dataLen < p.bufSize then _ else _ : ProtoParser).bufSize = _
    split <;> rfl

theorem protoParseByte_stop (p : ProtoParser) :
    protoParseByte p 0x7F = ({ p with isBegin := 0 }, 0) := by
  simp [protoParseByte]

/-- The read loop takes what the receiver takes, the message cut at the size of
the output buffer. -/
theorem protoParseRbLoop_spec (c : Bytes) : ∀ {rb : Ringbuf} {p : ProtoParser} {st : Rx UInt8},
    rb.Ok → rb.content = c → p.Sees st →
    (protoParseRbLoop c.length rb p).rb.Ok ∧
    (protoParseRbLoop c.length rb p).rb.size = rb.size ∧
    match next protoCode st c with
    | none => (protoParseRbLoop c.length rb p).ret = -1 ∧
        (protoParseRbLoop c.length rb p).rb.content = []
    | some (m, rest) => (protoParseRbLoop c.length rb p).ret = 0 ∧
        (protoParseRbLoop c.length rb p).rb.content = rest ∧
        (protoParseRbLoop c.length rb p).len = min m.length p.bufSize ∧
        (protoParseRbLoop c.length rb p).bufOut.take (min m.length p.bufSize) =
          m.take p.bufSize := by
  induction c with
  | nil =>
    intro rb p st hrb hcon _
    exact ⟨hrb, rfl, rfl, hcon⟩
  | cons v c ih =>
    intro rb p st hrb hcon hp
    obtain ⟨hget, hok, hcon', hsize, -⟩ := ringbufGet_some hrb hcon
    by_cases hv : v = 0x7F
    · subst hv
      have hn : next protoCode st (0x7F :: c) = some (st.data, c) := if_pos rfl
      have hl : protoParseRbLoop (0x7F :: c : Bytes).length rb p =
          { rb := (ringbufGet rb).1, bufOut := p.buf, len := p.dataLen, ret := 0 } := by
        rw [List.length_cons, protoParseRbLoop]
        simp only [hget, if_true, protoParseByte_stop]
      rw [hn, hl]
      exact ⟨hok, hsize, rfl, hcon', hp.dataLen_eq, by rw [← hp.dataLen_eq]; exact hp.buf_eq⟩
    · have hn : next protoCode st (v :: c) = next protoCode (st.feed protoCode v) c := if_neg hv
      obtain ⟨hret, hsees, hbs⟩ := protoParseByte_feed hp hv
      have hl : protoParseRbLoop (v :: c).length rb p =
          protoParseRbLoop c.length (ringbufGet rb).1 (protoParseByte p v).1 := by
        rw [List.length_cons, protoParseRbLoop]
        simp only [hget, if_true, hret]
        rw [if_neg (by decide)]
      have hih := ih hok hcon' hsees
      rw [hn, hl, ← hsize, ← hbs]
      exact hih

end Mqtt
end EspMisc
