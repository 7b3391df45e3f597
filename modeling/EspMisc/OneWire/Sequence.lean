/-
What a sequence of one-wire operations does on the bus.

The tables of this file are the waveforms of the three operations, one list of effects
for each event, written from the protocol and not from the machines: a reset pulse and
its response window, the slots of a written byte, the slots of the bytes read.
`outcome` lines them up for a whole sequence, whatever the bus answers, and
`sequence_executes` says that the handler does exactly that.
-/
import EspMisc.OneWire.Driver
import Mathlib.Data.Nat.Bitwise

namespace EspMisc
namespace OneWire

inductive Op
  | reset (arg : UInt8)
  | write (byte : UInt8)
  | read (count : UInt8)
deriving DecidableEq, Repr

def Op.type : Op → OpType
  | .reset _ => .reset
  | .write _ => .write
  | .read _ => .read

def Op.arg : Op → UInt8
  | .reset arg => arg
  | .write byte => byte
  | .read count => count

/-! ## Waveforms -/

def quiet (n : Nat) : List (List Effect) := List.replicate n []

@[simp]
theorem length_quiet (n : Nat) : (quiet n).length = n := List.length_replicate

theorem quiet_add (m n : Nat) : quiet (m + n) = quiet m ++ quiet n :=
  List.replicate_add m n []

/-- The bus is held low and left alone. -/
def resetPulse : List (List Effect) := [.set false] :: (quiet 46 ++ [[.release]])

/-- The first event of the response window, from `t` on, in which the bus is low. -/
def response (pin : Nat → Bool) (t : Nat) : Option Nat :=
  (List.range 6).find? fun j => !pin (t + j)

/-- A reset that is answered in event `j` of the window. -/
def resetTicks (j : Nat) : List (List Effect) := resetPulse ++ quiet (j + 1) ++ quiet 48

def timeoutTicks : List (List Effect) := resetPulse ++ quiet 5 ++ [[.release]]

/-- The rest of a written slot: a one goes high at once, a zero at the end. -/
def slotTicks : Bool → List (List Effect)
  | true => [.set true] :: quiet 5
  | false => quiet 5 ++ [[.set true]]

/-- The slot of bit `i`, with the event that pulls the bus low. -/
def writeSlot (byte : UInt8) (i : Nat) : List (List Effect) :=
  [.set false] :: slotTicks (byte.toNat.testBit i)

/-- A written byte, least significant bit first. -/
def writeTicks (byte : UInt8) : List (List Effect) :=
  [] :: (List.range 8).flatMap (writeSlot byte) ++ [[]]

/-- The start of a slot that is read. -/
def readPulse : List Effect := [.set false, .delayUs 1, .release]

/-- The byte whose slots begin in event `t`: a slot is sampled in its second event, and
the first slot has the least significant bit. -/
def sampledByte (pin : Nat → Bool) (t : Nat) : UInt8 :=
  UInt8.ofNat ((List.range 8).foldr (fun i n => 2 * n + (pin (t + 5 * i + 1)).toNat) 0)

/-- The bytes that are left to read, from byte `k` on.  A byte is stored in the event in
which the next one begins. -/
def readTicks (pin : Nat → Bool) : Nat → Nat → Nat → List Effect → List (List Effect)
  | 0, _, _, stored => [stored]
  | left + 1, t, k, stored =>
    (stored ++ readPulse) ::
      (quiet 4 ++ (List.replicate 7 (readPulse :: quiet 4)).flatten ++
        readTicks pin left (t + 40) (k + 1) [.store k (sampledByte pin t)])

/-- What a sequence leads to: the effects of its events, the scratchpad and the error. -/
structure Outcome where
  ticks : List (List Effect)
  spad : Nat → UInt8
  error : OwError

def Outcome.after (ticks : List (List Effect)) (o : Outcome) : Outcome :=
  { o with ticks := ticks ++ o.ticks }

/-- The operations one after the other, from event `t` on.  The last event is that of
`OW_OP_END`, or the one in which a reset gives up. -/
def outcome (pin : Nat → Bool) : Nat → (Nat → UInt8) → List Op → Outcome
  | _, spad, [] => ⟨[[]], spad, .none⟩
  | t, spad, .write byte :: ops => .after (writeTicks byte) (outcome pin (t + 58) spad ops)
  | t, spad, .read count :: ops =>
    .after (readTicks pin count.toNat t 0 [])
      (outcome pin (t + (40 * count.toNat + 1))
        (fun k => if k < count.toNat then sampledByte pin (t + 40 * k) else spad k) ops)
  | t, spad, .reset _ :: ops =>
    match response pin (t + 48) with
    | some j => .after (resetTicks j) (outcome pin (t + (97 + j)) spad ops)
    | none => ⟨timeoutTicks, spad, .resetRespTimeout⟩

/-- Every event but the last arms the timer, and the last one calls back. -/
def withTimer (cb : DoneCb) : List (List Effect) → List (List Effect)
  | [] => []
  | [last] => [last ++ [.callback cb]]
  | tick :: ticks => (tick ++ [.hwTimerArm 10]) :: withTimer cb ticks

/-! ## Events that arm the timer -/

/-- The events from `t` on have these effects, and each arms the timer. -/
inductive Ticks (pin : Nat → Bool) : Nat → Driver → List (List Effect) → Driver → Prop
  | nil (t : Nat) (d : Driver) : Ticks pin t d [] d
  | cons {t : Nat} {d d₁ d₂ : Driver} {tick : List Effect} {ticks : List (List Effect)} :
      oneWireEvent d (pin t) = (d₁, tick ++ [.hwTimerArm 10]) → Ticks pin (t + 1) d₁ ticks d₂ →
      Ticks pin t d (tick :: ticks) d₂

namespace Ticks

variable {pin : Nat → Bool} {t : Nat} {d d₁ d₂ : Driver}

theorem single {tick : List Effect}
    (h : oneWireEvent d (pin t) = (d₁, tick ++ [.hwTimerArm 10])) : Ticks pin t d [tick] d₁ :=
  .cons h (.nil _ _)

theorem append {t' : Nat} {a b : List (List Effect)} (h : Ticks pin t d a d₁)
    (h' : Ticks pin t' d₁ b d₂) (ht : t' = t + a.length) : Ticks pin t d (a ++ b) d₂ := by
  induction h with
  | nil => rwa [ht, List.length_nil, Nat.add_zero] at h'
  | cons hstep _ ih =>
    refine .cons hstep (ih h' ?_)
    rw [ht, List.length_cons]
    omega

end Ticks

/-! ## From one operation to the next -/

theorem dec_succ {n : Nat} (h : n < 255) : dec (n + 1) = n := by
  unfold dec
  omega

/-- The next operation of the sequence is reached. -/
def advance (d : Driver) : Driver :=
  { d with
    seqPos := inc d.seqPos
    seqState := .transition
    opType := d.seqArr.getD (inc d.seqPos) .invalid
    curOp := 0 }

theorem event_started {d d' : Driver} {level : Bool} {tick : List Effect}
    (hd : d.seqState ≠ .init) (hrun : runOp d level = (d', tick)) (hd' : d'.seqState = .started) :
    oneWireEvent d level = (d', tick ++ [.hwTimerArm 10]) := by
  simp [oneWireEvent, beginSeq, hd, owDoit, hrun, nextOp, hd']

theorem event_advance {d d' : Driver} {level : Bool} {tick : List Effect}
    (hd : d.seqState ≠ .init)
    (hrun : runOp d level =
      ({ d' with seqPos := inc d'.seqPos, seqState := .transition }, tick))
    (hlen : inc d'.seqPos < d'.seqLen) :
    oneWireEvent d level = (advance d', tick ++ [.hwTimerArm 10]) := by
  have hle : ¬d'.seqLen ≤ inc d'.seqPos := by omega
  simp [oneWireEvent, beginSeq, hd, owDoit, hrun, nextOp, hle, advance]

/-- What an operation leaves alone. -/
structure Framed (d d' : Driver) : Prop where
  seqArr : d'.seqArr = d.seqArr
  argArr : d'.argArr = d.argArr
  seqLen : d'.seqLen = d.seqLen
  seqPos : d'.seqPos = d.seqPos
  error : d'.error = d.error
  callback : d'.callback = d.callback

theorem Framed.trans {d d' d'' : Driver} (h : Framed d d') (h' : Framed d' d'') : Framed d d'' where
  seqArr := h'.seqArr.trans h.seqArr
  argArr := h'.argArr.trans h.argArr
  seqLen := h'.seqLen.trans h.seqLen
  seqPos := h'.seqPos.trans h.seqPos
  error := h'.error.trans h.error
  callback := h'.callback.trans h.callback

/-! ## The reset machine -/

section Reset

variable {pin : Nat → Bool} {t : Nat} {d : Driver}

def inReset (d : Driver) (op delay : Nat) : Driver :=
  { d with seqState := .started, opType := .reset, curOp := op, delayCount := delay }

theorem reset_framed (op delay : Nat) : Framed d (inReset d op delay) :=
  ⟨rfl, rfl, rfl, rfl, rfl, rfl⟩

theorem reset_tick {op delay op' delay' : Nat} {tick : List Effect}
    (h : owDoitReset (inReset d op delay) (pin t) = (inReset d op' delay', tick)) :
    oneWireEvent (inReset d op delay) (pin t) =
      (inReset d op' delay', tick ++ [.hwTimerArm 10]) :=
  event_started (by simp [inReset]) h rfl

theorem reset_init (hstate : d.seqState = .transition) (hop : d.opType = .reset) :
    Ticks pin t d [[.set false]] (inReset d OW_RESET_OP_WAIT_480_LOW 47) := by
  apply Ticks.single
  apply event_started
  · simp [hstate]
  · simp [runOp, hop, enter, hstate, owDoitReset, inReset]
  · rfl

/-- The countdown of the pulse and that of the recovery. -/
theorem reset_wait {op : Nat} (hop : op = OW_RESET_OP_WAIT_480_LOW ∨ op = OW_RESET_OP_WAIT_480)
    (n : Nat) (hn : n < 47) : Ticks pin t (inReset d op (n + 1)) (quiet n) (inReset d op 1) := by
  induction n generalizing t with
  | zero => exact .nil _ _
  | succ n ih =>
    refine .cons (reset_tick ?_) (ih (by omega))
    rcases hop with rfl | rfl <;>
      simp [owDoitReset, inReset, dec_succ (show n + 1 < 255 by omega)]

theorem reset_release :
    Ticks pin t (inReset d OW_RESET_OP_WAIT_480_LOW 1) [[.release]]
      (inReset d OW_RESET_OP_WAIT_60_RESP 6) :=
  .single (reset_tick (by simp [owDoitReset, inReset, dec]))

theorem reset_pulse (hstate : d.seqState = .transition) (hop : d.opType = .reset) :
    Ticks pin t d resetPulse (inReset d OW_RESET_OP_WAIT_60_RESP 6) :=
  (reset_init hstate hop).append
    ((reset_wait (.inl rfl) 46 (by omega)).append reset_release rfl) rfl

/-- The window stays open while the bus is high. -/
theorem reset_unanswered (m n : Nat) (hmn : m + n < 6) (hhigh : ∀ i < m, pin (t + i) = true) :
    Ticks pin t (inReset d OW_RESET_OP_WAIT_60_RESP (m + (n + 1))) (quiet m)
      (inReset d OW_RESET_OP_WAIT_60_RESP (n + 1)) := by
  induction m generalizing t with
  | zero => simpa [quiet] using Ticks.nil t _
  | succ m ih =>
    have hnow : pin t = true := hhigh 0 (by omega)
    refine .cons (reset_tick ?_) (ih (by omega) ?_)
    · rw [show m + 1 + (n + 1) = m + (n + 1) + 1 by omega, hnow]
      simp [owDoitReset, inReset, dec_succ (show m + (n + 1) < 255 by omega)]
    · intro i hi
      rw [show t + 1 + i = t + (i + 1) by omega]
      exact hhigh (i + 1) (by omega)

theorem reset_answered (n : Nat) (hlow : pin t = false) :
    Ticks pin t (inReset d OW_RESET_OP_WAIT_60_RESP n) (quiet 1)
      (inReset d OW_RESET_OP_WAIT_480 47) :=
  .single (reset_tick (by simp [owDoitReset, inReset, hlow]))

theorem reset_recovery (hlen : inc d.seqPos < d.seqLen) :
    Ticks pin t (inReset d OW_RESET_OP_WAIT_480 47) (quiet 48)
      (advance (inReset d OW_RESET_OP_DONE 0)) := by
  have hdone (t : Nat) : owDoitReset (inReset d OW_RESET_OP_WAIT_480 1) (pin t) =
      (inReset d OW_RESET_OP_DONE 0, []) := by
    simp [owDoitReset, inReset, dec]
  have hlast : Ticks pin (t + 46) (inReset d OW_RESET_OP_WAIT_480 1) (quiet 2)
      (advance (inReset d OW_RESET_OP_DONE 0)) :=
    .cons (reset_tick (hdone _)) (.single (event_advance (by simp [inReset]) rfl hlen))
  exact (reset_wait (.inr rfl) 46 (by omega)).append hlast rfl

theorem length_resetPulse : resetPulse.length = 48 := rfl

theorem reset_ticks (hstate : d.seqState = .transition) (hop : d.opType = .reset)
    (hlen : inc d.seqPos < d.seqLen) {j : Nat} (hj : response pin (t + 48) = some j) :
    Ticks pin t d (resetTicks j) (advance (inReset d OW_RESET_OP_DONE 0)) := by
  obtain ⟨hlow, hlt, hhigh⟩ := List.find?_range_eq_some.mp hj
  simp only [List.mem_range, Bool.not_not, Bool.not_eq_eq_eq_not] at hlow hlt hhigh
  have hopen := reset_unanswered (d := d) j (5 - j) (by omega) hhigh
  rw [show j + (5 - j + 1) = 6 by omega] at hopen
  have hwindow := hopen.append (reset_answered _ hlow) (by rw [length_quiet])
  rw [← quiet_add] at hwindow
  exact ((reset_pulse hstate hop).append hwindow rfl).append (reset_recovery hlen) rfl

theorem reset_timeout (hstate : d.seqState = .transition) (hop : d.opType = .reset)
    (hnone : response pin (t + 48) = none) :
    Ticks pin t d (resetPulse ++ quiet 5) (inReset d OW_RESET_OP_WAIT_60_RESP 1) ∧
      oneWireEvent (inReset d OW_RESET_OP_WAIT_60_RESP 1) (pin (t + 53)) =
        ({ inReset d OW_RESET_OP_WAIT_60_RESP 0 with
            seqState := .done, error := .resetRespTimeout },
          .release :: (d.callback.map Effect.callback).toList) := by
  have hhigh : ∀ i < 6, pin (t + 48 + i) = true := by
    simpa [response] using hnone
  constructor
  · have hopen := reset_unanswered (d := d) 5 0 (by omega) fun i hi => hhigh i (by omega)
    exact (reset_pulse hstate hop).append hopen rfl
  · have hlast : pin (t + 53) = true := hhigh 5 (by omega)
    rw [hlast]
    simp [oneWireEvent, beginSeq, owDoit, runOp, enter, owDoitReset, inReset, dec, nextOp]

end Reset

/-! ## The write machine -/

section Write

variable {pin : Nat → Bool} {t : Nat} {d : Driver}

def bitMask (i : Nat) : UInt8 := UInt8.ofNat (2 ^ i)

theorem bitMask_shift {i : Nat} (h : i < 7) : bitMask i <<< 1 = bitMask (i + 1) := by
  revert i
  decide

theorem bitMask_ne_zero {i : Nat} (h : i < 8) : bitMask i ≠ 0 := by
  revert i
  decide

theorem bitMask_and {i : Nat} (h : i < 8) (byte : UInt8) :
    bitMask i &&& byte ≠ 0 ↔ byte.toNat.testBit i = true := by
  have hlt : 2 ^ i < 2 ^ 8 := Nat.pow_lt_pow_right (by omega) h
  have hand : (bitMask i &&& byte).toNat = 2 ^ i * (byte.toNat.testBit i).toNat := by
    rw [UInt8.toNat_and, bitMask, UInt8.toNat_ofNat_of_lt' hlt, Nat.two_pow_and]
  rw [Ne, ← UInt8.toNat_inj, hand]
  cases byte.toNat.testBit i <;> simp

def inWrite (d : Driver) (byte : UInt8) (i op delay : Nat) : Driver :=
  { d with
    seqState := .started, opType := .write, curOp := op, delayCount := delay
    write := ⟨bitMask i, byte⟩ }

/-- The bus was pulled low for bit `i`. -/
def inSlot (d : Driver) (byte : UInt8) (i : Nat) : Driver :=
  inWrite d byte i
    (if byte.toNat.testBit i then OW_WRITE_OP_WRITE_FIRST else OW_WRITE_OP_WAIT_FIRST) 6

theorem write_tick {byte : UInt8} {i op delay i' op' delay' : Nat} {tick : List Effect}
    (h : writeSwitch (inWrite d byte i op delay) = (inWrite d byte i' op' delay', tick))
    (hop : op' ≠ OW_WRITE_OP_DONE) :
    oneWireEvent (inWrite d byte i op delay) (pin t) =
      (inWrite d byte i' op' delay', tick ++ [.hwTimerArm 10]) := by
  refine event_started (by simp [inWrite]) ?_ rfl
  change opDone _ (writeSwitch (inWrite d byte i op delay)) = _
  rw [h, opDone]
  exact if_neg hop

theorem writeLineLow_inWrite {i : Nat} (hi : i < 8) (byte : UInt8) (op delay : Nat) :
    writeLineLow (inWrite d byte i op delay) = (inSlot d byte i, [.set false]) := by
  unfold writeLineLow inSlot inWrite
  simp only [bitMask_and hi byte]

theorem write_init (hstate : d.seqState = .transition) (hop : d.opType = .write) :
    Ticks pin t d [[]] (inWrite d d.arg 0 OW_WRITE_OP_LINE_LOW d.delayCount) := by
  apply Ticks.single
  apply event_started
  · simp [hstate]
  · simp [runOp, hop, enter, hstate, owDoitWrite, opDone, writeSwitch, inWrite, bitMask, Driver.arg]
  · rfl

theorem write_wait {byte : UInt8} {i op : Nat}
    (hop : op = OW_WRITE_OP_WRITE_FIRST ∨ op = OW_WRITE_OP_WAIT_FIRST) (n : Nat) (hn : n < 5) :
    Ticks pin t (inWrite d byte i op (n + 1)) (quiet n) (inWrite d byte i op 1) := by
  induction n generalizing t with
  | zero => exact .nil _ _
  | succ n ih =>
    have hne : n + 1 + 1 ≠ 6 := by omega
    refine .cons (write_tick ?_ (by rcases hop with rfl | rfl <;> decide)) (ih (by omega))
    rcases hop with rfl | rfl <;>
      simp [writeSwitch, inWrite, dec_succ (show n + 1 < 255 by omega), hne]

theorem write_slot (byte : UInt8) (i : Nat) :
    Ticks pin t (inSlot d byte i) (slotTicks (byte.toNat.testBit i))
      (inWrite d byte i OW_WRITE_OP_FINALLY 0) := by
  unfold inSlot
  cases byte.toNat.testBit i with
  | true =>
    have hhigh : writeSwitch (inWrite d byte i OW_WRITE_OP_WRITE_FIRST 6) =
        (inWrite d byte i OW_WRITE_OP_WRITE_FIRST 5, [.set true]) := by
      simp [writeSwitch, inWrite, dec]
    have hlast : writeSwitch (inWrite d byte i OW_WRITE_OP_WRITE_FIRST 1) =
        (inWrite d byte i OW_WRITE_OP_FINALLY 0, []) := by
      simp [writeSwitch, inWrite, dec]
    refine .cons (write_tick hhigh (by decide)) ?_
    exact (write_wait (.inl rfl) 4 (by omega)).append (.single (write_tick hlast (by decide))) rfl
  | false =>
    have hlast : writeSwitch (inWrite d byte i OW_WRITE_OP_WAIT_FIRST 1) =
        (inWrite d byte i OW_WRITE_OP_FINALLY 0, [.set true]) := by
      simp [writeSwitch, inWrite, dec]
    have hfirst : writeSwitch (inWrite d byte i OW_WRITE_OP_WAIT_FIRST 6) =
        (inWrite d byte i OW_WRITE_OP_WAIT_FIRST 5, []) := by
      simp [writeSwitch, inWrite, dec]
    refine .cons (write_tick hfirst (by decide)) ?_
    exact (write_wait (.inr rfl) 4 (by omega)).append (.single (write_tick hlast (by decide))) rfl

theorem write_finally {i : Nat} (hi : i < 7) (byte : UInt8) :
    writeSwitch (inWrite d byte i OW_WRITE_OP_FINALLY 0) =
      (inSlot d byte (i + 1), [.set false]) := by
  have hlow := writeLineLow_inWrite (d := d) (show i + 1 < 8 by omega) byte OW_WRITE_OP_FINALLY 0
  have hne := bitMask_ne_zero (show i + 1 < 8 by omega)
  unfold writeSwitch inWrite
  simp only [bitMask_shift hi, hne, if_false]
  exact hlow

theorem write_slots (byte : UInt8) (n i : Nat) (hn : i + n = 7) :
    Ticks pin t (inWrite d byte i OW_WRITE_OP_FINALLY 0)
      ((List.range' (i + 1) n).flatMap (writeSlot byte))
      (inWrite d byte 7 OW_WRITE_OP_FINALLY 0) := by
  induction n generalizing t i with
  | zero =>
    obtain rfl : i = 7 := by omega
    exact .nil _ _
  | succ n ih =>
    have hne : (if byte.toNat.testBit (i + 1) then OW_WRITE_OP_WRITE_FIRST
        else OW_WRITE_OP_WAIT_FIRST) ≠ OW_WRITE_OP_DONE := by
      split <;> decide
    have hlow := write_finally (d := d) (show i < 7 by omega) byte
    rw [List.range'_succ, List.flatMap_cons]
    exact .append (.cons (write_tick hlow hne) (write_slot byte (i + 1)))
      (ih (i + 1) (by omega)) rfl

theorem write_done (byte : UInt8) (hlen : inc d.seqPos < d.seqLen) :
    Ticks pin t (inWrite d byte 7 OW_WRITE_OP_FINALLY 0) [[]]
      (advance { inWrite d byte 7 OW_WRITE_OP_DONE 0 with write := ⟨0, byte⟩ }) := by
  have hzero : bitMask 7 <<< 1 = 0 := by decide
  have hdone : writeSwitch (inWrite d byte 7 OW_WRITE_OP_FINALLY 0) =
      ({ inWrite d byte 7 OW_WRITE_OP_DONE 0 with write := ⟨0, byte⟩ }, []) := by
    simp [writeSwitch, inWrite, hzero]
  refine .single (event_advance (by simp [inWrite]) ?_ hlen)
  change opDone _ (writeSwitch (inWrite d byte 7 OW_WRITE_OP_FINALLY 0)) = _
  rw [hdone]
  rfl

theorem writeTicks_eq (byte : UInt8) :
    writeTicks byte = [[]] ++ (writeSlot byte 0 ++
      ((List.range' 1 7).flatMap (writeSlot byte) ++ [[]])) := by
  have hrange : List.range 8 = 0 :: List.range' 1 7 := by decide
  rw [writeTicks, hrange, List.flatMap_cons]
  simp only [List.cons_append, List.nil_append, List.append_assoc]

theorem write_ticks (hstate : d.seqState = .transition) (hop : d.opType = .write)
    (hlen : inc d.seqPos < d.seqLen) :
    ∃ d', Ticks pin t d (writeTicks d.arg) (advance d') ∧ Framed d d' ∧
      d'.spadBuf = d.spadBuf := by
  have hfirst : writeSwitch (inWrite d d.arg 0 OW_WRITE_OP_LINE_LOW d.delayCount) =
      (inSlot d d.arg 0, [.set false]) :=
    writeLineLow_inWrite (by omega) d.arg _ _
  have hne : (if d.arg.toNat.testBit 0 then OW_WRITE_OP_WRITE_FIRST
      else OW_WRITE_OP_WAIT_FIRST) ≠ OW_WRITE_OP_DONE := by
    split <;> decide
  refine ⟨{ inWrite d d.arg 7 OW_WRITE_OP_DONE 0 with write := ⟨0, d.arg⟩ }, ?_,
    ⟨rfl, rfl, rfl, rfl, rfl, rfl⟩, rfl⟩
  have hslot : Ticks pin (t + 1) _ (writeSlot d.arg 0) _ :=
    .cons (write_tick hfirst hne) (write_slot d.arg 0)
  rw [writeTicks_eq]
  refine (write_init hstate hop).append (hslot.append ?_ rfl) rfl
  exact (write_slots _ 7 0 rfl).append (write_done _ hlen) rfl

end Write

/-! ## The read machine -/

section Read

variable {pin : Nat → Bool} {t : Nat} {d : Driver}

def inRead (d : Driver) (op delay : Nat) (statics : ReadStatics) : Driver :=
  { d with
    seqState := .started, opType := .read, curOp := op, delayCount := delay, read := statics }

theorem read_framed (op delay : Nat) (statics : ReadStatics) :
    Framed d (inRead d op delay statics) := ⟨rfl, rfl, rfl, rfl, rfl, rfl⟩

theorem read_tick {d' : Driver} {op delay op' delay' : Nat} {statics statics' : ReadStatics}
    {tick : List Effect}
    (h : readSwitch (inRead d op delay statics) (pin t) = (inRead d' op' delay' statics', tick))
    (hop : op' ≠ OW_READ_OP_DONE) :
    oneWireEvent (inRead d op delay statics) (pin t) =
      (inRead d' op' delay' statics', tick ++ [.hwTimerArm 10]) := by
  refine event_started (by simp [inRead]) ?_ rfl
  change opDone _ (readSwitch (inRead d op delay statics) (pin t)) = _
  rw [h, opDone]
  exact if_neg hop

theorem read_init (hstate : d.seqState = .transition) (hop : d.opType = .read) :
    Ticks pin t d [readPulse]
      (inRead d OW_READ_OP_SAMPLE d.delayCount ⟨bitMask 0, false, d.arg.toNat, 0, 0⟩) := by
  apply Ticks.single
  apply event_started
  · simp [hstate]
  · simp [runOp, hop, enter, hstate, owDoitRead, opDone, readSwitch, readLineLow, readPulse, inRead,
      bitMask, Driver.arg]
  · rfl

def sampled (st : ReadStatics) (level : Bool) : ReadStatics :=
  { st with
    sample := level
    data := if level then st.data ||| st.bitMask else st.data
    bitMask := st.bitMask <<< 1 }

theorem read_wait (st : ReadStatics) (n : Nat) (hn : n < 4) :
    Ticks pin t (inRead d OW_READ_OP_WAIT_50 (n + 1) st) (quiet n)
      (inRead d OW_READ_OP_WAIT_50 1 st) := by
  induction n generalizing t with
  | zero => exact .nil _ _
  | succ n ih =>
    refine .cons (read_tick ?_ (by decide)) (ih (by omega))
    simp [readSwitch, inRead, dec_succ (show n + 1 < 255 by omega)]

/-- The rest of a slot: its sample and its recovery. -/
theorem read_slot (delay : Nat) (st : ReadStatics) :
    Ticks pin t (inRead d OW_READ_OP_SAMPLE delay st) (quiet 4)
      (inRead d OW_READ_OP_WAIT_50 1 (sampled st (pin t))) := by
  have hsample : readSwitch (inRead d OW_READ_OP_SAMPLE delay st) (pin t) =
      (inRead d OW_READ_OP_WAIT_50 4 (sampled st (pin t)), []) := rfl
  exact .cons (read_tick hsample (by decide)) (read_wait _ 3 (by omega))

theorem read_slots (n i delay : Nat) (hn : i + n = 7) (st : ReadStatics)
    (hmask : st.bitMask = bitMask i) :
    Ticks pin (t + 5 * i + 1) (inRead d OW_READ_OP_SAMPLE delay st)
      (quiet 4 ++ (List.replicate n (readPulse :: quiet 4)).flatten)
      (inRead d OW_READ_OP_WAIT_50 1
        ((List.range' i (n + 1)).foldl (fun st j => sampled st (pin (t + 5 * j + 1))) st)) := by
  induction n generalizing i delay st with
  | zero => exact (read_slot delay st).append (.nil _ _) rfl
  | succ n ih =>
    have hshift : (sampled st (pin (t + 5 * i + 1))).bitMask = bitMask (i + 1) := by
      rw [sampled, hmask, bitMask_shift (by omega)]
    have hnext (level : Bool) :
        readSwitch (inRead d OW_READ_OP_WAIT_50 1 (sampled st (pin (t + 5 * i + 1)))) level =
          (inRead d OW_READ_OP_SAMPLE 0 (sampled st (pin (t + 5 * i + 1))), readPulse) := by
      have hne := bitMask_ne_zero (show i + 1 < 8 by omega)
      simp [readSwitch, inRead, dec, hshift, hne, readLineLow, readPulse]
    rw [List.replicate_succ, List.flatten_cons, List.range'_succ, List.foldl_cons]
    refine (read_slot delay st).append (.cons (read_tick (hnext _) (by decide)) ?_) rfl
    exact ih (i + 1) 0 (by omega) _ hshift

theorem sampled_data : ∀ b₀ b₁ b₂ b₃ b₄ b₅ b₆ b₇ : Bool,
    ([b₀, b₁, b₂, b₃, b₄, b₅, b₆, b₇].foldl sampled ⟨bitMask 0, false, 0, 0, 0⟩).data =
      UInt8.ofNat
        ([b₀, b₁, b₂, b₃, b₄, b₅, b₆, b₇].foldr (fun b n => 2 * n + b.toNat) 0) := by
  decide +kernel

theorem sampled_byte (sample : Bool) (left k : Nat) :
    (List.range' 0 8).foldl (fun st j => sampled st (pin (t + 5 * j + 1)))
        ⟨bitMask 0, sample, left, k, 0⟩ =
      ⟨0, pin (t + 36), left, k, sampledByte pin t⟩ := by
  have hdata := sampled_data (pin (t + 1)) (pin (t + 6)) (pin (t + 11)) (pin (t + 16))
    (pin (t + 21)) (pin (t + 26)) (pin (t + 31)) (pin (t + 36))
  have hbyte : sampledByte pin t = _ := hdata.symm
  rw [hbyte]
  have hrange : List.range' 0 8 = [0, 1, 2, 3, 4, 5, 6, 7] := rfl
  rw [hrange]
  simp only [List.foldl_cons, List.foldl_nil, sampled]
  congr 1

/-- `x` was stored as byte `k` of the scratchpad. -/
def stored (d : Driver) (k : Nat) (x : UInt8) : Driver :=
  { d with spadBuf := Function.update d.spadBuf k x }

theorem stored_framed (k : Nat) (x : UInt8) : Framed d (stored d k x) :=
  ⟨rfl, rfl, rfl, rfl, rfl, rfl⟩

theorem read_next {left k : Nat} (hleft : left < 254) (hk : k < 255) (sample level : Bool)
    (x : UInt8) :
    readSwitch (inRead d OW_READ_OP_WAIT_50 1 ⟨0, sample, left + 1 + 1, k, x⟩) level =
      (inRead (stored d k x) OW_READ_OP_SAMPLE 0 ⟨bitMask 0, sample, left + 1, k + 1, 0⟩,
        .store k x :: readPulse) := by
  have hdec := dec_succ (show left + 1 < 255 by omega)
  have hinc : inc k = k + 1 := Nat.mod_eq_of_lt (by omega)
  have hone : dec 1 = 0 := rfl
  simp [readSwitch, inRead, hdec, hinc, hone, readLineLow, readPulse, stored, bitMask]

theorem read_last {k : Nat} (hk : k < 255) (sample level : Bool) (x : UInt8) :
    readSwitch (inRead d OW_READ_OP_WAIT_50 1 ⟨0, sample, 1, k, x⟩) level =
      (inRead (stored d k x) OW_READ_OP_DONE 0 ⟨bitMask 0, sample, 0, k + 1, 0⟩,
        [.store k x]) := by
  have hinc : inc k = k + 1 := Nat.mod_eq_of_lt (by omega)
  have hone : dec 1 = 0 := rfl
  simp [readSwitch, inRead, hinc, hone, stored, bitMask]

/-- The scratchpad after the bytes from `k` on were read, of which the first began in
event `t`. -/
def readSpad (pin : Nat → Bool) (t k left : Nat) (spad : Nat → UInt8) : Nat → UInt8 :=
  fun j => if k ≤ j ∧ j < k + left then sampledByte pin (t + 40 * (j - k)) else spad j

theorem readSpad_one (t k : Nat) (spad : Nat → UInt8) :
    readSpad pin t k 1 spad = Function.update spad k (sampledByte pin t) := by
  funext j
  by_cases hj : j = k
  · subst hj
    simp [readSpad]
  · rw [Function.update_of_ne hj, readSpad, if_neg (by omega)]

theorem readSpad_succ (t k left : Nat) (spad : Nat → UInt8) :
    readSpad pin (t + 40) (k + 1) left (Function.update spad k (sampledByte pin t)) =
      readSpad pin t k (left + 1) spad := by
  funext j
  unfold readSpad
  by_cases hj : j = k
  · subst hj
    simp
  · by_cases hin : k + 1 ≤ j ∧ j < k + 1 + left
    · rw [if_pos hin, if_pos (by omega),
        show t + 40 + 40 * (j - (k + 1)) = t + 40 * (j - k) by omega]
    · rw [if_neg hin, if_neg (by omega), Function.update_of_ne hj]

theorem readSpad_zero (t n : Nat) (spad : Nat → UInt8) :
    readSpad pin t 0 n spad =
      fun j => if j < n then sampledByte pin (t + 40 * j) else spad j := by
  funext j
  simp [readSpad]

theorem read_byte (left k delay : Nat) (sample : Bool) :
    Ticks pin (t + 1) (inRead d OW_READ_OP_SAMPLE delay ⟨bitMask 0, sample, left, k, 0⟩)
      (quiet 4 ++ (List.replicate 7 (readPulse :: quiet 4)).flatten)
      (inRead d OW_READ_OP_WAIT_50 1 ⟨0, pin (t + 36), left, k, sampledByte pin t⟩) := by
  rw [← sampled_byte sample]
  exact read_slots 7 0 delay rfl _ rfl

/-- The bytes from byte `k` on, with the first slot under way. -/
theorem read_bytes (left k delay : Nat) (sample : Bool) (hk : k + left < 255)
    (hlen : inc d.seqPos < d.seqLen) :
    ∃ d', Ticks pin (t + 1)
        (inRead d OW_READ_OP_SAMPLE delay ⟨bitMask 0, sample, left + 1, k, 0⟩)
        (quiet 4 ++ (List.replicate 7 (readPulse :: quiet 4)).flatten ++
          readTicks pin left (t + 40) (k + 1) [.store k (sampledByte pin t)]) (advance d') ∧
      Framed d d' ∧ d'.spadBuf = readSpad pin t k (left + 1) d.spadBuf := by
  induction left generalizing d t k delay sample with
  | zero =>
    refine ⟨inRead (stored d k (sampledByte pin t)) OW_READ_OP_DONE 0
      ⟨bitMask 0, pin (t + 36), 0, k + 1, 0⟩, (read_byte 1 k delay sample).append (.single ?_) rfl,
      (stored_framed k _).trans (read_framed _ _ _), (readSpad_one t k d.spadBuf).symm⟩
    refine event_advance (by simp [inRead]) ?_ hlen
    change opDone _ (readSwitch (inRead d OW_READ_OP_WAIT_50 1 _) _) = _
    rw [read_last (by omega)]
    rfl
  | succ left ih =>
    obtain ⟨d', hticks, hframed, hspad⟩ :=
      ih (t := t + 40) (d := stored d k (sampledByte pin t)) (k + 1) 0 (pin (t + 36))
        (by omega) hlen
    refine ⟨d', (read_byte _ k delay sample).append (.cons ?_ hticks) rfl,
      (stored_framed k _).trans hframed, hspad.trans (readSpad_succ t k (left + 1) d.spadBuf)⟩
    exact read_tick (read_next (by omega) (by omega) _ _ _) (by decide)

theorem read_ticks (hstate : d.seqState = .transition) (hop : d.opType = .read)
    (hlen : inc d.seqPos < d.seqLen) (hpos : d.arg ≠ 0) :
    ∃ d', Ticks pin t d (readTicks pin d.arg.toNat t 0 []) (advance d') ∧ Framed d d' ∧
      d'.spadBuf = readSpad pin t 0 d.arg.toNat d.spadBuf := by
  have hinit : Ticks pin t d [readPulse] _ := read_init hstate hop
  have hlt := d.arg.toNat_lt
  obtain ⟨left, hleft⟩ : ∃ left, d.arg.toNat = left + 1 :=
    Nat.exists_eq_succ_of_ne_zero fun h => hpos (UInt8.toNat_inj.mp h)
  rw [hleft] at hinit ⊢
  obtain ⟨d', hticks, hframed⟩ := read_bytes left 0 d.delayCount false (by omega) hlen
  exact ⟨d', hinit.append hticks rfl, hframed⟩

end Read

/-! ## Sequences -/

section Sequences

variable {pin : Nat → Bool} {t : Nat} {d : Driver} {cb : DoneCb} {ops : List Op}

/-- The operations `ops` are left of a sequence, and the first of them is next. -/
structure Left (cb : DoneCb) (ops : List Op) (d : Driver) : Prop where
  seqState : d.seqState = .transition
  opType : d.opType = d.seqArr.getD d.seqPos .invalid
  types : d.seqArr.drop d.seqPos = ops.map Op.type ++ [.fin]
  args : ∃ x, d.argArr.drop d.seqPos = ops.map Op.arg ++ [x]
  seqLen : d.seqLen = d.seqPos + (ops.length + 1)
  short : d.seqLen ≤ 255
  error : d.error = .none
  callback : d.callback = some cb

theorem getD_of_drop {α : Type} {l rest : List α} {n : Nat} {x y : α}
    (h : l.drop n = x :: rest) : l.getD n y = x := by
  have hx : l[n]? = some x := by
    rw [← Nat.add_zero n, ← List.getElem?_drop, h]
    rfl
  rw [List.getD_eq_getElem?_getD, hx]
  rfl

theorem drop_succ_of_drop {α : Type} {l rest : List α} {n : Nat} {x : α}
    (h : l.drop n = x :: rest) : l.drop (n + 1) = rest := by
  rw [← List.drop_drop, h]
  rfl

namespace Left

variable {op : Op} {d' : Driver}

theorem opType_fin (h : Left cb [] d) : d.opType = .fin :=
  h.opType.trans (getD_of_drop h.types)

theorem opType_eq (h : Left cb (op :: ops) d) : d.opType = op.type :=
  h.opType.trans (getD_of_drop h.types)

theorem arg_eq (h : Left cb (op :: ops) d) : d.arg = op.arg := by
  obtain ⟨x, hx⟩ := h.args
  exact getD_of_drop hx

theorem inc_seqPos (h : Left cb (op :: ops) d) : inc d.seqPos = d.seqPos + 1 := by
  have hlen := h.seqLen
  have hshort := h.short
  exact Nat.mod_eq_of_lt (by omega)

theorem more (h : Left cb (op :: ops) d) : inc d.seqPos < d.seqLen := by
  rw [h.inc_seqPos, h.seqLen, List.length_cons]
  omega

theorem next (h : Left cb (op :: ops) d) (hd : Framed d d') : Left cb ops (advance d') := by
  have hpos : (advance d').seqPos = d.seqPos + 1 := by
    rw [← h.inc_seqPos, ← hd.seqPos]
    rfl
  obtain ⟨x, hx⟩ := h.args
  refine ⟨rfl, rfl, ?_, ⟨x, ?_⟩, ?_, ?_, hd.error.trans h.error, hd.callback.trans h.callback⟩
  · rw [hpos, show (advance d').seqArr = d.seqArr from hd.seqArr]
    exact drop_succ_of_drop h.types
  · rw [hpos, show (advance d').argArr = d.argArr from hd.argArr]
    exact drop_succ_of_drop hx
  · rw [hpos, show (advance d').seqLen = d.seqLen from hd.seqLen, h.seqLen, List.length_cons]
    omega
  · exact hd.seqLen.trans_le h.short

end Left

/-- The events from `t` on have these effects, all but the last arm the timer, and the
last one calls back. -/
inductive Does (cb : DoneCb) (pin : Nat → Bool) :
    Nat → Driver → List (List Effect) → Driver → Prop
  | last {t : Nat} {d d₁ : Driver} {tick : List Effect} :
      oneWireEvent d (pin t) = (d₁, tick ++ [.callback cb]) → Effect.hwTimerArm 10 ∉ tick →
      Does cb pin t d [tick] d₁
  | cons {t : Nat} {d d₁ d₂ : Driver} {tick : List Effect} {ticks : List (List Effect)} :
      oneWireEvent d (pin t) = (d₁, tick ++ [.hwTimerArm 10]) → Does cb pin (t + 1) d₁ ticks d₂ →
      Does cb pin t d (tick :: ticks) d₂

theorem Ticks.does {t' : Nat} {a b : List (List Effect)} {d₁ d₂ : Driver}
    (h : Ticks pin t d a d₁) (h' : Does cb pin t' d₁ b d₂) (ht : t' = t + a.length) :
    Does cb pin t d (a ++ b) d₂ := by
  induction h with
  | nil => rwa [ht, List.length_nil, Nat.add_zero] at h'
  | cons hstep _ ih =>
    refine .cons hstep (ih h' ?_)
    rw [ht, List.length_cons]
    omega

/-- Such events are all there is of the sequence. -/
theorem Does.sequence {ticks : List (List Effect)} {d₁ : Driver} (h : Does cb pin t d ticks d₁) :
    sequence pin ticks.length t d = some (withTimer cb ticks, d₁) := by
  induction h with
  | last hstep hunarmed => simp [OneWire.sequence, hstep, hunarmed, withTimer]
  | @cons t d d₁ d₂ tick ticks hstep hdoes ih =>
    have hne : ticks ≠ [] := by cases hdoes <;> simp
    simp only [OneWire.sequence, hstep, List.length_cons, ih]
    rw [if_pos (by simp), withTimer.eq_3 _ _ _ (by simpa using hne)]
    rfl

theorem length_writeTicks (byte : UInt8) : (writeTicks byte).length = 58 := by
  have hslot (b : Bool) : (slotTicks b).length = 6 := by cases b <;> rfl
  simp [writeTicks, writeSlot, hslot, List.length_flatMap]

theorem length_readTicks (left t k : Nat) (stored : List Effect) :
    (readTicks pin left t k stored).length = 40 * left + 1 := by
  induction left generalizing t k stored with
  | zero => rfl
  | succ left ih =>
    simp [readTicks, ih]
    omega

/-- From event `t` on the outcome is `o`. -/
def Performs (cb : DoneCb) (pin : Nat → Bool) (t : Nat) (d : Driver) (o : Outcome) : Prop :=
  ∃ d', Does cb pin t d o.ticks d' ∧ d'.spadBuf = o.spad ∧ d'.error = o.error

theorem Performs.after {t' : Nat} {ticks : List (List Effect)} {d₁ : Driver} {o : Outcome}
    (h : Performs cb pin t' d₁ o) (hticks : Ticks pin t d ticks d₁)
    (ht : t' = t + ticks.length) : Performs cb pin t d (o.after ticks) := by
  obtain ⟨d', hdoes, hspad⟩ := h
  exact ⟨d', hticks.does hdoes ht, hspad⟩

theorem end_performs (h : Left cb [] d) : Performs cb pin t d ⟨[[]], d.spadBuf, .none⟩ := by
  refine ⟨{ d with seqState := .done }, .last ?_ (by simp), rfl, h.error⟩
  simp [oneWireEvent, beginSeq, h.seqState, owDoit, runOp, h.opType_fin, nextOp, h.callback]

theorem timeout_performs {arg : UInt8} (h : Left cb (.reset arg :: ops) d)
    (hnone : response pin (t + 48) = none) :
    Performs cb pin t d ⟨timeoutTicks, d.spadBuf, .resetRespTimeout⟩ := by
  obtain ⟨hticks, hlast⟩ := reset_timeout h.seqState h.opType_eq hnone
  rw [h.callback] at hlast
  exact ⟨_, hticks.does (.last hlast (by simp)) rfl, rfl, rfl⟩

theorem left_performs (h : Left cb ops d) (hops : ∀ n, .read n ∈ ops → n ≠ 0) :
    Performs cb pin t d (outcome pin t d.spadBuf ops) := by
  induction ops generalizing t d with
  | nil => exact end_performs h
  | cons op ops ih =>
    have hrest : ∀ n, .read n ∈ ops → n ≠ 0 := fun n hn => hops n (List.mem_cons_of_mem _ hn)
    cases op with
    | reset arg =>
      simp only [outcome]
      cases hresponse : response pin (t + 48) with
      | none => exact timeout_performs h hresponse
      | some j =>
        have hticks := reset_ticks h.seqState h.opType_eq h.more hresponse
        have hnext := h.next (reset_framed OW_RESET_OP_DONE 0)
        exact (ih hnext hrest).after hticks (by simp [resetTicks, length_resetPulse]; omega)
    | write byte =>
      obtain ⟨d', hticks, hframed, hspad⟩ := write_ticks h.seqState h.opType_eq h.more
      have hnext := ih (t := t + 58) (h.next hframed) hrest
      rw [show (advance d').spadBuf = d.spadBuf from hspad] at hnext
      rw [h.arg_eq] at hticks
      exact hnext.after hticks (by rw [length_writeTicks])
    | read count =>
      have hne : d.arg ≠ 0 := h.arg_eq ▸ hops count (List.mem_cons_self ..)
      obtain ⟨d', hticks, hframed, hspad⟩ := read_ticks h.seqState h.opType_eq h.more hne
      rw [h.arg_eq] at hticks hspad
      have hnext := ih (t := t + (40 * count.toNat + 1)) (h.next hframed) hrest
      rw [show (advance d').spadBuf = _ from hspad.trans (readSpad_zero t _ _)] at hnext
      exact hnext.after hticks (by rw [length_readTicks])

/-- `OW_init_seq` was called with these operations and `OW_OP_END` after them. -/
structure SetUp (cb : DoneCb) (ops : List Op) (d : Driver) : Prop where
  seqState : d.seqState = .init
  types : d.seqArr = ops.map Op.type ++ [.fin]
  args : ∃ x, d.argArr = ops.map Op.arg ++ [x]
  seqLen : d.seqLen = ops.length + 1
  short : d.seqLen ≤ 255
  error : d.error = .none
  callback : d.callback = some cb

theorem SetUp.left (h : SetUp cb ops d) : Left cb ops (beginSeq d) := by
  unfold beginSeq
  rw [if_pos h.seqState]
  refine ⟨rfl, rfl, h.types, h.args, ?_, h.short, h.error, h.callback⟩
  rw [Nat.zero_add]
  exact h.seqLen

theorem oneWireEvent_beginSeq (d : Driver) (level : Bool) :
    oneWireEvent (beginSeq d) level = oneWireEvent d level := by
  have hidem : beginSeq (beginSeq d) = beginSeq d := by
    unfold beginSeq
    split <;> simp_all
  rw [oneWireEvent, oneWireEvent, hidem]

theorem Does.of_beginSeq {ticks : List (List Effect)} {d' : Driver}
    (h : Does cb pin t (beginSeq d) ticks d') : Does cb pin t d ticks d' := by
  cases h with
  | last hevent hunarmed => exact .last ((oneWireEvent_beginSeq d _).symm.trans hevent) hunarmed
  | cons hevent hrest => exact .cons ((oneWireEvent_beginSeq d _).symm.trans hevent) hrest

theorem SetUp.performs (h : SetUp cb ops d) (pin : Nat → Bool)
    (hops : ∀ n, .read n ∈ ops → n ≠ 0) :
    Performs cb pin 0 d (outcome pin 0 d.spadBuf ops) := by
  have hspad : (beginSeq d).spadBuf = d.spadBuf := by
    unfold beginSeq
    split <;> rfl
  obtain ⟨d', hdoes, hresult⟩ := left_performs (t := 0) h.left hops
  rw [hspad] at hdoes hresult
  exact ⟨d', hdoes.of_beginSeq, hresult⟩

/-! ## The effects of an outcome -/

/-- On the bus, or in the scratchpad. -/
def Effect.inside : Effect → Prop
  | .store index _ => index ≤ 8
  | .hwTimerArm _ => False
  | .callback _ => False
  | _ => True

def Inside (ticks : List (List Effect)) : Prop := ∀ tick ∈ ticks, ∀ e ∈ tick, e.inside

theorem Inside.append {a b : List (List Effect)} (ha : Inside a) (hb : Inside b) :
    Inside (a ++ b) :=
  List.forall_mem_append.mpr ⟨ha, hb⟩

theorem Inside.cons {tick : List Effect} {ticks : List (List Effect)}
    (htick : ∀ e ∈ tick, e.inside) (hticks : Inside ticks) : Inside (tick :: ticks) :=
  List.forall_mem_cons.mpr ⟨htick, hticks⟩

theorem inside_quiet (n : Nat) : Inside (quiet n) := by
  intro tick htick
  simp [List.eq_of_mem_replicate htick]

theorem inside_resetPulse : Inside resetPulse :=
  .cons (by simp [Effect.inside]) ((inside_quiet 46).append (.cons (by simp [Effect.inside]) nofun))

theorem inside_writeTicks (byte : UInt8) : Inside (writeTicks byte) := by
  have hslot (b : Bool) : Inside (slotTicks b) := by
    cases b with
    | true => exact .cons (by simp [Effect.inside]) (inside_quiet 5)
    | false => exact (inside_quiet 5).append (.cons (by simp [Effect.inside]) nofun)
  refine .append (.cons nofun ?_) (.cons nofun nofun)
  intro tick htick
  obtain ⟨i, -, hi⟩ := List.mem_flatMap.mp htick
  exact Inside.cons (by simp [Effect.inside]) (hslot _) tick hi

theorem inside_readPulse : ∀ e ∈ readPulse, e.inside := by
  simp [readPulse, Effect.inside]

theorem inside_readTicks (left t k : Nat) (stored : List Effect) (hk : k + left ≤ 9)
    (hstored : ∀ e ∈ stored, e.inside) : Inside (readTicks pin left t k stored) := by
  induction left generalizing t k stored with
  | zero => exact .cons hstored nofun
  | succ left ih =>
    have hslots : Inside (List.replicate 7 (readPulse :: quiet 4)).flatten := by
      intro tick htick
      obtain ⟨slot, hslot, hmem⟩ := List.mem_flatten.mp htick
      rw [List.eq_of_mem_replicate hslot] at hmem
      exact Inside.cons inside_readPulse (inside_quiet 4) tick hmem
    refine .cons (List.forall_mem_append.mpr ⟨hstored, inside_readPulse⟩) (.append ?_ ?_)
    · exact (inside_quiet 4).append hslots
    · refine ih _ _ _ (by omega) ?_
      simp [Effect.inside]
      omega

theorem inside_outcome (t : Nat) (spad : Nat → UInt8) (hops : ∀ n, .read n ∈ ops → n ≤ 9) :
    Inside (outcome pin t spad ops).ticks := by
  induction ops generalizing t spad with
  | nil => exact .cons nofun nofun
  | cons op ops ih =>
    have hrest : ∀ n, .read n ∈ ops → n ≤ 9 := fun n hn => hops n (List.mem_cons_of_mem _ hn)
    cases op with
    | reset arg =>
      simp only [outcome]
      cases response pin (t + 48) with
      | none =>
        exact (inside_resetPulse.append (inside_quiet 5)).append
          (.cons (by simp [Effect.inside]) nofun)
      | some j =>
        exact ((inside_resetPulse.append (inside_quiet _)).append (inside_quiet _)).append
          (ih _ _ hrest)
    | write byte => exact (inside_writeTicks byte).append (ih _ _ hrest)
    | read count =>
      have hle : count.toNat ≤ 9 := hops count (List.mem_cons_self ..)
      exact (inside_readTicks _ t 0 [] (by omega) nofun).append (ih _ _ hrest)

/-- A sequence that was set up is executed as `outcome` lays it out: one event after the
other arms the timer, and the last one calls back and does not.  No byte is stored past
the scratchpad. -/
theorem sequence_executes (pin : Nat → Bool) (h : SetUp cb ops d)
    (hops : ∀ n, .read n ∈ ops → 1 ≤ n ∧ n ≤ 9) :
    ∃ d', sequence pin (outcome pin 0 d.spadBuf ops).ticks.length 0 d =
        some (withTimer cb (outcome pin 0 d.spadBuf ops).ticks, d') ∧
      d'.spadBuf = (outcome pin 0 d.spadBuf ops).spad ∧
      d'.error = (outcome pin 0 d.spadBuf ops).error ∧
      Inside (outcome pin 0 d.spadBuf ops).ticks := by
  have hpos : ∀ n, .read n ∈ ops → n ≠ 0 := by
    rintro n hn rfl
    exact absurd (hops 0 hn).1 (by decide)
  obtain ⟨d', hdoes, hstored, herror⟩ := h.performs pin hpos
  exact ⟨d', hdoes.sequence, hstored, herror, inside_outcome 0 _ fun n hn => (hops n hn).2⟩

def sampleOps : List Op := [.reset 0, .write 0xCC, .read 9]

def sampleDriver : Driver where
  seqArr := [.reset, .write, .read, .fin]
  argArr := [0, 0xCC, 9, 0]
  seqLen := 4
  seqState := .init
  seqPos := 0
  opType := .invalid
  curOp := 0
  delayCount := 0
  error := .none
  spadBuf := fun _ => 0
  uuid := []
  callback := some .readTemp
  read := ⟨0, false, 0, 0, 0⟩
  write := ⟨0, 0⟩

/-- The bus is low in every other event. -/
def samplePin (t : Nat) : Bool := t % 2 = 1

theorem sequence_executes_sample :
    SetUp .readTemp sampleOps sampleDriver ∧
      ∃ d', sequence samplePin (outcome samplePin 0 (fun _ => 0) sampleOps).ticks.length 0
          sampleDriver =
          some (withTimer .readTemp (outcome samplePin 0 (fun _ => 0) sampleOps).ticks, d') ∧
        d'.error = .none := by
  have hsetup : SetUp .readTemp sampleOps sampleDriver :=
    ⟨rfl, rfl, ⟨0, rfl⟩, rfl, by decide, rfl, rfl⟩
  have hreads : ∀ n, .read n ∈ sampleOps → 1 ≤ n ∧ n ≤ 9 := by
    simp [sampleOps]
  obtain ⟨d', hsequence, -, herror, -⟩ := sequence_executes samplePin hsetup hreads
  exact ⟨hsetup, d', hsequence, herror⟩

end Sequences

end OneWire
end EspMisc
