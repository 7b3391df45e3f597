/-
The non-blocking one-wire driver of `driver/onewire_nb.c`.

A sequence is an array of operations, and each operation is a small machine that takes
one step per event: it drives the bus pin, samples it at most once, and counts ticks
down.  `owDoit` is the step, and `oneWireEvent` is the handler of the event, with the
level that `GPIO_INPUT_GET` reads in it.  What a step does besides changing the driver
is the list of its effects, in order.

The machines share `cur_op`, whose values are numbered anew for each of them, and keep
counters in static variables, which are fields here.
-/
import Mathlib.Data.List.Basic

namespace EspMisc
namespace OneWire

inductive SeqState
  | invalid | init | started | transition | done | max
deriving DecidableEq, Repr

inductive OpType
  | invalid | reset | read | write | fin | max
deriving DecidableEq, Repr

inductive OwError
  | none | invalidSeq | invalidOp | resetRespTimeout
deriving DecidableEq, Repr

@[match_pattern] abbrev OW_READ_OP_INIT : Nat := 1
@[match_pattern] abbrev OW_READ_OP_LINE_LOW : Nat := 2
@[match_pattern] abbrev OW_READ_OP_SAMPLE : Nat := 3
@[match_pattern] abbrev OW_READ_OP_WAIT_50 : Nat := 4
@[match_pattern] abbrev OW_READ_OP_DONE : Nat := 5

@[match_pattern] abbrev OW_WRITE_OP_INIT : Nat := 1
@[match_pattern] abbrev OW_WRITE_OP_LINE_LOW : Nat := 2
@[match_pattern] abbrev OW_WRITE_OP_WRITE_FIRST : Nat := 3
@[match_pattern] abbrev OW_WRITE_OP_WAIT_FIRST : Nat := 4
@[match_pattern] abbrev OW_WRITE_OP_FINALLY : Nat := 5
@[match_pattern] abbrev OW_WRITE_OP_DONE : Nat := 6

@[match_pattern] abbrev OW_RESET_OP_INIT : Nat := 1
@[match_pattern] abbrev OW_RESET_OP_WAIT_480_LOW : Nat := 2
@[match_pattern] abbrev OW_RESET_OP_WAIT_60_RESP : Nat := 3
@[match_pattern] abbrev OW_RESET_OP_WAIT_480 : Nat := 4
@[match_pattern] abbrev OW_RESET_OP_DONE : Nat := 5

/-- The functions that `OW_init_seq` sets as callbacks. -/
inductive DoneCb
  | readUuid | convT | readTemp
deriving DecidableEq, Repr

/-- The static variables of `OW_doit_read`. -/
structure ReadStatics where
  bitMask : UInt8
  sample : Bool
  readsLeft : Nat
  readCount : Nat
  data : UInt8

/-- The static variables of `OW_doit_write`. -/
structure WriteStatics where
  bitMask : UInt8
  data : UInt8

/-- `onewire_driver_t`, with the statics of its machines.  The counters have eight bits.
The scratchpad is as long as its writes, so that one past its end would show. -/
structure Driver where
  seqArr : List OpType
  argArr : List UInt8
  seqLen : Nat
  seqState : SeqState
  seqPos : Nat
  opType : OpType
  curOp : Nat
  delayCount : Nat
  error : OwError
  spadBuf : Nat → UInt8
  uuid : List UInt8
  callback : Option DoneCb
  read : ReadStatics
  write : WriteStatics

inductive Effect
  | set (level : Bool)
  | release
  | delayUs (us : Nat)
  | store (index : Nat) (data : UInt8)
  | hwTimerArm (us : Nat)
  | callback (cb : DoneCb)
deriving DecidableEq, Repr

/-- `--x` of an eight bit counter. -/
def dec (x : Nat) : Nat := (x + 255) % 256

/-- `x++` of an eight bit counter. -/
def inc (x : Nat) : Nat := (x + 1) % 256

def Driver.arg (d : Driver) : UInt8 := d.argArr.getD d.seqPos 0

def owDoitReset (d : Driver) (pin : Bool) : Driver × List Effect :=
  match d.curOp with
  | OW_RESET_OP_INIT =>
    ({ d with delayCount := 47, curOp := OW_RESET_OP_WAIT_480_LOW }, [.set false])
  | OW_RESET_OP_WAIT_480_LOW =>
    if dec d.delayCount = 0 then
      ({ d with delayCount := 6, curOp := OW_RESET_OP_WAIT_60_RESP }, [.release])
    else ({ d with delayCount := dec d.delayCount }, [])
  | OW_RESET_OP_WAIT_60_RESP =>
    if pin = false then ({ d with delayCount := 47, curOp := OW_RESET_OP_WAIT_480 }, [])
    else if dec d.delayCount = 0 then
      ({ d with delayCount := 0, error := .resetRespTimeout, seqState := .done }, [.release])
    else ({ d with delayCount := dec d.delayCount }, [])
  | OW_RESET_OP_WAIT_480 =>
    if dec d.delayCount = 0 then ({ d with delayCount := 0, curOp := OW_RESET_OP_DONE }, [])
    else ({ d with delayCount := dec d.delayCount }, [])
  | OW_RESET_OP_DONE => ({ d with seqPos := inc d.seqPos, seqState := .transition }, [])
  | _ => ({ d with error := .invalidOp }, [])

/-- The case `OW_READ_OP_LINE_LOW`, which two other cases go on to. -/
def readLineLow (d : Driver) : Driver × List Effect :=
  ({ d with curOp := OW_READ_OP_SAMPLE }, [.set false, .delayUs 1, .release])

/-- `if (cur_op == OW_xxx_OP_DONE)` at the end of the read and the write machine. -/
def opDone (doneOp : Nat) (r : Driver × List Effect) : Driver × List Effect :=
  if r.1.curOp = doneOp then
    ({ r.1 with seqState := .transition, seqPos := inc r.1.seqPos }, r.2)
  else r

/-- The switch of `OW_doit_read`. -/
def readSwitch (d : Driver) (pin : Bool) : Driver × List Effect :=
  match d.curOp with
  | OW_READ_OP_INIT =>
    readLineLow
      { d with
        read :=
          { bitMask := 0x01, sample := false, readCount := 0, data := 0,
            readsLeft := d.arg.toNat } }
  | OW_READ_OP_LINE_LOW => readLineLow d
  | OW_READ_OP_SAMPLE =>
    ({ d with
        read :=
          { d.read with
            sample := pin
            data := if pin then d.read.data ||| d.read.bitMask else d.read.data
            bitMask := d.read.bitMask <<< 1 }
        delayCount := 4
        curOp := OW_READ_OP_WAIT_50 }, [])
  | OW_READ_OP_WAIT_50 =>
    if dec d.delayCount = 0 then
      let d := { d with delayCount := 0 }
      if d.read.bitMask = 0 then
        let stored := Effect.store d.read.readCount d.read.data
        let d :=
          { d with
            spadBuf := Function.update d.spadBuf d.read.readCount d.read.data
            read :=
              { d.read with
                readCount := inc d.read.readCount
                data := 0
                bitMask := 0x01
                readsLeft := dec d.read.readsLeft } }
        if d.read.readsLeft = 0 then ({ d with curOp := OW_READ_OP_DONE }, [stored])
        else ((readLineLow d).1, stored :: (readLineLow d).2)
      else readLineLow d
    else ({ d with delayCount := dec d.delayCount }, [])
  | _ => (d, [])

def owDoitRead (d : Driver) (pin : Bool) : Driver × List Effect :=
  opDone OW_READ_OP_DONE (readSwitch d pin)

/-- The case `OW_WRITE_OP_LINE_LOW`, which the last case goes on to. -/
def writeLineLow (d : Driver) : Driver × List Effect :=
  ({ d with
      curOp :=
        if d.write.bitMask &&& d.write.data ≠ 0 then OW_WRITE_OP_WRITE_FIRST
        else OW_WRITE_OP_WAIT_FIRST
      delayCount := 6 }, [.set false])

/-- The switch of `OW_doit_write`, without parasite power. -/
def writeSwitch (d : Driver) : Driver × List Effect :=
  match d.curOp with
  | OW_WRITE_OP_INIT =>
    ({ d with write := { data := d.arg, bitMask := 0x01 }, curOp := OW_WRITE_OP_LINE_LOW }, [])
  | OW_WRITE_OP_LINE_LOW => writeLineLow d
  | OW_WRITE_OP_WRITE_FIRST =>
    let effects := if d.delayCount = 6 then [Effect.set true] else []
    if dec d.delayCount = 0 then
      ({ d with delayCount := 0, curOp := OW_WRITE_OP_FINALLY }, effects)
    else ({ d with delayCount := dec d.delayCount }, effects)
  | OW_WRITE_OP_WAIT_FIRST =>
    if dec d.delayCount = 0 then
      ({ d with delayCount := 0, curOp := OW_WRITE_OP_FINALLY }, [.set true])
    else ({ d with delayCount := dec d.delayCount }, [])
  | OW_WRITE_OP_FINALLY =>
    let d := { d with write := { d.write with bitMask := d.write.bitMask <<< 1 } }
    if d.write.bitMask = 0 then ({ d with curOp := OW_WRITE_OP_DONE }, [])
    else writeLineLow d
  | _ => (d, [])

def owDoitWrite (d : Driver) : Driver × List Effect :=
  opDone OW_WRITE_OP_DONE (writeSwitch d)

/-- An operation that is entered begins with its first step. -/
def enter (d : Driver) : Driver :=
  if d.seqState = .transition then { d with seqState := .started, curOp := 1 } else d

/-- The first switch of `OW_doit`. -/
def runOp (d : Driver) (pin : Bool) : Driver × List Effect :=
  match d.opType with
  | .read => owDoitRead (enter d) pin
  | .write => owDoitWrite (enter d)
  | .reset => owDoitReset (enter d) pin
  | _ => ({ d with seqState := .done }, [])

/-- The second switch of `OW_doit`: what follows from the state of the sequence. -/
def nextOp (d : Driver) : Driver × List Effect :=
  match d.seqState with
  | .init => ({ d with seqState := .started }, [.hwTimerArm 10])
  | .started => (d, [.hwTimerArm 10])
  | .transition =>
    if d.seqPos ≥ d.seqLen then ({ d with opType := .fin, seqState := .done }, [])
    else
      ({ d with opType := d.seqArr.getD d.seqPos .invalid, curOp := 0 }, [.hwTimerArm 10])
  | .done => (d, (d.callback.map Effect.callback).toList)
  | _ => (d, [])

def owDoit (d : Driver) (pin : Bool) : Driver × List Effect :=
  let ran := runOp d pin
  ((nextOp ran.1).1, ran.2 ++ (nextOp ran.1).2)

/-- A sequence that was set up begins with its first operation. -/
def beginSeq (d : Driver) : Driver :=
  if d.seqState = .init then
    { d with
      seqState := .transition
      opType := d.seqArr.getD 0 .invalid
      curOp := 0
      seqPos := 0 }
  else d

/-- The handler of `MSG_IFACE_ONE_WIRE`. -/
def oneWireEvent (d : Driver) (pin : Bool) : Driver × List Effect := owDoit (beginSeq d) pin

/-- One event after the other, as long as an event arms the timer.  `pin` is the level
of the bus in each event. -/
def sequence (pin : Nat → Bool) : Nat → Nat → Driver → Option (List (List Effect) × Driver)
  | 0, _, _ => none
  | fuel + 1, t, d =>
    let stepped := oneWireEvent d (pin t)
    if .hwTimerArm 10 ∈ stepped.2 then
      (sequence pin fuel (t + 1) stepped.1).map fun r => (stepped.2 :: r.1, r.2)
    else some ([stepped.2], stepped.1)

end OneWire
end EspMisc
