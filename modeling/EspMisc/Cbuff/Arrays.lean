/-
The array operations of a circular buffer.

`cbuffPutArray` and `cbuffGetArray` move many bytes with one call.  They do not call the
byte operations: they move the pointer and set one of the flags in a loop of their own,
and clear the other flag behind it.  The loop ends when the buffer is full, or empty, or
when as many bytes are moved as were asked for, which it asks after it has moved one.

`arrays_equal_bytes_iff` compares them with the byte operations on every buffer that can
come about: they do the same unless no byte is asked for.
-/
import EspMisc.Lib.Transfer
import EspMisc.Cbuff.Buffer

namespace EspMisc
namespace Cbuff

open Transfer

/-! ## The two operations -/

namespace CbuffObj

/-- A flag is set if the pointers are equal. -/
def meet (o : CbuffObj) (flag : BitVec 8) : CbuffObj :=
  { o with localFlag := if o.inPointer = o.outPointer then o.localFlag ||| flag else o.localFlag }

def unset (o : CbuffObj) (flag : BitVec 8) : CbuffObj :=
  { o with localFlag := o.localFlag &&& ~~~flag }

end CbuffObj

/-- One turn of the loop of `cbuffPutArray`. -/
def putTurn (data : Nat → UInt8) (i : Nat) (s : Buffer) : Buffer × List UInt8 :=
  let moved := { s.obj with inPointer := s.obj.next s.obj.inPointer }
  (⟨moved.meet CBUFF_FULL, Function.update s.memory s.obj.inPointer (data i)⟩, [])

/-- One turn of the loop of `cbuffGetArray`, with the byte it stores. -/
def getTurn (_ : Nat) (s : Buffer) : Buffer × List UInt8 :=
  let moved := { s.obj with outPointer := s.obj.next s.obj.outPointer }
  (⟨moved.meet CBUFF_EMPTY, s.memory⟩, [s.memory s.obj.outPointer])

/-- More turns than there are cells. -/
def CbuffObj.turns (o : CbuffObj) : Nat := o.endOfBuffer - o.startOfBuffer + 2

/-- `cbuffPutArray`, with `data` as what stands in memory from the caller's pointer on. -/
def cbuffPutArray (s : Buffer) (data : Nat → UInt8) (noOfBytes : Nat) : Option (Buffer × Nat) :=
  if s.obj.has CBUFF_FULL then some (s, 0)
  else
    (transfer (fun s : Buffer => s.obj.has CBUFF_FULL) (putTurn data) noOfBytes s.obj.turns 0 s).map
      fun r => (⟨r.1.obj.unset CBUFF_EMPTY, r.1.memory⟩, r.2.1)

/-- `cbuffGetArray`, with the bytes it stores for the caller. -/
def cbuffGetArray (s : Buffer) (noOfBytes : Nat) : Option (Buffer × Nat × List UInt8) :=
  if s.obj.has CBUFF_EMPTY then some (s, 0, [])
  else
    (transfer (fun s : Buffer => s.obj.has CBUFF_EMPTY) getTurn noOfBytes s.obj.turns 0 s).map
      fun r => (⟨r.1.obj.unset CBUFF_FULL, r.1.memory⟩, r.2.1, r.2.2)

/-- The byte of index `i`, put with one call. -/
def putCall (data : Nat → UInt8) (i : Nat) (s : Buffer) : Buffer × List UInt8 :=
  ((cbuffPutByte s (data i)).1, [])

/-- A byte got with one call. -/
def getCall (_ : Nat) (s : Buffer) : Buffer × List UInt8 :=
  ((cbuffGetByte s).1, (cbuffGetByte s).2.2.toList)

/-- `cbuffPutArray` does what the calls of `cbuffPutByte` do for as many bytes as there is
space for. -/
def PutEqual (s : Buffer) (data : Nat → UInt8) (n : Nat) : Prop :=
  cbuffPutArray s data n =
    some ((times (putCall data) (min n (cbuffGetSpace s)) 0 s).1, min n (cbuffGetSpace s))

/-- `cbuffGetArray` does what the calls of `cbuffGetByte` do for as many bytes as there
are. -/
def GetEqual (s : Buffer) (n : Nat) : Prop :=
  cbuffGetArray s n =
    some ((times getCall (min n (cbuffGetFill s)) 0 s).1, min n (cbuffGetFill s),
      (times getCall (min n (cbuffGetFill s)) 0 s).2)

/-! ## Turns and calls -/

/-- The same object but for one flag. -/
structure Behind (flag : BitVec 8) (s b : Buffer) : Prop where
  memory : s.memory = b.memory
  obj : s.obj.unset flag = b.obj.unset flag

theorem Behind.refl (flag : BitVec 8) (s : Buffer) : Behind flag s s := ⟨rfl, rfl⟩

section Flags

variable {o p : CbuffObj} {meet clear : BitVec 8}

theorem eq_of_unset (h : o.unset clear = p.unset clear) :
    o = { p with localFlag := o.localFlag } :=
  CbuffObj.ext (congrArg (·.address) h) (congrArg (·.startOfBuffer) h)
    (congrArg (·.endOfBuffer) h) (congrArg (·.inPointer) h) (congrArg (·.outPointer) h)
    (congrArg (·.bufferNumber) h) rfl

theorem next_of_unset (h : o.unset clear = p.unset clear) (q : Nat) : o.next q = p.next q := by
  rw [eq_of_unset h]
  rfl

/-- The flag of a turn and that of a call are the same once the other one is cleared. -/
theorem meet_unset (h : o.unset clear = p.unset clear) :
    (o.meet meet).unset clear = (p.mark meet clear).unset clear := by
  have hflag : o.localFlag &&& ~~~clear = p.localFlag &&& ~~~clear :=
    congrArg (·.localFlag) h
  rw [eq_of_unset h]
  refine CbuffObj.ext rfl rfl rfl rfl rfl rfl ?_
  show (if p.inPointer = p.outPointer then o.localFlag ||| meet else o.localFlag) &&& ~~~clear =
    (if p.inPointer = p.outPointer then p.localFlag ||| meet else p.localFlag) &&& ~~~clear &&&
      ~~~clear
  rw [BitVec.and_assoc, BitVec.and_self]
  split
  · rw [BitVec.and_or_distrib_right, hflag, ← BitVec.and_or_distrib_right]
  · exact hflag

theorem has_of_unset (h : o.unset clear = p.unset clear) {flag : BitVec 8}
    (hkeep : ~~~clear &&& flag = flag) : o.has flag = p.has flag := by
  have hflag : o.localFlag &&& ~~~clear = p.localFlag &&& ~~~clear :=
    congrArg (·.localFlag) h
  have hbits : o.localFlag &&& flag = p.localFlag &&& flag := by
    rw [← hkeep, ← BitVec.and_assoc, ← BitVec.and_assoc, hflag]
  rw [CbuffObj.has, CbuffObj.has, hbits]

theorem unset_of_not_has {flag : BitVec 8} (h : o.has flag = false) : o.unset flag = o := by
  refine CbuffObj.ext rfl rfl rfl rfl rfl rfl (BitVec.eq_of_getLsbD_eq fun i hi => ?_)
  show (o.localFlag &&& ~~~flag).getLsbD i = o.localFlag.getLsbD i
  have hbit : (o.localFlag &&& flag).getLsbD i = (0#8).getLsbD i :=
    congrArg (·.getLsbD i) (has_eq_false.mp h)
  rw [BitVec.getLsbD_and, BitVec.getLsbD_zero] at hbit
  rw [BitVec.getLsbD_and, BitVec.getLsbD_not, decide_eq_true hi]
  cases ho : o.localFlag.getLsbD i with
  | false => rfl
  | true =>
    rw [ho, Bool.true_and] at hbit
    rw [hbit]
    rfl

end Flags

section Steps

variable {size : Nat} {s b : Buffer} {left : Nat}

/-- The loop of `cbuffPutArray` and the byte calls next to it, with `left` cells free. -/
structure PutLeft (size left : Nat) (s b : Buffer) : Prop where
  behind : Behind CBUFF_EMPTY s b
  holds : ∃ d : Deque UInt8 size, Represents b d ∧ d.spare.length = left

theorem PutLeft.stop (h : PutLeft size left s b) : s.obj.has CBUFF_FULL = true ↔ left = 0 := by
  obtain ⟨d, hd, rfl⟩ := h.holds
  rw [has_of_unset h.behind.obj (by decide), hd.full, List.length_eq_zero_iff]

theorem PutLeft.turn (data : Nat → UInt8) (i : Nat) (h : PutLeft size (left + 1) s b) :
    PutLeft size left (putTurn data i s).1 (putCall data i b).1 ∧
      (putTurn data i s).2 = (putCall data i b).2 := by
  obtain ⟨d, hd, hleft⟩ := h.holds
  have hpointer : s.obj.inPointer = b.obj.inPointer := congrArg (·.inPointer) h.behind.obj
  have hne : d.spare ≠ [] := List.ne_nil_of_length_eq_add_one hleft
  rcases putByte_refines hd (data i) with ⟨hnil, _⟩ | ⟨d', hpush, _, hput⟩
  · exact absurd hnil hne
  obtain ⟨_, _, _, hspare⟩ := Deque.push_some hpush
  have hflag : ¬b.obj.has CBUFF_FULL = true := mt hd.full.mp hne
  refine ⟨⟨⟨?_, ?_⟩, d', hput, by rw [hspare, List.length_tail, hleft, Nat.add_sub_cancel]⟩, rfl⟩
  · show Function.update s.memory s.obj.inPointer (data i) = (cbuffPutByte b (data i)).1.memory
    rw [cbuffPutByte, if_neg hflag, h.behind.memory, hpointer]
  · show (CbuffObj.meet { s.obj with inPointer := s.obj.next s.obj.inPointer } CBUFF_FULL).unset
      CBUFF_EMPTY = (cbuffPutByte b (data i)).1.obj.unset CBUFF_EMPTY
    rw [cbuffPutByte, if_neg hflag, next_of_unset h.behind.obj, hpointer]
    refine meet_unset ?_
    exact congrArg (fun o => { o with inPointer := b.obj.next b.obj.inPointer }) h.behind.obj

/-- The loop of `cbuffGetArray` and the byte calls next to it, with `left` bytes held. -/
structure GetLeft (size left : Nat) (s b : Buffer) : Prop where
  behind : Behind CBUFF_FULL s b
  holds : ∃ d : Deque UInt8 size, Represents b d ∧ d.items.length = left

theorem GetLeft.stop (h : GetLeft size left s b) : s.obj.has CBUFF_EMPTY = true ↔ left = 0 := by
  obtain ⟨d, hd, rfl⟩ := h.holds
  rw [has_of_unset h.behind.obj (by decide), hd.empty, List.length_eq_zero_iff]

theorem GetLeft.turn (i : Nat) (h : GetLeft size (left + 1) s b) :
    GetLeft size left (getTurn i s).1 (getCall i b).1 ∧ (getTurn i s).2 = (getCall i b).2 := by
  obtain ⟨d, hd, hleft⟩ := h.holds
  have hpointer : s.obj.outPointer = b.obj.outPointer := congrArg (·.outPointer) h.behind.obj
  have hne : d.items ≠ [] := List.ne_nil_of_length_eq_add_one hleft
  rcases getByte_refines hd with ⟨hnil, _⟩ | ⟨x, d', hpop, _, hget⟩
  · exact absurd hnil hne
  obtain ⟨_, _, _, hitems, _⟩ := Deque.pop_some hpop
  have hflag : ¬b.obj.has CBUFF_EMPTY = true := mt hd.empty.mp hne
  refine ⟨⟨⟨?_, ?_⟩, d', hget, by rw [hitems, List.length_tail, hleft, Nat.add_sub_cancel]⟩, ?_⟩
  · show s.memory = (cbuffGetByte b).1.memory
    rw [cbuffGetByte, if_neg hflag, h.behind.memory]
  · show (CbuffObj.meet { s.obj with outPointer := s.obj.next s.obj.outPointer } CBUFF_EMPTY).unset
      CBUFF_FULL = (cbuffGetByte b).1.obj.unset CBUFF_FULL
    rw [cbuffGetByte, if_neg hflag, next_of_unset h.behind.obj, hpointer]
    refine meet_unset ?_
    exact congrArg (fun o => { o with outPointer := b.obj.next b.obj.outPointer }) h.behind.obj
  · show [s.memory s.obj.outPointer] = (cbuffGetByte b).2.2.toList
    rw [cbuffGetByte, if_neg hflag, h.behind.memory, hpointer]
    rfl

end Steps

/-! ## Arrays -/

section Arrays

variable {size : Nat} {s : Buffer} {d : Deque UInt8 size}

/-- An object that both ways lead to but for a flag which is not set any more. -/
theorem Behind.unset_eq {flag : BitVec 8} {s b : Buffer} (h : Behind flag s b)
    (hflag : b.obj.has flag = false) : (⟨s.obj.unset flag, s.memory⟩ : Buffer) = b := by
  rw [h.obj, h.memory, unset_of_not_has hflag]

theorem Represents.turns (h : Represents s d) : size < s.obj.turns := by
  rw [CbuffObj.turns, h.last]
  have hpos := h.positive
  omega

/-- An array is put as far as there is space, and all of the space if no byte was asked
for. -/
theorem putArray_eq (h : Represents s d) (data : Nat → UInt8) (n : Nat) :
    cbuffPutArray s data n = some ((times (putCall data) (moved n 0 d.spare.length) 0 s).1,
        moved n 0 d.spare.length) ∧
      ∃ d' : Deque UInt8 size,
        Represents (times (putCall data) (moved n 0 d.spare.length) 0 s).1 d' := by
  have hleft : PutLeft size d.spare.length s s := ⟨.refl _ s, d, h, rfl⟩
  have hwhole := d.whole
  have hturns : d.spare.length < s.obj.turns := Nat.lt_of_le_of_lt (by omega) h.turns
  obtain ⟨s', hloop, hend⟩ :=
    transfer_eq (PutLeft size) PutLeft.stop (PutLeft.turn data) n 0 hleft hturns
  obtain ⟨d', hd', hspare⟩ := hend.holds
  refine ⟨?_, d', hd'⟩
  rw [cbuffPutArray]
  by_cases hfull : s.obj.has CBUFF_FULL = true
  · rw [if_pos hfull, h.full.mp hfull, List.length_nil, moved_none]
    rfl
  · have hpos := List.length_pos_iff.mpr (mt h.full.mpr hfull)
    have hsome := moved_pos n hpos
    have hwhole' := d'.whole
    have hempty := hd'.has_empty
    rw [decide_eq_false (List.length_pos_iff.mp (by omega))] at hempty
    rw [if_neg hfull, hloop, Option.map_some, hend.behind.unset_eq hempty, Nat.zero_add]

/-- An array is got as far as there are bytes, and all of them if none was asked for. -/
theorem getArray_eq (h : Represents s d) (n : Nat) :
    cbuffGetArray s n = some ((times getCall (moved n 0 d.items.length) 0 s).1,
        moved n 0 d.items.length, (times getCall (moved n 0 d.items.length) 0 s).2) ∧
      ∃ d' : Deque UInt8 size,
        Represents (times getCall (moved n 0 d.items.length) 0 s).1 d' := by
  have hleft : GetLeft size d.items.length s s := ⟨.refl _ s, d, h, rfl⟩
  have hwhole := d.whole
  have hturns : d.items.length < s.obj.turns := Nat.lt_of_le_of_lt (by omega) h.turns
  obtain ⟨s', hloop, hend⟩ := transfer_eq (GetLeft size) GetLeft.stop GetLeft.turn n 0 hleft hturns
  obtain ⟨d', hd', hitems⟩ := hend.holds
  refine ⟨?_, d', hd'⟩
  rw [cbuffGetArray]
  by_cases hempty : s.obj.has CBUFF_EMPTY = true
  · rw [if_pos hempty, h.empty.mp hempty, List.length_nil, moved_none]
    rfl
  · have hpos := List.length_pos_iff.mpr (mt h.empty.mpr hempty)
    have hsome := moved_pos n hpos
    have hwhole' := d'.whole
    have hfull := hd'.has_full
    rw [decide_eq_false (List.length_pos_iff.mp (by omega))] at hfull
    rw [if_neg hempty, hloop, Option.map_some, hend.behind.unset_eq hfull, Nat.zero_add]

theorem putEqual_iff (h : Represents s d) (data : Nat → UInt8) (n : Nat) :
    PutEqual s data n ↔ n ≠ 0 ∨ cbuffGetSpace s = 0 := by
  rw [PutEqual, (putArray_eq h data n).1, getSpace_refines h, moved_start]
  by_cases hn : n = 0
  · rw [if_pos hn, hn, Nat.zero_min]
    constructor
    · intro heq
      exact .inr (Prod.mk.inj (Option.some.inj heq)).2
    · intro hzero
      rw [hzero.resolve_left fun hne => hne rfl]
  · rw [if_neg hn]
    exact iff_of_true rfl (.inl hn)

theorem getEqual_iff (h : Represents s d) (n : Nat) :
    GetEqual s n ↔ n ≠ 0 ∨ cbuffGetFill s = 0 := by
  rw [GetEqual, (getArray_eq h n).1, getFill_refines h, moved_start]
  by_cases hn : n = 0
  · rw [if_pos hn, hn, Nat.zero_min]
    constructor
    · intro heq
      exact .inr (Prod.mk.inj (Prod.mk.inj (Option.some.inj heq)).2).1
    · intro hzero
      rw [hzero.resolve_left fun hne => hne rfl]
  · rw [if_neg hn]
    exact iff_of_true rfl (.inl hn)

end Arrays

/-! ## Buffers that come about -/

/-- The operations on an open buffer. -/
inductive DataCall
  | byte (op : Op)
  | putArray (data : Nat → UInt8) (noOfBytes : Nat)
  | getArray (noOfBytes : Nat)

def dataCall (s : Buffer) : DataCall → Option Buffer
  | .byte op => some (call s op).1
  | .putArray data noOfBytes => (cbuffPutArray s data noOfBytes).map (·.1)
  | .getArray noOfBytes => (cbuffGetArray s noOfBytes).map (·.1)

def dataCalls : Buffer → List DataCall → Option Buffer
  | s, [] => some s
  | s, c :: cs => (dataCall s c).bind (dataCalls · cs)

/-- Every operation ends, and leaves a buffer that holds a deque. -/
theorem dataCall_represents {size : Nat} {s : Buffer} {d : Deque UInt8 size} (h : Represents s d)
    (c : DataCall) :
    ∃ s', dataCall s c = some s' ∧ ∃ d' : Deque UInt8 size, Represents s' d' := by
  cases c with
  | byte op => exact ⟨_, rfl, _, (call_refines h op).2⟩
  | putArray data n =>
    obtain ⟨hput, hd'⟩ := putArray_eq h data n
    exact ⟨_, by rw [dataCall, hput]; rfl, hd'⟩
  | getArray n =>
    obtain ⟨hget, hd'⟩ := getArray_eq h n
    exact ⟨_, by rw [dataCall, hget]; rfl, hd'⟩

theorem dataCalls_represents {size : Nat} {s : Buffer} {d : Deque UInt8 size} (h : Represents s d)
    (cs : List DataCall) :
    ∃ s', dataCalls s cs = some s' ∧ ∃ d' : Deque UInt8 size, Represents s' d' := by
  induction cs generalizing s d with
  | nil => exact ⟨s, rfl, d, h⟩
  | cons c cs ih =>
    obtain ⟨s', hcall, d', hd'⟩ := dataCall_represents h c
    obtain ⟨s'', hcalls, hd''⟩ := ih hd'
    exact ⟨s'', by rw [dataCalls, hcall]; exact hcalls, hd''⟩

/-- On a buffer that `cbuffCreate` returned a number for, opened or not, after any data
operations: an array operation does what the byte operations do, exactly when a byte is
asked for or there is none to move. -/
theorem arrays_equal_bytes_iff {r r' : Registry} {buffer sizeOfBuffer : Nat} {obj o : CbuffObj}
    {num : BitVec 32} (hcreate : cbuffCreate r buffer sizeOfBuffer (some obj) = (r', num))
    (hnum : num ≠ 0)
    (ho : r'.object? obj.address = some o ∨ (cbuffOpen r' num).1.object? obj.address = some o)
    (memory : Nat → UInt8) (calls : List DataCall) :
    ∃ s, dataCalls ⟨o, memory⟩ calls = some s ∧ ∀ (data : Nat → UInt8) (n : Nat),
      (PutEqual s data n ↔ n ≠ 0 ∨ cbuffGetSpace s = 0) ∧
        (GetEqual s n ↔ n ≠ 0 ∨ cbuffGetFill s = 0) := by
  obtain ⟨s, hcalls, d, hd⟩ :=
    dataCalls_represents (created_represents hcreate hnum ho memory) calls
  exact ⟨s, hcalls, fun data n => ⟨putEqual_iff hd data n, getEqual_iff hd n⟩⟩

/-- A buffer of three bytes takes two, gives one, and is asked for more than it has. -/
theorem arrays_equal_bytes_three :
    ∃ o : CbuffObj,
      (cbuffCreate cbuffInit 0x1000 3 (some (sampleObj 1))).1.object? 1 = some o ∧
      ∃ s, dataCalls ⟨o, fun _ => 0⟩ [.putArray (fun _ => 7) 2, .byte .getByte] = some s ∧
        PutEqual s (fun _ => 9) 5 ∧ GetEqual s 5 := by
  have hcreate : cbuffCreate cbuffInit 0x1000 3 (some (sampleObj 1)) = (_, 1) := rfl
  obtain ⟨s, hcalls, hiff⟩ := arrays_equal_bytes_iff hcreate (by decide) (.inl rfl) (fun _ => 0)
    [.putArray (fun _ => 7) 2, .byte .getByte]
  obtain ⟨hput, hget⟩ := hiff (fun _ => 9) 5
  exact ⟨_, rfl, s, hcalls, hput.mpr (.inl (by decide)), hget.mpr (.inl (by decide))⟩

/-- Asked to put no byte, `cbuffPutArray` fills the buffer. -/
theorem putArray_of_none :
    ∃ o : CbuffObj,
      (cbuffCreate cbuffInit 0x1000 3 (some (sampleObj 1))).1.object? 1 = some o ∧
      ¬∀ (data : Nat → UInt8) (n : Nat), PutEqual ⟨o, fun _ => 0⟩ data n := by
  let o := { (sampleObj 1).setup 0x1000 3 with bufferNumber := 1 }
  refine ⟨o, rfl, fun h => ?_⟩
  have hcount : (cbuffPutArray ⟨o, fun _ => 0⟩ (fun _ => 7) 0).map (·.2) = some 3 := by
    decide +kernel
  have hnone := congrArg (Option.map (·.2)) (h (fun _ => 7) 0)
  rw [Option.map_some, Nat.zero_min] at hnone
  exact absurd (hcount.symm.trans hnone) (by decide)


end Cbuff
end EspMisc
