/-
The byte operations of a circular buffer, and the deque they implement.

A buffer object keeps two pointers into the caller's array and tells a full buffer from
an empty one, where the pointers are equal, by two flags.  Each operation that moves a
pointer sets one of the flags when the pointers meet and clears the other.

`Represents s d` connects the object and the memory with the bounded deque `d` of
`Lib/Deque`.  `call_refines` is the step of the simulation, and
`cbuff_refines_deque` states it for every sequence of operations on a buffer that
`cbuffCreate` returned a number for.
-/
import EspMisc.Lib.Deque
import EspMisc.Cbuff.Registry

namespace EspMisc
namespace Cbuff

def CBUFF_GET_OK : Nat := 1
def CBUFF_GET_FAIL : Nat := 0
def CBUFF_PUT_OK : Nat := 1
def CBUFF_PUT_FAIL : Nat := 0

/-- A buffer object and the memory its pointers are addresses of. -/
structure Buffer where
  obj : CbuffObj
  memory : Nat → UInt8

namespace CbuffObj

def has (o : CbuffObj) (flag : BitVec 8) : Bool := o.localFlag &&& flag ≠ 0

/-- A pointer moved on, around the end of the array. -/
def next (o : CbuffObj) (p : Nat) : Nat :=
  if p + 1 > o.endOfBuffer then o.startOfBuffer else p + 1

/-- A pointer moved back, around the start of the array. -/
def prev (o : CbuffObj) (p : Nat) : Nat :=
  if p ≠ o.startOfBuffer then p - 1 else o.endOfBuffer

/-- One flag is set if the pointers are equal, and another is cleared. -/
def mark (o : CbuffObj) (meet clear : BitVec 8) : CbuffObj :=
  { o with
    localFlag :=
      (if o.inPointer = o.outPointer then o.localFlag ||| meet else o.localFlag) &&& ~~~clear }

end CbuffObj

open CbuffObj

def cbuffPutByte (s : Buffer) (data : UInt8) : Buffer × Nat :=
  if s.obj.has CBUFF_FULL then (s, CBUFF_PUT_FAIL)
  else
    let moved := { s.obj with inPointer := s.obj.next s.obj.inPointer }
    (⟨moved.mark CBUFF_FULL CBUFF_EMPTY, Function.update s.memory s.obj.inPointer data⟩,
      CBUFF_PUT_OK)

def cbuffGetSpace (s : Buffer) : Nat :=
  if s.obj.has CBUFF_FULL then 0
  else if s.obj.has CBUFF_EMPTY then s.obj.endOfBuffer + 1 - s.obj.startOfBuffer
  else if s.obj.inPointer > s.obj.outPointer then
    (s.obj.endOfBuffer - s.obj.startOfBuffer + 1) - (s.obj.inPointer - s.obj.outPointer)
  else s.obj.outPointer - s.obj.inPointer

def cbuffGetFill (s : Buffer) : Nat :=
  (s.obj.endOfBuffer - s.obj.startOfBuffer + 1) - cbuffGetSpace s

def cbuffClearBuffer (s : Buffer) : Buffer :=
  { s with
    obj :=
      { s.obj with
        inPointer := s.obj.startOfBuffer
        outPointer := s.obj.startOfBuffer
        localFlag := 0 ||| CBUFF_EMPTY } }

/-- `cbuffGetByte`, with the byte it stores for the caller. -/
def cbuffGetByte (s : Buffer) : Buffer × Nat × Option UInt8 :=
  if s.obj.has CBUFF_EMPTY then (s, CBUFF_GET_FAIL, none)
  else
    let moved := { s.obj with outPointer := s.obj.next s.obj.outPointer }
    (⟨moved.mark CBUFF_EMPTY CBUFF_FULL, s.memory⟩, CBUFF_GET_OK,
      some (s.memory s.obj.outPointer))

def cbuffPeekTail (s : Buffer) : Nat × Option UInt8 :=
  if !s.obj.has CBUFF_EMPTY then (CBUFF_GET_OK, some (s.memory s.obj.outPointer))
  else (CBUFF_GET_FAIL, none)

def cbuffPeekHead (s : Buffer) : Nat × Option UInt8 :=
  if !s.obj.has CBUFF_EMPTY then
    if s.obj.inPointer ≠ s.obj.startOfBuffer then
      (CBUFF_GET_OK, some (s.memory (s.obj.inPointer - 1)))
    else (CBUFF_GET_OK, some (s.memory s.obj.endOfBuffer))
  else (CBUFF_GET_FAIL, none)

def cbuffUnputByte (s : Buffer) : Buffer × Nat :=
  if s.obj.has CBUFF_EMPTY then (s, 1)
  else
    let moved := { s.obj with inPointer := s.obj.prev s.obj.inPointer }
    (⟨moved.mark CBUFF_EMPTY CBUFF_FULL, s.memory⟩, 0)

def cbuffUngetByte (s : Buffer) : Buffer × Nat :=
  if s.obj.has CBUFF_FULL then (s, 1)
  else
    let moved := { s.obj with outPointer := s.obj.prev s.obj.outPointer }
    (⟨moved.mark CBUFF_FULL CBUFF_EMPTY, s.memory⟩, 0)

/-! ## Calls and their replies -/

inductive Op
  | putByte (data : UInt8)
  | getByte
  | unputByte
  | ungetByte
  | peekTail
  | peekHead
  | getSpace
  | getFill
  | clearBuffer
deriving DecidableEq, Repr

structure Reply where
  value : Option Nat
  data : Option UInt8
deriving DecidableEq, Repr

def call (s : Buffer) : Op → Buffer × Reply
  | .putByte data => ((cbuffPutByte s data).1, ⟨some (cbuffPutByte s data).2, none⟩)
  | .getByte =>
    ((cbuffGetByte s).1, ⟨some (cbuffGetByte s).2.1, (cbuffGetByte s).2.2⟩)
  | .unputByte => ((cbuffUnputByte s).1, ⟨some (cbuffUnputByte s).2, none⟩)
  | .ungetByte => ((cbuffUngetByte s).1, ⟨some (cbuffUngetByte s).2, none⟩)
  | .peekTail => (s, ⟨some (cbuffPeekTail s).1, (cbuffPeekTail s).2⟩)
  | .peekHead => (s, ⟨some (cbuffPeekHead s).1, (cbuffPeekHead s).2⟩)
  | .getSpace => (s, ⟨some (cbuffGetSpace s), none⟩)
  | .getFill => (s, ⟨some (cbuffGetFill s), none⟩)
  | .clearBuffer => (cbuffClearBuffer s, ⟨none, none⟩)

def calls {σ : Type} (call : σ → Op → σ × Reply) : σ → List Op → σ × List Reply
  | s, [] => (s, [])
  | s, op :: ops =>
    ((calls call (call s op).1 ops).1, (call s op).2 :: (calls call (call s op).1 ops).2)

variable {size : Nat}

/-- The same calls, on a bounded deque. -/
def onDeque (d : Deque UInt8 size) : Op → Deque UInt8 size × Reply
  | .putByte data =>
    match d.push data with
    | some d' => (d', ⟨some CBUFF_PUT_OK, none⟩)
    | none => (d, ⟨some CBUFF_PUT_FAIL, none⟩)
  | .getByte =>
    match d.pop with
    | some (data, d') => (d', ⟨some CBUFF_GET_OK, some data⟩)
    | none => (d, ⟨some CBUFF_GET_FAIL, none⟩)
  | .unputByte =>
    match d.unpush with
    | some d' => (d', ⟨some 0, none⟩)
    | none => (d, ⟨some 1, none⟩)
  | .ungetByte =>
    match d.unpop with
    | some d' => (d', ⟨some 0, none⟩)
    | none => (d, ⟨some 1, none⟩)
  | .peekTail =>
    match d.oldest with
    | some data => (d, ⟨some CBUFF_GET_OK, some data⟩)
    | none => (d, ⟨some CBUFF_GET_FAIL, none⟩)
  | .peekHead =>
    match d.newest with
    | some data => (d, ⟨some CBUFF_GET_OK, some data⟩)
    | none => (d, ⟨some CBUFF_GET_FAIL, none⟩)
  | .getSpace => (d, ⟨some d.spare.length, none⟩)
  | .getFill => (d, ⟨some d.items.length, none⟩)
  | .clearBuffer => (d.clear, ⟨none, none⟩)

/-! ## Pointers and flags -/

def Buffer.cells (s : Buffer) (size : Nat) : List UInt8 :=
  (List.range size).map fun i => s.memory (s.obj.startOfBuffer + i)

/-- The object and the memory hold a deque. -/
structure Represents (s : Buffer) (d : Deque UInt8 size) : Prop where
  last : s.obj.endOfBuffer = s.obj.startOfBuffer + (size - 1)
  out : s.obj.outPointer = s.obj.startOfBuffer + d.origin
  into : s.obj.inPointer = s.obj.startOfBuffer + (d.origin + d.items.length) % size
  cells : d.Stored (s.cells size)
  full : s.obj.has CBUFF_FULL = true ↔ d.spare = []
  empty : s.obj.has CBUFF_EMPTY = true ↔ d.items = []

theorem next_eq {o : CbuffObj} (h : o.endOfBuffer = o.startOfBuffer + (size - 1)) {i : Nat}
    (hi : i < size) : o.next (o.startOfBuffer + i) = o.startOfBuffer + (i + 1) % size := by
  rw [CbuffObj.next, h]
  rcases Nat.lt_or_ge (i + 1) size with hlt | hge
  · rw [if_neg (by omega), Nat.mod_eq_of_lt hlt, Nat.add_assoc]
  · rw [if_pos (by omega), show i + 1 = size by omega, Nat.mod_self, Nat.add_zero]

theorem prev_eq {o : CbuffObj} (h : o.endOfBuffer = o.startOfBuffer + (size - 1)) {i : Nat}
    (hi : i < size) :
    o.prev (o.startOfBuffer + i) = o.startOfBuffer + (i + (size - 1)) % size := by
  rw [CbuffObj.prev, h]
  rcases Nat.eq_zero_or_pos i with rfl | hpos
  · rw [if_neg (by omega), Nat.zero_add, Nat.mod_eq_of_lt (by omega)]
  · rw [if_pos (by omega), show i + (size - 1) = i - 1 + size by omega, Nat.add_mod_right,
      Nat.mod_eq_of_lt (by omega)]
    omega

/-- The flag that is cleared is not set, and the other one, not set before, is set when
the pointers meet. -/
theorem mark_has (o : CbuffObj) {meet clear : BitVec 8}
    (hpair : meet = CBUFF_FULL ∧ clear = CBUFF_EMPTY ∨ meet = CBUFF_EMPTY ∧ clear = CBUFF_FULL)
    (h : o.has meet = false) :
    ((o.mark meet clear).has meet = true ↔ o.inPointer = o.outPointer) ∧
      (o.mark meet clear).has clear = false := by
  have hbits : ∀ f : BitVec 8,
      (f ||| meet) &&& ~~~clear &&& meet ≠ 0 ∧ (f ||| meet) &&& ~~~clear &&& clear = 0 ∧
      f &&& ~~~clear &&& meet = f &&& meet ∧ f &&& ~~~clear &&& clear = 0 := by
    rcases hpair with ⟨rfl, rfl⟩ | ⟨rfl, rfl⟩ <;> decide
  obtain ⟨hset, hcleared, hkeep, hclear⟩ := hbits o.localFlag
  by_cases hmeet : o.inPointer = o.outPointer
  · simpa [CbuffObj.mark, CbuffObj.has, hmeet, hcleared] using hset
  · simpa [CbuffObj.mark, CbuffObj.has, hmeet, hkeep, hclear] using h

section Simulation

variable {s : Buffer} {d d' : Deque UInt8 size}

theorem cells_length (s : Buffer) : (s.cells size).length = size := by
  rw [Buffer.cells, List.length_map, List.length_range]

theorem cell_cells (s : Buffer) {i : Nat} (hi : i < size) :
    Cyclic.cell (s.cells size) i = s.memory (s.obj.startOfBuffer + i) := by
  rw [Cyclic.cell, cells_length, Nat.mod_eq_of_lt hi]
  simp [Buffer.cells, List.getD_eq_getElem?_getD, hi]

theorem cells_update (s : Buffer) (i : Nat) (x : UInt8) :
    (Buffer.cells ⟨s.obj, Function.update s.memory (s.obj.startOfBuffer + i) x⟩ size) =
      (s.cells size).set i x := by
  refine List.ext_getElem (by simp [cells_length]) fun j hj hj' => ?_
  rw [List.getElem_set]
  simp only [Buffer.cells, List.getElem_map, List.getElem_range, Function.update_apply]
  by_cases hij : i = j
  · rw [if_pos (by omega), if_pos hij]
  · rw [if_neg (by omega), if_neg hij]

namespace Represents

theorem positive (h : Represents s d) : 0 < size := h.cells.positive

theorem has_full (h : Represents s d) : s.obj.has CBUFF_FULL = decide (d.spare = []) := by
  rw [Bool.eq_iff_iff, h.full, decide_eq_true_iff]

theorem has_empty (h : Represents s d) : s.obj.has CBUFF_EMPTY = decide (d.items = []) := by
  rw [Bool.eq_iff_iff, h.empty, decide_eq_true_iff]

end Represents

/-- The pointers of an object whose pointers are those of a deque meet when the deque
is empty or full. -/
theorem pointers_meet {o : CbuffObj} (hd : d.origin < size)
    (hout : o.outPointer = o.startOfBuffer + d.origin)
    (hinto : o.inPointer = o.startOfBuffer + (d.origin + d.items.length) % size) :
    o.inPointer = o.outPointer ↔ d.items = [] ∨ d.spare = [] := by
  have hwhole := d.whole
  have hitems : d.items = [] ↔ d.items.length = 0 := List.length_eq_zero_iff.symm
  have hspare : d.spare = [] ↔ d.spare.length = 0 := List.length_eq_zero_iff.symm
  rw [hitems, hspare, hout, hinto]
  rcases Nat.lt_or_ge (d.origin + d.items.length) size with hlt | hge
  · rw [Nat.mod_eq_of_lt hlt]
    omega
  · rw [Nat.mod_eq_sub_mod hge, Nat.mod_eq_of_lt (by omega)]
    omega

theorem represents_filled {o : CbuffObj} {memory : Nat → UInt8}
    (hlast : o.endOfBuffer = o.startOfBuffer + (size - 1))
    (hout : o.outPointer = o.startOfBuffer + d.origin)
    (hinto : o.inPointer = o.startOfBuffer + (d.origin + d.items.length) % size)
    (hcells : d.Stored (Buffer.cells ⟨o, memory⟩ size)) (hflag : o.has CBUFF_FULL = false)
    (hne : d.items ≠ []) : Represents ⟨o.mark CBUFF_FULL CBUFF_EMPTY, memory⟩ d := by
  obtain ⟨hfull, hempty⟩ := mark_has o (.inl ⟨rfl, rfl⟩) hflag
  refine ⟨hlast, hout, hinto, hcells, ?_, ?_⟩
  · rw [hfull, pointers_meet hcells.origin hout hinto, or_iff_right hne]
  · rw [hempty]
    simp [hne]

theorem represents_drained {o : CbuffObj} {memory : Nat → UInt8}
    (hlast : o.endOfBuffer = o.startOfBuffer + (size - 1))
    (hout : o.outPointer = o.startOfBuffer + d.origin)
    (hinto : o.inPointer = o.startOfBuffer + (d.origin + d.items.length) % size)
    (hcells : d.Stored (Buffer.cells ⟨o, memory⟩ size)) (hflag : o.has CBUFF_EMPTY = false)
    (hne : d.spare ≠ []) : Represents ⟨o.mark CBUFF_EMPTY CBUFF_FULL, memory⟩ d := by
  obtain ⟨hempty, hfull⟩ := mark_has o (.inr ⟨rfl, rfl⟩) hflag
  refine ⟨hlast, hout, hinto, hcells, ?_, ?_⟩
  · rw [hfull]
    simp [hne]
  · rw [hempty, pointers_meet hcells.origin hout hinto, or_iff_left hne]

/-! ## The simulation, operation by operation -/

theorem putByte_refines (h : Represents s d) (data : UInt8) :
    (d.spare = [] ∧ cbuffPutByte s data = (s, CBUFF_PUT_FAIL) ∧ d.push data = none) ∨
    ∃ d', d.push data = some d' ∧ (cbuffPutByte s data).2 = CBUFF_PUT_OK ∧
      Represents (cbuffPutByte s data).1 d' := by
  have hflag := h.has_full
  by_cases hfull : d.spare = []
  · refine .inl ⟨hfull, ?_, by rw [Deque.push, dif_pos hfull]⟩
    rw [cbuffPutByte, hflag, if_pos (decide_eq_true hfull)]
  · rw [decide_eq_false hfull] at hflag
    obtain ⟨d', hd'⟩ : ∃ d', d.push data = some d' := by
      rw [Deque.push, dif_neg hfull]
      exact ⟨_, rfl⟩
    obtain ⟨_, horigin, hitems, _⟩ := Deque.push_some hd'
    have hstored := h.cells.push hd'
    rw [cells_length, ← cells_update, ← h.into] at hstored
    refine .inr ⟨d', hd', by rw [cbuffPutByte, if_neg (by simp [hflag])], ?_⟩
    rw [cbuffPutByte, if_neg (by simp [hflag])]
    refine represents_filled h.last (by rw [horigin]; exact h.out) ?_ hstored hflag
      (by simp [hitems])
    show s.obj.next s.obj.inPointer = s.obj.startOfBuffer + (d'.origin + d'.items.length) % size
    rw [h.into, next_eq h.last (Nat.mod_lt _ h.positive), Nat.mod_add_mod, horigin, hitems,
      List.length_append, List.length_singleton, Nat.add_assoc]

theorem getByte_refines (h : Represents s d) :
    (d.items = [] ∧ cbuffGetByte s = (s, CBUFF_GET_FAIL, none) ∧ d.pop = none) ∨
    ∃ x d', d.pop = some (x, d') ∧ (cbuffGetByte s).2 = (CBUFF_GET_OK, some x) ∧
      Represents (cbuffGetByte s).1 d' := by
  have hflag := h.has_empty
  by_cases hempty : d.items = []
  · refine .inl ⟨hempty, ?_, by rw [Deque.pop, dif_pos hempty]⟩
    rw [cbuffGetByte, hflag, if_pos (decide_eq_true hempty)]
  · rw [decide_eq_false hempty] at hflag
    have hpos := List.length_pos_iff.mpr hempty
    obtain ⟨x, d', hd'⟩ : ∃ x d', d.pop = some (x, d') := by
      rw [Deque.pop, dif_neg hempty]
      exact ⟨_, _, rfl⟩
    obtain ⟨_, hold, horigin, hitems, hspare⟩ := Deque.pop_some hd'
    rw [h.cells.oldest hempty, cell_cells s h.cells.origin, ← h.out] at hold
    refine .inr ⟨x, d', hd', by rw [cbuffGetByte, if_neg (by simp [hflag]), hold], ?_⟩
    rw [cbuffGetByte, if_neg (by simp [hflag])]
    refine represents_drained h.last ?_ ?_ (h.cells.pop hd') hflag (by simp [hspare])
    · show s.obj.next s.obj.outPointer = s.obj.startOfBuffer + d'.origin
      rw [h.out, next_eq h.last h.cells.origin, horigin]
    · show s.obj.inPointer = s.obj.startOfBuffer + (d'.origin + d'.items.length) % size
      rw [h.into, horigin, hitems, List.length_tail, Nat.mod_add_mod,
        show d.origin + 1 + (d.items.length - 1) = d.origin + d.items.length by omega]

theorem unputByte_refines (h : Represents s d) :
    (d.items = [] ∧ cbuffUnputByte s = (s, 1) ∧ d.unpush = none) ∨
    ∃ d', d.unpush = some d' ∧ (cbuffUnputByte s).2 = 0 ∧
      Represents (cbuffUnputByte s).1 d' := by
  have hflag := h.has_empty
  by_cases hempty : d.items = []
  · refine .inl ⟨hempty, ?_, by rw [Deque.unpush, dif_pos hempty]⟩
    rw [cbuffUnputByte, hflag, if_pos (decide_eq_true hempty)]
  · rw [decide_eq_false hempty] at hflag
    have hpos := List.length_pos_iff.mpr hempty
    have hwhole := d.whole
    obtain ⟨d', hd'⟩ : ∃ d', d.unpush = some d' := by
      rw [Deque.unpush, dif_neg hempty]
      exact ⟨_, rfl⟩
    obtain ⟨_, horigin, hitems, _, _, hspare⟩ := Deque.unpush_some hd'
    refine .inr ⟨d', hd', by rw [cbuffUnputByte, if_neg (by simp [hflag])], ?_⟩
    rw [cbuffUnputByte, if_neg (by simp [hflag])]
    refine represents_drained h.last (by rw [horigin]; exact h.out) ?_ (h.cells.unpush hd') hflag
      (by simp [hspare])
    show s.obj.prev s.obj.inPointer = s.obj.startOfBuffer + (d'.origin + d'.items.length) % size
    rw [h.into, prev_eq h.last (Nat.mod_lt _ h.positive), Nat.mod_add_mod, horigin, hitems,
      List.length_dropLast, show d.origin + d.items.length + (size - 1) =
        d.origin + (d.items.length - 1) + size by omega, Nat.add_mod_right]

theorem ungetByte_refines (h : Represents s d) :
    (d.spare = [] ∧ cbuffUngetByte s = (s, 1) ∧ d.unpop = none) ∨
    ∃ d', d.unpop = some d' ∧ (cbuffUngetByte s).2 = 0 ∧
      Represents (cbuffUngetByte s).1 d' := by
  have hflag := h.has_full
  by_cases hfull : d.spare = []
  · refine .inl ⟨hfull, ?_, by rw [Deque.unpop, dif_pos hfull]⟩
    rw [cbuffUngetByte, hflag, if_pos (decide_eq_true hfull)]
  · rw [decide_eq_false hfull] at hflag
    have hpos := h.positive
    obtain ⟨d', hd'⟩ : ∃ d', d.unpop = some d' := by
      rw [Deque.unpop, dif_neg hfull]
      exact ⟨_, rfl⟩
    obtain ⟨_, horigin, _, _, _, hitems⟩ := Deque.unpop_some hd'
    refine .inr ⟨d', hd', by rw [cbuffUngetByte, if_neg (by simp [hflag])], ?_⟩
    rw [cbuffUngetByte, if_neg (by simp [hflag])]
    refine represents_filled h.last ?_ ?_ (h.cells.unpop hd') hflag (by simp [hitems])
    · show s.obj.prev s.obj.outPointer = s.obj.startOfBuffer + d'.origin
      rw [h.out, prev_eq h.last h.cells.origin, horigin]
    · show s.obj.inPointer = s.obj.startOfBuffer + (d'.origin + d'.items.length) % size
      rw [h.into, horigin, hitems, List.length_cons, Nat.mod_add_mod, show d.origin + (size - 1) +
        (d.items.length + 1) = d.origin + d.items.length + size by omega, Nat.add_mod_right]

theorem peekTail_refines (h : Represents s d) :
    cbuffPeekTail s = match d.oldest with
      | some data => (CBUFF_GET_OK, some data)
      | none => (CBUFF_GET_FAIL, none) := by
  by_cases hempty : d.items = []
  · rw [cbuffPeekTail, h.has_empty, Deque.oldest, hempty]
    rfl
  · rw [cbuffPeekTail, h.has_empty, decide_eq_false hempty, h.cells.oldest hempty,
      cell_cells s h.cells.origin, ← h.out]
    rfl

theorem peekHead_refines (h : Represents s d) :
    cbuffPeekHead s = match d.newest with
      | some data => (CBUFF_GET_OK, some data)
      | none => (CBUFF_GET_FAIL, none) := by
  have hpos := h.positive
  by_cases hempty : d.items = []
  · rw [cbuffPeekHead, h.has_empty, Deque.newest, hempty]
    rfl
  · have hlen := List.length_pos_iff.mpr hempty
    -- both branches of the source read the cell before the in pointer
    have hread : (if s.obj.inPointer ≠ s.obj.startOfBuffer then
        (CBUFF_GET_OK, some (s.memory (s.obj.inPointer - 1)))
        else (CBUFF_GET_OK, some (s.memory s.obj.endOfBuffer))) =
        (CBUFF_GET_OK, some (s.memory (s.obj.prev s.obj.inPointer))) := by
      rw [CbuffObj.prev]
      by_cases hstart : s.obj.inPointer ≠ s.obj.startOfBuffer
      · rw [if_pos hstart, if_pos hstart]
      · rw [if_neg hstart, if_neg hstart]
    have hcell : Cyclic.cell (s.cells size) (d.origin + (d.items.length - 1)) =
        s.memory (s.obj.prev s.obj.inPointer) := by
      rw [← Cyclic.cell_mod, cells_length, cell_cells s (Nat.mod_lt _ hpos), h.into,
        prev_eq h.last (Nat.mod_lt _ hpos), Nat.mod_add_mod,
        show d.origin + d.items.length + (size - 1) =
          d.origin + (d.items.length - 1) + size by omega, Nat.add_mod_right]
    rw [cbuffPeekHead, h.has_empty, decide_eq_false hempty, hread, h.cells.newest hempty, hcell]
    rfl

theorem getSpace_refines (h : Represents s d) : cbuffGetSpace s = d.spare.length := by
  have hpos := h.positive
  have hwhole := d.whole
  have horigin := h.cells.origin
  have hlast := h.last
  by_cases hfull : d.spare = []
  · rw [cbuffGetSpace, h.has_full, if_pos (decide_eq_true hfull), hfull, List.length_nil]
  rw [cbuffGetSpace, h.has_full, if_neg (by simp [hfull])]
  by_cases hempty : d.items = []
  · rw [h.has_empty, if_pos (decide_eq_true hempty)]
    have hzero := List.length_eq_zero_iff.mpr hempty
    omega
  · rw [h.has_empty, if_neg (by simp [hempty]), h.out, h.into, hlast]
    have hitems := List.length_pos_iff.mpr hempty
    have hspare := List.length_pos_iff.mpr hfull
    rcases Nat.lt_or_ge (d.origin + d.items.length) size with hlt | hge
    · rw [Nat.mod_eq_of_lt hlt, if_pos (by omega)]
      omega
    · rw [Nat.mod_eq_sub_mod hge, Nat.mod_eq_of_lt (by omega), if_neg (by omega)]
      omega

theorem getFill_refines (h : Represents s d) : cbuffGetFill s = d.items.length := by
  have hpos := h.positive
  have hwhole := d.whole
  have hlast := h.last
  rw [cbuffGetFill, getSpace_refines h]
  omega

theorem clearBuffer_refines (h : Represents s d) : Represents (cbuffClearBuffer s) d.clear where
  last := h.last
  out := rfl
  into := by
    show s.obj.startOfBuffer = s.obj.startOfBuffer + (0 + 0) % size
    rw [Nat.add_zero, Nat.zero_mod, Nat.add_zero]
  cells := h.cells.clear
  full := by
    have hpos := h.positive
    have hlen := d.clear.whole
    have hclear : ¬decide ((0 ||| CBUFF_EMPTY) &&& CBUFF_FULL ≠ 0) = true := by decide
    refine iff_of_false hclear fun hnil => ?_
    rw [hnil] at hlen
    exact absurd hlen (Nat.ne_of_lt hpos)
  empty := by
    have hset : decide ((0 ||| CBUFF_EMPTY) &&& CBUFF_EMPTY ≠ 0) = true := by decide
    exact iff_of_true hset rfl

/-- A call does to the buffer, and replies, what the same call does on the deque. -/
theorem call_refines (h : Represents s d) (op : Op) :
    (call s op).2 = (onDeque d op).2 ∧ Represents (call s op).1 (onDeque d op).1 := by
  cases op with
  | putByte data =>
    simp only [call, onDeque]
    rcases putByte_refines h data with ⟨_, hcall, hd⟩ | ⟨d', hd, hcode, hnew⟩
    · rw [hcall, hd]
      exact ⟨rfl, h⟩
    · rw [hd, hcode]
      exact ⟨rfl, hnew⟩
  | getByte =>
    simp only [call, onDeque]
    rcases getByte_refines h with ⟨_, hcall, hd⟩ | ⟨x, d', hd, hcode, hnew⟩
    · rw [hcall, hd]
      exact ⟨rfl, h⟩
    · rw [hd, hcode]
      exact ⟨rfl, hnew⟩
  | unputByte =>
    simp only [call, onDeque]
    rcases unputByte_refines h with ⟨_, hcall, hd⟩ | ⟨d', hd, hcode, hnew⟩
    · rw [hcall, hd]
      exact ⟨rfl, h⟩
    · rw [hd, hcode]
      exact ⟨rfl, hnew⟩
  | ungetByte =>
    simp only [call, onDeque]
    rcases ungetByte_refines h with ⟨_, hcall, hd⟩ | ⟨d', hd, hcode, hnew⟩
    · rw [hcall, hd]
      exact ⟨rfl, h⟩
    · rw [hd, hcode]
      exact ⟨rfl, hnew⟩
  | peekTail =>
    simp only [call, onDeque, peekTail_refines h]
    cases d.oldest <;> exact ⟨rfl, h⟩
  | peekHead =>
    simp only [call, onDeque, peekHead_refines h]
    cases d.newest <;> exact ⟨rfl, h⟩
  | getSpace => exact ⟨by simp only [call, onDeque, getSpace_refines h], h⟩
  | getFill => exact ⟨by simp only [call, onDeque, getFill_refines h], h⟩
  | clearBuffer => exact ⟨rfl, clearBuffer_refines h⟩

theorem calls_refine (h : Represents s d) (ops : List Op) :
    (calls call s ops).2 = (calls onDeque d ops).2 ∧
      Represents (calls call s ops).1 (calls onDeque d ops).1 := by
  induction ops generalizing s d with
  | nil => exact ⟨rfl, h⟩
  | cons op ops ih =>
    obtain ⟨hreply, hnext⟩ := call_refines h op
    obtain ⟨hreplies, hlast⟩ := ih hnext
    exact ⟨by rw [calls, calls, hreply, hreplies], hlast⟩

/-! ## Giving a byte back -/

theorem prev_next {o : CbuffObj} (h : o.endOfBuffer = o.startOfBuffer + (size - 1)) {i : Nat}
    (hi : i < size) : o.prev (o.next (o.startOfBuffer + i)) = o.startOfBuffer + i := by
  rw [next_eq h hi, prev_eq h (Nat.mod_lt _ (by omega)), Nat.mod_add_mod,
    show i + 1 + (size - 1) = i + size by omega, Nat.add_mod_right, Nat.mod_eq_of_lt hi]

/-- The flags are the same again after a byte was counted in and out, or out and in. -/
theorem mark_mark {f : BitVec 8} {meet clear : BitVec 8} (met back : Prop) [Decidable met]
    [Decidable back]
    (hpair : meet = CBUFF_FULL ∧ clear = CBUFF_EMPTY ∨ meet = CBUFF_EMPTY ∧ clear = CBUFF_FULL)
    (hmeet : f &&& meet = 0) (hback : back ↔ f &&& clear ≠ 0) :
    (if back then (if met then f ||| meet else f) &&& ~~~clear ||| clear
      else (if met then f ||| meet else f) &&& ~~~clear) &&& ~~~meet = f := by
  have hbits : ∀ f : BitVec 8, f &&& meet = 0 →
      (f &&& clear ≠ 0 → ((f ||| meet) &&& ~~~clear ||| clear) &&& ~~~meet = f ∧
        (f &&& ~~~clear ||| clear) &&& ~~~meet = f) ∧
      (f &&& clear = 0 → (f ||| meet) &&& ~~~clear &&& ~~~meet = f ∧
        f &&& ~~~clear &&& ~~~meet = f) := by
    rcases hpair with ⟨rfl, rfl⟩ | ⟨rfl, rfl⟩ <;> decide
  obtain ⟨hset, hunset⟩ := hbits f hmeet
  by_cases hb : back
  · obtain ⟨hmet, hnot⟩ := hset (hback.mp hb)
    by_cases hm : met
    · rw [if_pos hb, if_pos hm, hmet]
    · rw [if_pos hb, if_neg hm, hnot]
  · obtain ⟨hmet, hnot⟩ := hunset (by simpa [hback] using hb)
    by_cases hm : met
    · rw [if_neg hb, if_pos hm, hmet]
    · rw [if_neg hb, if_neg hm, hnot]

theorem has_eq_false {o : CbuffObj} {flag : BitVec 8} :
    o.has flag = false ↔ o.localFlag &&& flag = 0 := by
  rw [CbuffObj.has, decide_eq_false_iff_not, not_not]

theorem gets_of_items {d₂ : Deque UInt8 size} (h : d.items = d₂.items) (n : Nat) :
    (calls onDeque d (List.replicate n .getByte)).2 =
      (calls onDeque d₂ (List.replicate n .getByte)).2 := by
  induction n generalizing d d₂ with
  | zero => rfl
  | succ n ih =>
    rw [List.replicate_succ, calls, calls]
    by_cases hempty : d.items = []
    · have hpop : d.pop = none := by rw [Deque.pop, dif_pos hempty]
      have hpop₂ : d₂.pop = none := by rw [Deque.pop, dif_pos (h ▸ hempty)]
      simp only [onDeque, hpop, hpop₂, ih h]
    · obtain ⟨x, d', hpop⟩ : ∃ x d', d.pop = some (x, d') := by
        rw [Deque.pop, dif_neg hempty]
        exact ⟨_, _, rfl⟩
      obtain ⟨x₂, d₂', hpop₂⟩ : ∃ x d', d₂.pop = some (x, d') := by
        rw [Deque.pop, dif_neg (h ▸ hempty)]
        exact ⟨_, _, rfl⟩
      obtain ⟨_, hold, _, hitems, _⟩ := Deque.pop_some hpop
      obtain ⟨_, hold₂, _, hitems₂, _⟩ := Deque.pop_some hpop₂
      rw [Deque.oldest, h] at hold
      obtain rfl := Option.some.inj (hold.symm.trans hold₂)
      have hrest := ih (hitems.trans ((congrArg List.tail h).trans hitems₂.symm))
      simp only [onDeque, hpop, hpop₂, hrest]

theorem unput_put (h : Represents s d) (data : UInt8)
    (hok : (cbuffPutByte s data).2 = CBUFF_PUT_OK) :
    (cbuffUnputByte (cbuffPutByte s data).1).2 = 0 ∧
      (cbuffUnputByte (cbuffPutByte s data).1).1.obj = s.obj ∧
      ∃ d' : Deque UInt8 size,
        Represents (cbuffUnputByte (cbuffPutByte s data).1).1 d' ∧ d'.items = d.items := by
  rcases putByte_refines h data with ⟨_, hcall, _⟩ | ⟨d', hpush, _, hput⟩
  · rw [hcall] at hok
    exact absurd (show CBUFF_PUT_FAIL = CBUFF_PUT_OK from hok) (by decide)
  obtain ⟨hspare, _, hitems, _⟩ := Deque.push_some hpush
  have hne : d'.items ≠ [] := by rw [hitems]; simp
  rcases unputByte_refines hput with ⟨hnil, _, _⟩ | ⟨d₂, hunpush, hcode, hback⟩
  · exact absurd hnil hne
  obtain ⟨_, _, hitems₂, _⟩ := Deque.unpush_some hunpush
  refine ⟨hcode, ?_, d₂, hback, by rw [hitems₂, hitems, List.dropLast_concat]⟩
  have hfull : s.obj.has CBUFF_FULL = false := by simp [h.has_full, hspare]
  have hempty := hput.has_empty
  rw [decide_eq_false hne] at hempty
  have hpointer : s.obj.prev (s.obj.next s.obj.inPointer) = s.obj.inPointer := by
    rw [h.into, prev_next h.last (Nat.mod_lt _ h.positive)]
  have hmeet : s.obj.prev (s.obj.next s.obj.inPointer) = s.obj.outPointer ↔
      s.obj.localFlag &&& CBUFF_EMPTY ≠ 0 := by
    rw [hpointer, pointers_meet h.cells.origin h.out h.into, or_iff_left hspare, ← h.empty,
      CbuffObj.has, decide_eq_true_iff]
  have hflags := mark_mark (s.obj.next s.obj.inPointer = s.obj.outPointer)
    (s.obj.prev (s.obj.next s.obj.inPointer) = s.obj.outPointer) (.inl ⟨rfl, rfl⟩)
    (has_eq_false.mp hfull) hmeet
  rw [cbuffUnputByte, if_neg (by simp [hempty]), cbuffPutByte, if_neg (by simp [hfull])]
  exact CbuffObj.ext rfl rfl rfl hpointer rfl rfl hflags

theorem unget_get (h : Represents s d) (hok : (cbuffGetByte s).2.1 = CBUFF_GET_OK) :
    cbuffUngetByte (cbuffGetByte s).1 = (s, 0) := by
  rcases getByte_refines h with ⟨_, hcall, _⟩ | ⟨x, d', hpop, _, hget⟩
  · rw [hcall] at hok
    exact absurd (show CBUFF_GET_FAIL = CBUFF_GET_OK from hok) (by decide)
  obtain ⟨hitems, _, _, _, hspare⟩ := Deque.pop_some hpop
  have hempty : s.obj.has CBUFF_EMPTY = false := by simp [h.has_empty, hitems]
  have hfull := hget.has_full
  rw [decide_eq_false (by simp [hspare])] at hfull
  have hpointer : s.obj.prev (s.obj.next s.obj.outPointer) = s.obj.outPointer := by
    rw [h.out, prev_next h.last h.cells.origin]
  have hmeet : s.obj.inPointer = s.obj.prev (s.obj.next s.obj.outPointer) ↔
      s.obj.localFlag &&& CBUFF_FULL ≠ 0 := by
    rw [hpointer, pointers_meet h.cells.origin h.out h.into, or_iff_right hitems, ← h.full,
      CbuffObj.has, decide_eq_true_iff]
  have hflags := mark_mark (s.obj.inPointer = s.obj.next s.obj.outPointer)
    (s.obj.inPointer = s.obj.prev (s.obj.next s.obj.outPointer)) (.inr ⟨rfl, rfl⟩)
    (has_eq_false.mp hempty) hmeet
  rw [cbuffUngetByte, if_neg (by simp [hfull]), cbuffGetByte, if_neg (by simp [hempty])]
  refine Prod.ext (congrArg (Buffer.mk · s.memory) ?_) rfl
  exact CbuffObj.ext rfl rfl rfl rfl hpointer rfl hflags

end Simulation

/-! ## Buffers that were created -/

/-- What holds of a buffer at any time. -/
structure BoundedDeque (size : Nat) (s : Buffer) : Prop where
  put_fails : ∀ data, (cbuffPutByte s data).2 = CBUFF_PUT_FAIL ↔ cbuffGetFill s = size
  get_fails : (cbuffGetByte s).2.1 = CBUFF_GET_FAIL ↔ cbuffGetFill s = 0
  peekTail_fails : (cbuffPeekTail s).1 = CBUFF_GET_FAIL ↔ cbuffGetFill s = 0
  peekHead_fails : (cbuffPeekHead s).1 = CBUFF_GET_FAIL ↔ cbuffGetFill s = 0
  fill_add_space : cbuffGetFill s + cbuffGetSpace s = size
  one_flag : ¬(s.obj.has CBUFF_FULL = true ∧ s.obj.has CBUFF_EMPTY = true)
  unput_put : ∀ data, (cbuffPutByte s data).2 = CBUFF_PUT_OK →
    (cbuffUnputByte (cbuffPutByte s data).1).2 = 0 ∧
    (cbuffUnputByte (cbuffPutByte s data).1).1.obj = s.obj ∧
    ∀ n, (calls call (cbuffUnputByte (cbuffPutByte s data).1).1 (List.replicate n .getByte)).2 =
      (calls call s (List.replicate n .getByte)).2
  unget_get : (cbuffGetByte s).2.1 = CBUFF_GET_OK → cbuffUngetByte (cbuffGetByte s).1 = (s, 0)

theorem Represents.boundedDeque {s : Buffer} {d : Deque UInt8 size} (h : Represents s d) :
    BoundedDeque size s := by
  have hwhole := d.whole
  have hpos := h.positive
  have hfill := getFill_refines h
  have hspace := getSpace_refines h
  have hitems : d.items = [] ↔ cbuffGetFill s = 0 := by
    rw [hfill, List.length_eq_zero_iff]
  have hspare : d.spare = [] ↔ cbuffGetFill s = size := by
    rw [hfill, ← List.length_eq_zero_iff]
    omega
  refine ⟨fun data => ?_, ?_, ?_, ?_, by omega, ?_, fun data hok => ?_, unget_get h⟩
  · rw [← hspare]
    rcases putByte_refines h data with ⟨hnil, hcall, _⟩ | ⟨d', hpush, hcode, _⟩
    · exact iff_of_true (by rw [hcall]) hnil
    · exact iff_of_false (by rw [hcode]; decide) (Deque.push_some hpush).1
  · rw [← hitems]
    rcases getByte_refines h with ⟨hnil, hcall, _⟩ | ⟨x, d', hpop, hcode, _⟩
    · exact iff_of_true (by rw [hcall]) hnil
    · exact iff_of_false (by rw [hcode]; simp [CBUFF_GET_OK, CBUFF_GET_FAIL])
        (Deque.pop_some hpop).1
  · rw [← hitems, cbuffPeekTail, h.has_empty]
    by_cases hnil : d.items = [] <;> simp [hnil, CBUFF_GET_OK, CBUFF_GET_FAIL]
  · rw [← hitems, peekHead_refines h]
    by_cases hnil : d.items = []
    · simp [hnil, Deque.newest]
    · rw [h.cells.newest hnil]
      simp [hnil, CBUFF_GET_OK, CBUFF_GET_FAIL]
  · rw [h.full, h.empty]
    rintro ⟨hnospare, hnoitems⟩
    rw [hnospare, hnoitems, List.length_nil] at hwhole
    omega
  · obtain ⟨hcode, hobj, d', hback, hsame⟩ := unput_put h data hok
    refine ⟨hcode, hobj, fun n => ?_⟩
    rw [(calls_refine hback _).1, (calls_refine h _).1]
    exact gets_of_items hsame n

def Registry.object? (r : Registry) (address : Nat) : Option CbuffObj :=
  r.listed.find? (·.address = address)

/-- An object that `cbuffCreate` set up holds nothing, opened or not. -/
theorem setup_represents {o : CbuffObj} (buffer : Nat) (hsize : size ≠ 0)
    (ho : o.startOfBuffer = buffer ∧ o.endOfBuffer = buffer + (size - 1) ∧
      o.inPointer = buffer ∧ o.outPointer = buffer)
    (hflag : o.localFlag = CBUFF_EMPTY ∨ o.localFlag = CBUFF_EMPTY ||| CBUFF_OPEN)
    (memory : Nat → UInt8) :
    Represents ⟨o, memory⟩ (Deque.ofArray (Buffer.cells ⟨o, memory⟩ size) (cells_length _)) := by
  obtain ⟨hstart, hlast, hin, hout⟩ := ho
  have hflags : o.has CBUFF_FULL = false ∧ o.has CBUFF_EMPTY = true := by
    rcases hflag with hflag | hflag <;> rw [CbuffObj.has, CbuffObj.has, hflag] <;> decide
  obtain ⟨hfull, hempty⟩ := hflags
  have hpos := Nat.pos_of_ne_zero hsize
  refine ⟨by rw [hstart, hlast], by rw [hout, hstart]; rfl, ?_, .ofArray hpos _, ?_,
    iff_of_true hempty rfl⟩
  · show o.inPointer = o.startOfBuffer + (0 + 0) % size
    rw [hin, hstart, Nat.add_zero, Nat.zero_mod, Nat.add_zero]
  · refine iff_of_false (by simp [hfull]) fun hnil => ?_
    have hlen : (Buffer.cells ⟨o, memory⟩ size).length = 0 := List.length_eq_zero_iff.mpr hnil
    rw [cells_length] at hlen
    exact hsize hlen

/-- A buffer that `cbuffCreate` returned a number for, opened or not, holds nothing of the
caller's array. -/
theorem created_represents {r r' : Registry} {buffer sizeOfBuffer : Nat} {obj o : CbuffObj}
    {num : BitVec 32} (hcreate : cbuffCreate r buffer sizeOfBuffer (some obj) = (r', num))
    (hnum : num ≠ 0)
    (ho : r'.object? obj.address = some o ∨ (cbuffOpen r' num).1.object? obj.address = some o)
    (memory : Nat → UInt8) :
    Represents ⟨o, memory⟩
      (Deque.ofArray (Buffer.cells ⟨o, memory⟩ sizeOfBuffer) (cells_length _)) := by
  obtain ⟨hsize, rest, hlisted⟩ := cbuffCreate_listed hcreate hnum
  rcases ho with ho | ho
  · rw [Registry.object?, hlisted, List.find?_cons_of_pos (by simp [CbuffObj.setup])] at ho
    obtain rfl := Option.some.inj ho
    exact setup_represents buffer hsize ⟨rfl, rfl, rfl, rfl⟩ (.inl rfl) memory
  · have hclosed : (0 ||| CBUFF_EMPTY) &&& CBUFF_OPEN = 0 := by decide
    have hopen := openNumber_first { obj.setup buffer sizeOfBuffer with bufferNumber := num }
      rest hclosed
    rw [Registry.object?, cbuffOpen, hlisted, hopen,
      List.find?_cons_of_pos (by simp [CbuffObj.setup])] at ho
    obtain rfl := Option.some.inj ho
    exact setup_represents buffer hsize ⟨rfl, rfl, rfl, rfl⟩ (.inr rfl) memory

/-- Every sequence of operations on a buffer that `cbuffCreate` returned a number for,
opened or not, replies as a bounded deque over the caller's array does, and leaves a
buffer that behaves as one. -/
theorem cbuff_refines_deque {r r' : Registry} {buffer sizeOfBuffer : Nat} {obj o : CbuffObj}
    {num : BitVec 32} (hcreate : cbuffCreate r buffer sizeOfBuffer (some obj) = (r', num))
    (hnum : num ≠ 0)
    (ho : r'.object? obj.address = some o ∨ (cbuffOpen r' num).1.object? obj.address = some o)
    (memory : Nat → UInt8) (ops : List Op) :
    (calls call ⟨o, memory⟩ ops).2 =
      (calls onDeque
        (Deque.ofArray (Buffer.cells ⟨o, memory⟩ sizeOfBuffer) (cells_length _)) ops).2 ∧
      BoundedDeque sizeOfBuffer (calls call ⟨o, memory⟩ ops).1 := by
  have hstart := created_represents hcreate hnum ho memory
  obtain ⟨hreplies, hlast⟩ := calls_refine hstart ops
  exact ⟨hreplies, hlast.boundedDeque⟩

/-- A buffer of three bytes is filled, drained in part and filled around its end. -/
theorem cbuff_refines_deque_three :
    ∃ o : CbuffObj,
      (cbuffCreate cbuffInit 0x1000 3 (some (sampleObj 1))).1.object? 1 = some o ∧
      (calls call ⟨o, fun _ => 0⟩ [.putByte 1, .putByte 2, .putByte 3, .putByte 4, .getByte,
        .putByte 4, .peekHead, .peekTail, .getFill]).2.map (·.value) =
        [some 1, some 1, some 1, some 0, some 1, some 1, some 1, some 1, some 3] ∧
      BoundedDeque 3 (calls call ⟨o, fun _ => 0⟩ [.putByte 1, .putByte 2]).1 := by
  refine ⟨_, rfl, by decide +kernel, ?_⟩
  have hcreate : cbuffCreate cbuffInit 0x1000 3 (some (sampleObj 1)) = (_, 1) := rfl
  exact (cbuff_refines_deque hcreate (by decide) (.inl rfl) _ _).2

end Cbuff
end EspMisc
