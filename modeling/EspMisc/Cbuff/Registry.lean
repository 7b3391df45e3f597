/-
The circular buffer objects and their registry.

`cbuff.c` keeps every buffer that was created in a linked list and gives each a number
with one bit, taken from the sixteen bits of `activeCbuffObjs`.  The list is modelled
by the objects it links, from `startOfCbuffObjs` on; a call to `cbuffCreate` links an
object that the caller owns, so whatever its fields held before is part of the call.

`cbuffCreate` links the new object first and looks for a free number afterwards, from
the second bit on.  `registry_law_iff` is the exact condition under which a history of
creates and destroys keeps the registry as it should be: no buffer is created while
the first number is the only free one.
-/
import EspMisc.Lib.Bits
import EspMisc.Lib.Run

namespace EspMisc
namespace Cbuff

open Machine

def CBUFF_FULL : BitVec 8 := 0x80
def CBUFF_EMPTY : BitVec 8 := 0x40
def CBUFF_OPEN : BitVec 8 := 0x20

def CBUFF_DESTROY_FAIL : Nat := 0
def CBUFF_DESTROY_OK : Nat := 1

/-- A buffer object, at its own address.  Pointers are addresses. -/
@[ext] structure CbuffObj where
  address : Nat
  startOfBuffer : Nat
  endOfBuffer : Nat
  inPointer : Nat
  outPointer : Nat
  bufferNumber : BitVec 32
  localFlag : BitVec 8
deriving DecidableEq, Repr

structure Registry where
  listed : List CbuffObj
  activeCbuffObjs : BitVec 32
deriving DecidableEq, Repr

def cbuffInit : Registry := ⟨[], 0⟩

/-- The fields that `cbuffCreate` sets whatever number it finds. -/
def CbuffObj.setup (obj : CbuffObj) (buffer sizeOfBuffer : Nat) : CbuffObj :=
  { obj with
    startOfBuffer := buffer
    endOfBuffer := buffer + (sizeOfBuffer - 1)
    inPointer := buffer
    outPointer := buffer
    localFlag := 0 ||| CBUFF_EMPTY }

/-- The search for a free number.  A number leaves the sixteen bits after as many
turns, so the count of turns never ends the search. -/
def searchNumber (active : BitVec 32) : Nat → BitVec 32 → Option (BitVec 32)
  | 0, _ => none
  | turns + 1, circBuffNum =>
    if active &&& circBuffNum = 0 then some circBuffNum
    else
      let next := (circBuffNum <<< 1) &&& 0xFFFF
      if next = 0 then none else searchNumber active turns next

/-- `cbuffCreate`; a null buffer is address 0, and a null object is `none`. -/
def cbuffCreate (r : Registry) (buffer sizeOfBuffer : Nat) (newCircBufferObj : Option CbuffObj) :
    Registry × BitVec 32 :=
  if buffer ≠ 0 ∧ sizeOfBuffer ≠ 0 then
    match newCircBufferObj with
    | none => (r, 0)
    | some obj =>
      let new := obj.setup buffer sizeOfBuffer
      if r.activeCbuffObjs = 0 ∧ r.listed = [] then
        (⟨[{ new with bufferNumber := 1 }], r.activeCbuffObjs ||| 1⟩, 1)
      else if r.activeCbuffObjs ≠ 0xFFFF then
        match searchNumber r.activeCbuffObjs 16 (1#32 <<< 1) with
        | some num =>
          (⟨{ new with bufferNumber := num } :: r.listed, r.activeCbuffObjs ||| num⟩, num)
        -- the object stays linked, with the number it had
        | none => (⟨new :: r.listed, r.activeCbuffObjs⟩, 0)
      else (r, 0)
  else (r, 0)

/-- The list without the first object that has the number, if there is one. -/
def unlink (bufferNumber : BitVec 32) : List CbuffObj → Option (List CbuffObj)
  | [] => none
  | obj :: rest =>
    if obj.bufferNumber = bufferNumber then some rest
    else (unlink bufferNumber rest).map (obj :: ·)

def cbuffDestroy (r : Registry) (bufferNumber : BitVec 32) : Registry × Nat :=
  match unlink bufferNumber r.listed with
  | some rest => (⟨rest, r.activeCbuffObjs &&& ~~~bufferNumber⟩, CBUFF_DESTROY_OK)
  | none => (r, CBUFF_DESTROY_FAIL)

/-- The first object that has the number is opened, unless it is open already. -/
def openNumber (bufferNumber : BitVec 32) : List CbuffObj → List CbuffObj × Option Nat
  | [] => ([], none)
  | obj :: rest =>
    if obj.bufferNumber = bufferNumber then
      if obj.localFlag &&& CBUFF_OPEN = 0 then
        ({ obj with localFlag := obj.localFlag ||| CBUFF_OPEN } :: rest, some obj.address)
      else (obj :: rest, none)
    else (obj :: (openNumber bufferNumber rest).1, (openNumber bufferNumber rest).2)

/-- `cbuffOpen`: the address of the object opened, or null.  The source reads the first
object without asking whether there is one; an empty list has nothing to open here. -/
def cbuffOpen (r : Registry) (bufferNumber : BitVec 32) : Registry × Option Nat :=
  ({ r with listed := (openNumber bufferNumber r.listed).1 },
    (openNumber bufferNumber r.listed).2)

theorem openNumber_first (obj : CbuffObj) (rest : List CbuffObj)
    (hclosed : obj.localFlag &&& CBUFF_OPEN = 0) :
    openNumber obj.bufferNumber (obj :: rest) =
      ({ obj with localFlag := obj.localFlag ||| CBUFF_OPEN } :: rest, some obj.address) := by
  rw [openNumber, if_pos rfl, if_pos hclosed]

/-! ## Histories of creates and destroys -/

inductive Call
  | create (buffer sizeOfBuffer : Nat) (obj : Option CbuffObj)
  | destroy (bufferNumber : BitVec 32)
deriving DecidableEq, Repr

inductive Answer
  | created (number : BitVec 32)
  | destroyed (code : Nat)
deriving DecidableEq, Repr

/-- One call; an object that is listed cannot be passed to `cbuffCreate` again. -/
def step (r : Registry) : Call → Option (Registry × List Answer)
  | .create buffer sizeOfBuffer obj =>
    if ∃ o ∈ r.listed, some o.address = obj.map (·.address) then none
    else
      let (r', number) := cbuffCreate r buffer sizeOfBuffer obj
      some (r', [.created number])
  | .destroy bufferNumber =>
    let (r', code) := cbuffDestroy r bufferNumber
    some (r', [.destroyed code])

def Call.validCreate : Call → Bool
  | .create buffer sizeOfBuffer obj => buffer ≠ 0 ∧ sizeOfBuffer ≠ 0 ∧ obj.isSome
  | .destroy _ => false

def Answer.failed : Answer → Bool
  | .created number => number = 0
  | .destroyed code => code = CBUFF_DESTROY_FAIL

abbrev Registered := Taken Registry Call Answer

def Registry.numbers (r : Registry) : List (BitVec 32) := r.listed.map (·.bufferNumber)

/-- The listed objects have distinct numbers of one bit, and `activeCbuffObjs` is their
union. -/
def Registry.Numbered (r : Registry) : Prop := Bits.Numbering 16 r.numbers r.activeCbuffObjs

/-- What a call should do: the registry is numbered after it, a valid create succeeds
while fewer than sixteen buffers are listed, and a call that fails changes nothing. -/
structure RegistryLaw (k : Registered) : Prop where
  numbered : k.after.Numbered
  succeeds : k.input.validCreate = true → k.before.listed.length < 16 →
    ∀ a ∈ k.output, a.failed = false
  unchanged : ∀ a ∈ k.output, a.failed = true → k.after = k.before

/-- A valid create while the first number is the only free one. -/
def OnlyFirstFree (k : Registered) : Prop :=
  k.input.validCreate = true ∧ k.before.activeCbuffObjs = 0xFFFE

/-! ## What one call does -/

theorem next_number : ∀ i < 16, (BitVec.twoPow 32 i <<< 1) &&& 0xFFFF =
    if i = 15 then 0 else BitVec.twoPow 32 (i + 1) := by decide

/-- The search finds the first free number from the one it starts with, if any. -/
theorem searchNumber_spec (active : BitVec 32) (turns : Nat) {i : Nat} (hi : i < 16)
    (hturns : 16 ≤ i + turns) :
    (∃ j, i ≤ j ∧ j < 16 ∧ active.getLsbD j = false ∧
      searchNumber active turns (BitVec.twoPow 32 i) = some (BitVec.twoPow 32 j)) ∨
    ((∀ j, i ≤ j → j < 16 → active.getLsbD j = true) ∧
      searchNumber active turns (BitVec.twoPow 32 i) = none) := by
  induction turns generalizing i with
  | zero => omega
  | succ turns ih =>
    rw [searchNumber, BitVec.and_twoPow, next_number i hi]
    cases hbit : active.getLsbD i with
    | false => exact .inl ⟨i, Nat.le_refl i, hi, hbit, by simp⟩
    | true =>
      have hpos : BitVec.twoPow 32 i ≠ 0 := by
        intro h
        have hb := congrArg (·.getLsbD i) h
        simp [show i < 32 by omega] at hb
      rw [if_pos rfl, if_neg hpos]
      by_cases hlast : i = 15
      · refine .inr ⟨fun j hij hj => ?_, by simp [hlast]⟩
        rwa [show j = i by omega]
      · have hnext : BitVec.twoPow 32 (i + 1) ≠ 0 := by
          intro h
          have hb := congrArg (·.getLsbD (i + 1)) h
          simp [show i + 1 < 32 by omega] at hb
        simp only [if_neg hlast, if_neg hnext]
        rcases ih (i := i + 1) (by omega) (by omega) with ⟨j, hij, hj, hfree, hsome⟩ | ⟨hall, hnone⟩
        · exact .inl ⟨j, by omega, hj, hfree, hsome⟩
        · refine .inr ⟨fun j hij hj => ?_, hnone⟩
          rcases Nat.lt_or_ge i j with hlt | hge
          · exact hall j hlt hj
          · rwa [show j = i by omega]

/-- Only the sixteen bits of the numbers are ever set. -/
def Registry.Sixteen (r : Registry) : Prop :=
  ∀ j, r.activeCbuffObjs.getLsbD j = true → j < 16

theorem Registry.Numbered.sixteen {r : Registry} (h : r.Numbered) : r.Sixteen :=
  fun _ => h.lt_of_bit

theorem Registry.Sixteen.active_of_taken {r : Registry} (h : r.Sixteen)
    (hall : ∀ j, 1 ≤ j → j < 16 → r.activeCbuffObjs.getLsbD j = true) :
    r.activeCbuffObjs = 0xFFFE ∨ r.activeCbuffObjs = 0xFFFF := by
  have heven : ∀ j < 32, (0xFFFE : BitVec 32).getLsbD j = decide (1 ≤ j ∧ j < 16) := by decide
  have hfull : ∀ j < 32, (0xFFFF : BitVec 32).getLsbD j = decide (j < 16) := by decide
  have hbits : ∀ j, 1 ≤ j → r.activeCbuffObjs.getLsbD j = decide (j < 16) := by
    intro j hj
    rw [Bool.eq_iff_iff, decide_eq_true_iff]
    exact ⟨h j, hall j hj⟩
  cases hzero : r.activeCbuffObjs.getLsbD 0 with
  | false =>
    refine .inl (BitVec.eq_of_getLsbD_eq fun j hj => ?_)
    rcases Nat.eq_zero_or_pos j with rfl | hpos
    · rw [hzero]; rfl
    · rw [hbits j hpos, heven j hj]
      simp [show 1 ≤ j from hpos]
  | true =>
    refine .inr (BitVec.eq_of_getLsbD_eq fun j hj => ?_)
    rcases Nat.eq_zero_or_pos j with rfl | hpos
    · rw [hzero]; rfl
    · rw [hbits j hpos, hfull j hj]

/-- What a valid create does to a registry: it links the object under a free
number, or all sixteen are taken and nothing happens, or the first number is the only
free one and the object is linked without a number of its own. -/
theorem cbuffCreate_cases {r : Registry} (h : r.Sixteen) {buffer sizeOfBuffer : Nat}
    (hbuffer : buffer ≠ 0) (hsize : sizeOfBuffer ≠ 0) (obj : CbuffObj) :
    (∃ j, j < 16 ∧ r.activeCbuffObjs.getLsbD j = false ∧ r.activeCbuffObjs ≠ 0xFFFE ∧
      cbuffCreate r buffer sizeOfBuffer (some obj) =
        (⟨{ obj.setup buffer sizeOfBuffer with bufferNumber := BitVec.twoPow 32 j } :: r.listed,
          r.activeCbuffObjs ||| BitVec.twoPow 32 j⟩, BitVec.twoPow 32 j)) ∨
    (r.activeCbuffObjs = 0xFFFF ∧ cbuffCreate r buffer sizeOfBuffer (some obj) = (r, 0)) ∨
    (r.activeCbuffObjs = 0xFFFE ∧ cbuffCreate r buffer sizeOfBuffer (some obj) =
      (⟨obj.setup buffer sizeOfBuffer :: r.listed, r.activeCbuffObjs⟩, 0)) := by
  rw [cbuffCreate, if_pos ⟨hbuffer, hsize⟩]
  by_cases hfirst : r.activeCbuffObjs = 0 ∧ r.listed = []
  · refine .inl ⟨0, by omega, ?_, ?_, ?_⟩
    · rw [hfirst.1]; rfl
    · rw [hfirst.1]; decide
    · simp only [if_pos hfirst]
      rw [hfirst.2]
      rfl
  · simp only [if_neg hfirst]
    by_cases hfull : r.activeCbuffObjs = 0xFFFF
    · exact .inr (.inl ⟨hfull, by simp [hfull]⟩)
    · rw [if_pos hfull, show 1#32 <<< 1 = BitVec.twoPow 32 1 from rfl]
      rcases searchNumber_spec r.activeCbuffObjs 16 (i := 1) (by omega) (by omega) with
        ⟨j, hone, hj, hfree, hsome⟩ | ⟨hall, hnone⟩
      · refine .inl ⟨j, hj, hfree, fun heven => ?_, by rw [hsome]⟩
        have hbit : ∀ i < 16, 1 ≤ i → (0xFFFE : BitVec 32).getLsbD i = true := by decide
        rw [heven, hbit j hj hone] at hfree
        exact absurd hfree (by decide)
      · refine .inr (.inr ⟨(h.active_of_taken hall).resolve_right hfull, by rw [hnone]⟩)

theorem cbuffCreate_listed {r r' : Registry} {buffer sizeOfBuffer : Nat} {obj : CbuffObj}
    {num : BitVec 32} (h : cbuffCreate r buffer sizeOfBuffer (some obj) = (r', num))
    (hnum : num ≠ 0) :
    sizeOfBuffer ≠ 0 ∧ ∃ rest,
      r'.listed = { obj.setup buffer sizeOfBuffer with bufferNumber := num } :: rest := by
  rw [cbuffCreate] at h
  by_cases hargs : buffer ≠ 0 ∧ sizeOfBuffer ≠ 0
  case neg =>
    rw [if_neg hargs] at h
    exact absurd (Prod.mk.inj h).2.symm hnum
  rw [if_pos hargs] at h
  refine ⟨hargs.2, ?_⟩
  by_cases hfirst : r.activeCbuffObjs = 0 ∧ r.listed = []
  · simp only [if_pos hfirst] at h
    obtain ⟨rfl, rfl⟩ := Prod.mk.inj h
    exact ⟨[], rfl⟩
  · simp only [if_neg hfirst] at h
    by_cases hfull : r.activeCbuffObjs ≠ 0xFFFF
    · rw [if_pos hfull] at h
      cases hsearch : searchNumber r.activeCbuffObjs 16 (1#32 <<< 1) with
      | none =>
        rw [hsearch] at h
        exact absurd (Prod.mk.inj h).2.symm hnum
      | some found =>
        rw [hsearch] at h
        obtain ⟨rfl, rfl⟩ := Prod.mk.inj h
        exact ⟨r.listed, rfl⟩
    · rw [if_neg hfull] at h
      exact absurd (Prod.mk.inj h).2.symm hnum

theorem unlink_spec (num : BitVec 32) (l : List CbuffObj) :
    (num ∈ l.map (·.bufferNumber) ∧ ∃ rest, unlink num l = some rest ∧
      rest.map (·.bufferNumber) = (l.map (·.bufferNumber)).erase num) ∨
    (num ∉ l.map (·.bufferNumber) ∧ unlink num l = none) := by
  induction l with
  | nil => exact .inr ⟨List.not_mem_nil, rfl⟩
  | cons obj l ih =>
    rw [unlink, List.map_cons]
    by_cases hnum : obj.bufferNumber = num
    · refine .inl ⟨by simp [hnum], l, if_pos hnum, ?_⟩
      rw [hnum, List.erase_cons_head]
    · rw [if_neg hnum]
      rcases ih with ⟨hmem, rest, hrest, hmap⟩ | ⟨hmem, hnone⟩
      · refine .inl ⟨List.mem_cons_of_mem _ hmem, obj :: rest, by rw [hrest]; rfl, ?_⟩
        rw [List.map_cons, hmap, List.erase_cons_tail (by simpa using hnum)]
      · refine .inr ⟨?_, by rw [hnone]; rfl⟩
        simpa [Ne.symm hnum] using hmem

theorem Registry.Numbered.link {r : Registry} (h : r.Numbered) (obj : CbuffObj) {j : Nat}
    (hj : j < 16) (hfree : r.activeCbuffObjs.getLsbD j = false) :
    Registry.Numbered ⟨{ obj with bufferNumber := BitVec.twoPow 32 j } :: r.listed,
      r.activeCbuffObjs ||| BitVec.twoPow 32 j⟩ :=
  Bits.Numbering.cons h hj (by omega) hfree

theorem cbuffCreate_invalid {buffer sizeOfBuffer : Nat} {obj : Option CbuffObj}
    (h : (Call.create buffer sizeOfBuffer obj).validCreate ≠ true) (r : Registry) :
    cbuffCreate r buffer sizeOfBuffer obj = (r, 0) := by
  by_cases hb : buffer ≠ 0 ∧ sizeOfBuffer ≠ 0
  · cases obj with
    | none => rw [cbuffCreate, if_pos hb]
    | some o => exact absurd (by simpa [Call.validCreate] using hb) h
  · cases obj <;> rw [cbuffCreate, if_neg hb]

theorem Registry.Numbered.length_of_full {r : Registry} (h : r.Numbered)
    (hfull : r.activeCbuffObjs = 0xFFFF) : 16 ≤ r.listed.length := by
  have hbits : ∀ j < 16, (0xFFFF : BitVec 32).getLsbD j = true := by decide
  have hle := Bits.Numbering.length_of_all h (by omega) fun j hj => by
    rw [hfull]; exact hbits j hj
  rwa [Registry.numbers, List.length_map] at hle

theorem create_law {r r' : Registry} (h : r.Numbered) {buffer sizeOfBuffer : Nat}
    {obj : Option CbuffObj} {number : BitVec 32}
    (hcall : cbuffCreate r buffer sizeOfBuffer obj = (r', number)) :
    RegistryLaw ⟨r, .create buffer sizeOfBuffer obj, [.created number], r'⟩ ↔
      ¬OnlyFirstFree ⟨r, .create buffer sizeOfBuffer obj, [.created number], r'⟩ := by
  by_cases hvalid : (Call.create buffer sizeOfBuffer obj).validCreate = true
  case neg =>
    obtain ⟨rfl, rfl⟩ := Prod.mk.inj (hcall.symm.trans (cbuffCreate_invalid hvalid r))
    refine iff_of_true ⟨h, fun hv => absurd hv hvalid, fun _ _ _ => rfl⟩ fun hone => ?_
    exact hvalid hone.1
  case pos =>
    have hargs : buffer ≠ 0 ∧ sizeOfBuffer ≠ 0 ∧ obj.isSome = true := by
      simpa [Call.validCreate] using hvalid
    obtain ⟨o, rfl⟩ := Option.isSome_iff_exists.mp hargs.2.2
    rcases cbuffCreate_cases h.sixteen hargs.1 hargs.2.1 o with
      ⟨j, hj, hfree, heven, hnew⟩ | ⟨hfull, hnew⟩ | ⟨hone, hnew⟩
    · obtain ⟨rfl, rfl⟩ := Prod.mk.inj (hcall.symm.trans hnew)
      have hpos : ∀ i < 16, BitVec.twoPow 32 i ≠ 0 := by decide
      have hok : ∀ a ∈ [Answer.created (BitVec.twoPow 32 j)], a.failed = false := by
        intro a ha
        rw [List.mem_singleton.mp ha]
        exact decide_eq_false (hpos j hj)
      refine iff_of_true ⟨h.link _ hj hfree, fun _ _ => hok, fun a ha hf => ?_⟩ fun hone => ?_
      · rw [hok a ha] at hf
        exact absurd hf Bool.false_ne_true
      · exact heven hone.2
    · obtain ⟨rfl, rfl⟩ := Prod.mk.inj (hcall.symm.trans hnew)
      refine iff_of_true ⟨h, fun _ hlt => ?_, fun _ _ _ => rfl⟩ fun hone => ?_
      · exact absurd hlt (Nat.not_lt.mpr (h.length_of_full hfull))
      · have := hfull.symm.trans hone.2
        exact absurd this (by decide)
    · obtain ⟨rfl, rfl⟩ := Prod.mk.inj (hcall.symm.trans hnew)
      refine iff_of_false (fun hlaw => ?_) (fun hno => hno ⟨hvalid, hone⟩)
      have hsame := hlaw.unchanged (.created 0) (List.mem_singleton_self _) rfl
      exact absurd (congrArg (·.listed.length) hsame) (Nat.succ_ne_self _)

theorem destroy_law {r r' : Registry} (h : r.Numbered) {num : BitVec 32} {code : Nat}
    (hcall : cbuffDestroy r num = (r', code)) :
    RegistryLaw ⟨r, .destroy num, [.destroyed code], r'⟩ := by
  rcases unlink_spec num r.listed with ⟨hmem, rest, hrest, hmap⟩ | ⟨_, hnone⟩
  · rw [cbuffDestroy, hrest] at hcall
    obtain ⟨rfl, rfl⟩ := Prod.mk.inj hcall
    refine ⟨?_, fun hv => absurd hv Bool.false_ne_true, fun a ha hf => ?_⟩
    · have herase := Bits.Numbering.erase h hmem
      rw [Registry.numbers, ← hmap] at herase
      exact herase
    · rw [List.mem_singleton.mp ha] at hf
      exact absurd hf (by decide)
  · rw [cbuffDestroy, hnone] at hcall
    obtain ⟨rfl, rfl⟩ := Prod.mk.inj hcall
    exact ⟨h, fun hv => absurd hv Bool.false_ne_true, fun _ _ _ => rfl⟩

theorem step_law {r r' : Registry} {call : Call} {out : List Answer} (h : r.Numbered)
    (hstep : step r call = some (r', out)) :
    RegistryLaw ⟨r, call, out, r'⟩ ↔ ¬OnlyFirstFree ⟨r, call, out, r'⟩ := by
  cases call with
  | create buffer sizeOfBuffer obj =>
    rw [step] at hstep
    by_cases hlisted : ∃ o ∈ r.listed, some o.address = obj.map (·.address)
    · rw [if_pos hlisted] at hstep
      exact absurd hstep (by simp)
    · rw [if_neg hlisted] at hstep
      obtain ⟨rfl, rfl⟩ := Prod.mk.inj (Option.some.inj hstep)
      exact create_law h rfl
  | destroy num =>
    obtain ⟨rfl, rfl⟩ := Prod.mk.inj (Option.some.inj hstep)
    exact iff_of_true (destroy_law h rfl) fun hone => absurd hone.1 Bool.false_ne_true

/-- Every call of a history after `cbuffInit` obeys the law exactly when none of them
creates a buffer while the first number is the only free one. -/
theorem registry_law_iff {tr : List Registered} {r : Registry} (hrun : Run step cbuffInit tr r) :
    (∀ k ∈ tr, RegistryLaw k) ↔ ∀ k ∈ tr, ¬OnlyFirstFree k := by
  have hinit : cbuffInit.Numbered := Bits.Numbering.nil
  refine hrun.law_iff Registry.Numbered hinit ?_ step_law
  intro s i t out hinv hstep hallowed
  exact ((step_law hinv hstep).mpr hallowed).numbered

def sampleObj (address : Nat) : CbuffObj := ⟨address, 0, 0, 0, 0, 0, 0⟩

/-- Sixteen buffers are created, the first is destroyed, and one more is created. -/
def refilling : List Call :=
  (List.range 16).map (fun i => Call.create (0x1000 + 16 * i) 16 (some (sampleObj (i + 1)))) ++
    [.destroy 1, .create 0x2000 16 (some (sampleObj 17))]

/-- A valid create that fails although fewer than sixteen buffers are listed. -/
def refused (k : Registered) : Bool :=
  k.input.validCreate && decide (k.before.listed.length < 16) && k.output.any (·.failed)

theorem not_law_of_refused {k : Registered} (h : refused k = true) : ¬RegistryLaw k := by
  intro hlaw
  simp only [refused, Bool.and_eq_true, decide_eq_true_eq, List.any_eq_true] at h
  obtain ⟨⟨hvalid, hlen⟩, a, ha, hfailed⟩ := h
  rw [hlaw.succeeds hvalid hlen a ha] at hfailed
  exact absurd hfailed Bool.false_ne_true

theorem refilling_isSome : (exec step cbuffInit refilling).isSome := by decide +kernel

/-- The last create returns 0 with fifteen buffers listed. -/
theorem refilling_breaks_law :
    ∃ tr r, Run step cbuffInit tr r ∧ ¬∀ k ∈ tr, RegistryLaw k := by
  have hrefused : ((exec step cbuffInit refilling).get refilling_isSome).1.any refused = true := by
    decide +kernel
  obtain ⟨k, hk, href⟩ := List.any_eq_true.mp hrefused
  exact ⟨_, _, exec_get refilling_isSome, fun hlaw => not_law_of_refused href (hlaw k hk)⟩

/-- Two buffers are created, and the first is destroyed and created anew. -/
def recreating : List Call :=
  [.create 0x1000 16 (some (sampleObj 1)), .create 0x2000 16 (some (sampleObj 2)), .destroy 1,
    .create 0x1000 16 (some (sampleObj 1))]

theorem recreating_isSome : (exec step cbuffInit recreating).isSome := by decide +kernel

theorem registry_law_recreating :
    ∃ tr r, Run step cbuffInit tr r ∧ tr.length = 4 ∧ ∀ k ∈ tr, RegistryLaw k := by
  have hrun := exec_get recreating_isSome
  have hallowed : ∀ k ∈ ((exec step cbuffInit recreating).get recreating_isSome).1,
      ¬k.before.activeCbuffObjs = 0xFFFE := by decide +kernel
  refine ⟨_, _, hrun, by decide +kernel, ?_⟩
  exact (registry_law_iff hrun).mpr fun k hk hone => hallowed k hk hone.2

end Cbuff
end EspMisc
