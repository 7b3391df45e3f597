/-
The world of the circular buffers.

A world holds every buffer object there is, listed or not, with the list of those that the
module knows and the memory that the buffers are arrays of.  Calls that take a handle work
on the object at that address, and calls that take a number look for it in the list.

For each function there is what it does to the world and to the bit that says whether a
buffer is open, which stands in the same byte as the flags of `Buffer.lean`.
-/
import EspMisc.Cbuff.Arrays

namespace EspMisc
namespace Cbuff

open Machine Transfer

structure World where
  /-- The object at each address. -/
  objs : Nat → CbuffObj
  /-- The addresses of the listed objects, from `startOfCbuffObjs` on. -/
  listed : List Nat
  activeCbuffObjs : BitVec 32
  memory : Nat → UInt8

namespace World

def registry (w : World) : Registry := ⟨w.listed.map w.objs, w.activeCbuffObjs⟩

/-- The list and its objects as a call has left them. -/
def put (w : World) (r : Registry) : World :=
  { w with
    objs := fun a => (r.listed.find? (·.address = a)).getD (w.objs a)
    listed := r.listed.map (·.address)
    activeCbuffObjs := r.activeCbuffObjs }

def isOpen (w : World) (a : Nat) : Bool := (w.objs a).has CBUFF_OPEN

def number (w : World) (a : Nat) : BitVec 32 := (w.objs a).bufferNumber

/-- The listed object that a number leads to. -/
def named (w : World) (num : BitVec 32) : Option Nat :=
  w.listed.find? fun a => w.number a = num

/-- Objects of any content, and memory of any content, after `cbuffInit`. -/
def boot (objs : Nat → CbuffObj) (memory : Nat → UInt8) : World :=
  ⟨fun a => { objs a with address := a }, [], 0, memory⟩

end World

def cbuffClose (o : CbuffObj) : CbuffObj × BitVec 32 :=
  if o.has CBUFF_OPEN then (o.unset CBUFF_OPEN, o.bufferNumber) else (o, 0)

/-! ## Calls -/

inductive LifeCall
  | init
  | create (buffer sizeOfBuffer : Nat) (obj : Option Nat)
  | destroy (bufferNumber : BitVec 32)
  | openBuffer (bufferNumber : BitVec 32)
  | close (handle : Nat)
  | data (handle : Nat) (call : DataCall)

inductive LifeAnswer
  | done
  | created (number : BitVec 32)
  | destroyed (code : Nat)
  | opened (handle : Option Nat)
  /-- The object at the null pointer was read. -/
  | fault
  | closed (number : BitVec 32)
deriving DecidableEq, Repr

/-- One call.  `cbuffCreate` of an object that is listed is not a step: it would link the
object to itself, and a later search for another number would not end.  Nor is a data
operation that does not end; on a buffer that was created it always ends, by
`dataCall_represents`. -/
def lifeStep (w : World) : LifeCall → Option (World × List LifeAnswer)
  | .init => some (w.put cbuffInit, [.done])
  | .create buffer sizeOfBuffer obj =>
    if ∃ a ∈ w.listed, some a = obj then none
    else
      let (r, number) := cbuffCreate w.registry buffer sizeOfBuffer (obj.map w.objs)
      some (w.put r, [.created number])
  | .destroy num =>
    let (r, code) := cbuffDestroy w.registry num
    some (w.put r, [.destroyed code])
  | .openBuffer num =>
    -- the loop reads the first object before it asks whether there is one
    if w.listed = [] then some (w, [.fault])
    else
      let (r, handle) := cbuffOpen w.registry num
      some (w.put r, [.opened handle])
  | .close handle =>
    let (o, number) := cbuffClose (w.objs handle)
    some ({ w with objs := Function.update w.objs handle o }, [.closed number])
  | .data handle call =>
    (dataCall ⟨w.objs handle, w.memory⟩ call).map fun s =>
      ({ w with objs := Function.update w.objs handle s.obj, memory := s.memory }, [.done])

abbrev LifeStep := Taken World LifeCall LifeAnswer

/-! ## Worlds and their lists -/

structure World.Ok (w : World) : Prop where
  addressed : ∀ a, (w.objs a).address = a
  nodup : w.listed.Nodup
  sixteen : w.registry.Sixteen

theorem World.boot_ok (objs : Nat → CbuffObj) (memory : Nat → UInt8) :
    (World.boot objs memory).Ok where
  addressed := fun _ => rfl
  nodup := List.nodup_nil
  sixteen := fun j hj => absurd (show (0#32).getLsbD j = true from hj) (by simp)

section Put

variable {w : World} {f : Nat → CbuffObj} {l : List Nat} {active : BitVec 32}

theorem find_address (hf : ∀ a, (f a).address = a) (l : List Nat) (a : Nat) :
    (l.map f).find? (·.address = a) = if a ∈ l then some (f a) else none := by
  induction l with
  | nil => rfl
  | cons b l ih =>
    rw [List.map_cons, List.find?_cons, hf b]
    by_cases hab : b = a
    · simp [hab]
    · simp only [hab, decide_false, ih, List.mem_cons, Ne.symm hab, false_or]

/-- A call that leaves the objects of `f` on the list. -/
theorem put_eq (hf : ∀ a, (f a).address = a) (hout : ∀ a, a ∉ l → f a = w.objs a) :
    w.put ⟨l.map f, active⟩ = { w with objs := f, listed := l, activeCbuffObjs := active } := by
  have hobjs : (fun a => ((l.map f).find? (·.address = a)).getD (w.objs a)) = f := by
    funext a
    rw [find_address hf]
    by_cases ha : a ∈ l
    · rw [if_pos ha]
      rfl
    · rw [if_neg ha]
      exact (hout a ha).symm
  have hlisted : (l.map f).map (·.address) = l := by
    rw [List.map_map]
    exact (List.map_congr_left fun a _ => hf a).trans (List.map_id l)
  unfold World.put
  dsimp only
  rw [hobjs, hlisted]

theorem put_listed (hw : w.Ok) :
    w.put ⟨l.map w.objs, active⟩ = { w with listed := l, activeCbuffObjs := active } :=
  put_eq hw.addressed fun _ _ => rfl

theorem addressed_update (hw : w.Ok) {a : Nat} {o : CbuffObj} (ho : o.address = a) (b : Nat) :
    (Function.update w.objs a o b).address = b := by
  by_cases hb : b = a
  · rw [hb, Function.update_self, ho]
  · rw [Function.update_of_ne hb, hw.addressed]

/-- A call that changes one object of its list. -/
theorem put_update (hw : w.Ok) {a : Nat} (ha : a ∈ l) {o : CbuffObj} (ho : o.address = a) :
    w.put ⟨l.map (Function.update w.objs a o), active⟩ =
      { w with objs := Function.update w.objs a o, listed := l, activeCbuffObjs := active } :=
  put_eq (addressed_update hw ho) fun b hb =>
    Function.update_of_ne (fun hba : b = a => hb (hba ▸ ha)) o w.objs

theorem map_update_of_notMem {a : Nat} (ha : a ∉ l) (o : CbuffObj) :
    l.map (Function.update f a o) = l.map f :=
  List.map_congr_left fun b hb => Function.update_of_ne (fun hba : b = a => ha (hba ▸ hb)) o f

end Put

/-! ## The functions on a list -/

section Lists

variable {f : Nat → CbuffObj} {num : BitVec 32}

/-- `cbuffDestroy` finds the object that the number leads to. -/
theorem unlink_map (f : Nat → CbuffObj) (num : BitVec 32) (l : List Nat) :
    unlink num (l.map f) =
      (l.find? fun a => (f a).bufferNumber = num).map fun a => (l.erase a).map f := by
  induction l with
  | nil => rfl
  | cons b l ih =>
    rw [List.map_cons, unlink, List.find?_cons]
    by_cases hb : (f b).bufferNumber = num
    · simp [hb]
    · simp only [hb, if_false, decide_false, ih, Option.map_map]
      refine Option.map_congr fun a ha => ?_
      have hne : b ≠ a := by
        rintro rfl
        exact hb (by simpa using List.find?_some ha)
      rw [Function.comp_apply, List.erase_cons_tail (by simpa using hne), List.map_cons]

/-- The object with its bit set. -/
def CbuffObj.opened (o : CbuffObj) : CbuffObj := { o with localFlag := o.localFlag ||| CBUFF_OPEN }

/-- `cbuffOpen` finds the same object, and opens it unless it is open. -/
theorem openNumber_map (f : Nat → CbuffObj) (hf : ∀ a, (f a).address = a) (num : BitVec 32)
    {l : List Nat} (hnodup : l.Nodup) :
    openNumber num (l.map f) =
      match l.find? fun a => (f a).bufferNumber = num with
      | none => (l.map f, none)
      | some a =>
        if (f a).has CBUFF_OPEN then (l.map f, none)
        else (l.map (Function.update f a (f a).opened), some a) := by
  induction l with
  | nil => rfl
  | cons b l ih =>
    obtain ⟨hb, hnodup⟩ := List.nodup_cons.mp hnodup
    rw [List.map_cons, openNumber, List.find?_cons]
    by_cases hnum : (f b).bufferNumber = num
    · rw [if_pos hnum, decide_eq_true hnum]
      dsimp only
      by_cases hopen : (f b).localFlag &&& CBUFF_OPEN = 0
      · have hhas : ¬(f b).has CBUFF_OPEN = true := by simp [has_eq_false.mpr hopen]
        rw [if_pos hopen, if_neg hhas, List.map_cons, Function.update_self,
          map_update_of_notMem hb]
        exact Prod.ext rfl (congrArg some (hf b))
      · have hhas : (f b).has CBUFF_OPEN = true := decide_eq_true hopen
        rw [if_neg hopen, if_pos hhas]
    · simp only [hnum, if_false, decide_false, ih hnodup]
      cases hfind : l.find? fun a => (f a).bufferNumber = num with
      | none => rfl
      | some a =>
        have hne : b ≠ a := fun hba => hb (hba ▸ List.mem_of_find?_eq_some hfind)
        by_cases hopen : (f a).has CBUFF_OPEN = true
        · simp only [if_pos hopen]
        · simp only [if_neg hopen, List.map_cons, Function.update_of_ne hne]

end Lists

/-! ## What keeps a buffer open -/

/-- The object is the same one, and open if it was open. -/
structure Keeps (o o' : CbuffObj) : Prop where
  address : o'.address = o.address
  isOpen : o'.has CBUFF_OPEN = o.has CBUFF_OPEN

theorem Keeps.refl (o : CbuffObj) : Keeps o o := ⟨rfl, rfl⟩

theorem Keeps.trans {o o' o'' : CbuffObj} (h : Keeps o o') (h' : Keeps o' o'') : Keeps o o'' :=
  ⟨h'.address.trans h.address, h'.isOpen.trans h.isOpen⟩

section Keeps

variable {meet clear : BitVec 8}

/-- An object whose pointers have moved, with a flag set where they meet. -/
theorem meet_keeps (o : CbuffObj) (x y : Nat) (h : meet &&& CBUFF_OPEN = 0) :
    Keeps o (CbuffObj.meet { o with inPointer := x, outPointer := y } meet) := by
  refine ⟨rfl, ?_⟩
  unfold CbuffObj.has CbuffObj.meet
  by_cases hmeet : x = y
  · rw [if_pos hmeet, BitVec.and_or_distrib_right, h]
    exact congrArg (fun f : BitVec 8 => decide (f ≠ 0)) BitVec.or_zero
  · rw [if_neg hmeet]

theorem unset_keeps (o : CbuffObj) (h : ~~~clear &&& CBUFF_OPEN = CBUFF_OPEN) :
    Keeps o (o.unset clear) := by
  refine ⟨rfl, ?_⟩
  unfold CbuffObj.has CbuffObj.unset
  rw [BitVec.and_assoc, h]

theorem mark_keeps (o : CbuffObj) (x y : Nat) (hmeet : meet &&& CBUFF_OPEN = 0)
    (hclear : ~~~clear &&& CBUFF_OPEN = CBUFF_OPEN) :
    Keeps o (CbuffObj.mark { o with inPointer := x, outPointer := y } meet clear) :=
  (meet_keeps o x y hmeet).trans (unset_keeps _ hclear)

end Keeps

/-- A byte operation keeps a buffer open, unless it clears it. -/
theorem call_keeps (s : Buffer) {op : Op} (hop : op ≠ .clearBuffer) :
    Keeps s.obj (call s op).1.obj := by
  have hfilled (x y : Nat) : Keeps s.obj
      (CbuffObj.mark { s.obj with inPointer := x, outPointer := y } CBUFF_FULL CBUFF_EMPTY) :=
    mark_keeps s.obj x y (by decide) (by decide)
  have hdrained (x y : Nat) : Keeps s.obj
      (CbuffObj.mark { s.obj with inPointer := x, outPointer := y } CBUFF_EMPTY CBUFF_FULL) :=
    mark_keeps s.obj x y (by decide) (by decide)
  cases op with
  | putByte data =>
    show Keeps s.obj (cbuffPutByte s data).1.obj
    unfold cbuffPutByte
    split
    · exact .refl _
    · exact hfilled _ _
  | getByte =>
    show Keeps s.obj (cbuffGetByte s).1.obj
    unfold cbuffGetByte
    split
    · exact .refl _
    · exact hdrained _ _
  | unputByte =>
    show Keeps s.obj (cbuffUnputByte s).1.obj
    unfold cbuffUnputByte
    split
    · exact .refl _
    · exact hdrained _ _
  | ungetByte =>
    show Keeps s.obj (cbuffUngetByte s).1.obj
    unfold cbuffUngetByte
    split
    · exact .refl _
    · exact hfilled _ _
  | peekTail => exact .refl _
  | peekHead => exact .refl _
  | getSpace => exact .refl _
  | getFill => exact .refl _
  | clearBuffer => exact absurd rfl hop

theorem putTurn_keeps (data : Nat → UInt8) (i : Nat) (s : Buffer) :
    Keeps s.obj (putTurn data i s).1.obj :=
  meet_keeps s.obj (s.obj.next s.obj.inPointer) s.obj.outPointer (by decide)

theorem getTurn_keeps (i : Nat) (s : Buffer) : Keeps s.obj (getTurn i s).1.obj :=
  meet_keeps s.obj s.obj.inPointer (s.obj.next s.obj.outPointer) (by decide)

/-- A data operation keeps a buffer open, unless it clears it. -/
theorem dataCall_keeps {s s' : Buffer} {c : DataCall} (hc : c ≠ .byte .clearBuffer)
    (h : dataCall s c = some s') : Keeps s.obj s'.obj := by
  cases c with
  | byte op =>
    obtain rfl := Option.some.inj h
    exact call_keeps s fun hop => hc (congrArg DataCall.byte hop)
  | putArray data n =>
    obtain ⟨r, hr, rfl⟩ := Option.map_eq_some_iff.mp h
    unfold cbuffPutArray at hr
    split at hr
    · obtain rfl := Option.some.inj hr
      exact .refl _
    · obtain ⟨r', hr', rfl⟩ := Option.map_eq_some_iff.mp hr
      have hloop := transfer_keeps (p := fun s' : Buffer => Keeps s.obj s'.obj)
        (fun i s' hs' => hs'.trans (putTurn_keeps data i s')) (.refl _) hr'
      exact hloop.trans (unset_keeps _ (by decide))
  | getArray n =>
    obtain ⟨r, hr, rfl⟩ := Option.map_eq_some_iff.mp h
    unfold cbuffGetArray at hr
    split at hr
    · obtain rfl := Option.some.inj hr
      exact .refl _
    · obtain ⟨r', hr', rfl⟩ := Option.map_eq_some_iff.mp hr
      have hloop := transfer_keeps (p := fun s' : Buffer => Keeps s.obj s'.obj)
        (fun i s' hs' => hs'.trans (getTurn_keeps i s')) (.refl _) hr'
      exact hloop.trans (unset_keeps _ (by decide))

/-- The buffer that a data operation works on stays where it is. -/
theorem dataCall_address {s s' : Buffer} {c : DataCall} (h : dataCall s c = some s') :
    s'.obj.address = s.obj.address := by
  by_cases hc : c = .byte .clearBuffer
  · subst hc
    obtain rfl := Option.some.inj h
    rfl
  · exact (dataCall_keeps hc h).address

theorem clear_closed (s : Buffer) :
    (cbuffClearBuffer s).obj.has CBUFF_OPEN = false := by
  have hflag : (0 ||| CBUFF_EMPTY) &&& CBUFF_OPEN = 0 := by decide
  exact has_eq_false.mpr hflag

theorem close_has (o : CbuffObj) :
    (cbuffClose o).1.address = o.address ∧ (cbuffClose o).1.has CBUFF_OPEN = false := by
  unfold cbuffClose
  by_cases hopen : o.has CBUFF_OPEN = true
  · rw [if_pos hopen]
    refine ⟨rfl, has_eq_false.mpr ?_⟩
    show o.localFlag &&& ~~~CBUFF_OPEN &&& CBUFF_OPEN = 0
    rw [BitVec.and_assoc, show ~~~CBUFF_OPEN &&& CBUFF_OPEN = 0#8 by decide, BitVec.and_zero]
    rfl
  · rw [if_neg hopen]
    exact ⟨rfl, Bool.eq_false_iff.mpr hopen⟩

theorem opened_has (o : CbuffObj) : o.opened.has CBUFF_OPEN = true := by
  have hset : ∀ f : BitVec 8, (f ||| CBUFF_OPEN) &&& CBUFF_OPEN ≠ 0 := by decide
  exact decide_eq_true (hset o.localFlag)

theorem setup_closed (o : CbuffObj) (buffer sizeOfBuffer : Nat) :
    (o.setup buffer sizeOfBuffer).has CBUFF_OPEN = false := by
  have hflag : (0 ||| CBUFF_EMPTY) &&& CBUFF_OPEN = 0 := by decide
  exact has_eq_false.mpr hflag

/-! ## The functions on a world -/

section Functions

variable {w : World}

theorem put_registry (hw : w.Ok) : w.put w.registry = w := put_listed hw

/-- A create that links an object links it first. -/
theorem put_link (hw : w.Ok) {a : Nat} (ha : a ∉ w.listed) {o : CbuffObj} (ho : o.address = a)
    (active : BitVec 32) :
    w.put ⟨o :: w.listed.map w.objs, active⟩ =
      { w with
        objs := Function.update w.objs a o
        listed := a :: w.listed
        activeCbuffObjs := active } := by
  have hlist : o :: w.listed.map w.objs = (a :: w.listed).map (Function.update w.objs a o) := by
    rw [List.map_cons, Function.update_self, map_update_of_notMem ha]
  rw [hlist]
  exact put_update hw List.mem_cons_self ho

/-- One object has changed, and it may be on the list now. -/
theorem ok_update (hw : w.Ok) {a : Nat} {o : CbuffObj} (ho : o.address = a) {l : List Nat}
    (hl : l.Nodup) {active : BitVec 32} (hactive : ∀ j, active.getLsbD j = true → j < 16)
    (memory : Nat → UInt8) : World.Ok ⟨Function.update w.objs a o, l, active, memory⟩ :=
  ⟨addressed_update hw ho, hl, hactive⟩

theorem isOpen_update (f : Nat → CbuffObj) (a : Nat) (o : CbuffObj) (l : List Nat)
    (active : BitVec 32) (memory : Nat → UInt8) (b : Nat) :
    World.isOpen ⟨Function.update f a o, l, active, memory⟩ b =
      if b = a then o.has CBUFF_OPEN else (f b).has CBUFF_OPEN := by
  show (Function.update f a o b).has CBUFF_OPEN = _
  by_cases hb : b = a
  · rw [if_pos hb, hb, Function.update_self]
  · rw [if_neg hb, Function.update_of_ne hb]

theorem mem_of_named {num : BitVec 32} {a : Nat} (h : w.named num = some a) :
    a ∈ w.listed ∧ w.number a = num :=
  ⟨List.mem_of_find?_eq_some h, by simpa using List.find?_some h⟩

theorem not_mem_of_named {num : BitVec 32} (h : w.named num = none) {a : Nat} (ha : a ∈ w.listed) :
    w.number a ≠ num := by
  simpa using List.find?_eq_none.mp h a ha

theorem destroy_world (hw : w.Ok) (num : BitVec 32) :
    lifeStep w (.destroy num) = some
      (match w.named num with
        | none => (w, [.destroyed CBUFF_DESTROY_FAIL])
        | some a =>
          ({ w with
              listed := w.listed.erase a
              activeCbuffObjs := w.activeCbuffObjs &&& ~~~num },
            [.destroyed CBUFF_DESTROY_OK])) := by
  have hunlink : unlink num w.registry.listed =
      (w.named num).map fun a => (w.listed.erase a).map w.objs := unlink_map w.objs num w.listed
  simp only [lifeStep, cbuffDestroy, hunlink]
  cases w.named num with
  | none => simp only [Option.map_none, put_registry hw]
  | some a => simp only [Option.map_some, put_listed hw]; rfl

theorem open_world (hw : w.Ok) (hne : w.listed ≠ []) (num : BitVec 32) :
    lifeStep w (.openBuffer num) = some
      (match w.named num with
        | none => (w, [.opened none])
        | some a =>
          if w.isOpen a then (w, [.opened none])
          else
            ({ w with objs := Function.update w.objs a (w.objs a).opened },
              [.opened (some a)])) := by
  have hopen : openNumber num w.registry.listed = _ :=
    openNumber_map w.objs hw.addressed num hw.nodup
  change openNumber num w.registry.listed =
    match w.named num with
    | none => (w.listed.map w.objs, none)
    | some a =>
      if w.isOpen a then (w.listed.map w.objs, none)
      else (w.listed.map (Function.update w.objs a (w.objs a).opened), some a) at hopen
  simp only [lifeStep, if_neg hne, cbuffOpen, hopen]
  cases hnamed : w.named num with
  | none =>
    dsimp only
    rw [put_listed hw]
    rfl
  | some a =>
    dsimp only
    by_cases hflag : w.isOpen a = true
    · simp only [if_pos hflag]
      rw [put_listed hw]
      rfl
    · have haddress : (w.objs a).opened.address = a := hw.addressed a
      simp only [if_neg hflag]
      rw [put_update hw (mem_of_named hnamed).1 haddress]
      rfl

/-- The three ways of a valid create: the object is listed under a number, or nothing
happens, or the object is listed without a number of its own. -/
theorem create_world (hw : w.Ok) {buffer sizeOfBuffer a : Nat} (hbuffer : buffer ≠ 0)
    (hsize : sizeOfBuffer ≠ 0) (ha : a ∉ w.listed) :
    (∃ num : BitVec 32, num ≠ 0 ∧
      (∀ j, (w.activeCbuffObjs ||| num).getLsbD j = true → j < 16) ∧
      w.activeCbuffObjs ≠ 0xFFFE ∧
      lifeStep w (.create buffer sizeOfBuffer (some a)) = some
        (⟨Function.update w.objs a
            { (w.objs a).setup buffer sizeOfBuffer with bufferNumber := num },
          a :: w.listed, w.activeCbuffObjs ||| num, w.memory⟩, [.created num])) ∨
    (w.activeCbuffObjs = 0xFFFF ∧
      lifeStep w (.create buffer sizeOfBuffer (some a)) = some (w, [.created 0])) ∨
    (w.activeCbuffObjs = 0xFFFE ∧
      lifeStep w (.create buffer sizeOfBuffer (some a)) = some
        (⟨Function.update w.objs a ((w.objs a).setup buffer sizeOfBuffer), a :: w.listed,
          w.activeCbuffObjs, w.memory⟩, [.created 0])) := by
  have hlisted : ¬∃ b ∈ w.listed, some b = some a := by
    rintro ⟨b, hb, hba⟩
    exact ha (Option.some.inj hba ▸ hb)
  have hcall : lifeStep w (.create buffer sizeOfBuffer (some a)) =
      some (w.put (cbuffCreate w.registry buffer sizeOfBuffer (some (w.objs a))).1,
        [.created (cbuffCreate w.registry buffer sizeOfBuffer (some (w.objs a))).2]) := by
    rw [lifeStep, if_neg hlisted]
    rfl
  have hpow : ∀ i < 16, BitVec.twoPow 32 i ≠ 0 := by decide
  rw [hcall]
  rcases cbuffCreate_cases hw.sixteen hbuffer hsize (w.objs a) with
    ⟨j, hj, _, heven, hnew⟩ | ⟨hfull, hnew⟩ | ⟨hone, hnew⟩
  · refine .inl ⟨BitVec.twoPow 32 j, hpow j hj, fun i hi => ?_, heven, ?_⟩
    · rw [BitVec.getLsbD_or, Bool.or_eq_true] at hi
      rcases hi with hi | hi
      · exact hw.sixteen i hi
      · rw [BitVec.getLsbD_twoPow] at hi
        obtain ⟨_, hji⟩ := Bool.and_eq_true_iff.mp hi
        exact of_decide_eq_true hji ▸ hj
    · have haddress : ({ (w.objs a).setup buffer sizeOfBuffer with
          bufferNumber := BitVec.twoPow 32 j } : CbuffObj).address = a := hw.addressed a
      rw [hnew]
      exact congrArg (fun w' => some (w', [LifeAnswer.created (BitVec.twoPow 32 j)]))
        (put_link hw ha haddress _)
  · refine .inr (.inl ⟨hfull, ?_⟩)
    rw [hnew, put_registry hw]
  · have haddress : ((w.objs a).setup buffer sizeOfBuffer).address = a := hw.addressed a
    refine .inr (.inr ⟨hone, ?_⟩)
    rw [hnew]
    exact congrArg (fun w' => some (w', [LifeAnswer.created 0])) (put_link hw ha haddress _)

end Functions

end Cbuff
end EspMisc
