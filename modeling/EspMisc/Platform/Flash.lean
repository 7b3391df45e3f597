/-
Reading and writing flash at any address, in `platform/common.c` and `platform/platform.c`.

The SDK reads and writes whole words, between aligned addresses.  `platform_flash_read`
and `platform_flash_write` work in three parts: the rest of a word, whole words, and the
start of a word, with a word of their own for the first and the last of them.  The
functions under them shift or copy what is not aligned in memory.

`flashRead_exact` and `flashWrite_exact` say that together the parts read, or program,
the bytes that were asked for and no others, and that the SDK is given nothing else than
whole, aligned words.
-/
import Mathlib.Algebra.Ring.Nat
import EspMisc.Lib.Memory

namespace EspMisc
namespace Platform

/-! ## The SDK -/

/-- `INTERNAL_FLASH_WRITE_UNIT_SIZE` and `INTERNAL_FLASH_READ_UNIT_SIZE`. -/
def unitSize : Nat := 4

/-- `INTERNAL_FLASH_MAPPED_ADDRESS`. -/
def mappedAddress : Nat := 0x40200000

def uint32 (n : Nat) : Nat := n % 4294967296

/-- A call that may fail. -/
inductive Call
  | read (addr dest len : Nat)
  | write (addr src len : Nat)
  | malloc (size : Nat)
deriving DecidableEq, Repr

/-- Whether the calls succeed, by their number, and where things are in memory. -/
structure Env where
  done : Nat → Bool
  /-- What `c_malloc` returns when it succeeds. -/
  heap : Nat → Nat
  /-- What is on the stack before a function has its locals there. -/
  stack : Memory
  back : Nat
  /-- The `tmpdata` of `platform_flash_read`. -/
  readTmp : Nat
  /-- The `tmpdata` of `platform_flash_write`, which has no attribute `aligned`. -/
  writeTmp : Nat
  back_aligned : back % unitSize = 0
  readTmp_aligned : readTmp % unitSize = 0

/-- The flash, and the calls so far with what came of them. -/
structure Device where
  flash : Flash
  log : List (Call × Bool)

structure ReadResult where
  dev : Device
  mem : Memory
  ok : Bool

/-- `flash_read` into `mem`.  It writes nothing when it fails. -/
def flashRead (env : Env) (dev : Device) (mem : Memory) (addr dest len : Nat) : ReadResult :=
  let ok := env.done dev.log.length
  { dev := { dev with log := dev.log ++ [(.read addr dest len, ok)] }
    mem := if ok then Memory.copy dev.flash mem addr dest len else mem
    ok := ok }

/-- `flash_write` of the bytes at `src`.  It programs nothing when it fails. -/
def flashWrite (env : Env) (dev : Device) (addr src : Nat) (bytes : List UInt8) : Device × Bool :=
  let ok := env.done dev.log.length
  ({ flash := if ok then Flash.program dev.flash addr bytes else dev.flash
     log := dev.log ++ [(.write addr src bytes.length, ok)] }, ok)

def cMalloc (env : Env) (dev : Device) (size : Nat) : Device × Option Nat :=
  let ok := env.done dev.log.length
  ({ dev with log := dev.log ++ [(.malloc size, ok)] },
    if ok then some (env.heap dev.log.length) else none)

/-! ## Whole words -/

structure SRead where
  dev : Device
  mem : Memory
  ret : Nat

/-- `mem` is what `dest` points into. -/
def platformSFlashRead (env : Env) (dev : Device) (mem : Memory) (dest fromaddr size : Nat) :
    SRead :=
  if size = 0 then ⟨dev, mem, 0⟩
  else if dest % unitSize ≠ 0 then
    let size2 := uint32 (size + 4294967296 - unitSize)
    let to2 := uint32 (dest / unitSize * unitSize + unitSize)
    let r := flashRead env dev mem fromaddr to2 size2
    if r.ok then
      let moved := Memory.copy r.mem r.mem to2 dest size2
      let b := flashRead env r.dev env.stack (uint32 (fromaddr + size2)) env.back unitSize
      ⟨b.dev, Memory.copy b.mem moved env.back (dest + size2) unitSize, if b.ok then size else 0⟩
    else ⟨r.dev, r.mem, 0⟩
  else
    let r := flashRead env dev mem fromaddr dest size
    ⟨r.dev, r.mem, if r.ok then size else 0⟩

/-- The source is copied to the heap before it is written. -/
def Copied (src : Nat) : Prop := src % unitSize ≠ 0 ∨ mappedAddress ≤ src

instance (src : Nat) : Decidable (Copied src) := inferInstanceAs (Decidable (_ ∨ _))

/-- `mem` is what `src` points into. -/
def platformSFlashWrite (env : Env) (dev : Device) (mem : Memory) (src toaddr size : Nat) :
    Device × Nat :=
  let bytes := Flash.read mem src size
  if Copied src then
    let m := cMalloc env dev size
    match m.2 with
    | none => (m.1, 0)
    | some apbuf =>
      let w := flashWrite env m.1 toaddr apbuf bytes
      (w.1, if w.2 then size else 0)
  else
    let w := flashWrite env dev toaddr src bytes
    (w.1, if w.2 then size else 0)

/-! ## Any bytes -/

/-- The variables of the two functions: `ptr` is `pto` or `pfrom`, and `tmp` is what
`tmpdata` is in. -/
structure Progress where
  dev : Device
  mem : Memory
  tmp : Memory
  ptr : Nat
  addr : Nat
  size : Nat

/-- Align the start. -/
def readHead (env : Env) (p : Progress) : Progress :=
  let rest := p.addr % unitSize
  let temp := p.addr / unitSize * unitSize
  let r := platformSFlashRead env p.dev p.tmp env.readTmp temp unitSize
  let loop := Memory.copyLoop r.mem unitSize p.size rest (env.readTmp + rest) p.ptr p.mem
  { dev := r.dev, mem := loop.2.2.2, tmp := r.mem, ptr := loop.2.2.1,
    addr := uint32 (temp + unitSize), size := loop.1 }

/-- The blocks.  `size` stays as it is. -/
def readBlocks (env : Env) (p : Progress) : Progress :=
  let temp := p.size / unitSize * unitSize
  if temp ≠ 0 then
    let r := platformSFlashRead env p.dev p.mem p.ptr p.addr temp
    { p with dev := r.dev, mem := r.mem, addr := uint32 (p.addr + temp), ptr := p.ptr + temp }
  else p

/-- The final part of a block. -/
def readTail (env : Env) (p : Progress) : Progress :=
  let rest := p.size % unitSize
  if rest ≠ 0 then
    let r := platformSFlashRead env p.dev p.tmp env.readTmp p.addr unitSize
    let loop := Memory.copyLoop r.mem rest p.size 0 env.readTmp p.ptr p.mem
    { p with dev := r.dev, mem := loop.2.2.2, tmp := r.mem, ptr := loop.2.2.1, size := loop.1 }
  else p

def platformFlashRead (env : Env) (dev : Device) (mem : Memory) (dest fromaddr size : Nat) :
    SRead :=
  let p : Progress := ⟨dev, mem, env.stack, dest, fromaddr, size⟩
  if fromaddr % unitSize ≠ 0 then
    let p := readHead env p
    if p.size = 0 then ⟨p.dev, p.mem, size⟩
    else
      let p := readTail env (readBlocks env p)
      ⟨p.dev, p.mem, size⟩
  else
    let p := readTail env (readBlocks env p)
    ⟨p.dev, p.mem, size⟩

/-- Align the start. -/
def writeHead (env : Env) (p : Progress) : Progress :=
  let rest := p.addr % unitSize
  let temp := p.addr / unitSize * unitSize
  let r := platformSFlashRead env p.dev p.tmp env.writeTmp temp unitSize
  let loop := Memory.copyLoop p.mem unitSize p.size rest p.ptr (env.writeTmp + rest) r.mem
  let w := platformSFlashWrite env r.dev loop.2.2.2 env.writeTmp temp unitSize
  { p with dev := w.1, tmp := loop.2.2.2, ptr := loop.2.1, addr := uint32 (temp + unitSize),
           size := loop.1 }

def writeBlocks (env : Env) (p : Progress) : Progress :=
  let temp := p.size / unitSize * unitSize
  if temp ≠ 0 then
    let w := platformSFlashWrite env p.dev p.mem p.ptr p.addr temp
    { p with dev := w.1, addr := uint32 (p.addr + temp), ptr := p.ptr + temp }
  else p

def writeTail (env : Env) (p : Progress) : Progress :=
  let rest := p.size % unitSize
  if rest ≠ 0 then
    let r := platformSFlashRead env p.dev p.tmp env.writeTmp p.addr unitSize
    let loop := Memory.copyLoop p.mem rest p.size 0 p.ptr env.writeTmp r.mem
    let w := platformSFlashWrite env r.dev loop.2.2.2 env.writeTmp p.addr unitSize
    { p with dev := w.1, tmp := loop.2.2.2, ptr := loop.2.1, size := loop.1 }
  else p

def platformFlashWrite (env : Env) (dev : Device) (mem : Memory) (src toaddr size : Nat) :
    Device × Nat :=
  let p : Progress := ⟨dev, mem, env.stack, src, toaddr, size⟩
  if toaddr % unitSize ≠ 0 then
    let p := writeHead env p
    if p.size = 0 then (p.dev, size)
    else ((writeTail env (writeBlocks env p)).dev, size)
  else ((writeTail env (writeBlocks env p)).dev, size)

/-! ## What the SDK is given -/

/-- Whole words between aligned addresses. -/
def Call.Aligned : Call → Prop
  | .read addr dest len => addr % unitSize = 0 ∧ dest % unitSize = 0 ∧ len % unitSize = 0
  | .write addr src len => addr % unitSize = 0 ∧ src % unitSize = 0 ∧ len % unitSize = 0
  | .malloc _ => True

def Device.Aligned (dev : Device) : Prop := ∀ c ∈ dev.log, c.1.Aligned

section Done

variable {env : Env}

theorem Device.Aligned.log {dev dev' : Device} {call : Call} {ok : Bool} (h : dev.Aligned)
    (hlog : dev'.log = dev.log ++ [(call, ok)]) (hcall : call.Aligned) : dev'.Aligned := by
  intro c hc
  rw [hlog, List.mem_append, List.mem_singleton] at hc
  rcases hc with hc | rfl
  · exact h c hc
  · exact hcall

theorem flashRead_done (hdone : ∀ i, env.done i = true) (dev : Device) (mem : Memory)
    (addr dest len : Nat) :
    flashRead env dev mem addr dest len =
      ⟨{ dev with log := dev.log ++ [(.read addr dest len, true)] },
        Memory.copy dev.flash mem addr dest len, true⟩ := by
  simp only [flashRead, hdone, if_true]

theorem flashWrite_done (hdone : ∀ i, env.done i = true) (dev : Device) (addr src : Nat)
    (bytes : List UInt8) :
    flashWrite env dev addr src bytes =
      (⟨Flash.program dev.flash addr bytes, dev.log ++ [(.write addr src bytes.length, true)]⟩,
        true) := by
  simp only [flashWrite, hdone, if_true]

/-- Whole words are read to any address.  When it is not aligned they are read to the
aligned one after it, moved down, and the last word comes by way of `back`. -/
theorem platformSFlashRead_done (hdone : ∀ i, env.done i = true) (dev : Device) (mem : Memory)
    (dest : Nat) {fromaddr size : Nat} (hpos : 0 < size) (hwords : size % unitSize = 0)
    (haddr : fromaddr % unitSize = 0) (hfrom : fromaddr + size < 4294967296)
    (hdest : size = unitSize ∨ dest + unitSize < 4294967296) :
    (platformSFlashRead env dev mem dest fromaddr size).dev.flash = dev.flash ∧
      (platformSFlashRead env dev mem dest fromaddr size).mem =
        Memory.copy dev.flash mem fromaddr dest size ∧
      (dev.Aligned → (platformSFlashRead env dev mem dest fromaddr size).dev.Aligned) := by
  have hback := env.back_aligned
  unfold unitSize at hwords haddr hdest hback
  rw [platformSFlashRead, if_neg (by omega)]
  by_cases halign : dest % unitSize ≠ 0
  · rw [if_pos halign]
    unfold unitSize at halign
    have hsize2 : uint32 (size + 4294967296 - unitSize) = size - 4 := by
      unfold uint32 unitSize
      omega
    have hfrom2 : uint32 (fromaddr + (size - 4)) = fromaddr + (size - 4) := by
      unfold uint32
      omega
    have hto2 : uint32 (dest / unitSize * unitSize + unitSize) % 4 = 0 ∧ (size = 4 ∨
        uint32 (dest / unitSize * unitSize + unitSize) = dest / 4 * 4 + 4) := by
      unfold uint32 unitSize
      omega
    rw [hsize2]
    generalize uint32 (dest / unitSize * unitSize + unitSize) = to2 at hto2 ⊢
    simp only [flashRead_done hdone, if_true, hfrom2]
    refine ⟨trivial, ?_, ?_⟩
    · have hmoved := Memory.copy_through dev.flash mem
        (Memory.copy dev.flash mem fromaddr to2 (size - 4)) fromaddr to2 dest
        (show 0 + (size - 4) ≤ size - 4 by omega)
      have hlast := Memory.copy_through dev.flash env.stack
        (Memory.copy dev.flash (Memory.copy dev.flash mem fromaddr to2 (size - 4)) fromaddr dest
          (size - 4)) (fromaddr + (size - 4)) env.back (dest + (size - 4))
        (show 0 + unitSize ≤ unitSize by omega)
      simp only [Nat.add_zero] at hmoved hlast
      rw [hmoved, hlast, Memory.copy_add, show size - 4 + unitSize = size by unfold unitSize; omega]
      apply Memory.copy_covers
      intro a ha
      exact Memory.copy_outside (by omega)
    · intro hdev
      have hfirst : Device.Aligned
          { dev with log := dev.log ++ [(.read fromaddr to2 (size - 4), true)] } :=
        hdev.log rfl ⟨haddr, hto2.1, by unfold unitSize; omega⟩
      exact hfirst.log rfl ⟨by unfold unitSize; omega, hback, rfl⟩
  · rw [if_neg halign]
    simp only [flashRead_done hdone]
    refine ⟨trivial, trivial, ?_⟩
    intro hdev
    exact hdev.log rfl ⟨haddr, not_not.mp halign, hwords⟩

/-- Whole words are written from any address. -/
theorem platformSFlashWrite_done (hdone : ∀ i, env.done i = true)
    (hheap : ∀ i, env.heap i % unitSize = 0) (dev : Device) (mem : Memory) (src : Nat)
    {toaddr size : Nat}
    (hwords : size % unitSize = 0) (haddr : toaddr % unitSize = 0) :
    (platformSFlashWrite env dev mem src toaddr size).1.flash =
        Flash.program dev.flash toaddr (Flash.read mem src size) ∧
      (dev.Aligned → (platformSFlashWrite env dev mem src toaddr size).1.Aligned) := by
  unfold platformSFlashWrite
  by_cases hcopied : Copied src
  · simp only [if_pos hcopied, cMalloc, hdone, if_true, flashWrite_done hdone, Flash.length_read]
    refine ⟨trivial, ?_⟩
    intro hdev
    have hmalloc : Device.Aligned { dev with log := dev.log ++ [(.malloc size, true)] } :=
      hdev.log rfl trivial
    exact hmalloc.log rfl ⟨haddr, hheap _, hwords⟩
  · simp only [if_neg hcopied, flashWrite_done hdone, Flash.length_read]
    refine ⟨trivial, ?_⟩
    intro hdev
    have halign : src % unitSize = 0 := by
      by_contra hne
      exact hcopied (.inl hne)
    exact hdev.log rfl ⟨haddr, halign, hwords⟩

end Done

/-! ## The three parts of a read -/

/-- From `p` to `q`, `n` bytes were read. -/
structure Reads (p q : Progress) (n : Nat) : Prop where
  flash : q.dev.flash = p.dev.flash
  mem : q.mem = Memory.copy p.dev.flash p.mem p.addr p.ptr n
  ptr : q.ptr = p.ptr + n
  log : p.dev.Aligned → q.dev.Aligned

section Parts

variable {env : Env} {p q r : Progress}

theorem Reads.refl (p : Progress) : Reads p p 0 where
  flash := rfl
  mem := (Memory.copy_zero ..).symm
  ptr := rfl
  log := id

theorem Reads.trans {n m : Nat} (h : Reads p q n) (h' : Reads q r m)
    (haddr : q.addr = p.addr + n) : Reads p r (n + m) where
  flash := h'.flash.trans h.flash
  mem := by rw [h'.mem, h.flash, h.mem, h.ptr, haddr, Memory.copy_add]
  ptr := by rw [h'.ptr, h.ptr, Nat.add_assoc]
  log := h'.log ∘ h.log

theorem readHead_done (hdone : ∀ i, env.done i = true) (hlt : p.addr + unitSize < 4294967296) :
    Reads p (readHead env p) (min p.size (unitSize - p.addr % unitSize)) ∧
      (readHead env p).size = p.size - min p.size (unitSize - p.addr % unitSize) ∧
      (readHead env p).addr = p.addr / unitSize * unitSize + unitSize := by
  have hrest := Nat.div_add_mod' p.addr unitSize
  obtain ⟨hflash, hmem, hlog⟩ := platformSFlashRead_done hdone p.dev p.tmp env.readTmp
    (show 0 < unitSize by decide) (Nat.mod_self _) (Nat.mul_mod_left (p.addr / unitSize) _)
    (by omega) (.inl rfl)
  unfold readHead
  simp only [Memory.copyLoop_eq, hmem]
  refine ⟨⟨hflash, ?_, rfl, hlog⟩, trivial, ?_⟩
  · show Memory.copy _ _ _ _ _ = _
    rw [Memory.copy_through _ _ _ _ _ _ (by unfold unitSize; omega), hrest]
  · show uint32 _ = _
    unfold uint32
    unfold unitSize at *
    omega

theorem readBlocks_done (hdone : ∀ i, env.done i = true) (haddr : p.addr % unitSize = 0)
    (hfrom : p.addr + p.size < 4294967296) (hptr : p.ptr + unitSize < 4294967296) :
    Reads p (readBlocks env p) (p.size / unitSize * unitSize) ∧
      (readBlocks env p).size = p.size ∧
      (readBlocks env p).addr = p.addr + p.size / unitSize * unitSize := by
  have hle := Nat.div_mul_le_self p.size unitSize
  unfold readBlocks
  by_cases hblocks : p.size / unitSize * unitSize ≠ 0
  · obtain ⟨hflash, hmem, hlog⟩ := platformSFlashRead_done hdone p.dev p.mem p.ptr
      (Nat.pos_of_ne_zero hblocks) (Nat.mul_mod_left ..) haddr (by omega) (.inr hptr)
    simp only [if_pos hblocks]
    refine ⟨⟨hflash, hmem, rfl, hlog⟩, trivial, ?_⟩
    unfold uint32
    omega
  · simp only [if_neg hblocks]
    rw [not_not.mp hblocks]
    exact ⟨.refl p, trivial, rfl⟩

theorem readTail_done (hdone : ∀ i, env.done i = true) (haddr : p.addr % unitSize = 0)
    (hfrom : p.addr + unitSize < 4294967296) :
    Reads p (readTail env p) (p.size % unitSize) := by
  have hle := Nat.mod_le p.size unitSize
  have hlt := Nat.mod_lt p.size (show 0 < unitSize by decide)
  unfold readTail
  by_cases htail : p.size % unitSize ≠ 0
  · obtain ⟨hflash, hmem, hlog⟩ := platformSFlashRead_done hdone p.dev p.tmp env.readTmp
      (show 0 < unitSize by decide) (Nat.mod_self _) haddr hfrom (.inl rfl)
    simp only [if_pos htail, Memory.copyLoop_eq, Nat.sub_zero, Nat.min_eq_right hle, hmem]
    refine ⟨hflash, ?_, rfl, hlog⟩
    have hthrough := Memory.copy_through p.dev.flash p.tmp p.mem p.addr env.readTmp p.ptr
      (show 0 + p.size % unitSize ≤ unitSize by omega)
    simpa only [Nat.add_zero] using hthrough
  · simp only [if_neg htail]
    rw [not_not.mp htail]
    exact .refl p

/-- From an aligned address on, the blocks and the final part. -/
theorem readRest_done (hdone : ∀ i, env.done i = true) (haddr : p.addr % unitSize = 0)
    (hfrom : p.addr + p.size + unitSize < 4294967296) (hptr : p.ptr + unitSize < 4294967296) :
    Reads p (readTail env (readBlocks env p)) p.size := by
  obtain ⟨hblocks, hsize, hnext⟩ := readBlocks_done hdone haddr (by omega) hptr
  have hle := Nat.div_mul_le_self p.size unitSize
  have htail := readTail_done (p := readBlocks env p) hdone
    (by rw [hnext, Nat.add_mul_mod_self_right, haddr]) (by rw [hnext]; omega)
  rw [hsize] at htail
  have hall := hblocks.trans htail hnext
  rwa [Nat.div_add_mod'] at hall

theorem platformFlashRead_done (hdone : ∀ i, env.done i = true) (dev : Device) (mem : Memory)
    {dest fromaddr size : Nat} (hfrom : fromaddr + size + unitSize < 4294967296)
    (hdest : dest + size + unitSize < 4294967296) :
    (platformFlashRead env dev mem dest fromaddr size).mem =
        Memory.copy dev.flash mem fromaddr dest size ∧
      (dev.Aligned → (platformFlashRead env dev mem dest fromaddr size).dev.Aligned) := by
  unfold platformFlashRead
  by_cases hhead : fromaddr % unitSize ≠ 0
  · simp only [if_pos hhead]
    obtain ⟨hreads, hsize, haddr⟩ := readHead_done
      (p := ⟨dev, mem, env.stack, dest, fromaddr, size⟩) hdone
      (show fromaddr + unitSize < _ by omega)
    generalize readHead env ⟨dev, mem, env.stack, dest, fromaddr, size⟩ = q at *
    have hptr := hreads.ptr
    dsimp only at hsize haddr hptr
    by_cases hall : q.size = 0
    · -- the bytes are all in one word
      rw [if_pos hall]
      have hmem := hreads.mem
      rw [show min size (unitSize - fromaddr % unitSize) = size by omega] at hmem
      exact ⟨hmem, hreads.log⟩
    · rw [if_neg hall]
      have hrest := readRest_done (p := q) hdone (by rw [haddr]; unfold unitSize; omega)
        (by unfold unitSize at *; omega) (by unfold unitSize at *; omega)
      have hreads := hreads.trans hrest (by rw [haddr]; unfold unitSize at *; dsimp only; omega)
      have hmem := hreads.mem
      rw [show min size (unitSize - fromaddr % unitSize) + q.size = size by omega] at hmem
      exact ⟨hmem, hreads.log⟩
  · simp only [if_neg hhead]
    have hreads := readRest_done (p := ⟨dev, mem, env.stack, dest, fromaddr, size⟩) hdone
      (not_not.mp hhead) hfrom (show dest + unitSize < _ by omega)
    exact ⟨hreads.mem, hreads.log⟩

end Parts

/-- The bytes that were asked for are read to where they were asked for, nothing else is
changed, and the SDK reads whole words between aligned addresses. -/
theorem flashRead_exact {env : Env} (hdone : ∀ i, env.done i = true) (flash : Flash) (mem : Memory)
    {dest fromaddr size : Nat} (hfrom : fromaddr + size + 4 < 2 ^ 32)
    (hdest : dest + size + 4 < 2 ^ 32) :
    (∀ i < size, (platformFlashRead env ⟨flash, []⟩ mem dest fromaddr size).mem (dest + i) =
        flash (fromaddr + i)) ∧
      (∀ a, a < dest ∨ dest + size ≤ a →
        (platformFlashRead env ⟨flash, []⟩ mem dest fromaddr size).mem a = mem a) ∧
      ∀ c ∈ (platformFlashRead env ⟨flash, []⟩ mem dest fromaddr size).dev.log, c.1.Aligned := by
  obtain ⟨hmem, hlog⟩ := platformFlashRead_done hdone ⟨flash, []⟩ mem hfrom hdest
  rw [hmem]
  refine ⟨?_, ?_, hlog (List.forall_mem_nil _)⟩
  · intro i hi
    rw [Memory.copy_inside (by omega) (by omega), Nat.add_sub_cancel_left]
  · intro a ha
    exact Memory.copy_outside ha

/-- Everything succeeds, and the word of `platform_flash_write` is not aligned. -/
def sampleEnv : Env where
  done _ := true
  heap _ := 0x3FFF0000
  stack _ := 0xAA
  back := 0x3FFFF000
  readTmp := 0x3FFFF010
  writeTmp := 0x3FFFF021
  back_aligned := rfl
  readTmp_aligned := rfl

/-- Nine bytes, from the end of one word to the end of the third, to an odd address. -/
theorem flashRead_exact_nine :
    (platformFlashRead sampleEnv ⟨UInt8.ofNat, []⟩ (fun _ => 0) 0x101 0x203 9).mem 0x109 = 0x0B :=
  (flashRead_exact (fun _ => rfl) UInt8.ofNat (fun _ => 0) (by decide) (by decide)).1 8 (by decide)

/-! ## The three parts of a write -/

/-- From `p` to `q`, `n` bytes were written. -/
structure Writes (p q : Progress) (n : Nat) : Prop where
  flash : q.dev.flash = Flash.program p.dev.flash p.addr (Flash.read p.mem p.ptr n)
  mem : q.mem = p.mem
  ptr : q.ptr = p.ptr + n
  log : p.dev.Aligned → q.dev.Aligned

section Parts

variable {env : Env} {p q r : Progress}

theorem Writes.refl (p : Progress) : Writes p p 0 where
  flash := by
    funext a
    rw [Memory.program_read_apply, if_neg (by omega)]
  mem := rfl
  ptr := rfl
  log := id

theorem Writes.trans {n m : Nat} (h : Writes p q n) (h' : Writes q r m)
    (haddr : q.addr = p.addr + n) : Writes p r (n + m) where
  flash := by rw [h'.flash, h.flash, h.mem, h.ptr, haddr, Memory.program_add]
  mem := h'.mem.trans h.mem
  ptr := by rw [h'.ptr, h.ptr, Nat.add_assoc]
  log := h'.log ∘ h.log

/-- A word is read, changed from byte `rest` on, and written back. -/
theorem writeWord_done (hdone : ∀ i, env.done i = true) (hheap : ∀ i, env.heap i % unitSize = 0)
    (dev : Device) (mem tmp : Memory) {ptr addr rest n : Nat} (haddr : addr % unitSize = 0)
    (hlt : addr + unitSize < 4294967296) (hfits : rest + n ≤ unitSize) :
    let r := platformSFlashRead env dev tmp env.writeTmp addr unitSize
    let w := platformSFlashWrite env r.dev (Memory.copy mem r.mem ptr (env.writeTmp + rest) n)
      env.writeTmp addr unitSize
    w.1.flash = Flash.program dev.flash (addr + rest) (Flash.read mem ptr n) ∧
      (dev.Aligned → w.1.Aligned) := by
  intro r w
  obtain ⟨hflash, hmem, hlog⟩ := platformSFlashRead_done hdone dev tmp env.writeTmp
    (show 0 < unitSize by decide) (Nat.mod_self _) haddr hlt (.inl rfl)
  obtain ⟨hwritten, hlog'⟩ := platformSFlashWrite_done hdone hheap r.dev
    (Memory.copy mem r.mem ptr (env.writeTmp + rest) n) env.writeTmp (Nat.mod_self unitSize) haddr
  refine ⟨?_, hlog' ∘ hlog⟩
  rw [hwritten, hflash, hmem, Memory.program_merged _ _ _ hfits]

theorem writeHead_done (hdone : ∀ i, env.done i = true) (hheap : ∀ i, env.heap i % unitSize = 0)
    (hlt : p.addr + unitSize < 4294967296) :
    Writes p (writeHead env p) (min p.size (unitSize - p.addr % unitSize)) ∧
      (writeHead env p).size = p.size - min p.size (unitSize - p.addr % unitSize) ∧
      (writeHead env p).addr = p.addr / unitSize * unitSize + unitSize := by
  have hrest := Nat.div_add_mod' p.addr unitSize
  have hmod := Nat.mod_lt p.addr (show 0 < unitSize by decide)
  have hfits : p.addr % unitSize + min p.size (unitSize - p.addr % unitSize) ≤ unitSize := by omega
  obtain ⟨hflash, hlog⟩ := writeWord_done hdone hheap p.dev p.mem p.tmp
    (Nat.mul_mod_left (p.addr / unitSize) unitSize) (by omega) hfits
  unfold writeHead
  simp only [Memory.copyLoop_eq]
  refine ⟨⟨?_, rfl, rfl, hlog⟩, trivial, ?_⟩
  · rw [hflash, hrest]
  · unfold uint32
    unfold unitSize at *
    omega

theorem writeBlocks_done (hdone : ∀ i, env.done i = true) (hheap : ∀ i, env.heap i % unitSize = 0)
    (haddr : p.addr % unitSize = 0) (hlt : p.addr + p.size < 4294967296) :
    Writes p (writeBlocks env p) (p.size / unitSize * unitSize) ∧
      (writeBlocks env p).size = p.size ∧
      (writeBlocks env p).addr = p.addr + p.size / unitSize * unitSize := by
  have hle := Nat.div_mul_le_self p.size unitSize
  unfold writeBlocks
  by_cases hblocks : p.size / unitSize * unitSize ≠ 0
  · obtain ⟨hflash, hlog⟩ := platformSFlashWrite_done hdone hheap p.dev p.mem p.ptr
      (Nat.mul_mod_left (p.size / unitSize) unitSize) haddr
    simp only [if_pos hblocks]
    refine ⟨⟨hflash, rfl, rfl, hlog⟩, trivial, ?_⟩
    unfold uint32
    omega
  · simp only [if_neg hblocks]
    rw [not_not.mp hblocks]
    exact ⟨.refl p, trivial, rfl⟩

theorem writeTail_done (hdone : ∀ i, env.done i = true) (hheap : ∀ i, env.heap i % unitSize = 0)
    (haddr : p.addr % unitSize = 0) (hlt : p.addr + unitSize < 4294967296) :
    Writes p (writeTail env p) (p.size % unitSize) := by
  have hle := Nat.mod_le p.size unitSize
  have hmod := Nat.mod_lt p.size (show 0 < unitSize by decide)
  unfold writeTail
  by_cases htail : p.size % unitSize ≠ 0
  · obtain ⟨hflash, hlog⟩ := writeWord_done hdone hheap p.dev p.mem p.tmp haddr hlt
      (show 0 + p.size % unitSize ≤ unitSize by omega)
    simp only [if_pos htail, Memory.copyLoop_eq, Nat.sub_zero, Nat.min_eq_right hle]
    exact ⟨hflash, rfl, rfl, hlog⟩
  · simp only [if_neg htail]
    rw [not_not.mp htail]
    exact .refl p

theorem writeRest_done (hdone : ∀ i, env.done i = true) (hheap : ∀ i, env.heap i % unitSize = 0)
    (haddr : p.addr % unitSize = 0) (hlt : p.addr + p.size + unitSize < 4294967296) :
    Writes p (writeTail env (writeBlocks env p)) p.size := by
  obtain ⟨hblocks, hsize, hnext⟩ := writeBlocks_done hdone hheap haddr (by omega)
  have hle := Nat.div_mul_le_self p.size unitSize
  have htail := writeTail_done (p := writeBlocks env p) hdone hheap
    (by rw [hnext, Nat.add_mul_mod_self_right, haddr]) (by rw [hnext]; omega)
  rw [hsize] at htail
  have hall := hblocks.trans htail hnext
  rwa [Nat.div_add_mod'] at hall

theorem platformFlashWrite_done (hdone : ∀ i, env.done i = true)
    (hheap : ∀ i, env.heap i % unitSize = 0) (dev : Device) (mem : Memory) (src : Nat)
    {toaddr size : Nat} (hlt : toaddr + size + unitSize < 4294967296) :
    (platformFlashWrite env dev mem src toaddr size).1.flash =
        Flash.program dev.flash toaddr (Flash.read mem src size) ∧
      (dev.Aligned → (platformFlashWrite env dev mem src toaddr size).1.Aligned) := by
  unfold platformFlashWrite
  by_cases hhead : toaddr % unitSize ≠ 0
  · simp only [if_pos hhead]
    obtain ⟨hwrites, hsize, haddr⟩ := writeHead_done (p := ⟨dev, mem, env.stack, src, toaddr, size⟩)
      hdone hheap (show toaddr + unitSize < _ by omega)
    generalize writeHead env ⟨dev, mem, env.stack, src, toaddr, size⟩ = q at *
    dsimp only at hsize haddr
    by_cases hall : q.size = 0
    · rw [if_pos hall]
      have hflash := hwrites.flash
      rw [show min size (unitSize - toaddr % unitSize) = size by omega] at hflash
      exact ⟨hflash, hwrites.log⟩
    · rw [if_neg hall]
      have hrest := writeRest_done (p := q) hdone hheap (by rw [haddr]; unfold unitSize; omega)
        (by unfold unitSize at *; omega)
      have hwrites := hwrites.trans hrest (by rw [haddr]; unfold unitSize at *; dsimp only; omega)
      have hflash := hwrites.flash
      rw [show min size (unitSize - toaddr % unitSize) + q.size = size by omega] at hflash
      exact ⟨hflash, hwrites.log⟩
  · simp only [if_neg hhead]
    have hwrites := writeRest_done (p := ⟨dev, mem, env.stack, src, toaddr, size⟩) hdone hheap
      (not_not.mp hhead) hlt
    exact ⟨hwrites.flash, hwrites.log⟩

end Parts

/-- The bytes that were asked for are programmed where they were asked for, nothing else
is changed, and the SDK is given whole words at aligned addresses. -/
theorem flashWrite_exact {env : Env} (hdone : ∀ i, env.done i = true)
    (hheap : ∀ i, env.heap i % 4 = 0) (flash : Flash) (mem : Memory) (src : Nat)
    {toaddr size : Nat} (hlt : toaddr + size + 4 < 2 ^ 32) :
    (∀ i < size, (platformFlashWrite env ⟨flash, []⟩ mem src toaddr size).1.flash (toaddr + i) =
        flash (toaddr + i) &&& mem (src + i)) ∧
      (∀ a, a < toaddr ∨ toaddr + size ≤ a →
        (platformFlashWrite env ⟨flash, []⟩ mem src toaddr size).1.flash a = flash a) ∧
      ∀ c ∈ (platformFlashWrite env ⟨flash, []⟩ mem src toaddr size).1.log, c.1.Aligned := by
  obtain ⟨hflash, hlog⟩ := platformFlashWrite_done hdone hheap ⟨flash, []⟩ mem src hlt
  rw [hflash]
  refine ⟨?_, ?_, hlog (List.forall_mem_nil _)⟩
  · intro i hi
    rw [Memory.program_read_apply, if_pos (by omega), Nat.add_sub_cancel_left]
  · intro a ha
    rw [Memory.program_read_apply, if_neg (by omega)]

/-- Two bytes within one word. -/
theorem flashWrite_exact_two :
    (platformFlashWrite sampleEnv ⟨fun _ => 0xF0, []⟩ UInt8.ofNat 0x133 0x201 2).1.flash 0x202 =
      0x30 :=
  (flashWrite_exact (fun _ => rfl) (fun _ => show 0x3FFF0000 % 4 = 0 by decide) (fun _ => 0xF0)
    UInt8.ofNat 0x133 (by decide)).1 1 (by decide)

end Platform
end EspMisc
