/-
What becomes of a failure.

`platform_s_flash_read` and `platform_s_flash_write` return 0 when a call of the SDK fails
under them.  The functions over them do not look at what they return: they return the size
they were asked for, and `my_spiffs_read` and `my_spiffs_write` return `SPIFFS_OK`.  So
success is reported truly only when every call succeeds.  `reported_iff` says how many
calls that are, from the addresses and the size alone.
-/
import EspMisc.Platform.Flash

namespace EspMisc
namespace Platform

/-! ## SPIFFS -/

def SPIFFS_OK : Int := 0

def mySpiffsRead (env : Env) (dev : Device) (mem : Memory) (addr size dst : Nat) :
    Device × Memory × Int :=
  let r := platformFlashRead env dev mem dst addr size
  (r.dev, r.mem, SPIFFS_OK)

def mySpiffsWrite (env : Env) (dev : Device) (mem : Memory) (addr size src : Nat) : Device × Int :=
  ((platformFlashWrite env dev mem src addr size).1, SPIFFS_OK)

/-! ## The calls of the SDK -/

/-- From `dev` to `dev'` there are `n` calls, if all succeed; the first that fails may be
the last. -/
def Issues (env : Env) (n : Nat) (dev dev' : Device) : Prop :=
  ∃ calls, dev'.log = dev.log ++ calls ∧
    ((∀ c ∈ calls, c.2 = true) ↔ ∀ i < n, env.done (dev.log.length + i) = true) ∧
    ((∀ c ∈ calls, c.2 = true) → calls.length = n)

section Calls

variable {env : Env} {dev dev' dev'' : Device} {n m : Nat}

theorem Issues.refl (env : Env) (dev : Device) : Issues env 0 dev dev :=
  ⟨[], (List.append_nil _).symm,
    iff_of_true (List.forall_mem_nil _) (fun i hi => absurd hi (Nat.not_lt_zero i)), fun _ => rfl⟩

theorem Issues.one (call : Call)
    (h : dev'.log = dev.log ++ [(call, env.done dev.log.length)]) : Issues env 1 dev dev' := by
  refine ⟨_, h, ?_, fun _ => rfl⟩
  rw [List.forall_mem_singleton]
  constructor
  · intro hok i hi
    obtain rfl : i = 0 := by omega
    exact hok
  · intro hall
    exact hall 0 Nat.one_pos

/-- Nothing comes after a call that fails. -/
theorem Issues.failed (h : Issues env 1 dev dev') (hfail : env.done dev.log.length = false)
    (hn : 0 < n) : Issues env n dev dev' := by
  obtain ⟨calls, hlog, hiff, -⟩ := h
  have hbad : ¬∀ c ∈ calls, c.2 = true := by
    intro hok
    have hdone := hiff.mp hok 0 Nat.one_pos
    rw [Nat.add_zero, hfail] at hdone
    exact Bool.false_ne_true hdone
  refine ⟨calls, hlog, iff_of_false hbad ?_, fun hok => absurd hok hbad⟩
  intro hall
  have hdone := hall 0 hn
  rw [Nat.add_zero, hfail] at hdone
  exact Bool.false_ne_true hdone

theorem Issues.trans (h : Issues env n dev dev') (h' : Issues env m dev' dev'') :
    Issues env (n + m) dev dev'' := by
  obtain ⟨calls, hlog, hiff, hlen⟩ := h
  obtain ⟨calls', hlog', hiff', hlen'⟩ := h'
  refine ⟨calls ++ calls', by rw [hlog', hlog, List.append_assoc], ?_, ?_⟩
  · rw [List.forall_mem_append]
    constructor
    · rintro ⟨hok, hok'⟩ i hi
      have hstart : dev'.log.length = dev.log.length + n := by
        rw [hlog, List.length_append, hlen hok]
      by_cases hfirst : i < n
      · exact hiff.mp hok i hfirst
      · have hnext := hiff'.mp hok' (i - n) (by omega)
        rwa [hstart, show dev.log.length + n + (i - n) = dev.log.length + i by omega] at hnext
    · intro hall
      have hok := hiff.mpr fun i hi => hall i (by omega)
      refine ⟨hok, hiff'.mpr fun i hi => ?_⟩
      have hnext := hall (n + i) (by omega)
      rwa [hlog, List.length_append, hlen hok, Nat.add_assoc]
  · intro hok
    obtain ⟨hok, hok'⟩ := List.forall_mem_append.mp hok
    rw [List.length_append, hlen hok, hlen' hok']

/-- What is not aligned in memory is read in two calls. -/
def readCalls (dest : Nat) : Nat := if dest % unitSize ≠ 0 then 2 else 1

/-- What has to be copied is written in two calls, the first for memory. -/
def writeCalls (src : Nat) : Nat := if Copied src then 2 else 1

theorem platformSFlashRead_issues (mem : Memory) (dest fromaddr : Nat) {size : Nat}
    (hsize : size ≠ 0) :
    Issues env (readCalls dest) dev (platformSFlashRead env dev mem dest fromaddr size).dev := by
  rw [platformSFlashRead, if_neg hsize, readCalls]
  by_cases halign : dest % unitSize ≠ 0
  · rw [if_pos halign, if_pos halign]
    dsimp only
    generalize uint32 (size + 4294967296 - unitSize) = size2
    generalize uint32 (dest / unitSize * unitSize + unitSize) = to2
    have hfirst : Issues env 1 dev (flashRead env dev mem fromaddr to2 size2).dev := .one _ rfl
    have hdone : (flashRead env dev mem fromaddr to2 size2).ok = env.done dev.log.length := rfl
    by_cases hok : (flashRead env dev mem fromaddr to2 size2).ok = true
    · rw [if_pos hok]
      exact hfirst.trans (.one _ rfl)
    · rw [if_neg hok]
      rw [hdone, Bool.not_eq_true] at hok
      exact hfirst.failed hok Nat.two_pos
  · rw [if_neg halign, if_neg halign]
    exact .one _ rfl

theorem platformSFlashWrite_issues (mem : Memory) (src toaddr size : Nat) :
    Issues env (writeCalls src) dev (platformSFlashWrite env dev mem src toaddr size).1 := by
  unfold platformSFlashWrite writeCalls
  by_cases hcopied : Copied src
  · simp only [if_pos hcopied]
    have hfirst : Issues env 1 dev (cMalloc env dev size).1 := .one _ rfl
    by_cases hok : env.done dev.log.length = true
    · have hsome : (cMalloc env dev size).2 = some (env.heap dev.log.length) := if_pos hok
      rw [hsome]
      exact hfirst.trans (.one _ rfl)
    · have hnone : (cMalloc env dev size).2 = none := if_neg hok
      rw [hnone]
      rw [Bool.not_eq_true] at hok
      exact hfirst.failed hok Nat.two_pos
  · simp only [if_neg hcopied]
    exact .one _ rfl

end Calls

/-! ## The three parts -/

/-- The bytes before the first whole word. -/
def headSize (addr size : Nat) : Nat :=
  if addr % unitSize ≠ 0 then min size (unitSize - addr % unitSize) else 0

/-- The calls of a request with parts of so many calls.  The middle part is of `blocks`
calls. -/
def partCalls (word blocks addr size : Nat) : Nat :=
  (if addr % unitSize ≠ 0 then word else 0) +
    ((if (size - headSize addr size) / unitSize * unitSize ≠ 0 then blocks else 0) +
      if (size - headSize addr size) % unitSize ≠ 0 then word else 0)

/-- The calls of `platform_flash_read`. -/
def readOps (dest fromaddr size : Nat) : Nat :=
  partCalls 1 (readCalls (dest + headSize fromaddr size)) fromaddr size

/-- The calls of `platform_flash_write`, which depend on where its `tmpdata` is. -/
def writeOps (env : Env) (src toaddr size : Nat) : Nat :=
  partCalls (readCalls env.writeTmp + writeCalls env.writeTmp)
    (writeCalls (src + headSize toaddr size)) toaddr size

section Parts

variable {env : Env}

theorem readCalls_readTmp (env : Env) : readCalls env.readTmp = 1 :=
  if_neg (not_not.mpr env.readTmp_aligned)

theorem readRest_issues (p : Progress) :
    Issues env
      ((if p.size / unitSize * unitSize ≠ 0 then readCalls p.ptr else 0) +
        if p.size % unitSize ≠ 0 then 1 else 0)
      p.dev (readTail env (readBlocks env p)).dev := by
  have hblocks : Issues env (if p.size / unitSize * unitSize ≠ 0 then readCalls p.ptr else 0)
      p.dev (readBlocks env p).dev ∧ (readBlocks env p).size = p.size := by
    unfold readBlocks
    by_cases hne : p.size / unitSize * unitSize ≠ 0
    · simp only [if_pos hne]
      exact ⟨platformSFlashRead_issues _ _ _ hne, trivial⟩
    · simp only [if_neg hne]
      exact ⟨.refl env p.dev, trivial⟩
  refine hblocks.1.trans ?_
  rw [← hblocks.2]
  unfold readTail
  by_cases hne : (readBlocks env p).size % unitSize ≠ 0
  · simp only [if_pos hne]
    rw [← readCalls_readTmp env]
    exact platformSFlashRead_issues _ _ _ (by decide)
  · simp only [if_neg hne]
    exact .refl env _

theorem platformFlashRead_issues (dev : Device) (mem : Memory) (dest fromaddr size : Nat) :
    Issues env (readOps dest fromaddr size) dev
      (platformFlashRead env dev mem dest fromaddr size).dev := by
  unfold platformFlashRead readOps partCalls headSize
  by_cases hhead : fromaddr % unitSize ≠ 0
  · simp only [if_pos hhead]
    have hfirst : Issues env 1 dev
        (readHead env ⟨dev, mem, env.stack, dest, fromaddr, size⟩).dev := by
      rw [← readCalls_readTmp env]
      exact platformSFlashRead_issues _ _ _ (by decide)
    have hsize : (readHead env ⟨dev, mem, env.stack, dest, fromaddr, size⟩).size =
        size - min size (unitSize - fromaddr % unitSize) := by
      simp only [readHead, Memory.copyLoop_eq]
    have hptr : (readHead env ⟨dev, mem, env.stack, dest, fromaddr, size⟩).ptr =
        dest + min size (unitSize - fromaddr % unitSize) := by
      simp only [readHead, Memory.copyLoop_eq]
    rw [← hsize, ← hptr]
    generalize readHead env ⟨dev, mem, env.stack, dest, fromaddr, size⟩ = q at hfirst ⊢
    by_cases hall : q.size = 0
    · rw [if_pos hall, hall]
      exact hfirst
    · rw [if_neg hall]
      exact hfirst.trans (readRest_issues q)
  · simp only [if_neg hhead, Nat.sub_zero, Nat.add_zero]
    rw [Nat.zero_add]
    exact readRest_issues ⟨dev, mem, env.stack, dest, fromaddr, size⟩

/-- A word is read and written back. -/
theorem writeWord_issues (dev : Device) (tmp tmp' : Memory) (addr : Nat) :
    Issues env (readCalls env.writeTmp + writeCalls env.writeTmp) dev
      (platformSFlashWrite env (platformSFlashRead env dev tmp env.writeTmp addr unitSize).dev tmp'
        env.writeTmp addr unitSize).1 :=
  (platformSFlashRead_issues _ _ _ (by decide)).trans (platformSFlashWrite_issues ..)

theorem writeRest_issues (p : Progress) :
    Issues env
      ((if p.size / unitSize * unitSize ≠ 0 then writeCalls p.ptr else 0) +
        if p.size % unitSize ≠ 0 then readCalls env.writeTmp + writeCalls env.writeTmp else 0)
      p.dev (writeTail env (writeBlocks env p)).dev := by
  have hblocks : Issues env (if p.size / unitSize * unitSize ≠ 0 then writeCalls p.ptr else 0)
      p.dev (writeBlocks env p).dev ∧ (writeBlocks env p).size = p.size := by
    unfold writeBlocks
    by_cases hne : p.size / unitSize * unitSize ≠ 0
    · simp only [if_pos hne]
      exact ⟨platformSFlashWrite_issues .., trivial⟩
    · simp only [if_neg hne]
      exact ⟨.refl env p.dev, trivial⟩
  refine hblocks.1.trans ?_
  rw [← hblocks.2]
  unfold writeTail
  by_cases hne : (writeBlocks env p).size % unitSize ≠ 0
  · simp only [if_pos hne]
    exact writeWord_issues ..
  · simp only [if_neg hne]
    exact .refl env _

theorem platformFlashWrite_issues (dev : Device) (mem : Memory) (src toaddr size : Nat) :
    Issues env (writeOps env src toaddr size) dev
      (platformFlashWrite env dev mem src toaddr size).1 := by
  unfold platformFlashWrite writeOps partCalls headSize
  by_cases hhead : toaddr % unitSize ≠ 0
  · simp only [if_pos hhead]
    have hfirst : Issues env (readCalls env.writeTmp + writeCalls env.writeTmp) dev
        (writeHead env ⟨dev, mem, env.stack, src, toaddr, size⟩).dev := writeWord_issues ..
    have hsize : (writeHead env ⟨dev, mem, env.stack, src, toaddr, size⟩).size =
        size - min size (unitSize - toaddr % unitSize) := by
      simp only [writeHead, Memory.copyLoop_eq]
    have hptr : (writeHead env ⟨dev, mem, env.stack, src, toaddr, size⟩).ptr =
        src + min size (unitSize - toaddr % unitSize) := by
      simp only [writeHead, Memory.copyLoop_eq]
    rw [← hsize, ← hptr]
    generalize writeHead env ⟨dev, mem, env.stack, src, toaddr, size⟩ = q at hfirst ⊢
    by_cases hall : q.size = 0
    · rw [if_pos hall, hall]
      exact hfirst
    · rw [if_neg hall]
      exact hfirst.trans (writeRest_issues q)
  · simp only [if_neg hhead, Nat.sub_zero, Nat.add_zero]
    rw [Nat.zero_add]
    exact writeRest_issues ⟨dev, mem, env.stack, src, toaddr, size⟩

end Parts

/-! ## What is reported -/

/-- Every call in the log succeeded. -/
def Device.AllDone (dev : Device) : Prop := ∀ c ∈ dev.log, c.2 = true

/-- `platform_flash_read` and `my_spiffs_read` report success only if there was no failure. -/
def ReadReported (env : Env) (flash : Flash) (mem : Memory) (dest fromaddr size : Nat) : Prop :=
  ((platformFlashRead env ⟨flash, []⟩ mem dest fromaddr size).ret = size →
      (platformFlashRead env ⟨flash, []⟩ mem dest fromaddr size).dev.AllDone) ∧
    ((mySpiffsRead env ⟨flash, []⟩ mem fromaddr size dest).2.2 = SPIFFS_OK →
      (mySpiffsRead env ⟨flash, []⟩ mem fromaddr size dest).1.AllDone)

/-- And so do `platform_flash_write` and `my_spiffs_write`. -/
def WriteReported (env : Env) (flash : Flash) (mem : Memory) (src toaddr size : Nat) : Prop :=
  ((platformFlashWrite env ⟨flash, []⟩ mem src toaddr size).2 = size →
      (platformFlashWrite env ⟨flash, []⟩ mem src toaddr size).1.AllDone) ∧
    ((mySpiffsWrite env ⟨flash, []⟩ mem toaddr size src).2 = SPIFFS_OK →
      (mySpiffsWrite env ⟨flash, []⟩ mem toaddr size src).1.AllDone)

theorem Issues.allDone_iff {env : Env} {n : Nat} {flash : Flash} {dev : Device}
    (h : Issues env n ⟨flash, []⟩ dev) : dev.AllDone ↔ ∀ i < n, env.done i = true := by
  obtain ⟨calls, hlog, hiff, -⟩ := h
  rw [List.nil_append] at hlog
  unfold Device.AllDone
  rw [hlog, hiff]
  simp only [List.length_nil, Nat.zero_add]

theorem platformFlashRead_ret (env : Env) (dev : Device) (mem : Memory)
    (dest fromaddr size : Nat) :
    (platformFlashRead env dev mem dest fromaddr size).ret = size := by
  unfold platformFlashRead
  dsimp only
  split
  · split <;> rfl
  · rfl

theorem platformFlashWrite_ret (env : Env) (dev : Device) (mem : Memory) (src toaddr size : Nat) :
    (platformFlashWrite env dev mem src toaddr size).2 = size := by
  unfold platformFlashWrite
  dsimp only
  split
  · split <;> rfl
  · rfl

/-- Success is reported truly exactly when none of the calls that the request needs fails. -/
theorem reported_iff (env : Env) (flash : Flash) (mem : Memory) (ptr addr size : Nat) :
    (ReadReported env flash mem ptr addr size ↔
        ∀ i < readOps ptr addr size, env.done i = true) ∧
      (WriteReported env flash mem ptr addr size ↔
        ∀ i < writeOps env ptr addr size, env.done i = true) := by
  constructor
  · rw [← (platformFlashRead_issues ⟨flash, []⟩ mem ptr addr size).allDone_iff]
    constructor
    · intro hreported
      exact hreported.1 (platformFlashRead_ret ..)
    · intro hdone
      exact ⟨fun _ => hdone, fun _ => hdone⟩
  · rw [← (platformFlashWrite_issues ⟨flash, []⟩ mem ptr addr size).allDone_iff]
    constructor
    · intro hreported
      exact hreported.1 (platformFlashWrite_ret ..)
    · intro hdone
      exact ⟨fun _ => hdone, fun _ => hdone⟩

/-- No call succeeds. -/
def brokenEnv : Env := { sampleEnv with done := fun _ => false }

/-- One word is read, and is not. -/
theorem failure_not_reported :
    ¬ReadReported brokenEnv (fun _ => 0) (fun _ => 0) 0x100 0x200 4 ∧
      ¬WriteReported brokenEnv (fun _ => 0) (fun _ => 0) 0x100 0x200 4 := by
  constructor
  · intro hreported
    have hok := hreported.1 rfl (.read 0x200 0x100 4, false) (List.mem_singleton_self _)
    exact absurd hok Bool.false_ne_true
  · intro hreported
    have hok := hreported.1 rfl (.write 0x200 0x100 4, false) (List.mem_singleton_self _)
    exact absurd hok Bool.false_ne_true

end Platform
end EspMisc
