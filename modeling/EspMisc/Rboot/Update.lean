/-
An update, from the elf file to the rom that runs.

The application writes an image to a slot, selects the slot and restarts; the loader
checks the images and loads one.  Two things matter to the device.

An update may stop at any moment, after calls that failed or with the power.  As long as
the image of some other slot is apart from the sectors that are written, the loader still
finds it (`update_interrupted`, `update_survives`).  A write that fails programs nothing.

An update that comes to its end runs: the loader boots the slot that was written, and
what is in memory then are the sections of the elf file that the image was made from
(`update_boots`).
-/
import EspMisc.Rboot.Confined
import EspMisc.Rboot.Damage
import EspMisc.Rboot.Search
import EspMisc.Rboot.Slots
import EspMisc.Tools.Esptool

namespace EspMisc
namespace Rboot

/-! ## What stays -/

/-- The sector is not one that is written to. -/
def Apart (lo hi s : Nat) : Prop := s < lo ∨ hi < s

/-- The flashes are the same where nothing was written. -/
def SameApart (lo hi : Nat) (f g : Flash) : Prop :=
  ∀ x, Apart lo hi (x / sectorSize) → g x = f x

/-- Whatever part of an update was done. -/
theorem update_sameApart {startAddr : UInt32} (hpos : 0 < startAddr.toNat)
    {calls : List WriteCall} (hend : startAddr.toNat + totalLength calls < 4294967296)
    {done : List Flash.Op} (hdone : done <+: ((Stream.start startAddr).runAll calls).log)
    (f : Flash) :
    SameApart (startAddr.toNat / sectorSize) (lastSector startAddr.toNat (totalLength calls)) f
      (Flash.after sectorSize f done) := by
  intro x hx
  have hconfined : Confined startAddr.toNat (0 + totalLength calls)
      ((Stream.start startAddr).runAll calls) :=
    runAll_confined hpos (start_confined startAddr) (by rw [Nat.zero_add]; exact hend)
  rw [Nat.zero_add] at hconfined
  apply Flash.after_untouched
  intro op hop htouch
  obtain ⟨hlo, hhi⟩ := hconfined.log op (hdone.subset hop) _ htouch
  rcases hx with hx | hx <;> omega

section Config

variable {lo hi : Nat} {f g : Flash}

theorem configSector_same (hlo : 2 ≤ lo) (h : SameApart lo hi f g) :
    configSector g = configSector f := by
  apply Flash.read_congr
  intro x hle hlt
  have hsector : x / sectorSize = 1 := by
    unfold configAddr bootConfigSector at *
    unfold sectorSize at *
    omega
  exact h x (.inl (by omega))

theorem valid_same (hlo : 2 ≤ lo) (h : SameApart lo hi f g) (hf : Valid f) :
    Valid g ∧ rbootGetConfig g = rbootGetConfig f := by
  have hsector := configSector_same hlo h
  have hget : rbootGetConfig g = rbootGetConfig f := by
    rw [rbootGetConfig_eq, rbootGetConfig_eq, hsector]
  exact ⟨⟨by rw [hsector]; exact hf.accepted, by rw [hget]; exact hf.count⟩, hget⟩

end Config

/-- Only the sector of the configuration is written. -/
theorem writeSector_other (f : Flash) {buffer : Bytes} (hlen : buffer.length = sectorSize) {x : Nat}
    (hx : x / sectorSize ≠ bootConfigSector) : writeSector f buffer x = f x := by
  have hout : x < configAddr ∨ configAddr + buffer.length ≤ x := by
    rw [hlen]
    unfold configAddr bootConfigSector at *
    unfold sectorSize at *
    omega
  rw [writeSector, Flash.program_other _ hout, Flash.eraseSector_other _ hx]

/-- Selecting a rom changes neither the slots nor what is in them. -/
theorem rbootSetCurrentRom_keeps {f : Flash} (h : Valid f) (rom : UInt8) (malloc : Bool) :
    Valid (rbootSetCurrentRom f rom malloc).2 ∧
      (rbootGetConfig (rbootSetCurrentRom f rom malloc).2).roms = (rbootGetConfig f).roms ∧
      ∀ x, x / sectorSize ≠ bootConfigSector → (rbootSetCurrentRom f rom malloc).2 x = f x := by
  by_cases hrom : rom < 4
  · cases malloc with
    | false =>
      rw [rbootSetCurrentRom_failed]
      exact ⟨h, rfl, fun _ _ => rfl⟩
    | true =>
      obtain ⟨f', hset, hvalid, -⟩ := rbootSetCurrentRom_valid h hrom
      have hcount : ¬ rom ≥ (rbootGetConfig f).count := by
        rw [h.count]
        exact UInt8.not_le.mpr hrom
      have hlen := length_configSector f
      have hwrite : (rbootSetCurrentRom f rom true).2 = writeSector f (storeConfig
          { noteRom (rbootGetConfig f) with currentRom := rom }.withChksum (configSector f)) := by
        rw [rbootSetCurrentRom, if_neg hcount]
        rfl
      have hvalid' : Valid (rbootSetCurrentRom f rom true).2 := by rw [hset]; exact hvalid
      refine ⟨hvalid', ?_, ?_⟩
      · rw [hwrite, rbootGetConfig_write f _ hlen]
        show (noteRom (rbootGetConfig f)).roms = _
        unfold noteRom
        split
        · rfl
        · split <;> rfl
      · intro x hx
        rw [hwrite]
        exact writeSector_other f (length_storeConfig _ hlen) hx
  · have hcount : rom ≥ (rbootGetConfig f).count := by
      rw [h.count]
      exact UInt8.not_lt.mp hrom
    have hsame : rbootSetCurrentRom f rom malloc = (false, f) := by
      rw [rbootSetCurrentRom, if_pos hcount]
    rw [hsame]
    exact ⟨h, rfl, fun _ _ => rfl⟩

/-! ## An update that stops -/

/-- A slot with an image that the loader accepts. -/
structure GoodSlot (f : Flash) (size : Nat) (hsize : size < 4294967296) (i : Fin 4) (rom : Rom) :
    Prop where
  image : readRom f ((rbootGetConfig f).roms i).toNat = some rom
  parts : rom.parts < 255
  good : checkImage (.ofFlash f size hsize) ((rbootGetConfig f).roms i) ≠ 0

/-- No byte of the image is in a sector that is written to. -/
def ImageApart (lo hi addr : Nat) (rom : Rom) : Prop :=
  ∀ x, addr ≤ x → x ≤ rom.chksumAt → Apart lo hi (x / sectorSize)

/-- A good slot stays good, with the same image. -/
theorem GoodSlot.same {f g : Flash} {size : Nat} {hsize : size < 4294967296} {i : Fin 4}
    {rom : Rom} (h : GoodSlot f size hsize i rom)
    (hroms : (rbootGetConfig g).roms = (rbootGetConfig f).roms)
    (hsame : ∀ x, ((rbootGetConfig f).roms i).toNat ≤ x → x ≤ rom.chksumAt → g x = f x) :
    GoodSlot g size hsize i rom ∧
      checkImage (.ofFlash g size hsize) ((rbootGetConfig f).roms i) =
        checkImage (.ofFlash f size hsize) ((rbootGetConfig f).roms i) := by
  obtain ⟨hrom, hcheck⟩ := @checkImage_congr (.ofFlash f size hsize) (.ofFlash g size hsize)
    (Chip.ofFlash_healthy g size hsize) rfl _ _ h.image h.parts h.good hsame
  refine ⟨⟨?_, h.parts, ?_⟩, hcheck⟩
  · rw [hroms]
    exact hrom
  · rw [hroms, hcheck]
    exact h.good

/-- However far the update of one slot came, and whichever calls failed on the way, for
want of memory or with a write that programs nothing, the selected rom is booted as before
if its image is apart from the slot: the same code is loaded, from the same place, and the
configuration has not changed. -/
theorem update_interrupted {f : Flash} (hvalid : Valid f) {i : Fin 4}
    (hi : (rbootGetConfig f).currentRom.toNat = i.val) {size : Nat} {hsize : size < 4294967296}
    {rom : Rom} (hslot : GoodSlot f size hsize i rom) {startAddr : UInt32}
    (hstart : 0x2000 ≤ startAddr.toNat) {calls : List WriteCall}
    (hend : startAddr.toNat + totalLength calls < 4294967296)
    (hapart : ImageApart (startAddr.toNat / sectorSize)
      (lastSector startAddr.toNat (totalLength calls)) ((rbootGetConfig f).roms i).toNat rom)
    {done : List Flash.Op} (hdone : done <+: ((Stream.start startAddr).runAll calls).log) :
    let g := Flash.after sectorSize f done
    let runAddr := checkImage (.ofFlash f size hsize) ((rbootGetConfig f).roms i)
    findImage g (checkImage (.ofFlash g size hsize)) = some ⟨g, runAddr, i.val⟩ ∧
      ∀ (buffer : Bytes) (memory : Ram),
        loadRom (.ofFlash g size hsize) runAddr buffer memory =
          some (rom.entry, Ram.storeAll memory rom.ranges) := by
  intro g runAddr
  have hsame := update_sameApart (show 0 < startAddr.toNat by omega) hend hdone f
  have hlo : 2 ≤ startAddr.toNat / sectorSize := by
    unfold sectorSize
    omega
  obtain ⟨hvalid', hget⟩ := valid_same hlo hsame hvalid
  obtain ⟨hslot', hcheck⟩ := hslot.same (congrArg RbootConfig.roms hget)
    fun x hle hlt => hsame x (hapart x hle hlt)
  have hselected : (rbootGetConfig g).currentRom < (rbootGetConfig g).count := by
    rw [hvalid'.count, UInt8.lt_iff_toNat_lt, hget, hi]
    exact i.isLt
  constructor
  · have hfound := findImage_good hvalid'.accepted hselected (by rw [hget]; exact hi) hslot'.good
    rw [hfound, hget, hcheck]
  · intro buffer memory
    have hload := @loadRom_accepted (.ofFlash g size hsize) (Chip.ofFlash_healthy g size hsize) _ _
      hslot'.image hslot'.parts hslot'.good buffer memory
    rw [hget, hcheck] at hload
    exact hload

/-- The loader always finds something to boot, whatever part of an update was done and
whatever slot is selected after it, if there is one good slot apart from the one that is
written. -/
theorem update_survives {f : Flash} (hvalid : Valid f) {i : Fin 4} {size : Nat}
    {hsize : size < 4294967296} {rom : Rom} (hslot : GoodSlot f size hsize i rom)
    (hslotAddr : 0x2000 ≤ ((rbootGetConfig f).roms i).toNat) {startAddr : UInt32}
    (hstart : 0x2000 ≤ startAddr.toNat) {calls : List WriteCall}
    (hend : startAddr.toNat + totalLength calls < 4294967296)
    (hapart : ImageApart (startAddr.toNat / sectorSize)
      (lastSector startAddr.toNat (totalLength calls)) ((rbootGetConfig f).roms i).toNat rom)
    {done : List Flash.Op} (hdone : done <+: ((Stream.start startAddr).runAll calls).log)
    (selected : UInt8) (malloc : Bool) :
    let g := (rbootSetCurrentRom (Flash.after sectorSize f done) selected malloc).2
    ∃ b, findImage g (checkImage (.ofFlash g size hsize)) = some b ∧ b.runAddr ≠ 0 := by
  intro g
  have hsame := update_sameApart (show 0 < startAddr.toNat by omega) hend hdone f
  have hlo : 2 ≤ startAddr.toNat / sectorSize := by
    unfold sectorSize
    omega
  obtain ⟨hvalid', hget⟩ := valid_same hlo hsame hvalid
  obtain ⟨hvalid'', hroms, hkeep⟩ := rbootSetCurrentRom_keeps hvalid' selected malloc
  rw [hget] at hroms
  obtain ⟨hslot', -⟩ := hslot.same hroms fun x hle hlt => by
    have hsector : x / sectorSize ≠ bootConfigSector := by
      unfold bootConfigSector sectorSize
      omega
    exact (hkeep x hsector).trans (hsame x (hapart x hle hlt))
  have hboot : bootConfig g = rbootGetConfig g := if_pos hvalid''.accepted
  have hcount : (bootConfig g).count = 4 := by rw [hboot]; exact hvalid''.count
  have hpos : 0 < (bootConfig g).count := by rw [hcount]; decide
  obtain ⟨b, hb, hsearched, -⟩ :=
    findImage_searched g (checkImage (.ofFlash g size hsize)) hpos
  refine ⟨b, hb, hsearched.runs (checkSelected_lt hpos) (i := i.val) ?_ ?_⟩
  · show i.val < (checkSelected (bootConfig g)).count.toNat
    rw [(checkSelected_spec _).2.2.1, hcount]
    exact i.isLt
  · rw [slotAddr_eq, hboot]
    exact hslot'.good

/-! ## An update that comes to its end -/

/-- Calls that all succeed are calls. -/
theorem runAll_of_writeAll {calls : List (Bytes × WriteAnswers)} : ∀ {s t : Stream},
    s.writeAll calls = some t → s.runAll (calls.map fun c => .flash c.1 c.2) = t := by
  induction calls with
  | nil =>
    intro s t h
    exact Option.some.inj h
  | cons call calls ih =>
    intro s t h
    simp only [Stream.writeAll] at h
    split at h
    · exact ih h
    · exact absurd h (by simp)

theorem totalLength_given (calls : List (Bytes × WriteAnswers)) :
    totalLength (calls.map fun c => .flash c.1 c.2) = (given calls).length := by
  induction calls with
  | nil => rfl
  | cons call calls ih =>
    rw [given, List.flatMap_cons, List.length_append]
    exact congrArg (call.1.length + ·) ih

/-- The rom number of a slot. -/
def slotNumber (i : Fin 4) : UInt8 := UInt8.ofNat i.val

theorem slotNumber_toNat (i : Fin 4) : (slotNumber i).toNat = i.val := by
  rw [slotNumber, UInt8.toNat_ofNat']
  exact Nat.mod_eq_of_lt (by omega)

open Esptool in
/-- An image that the tool has made, written to a slot in chunks of 1 to 4096 bytes, runs
after the slot was selected: the loader boots the slot, and it loads the sections of the elf
file and goes to its entry point.  The image has fewer than 254 sections, so that its parts
fit in a byte with the irom section.  The device has a valid configuration whose slot
starts at a multiple of 16, from the third sector on, and the image ends on the chip, which
has at most 16 MB. -/
theorem update_boots {elffile bytes : Bytes} {mode clock size : UInt8} {names : List Bytes}
    (h : createBinFile elffile 2 mode clock size true names = some bytes)
    (hnames : names.length < 254) {f : Flash} (hvalid : Valid f) {i : Fin 4}
    (hstart : 0x2000 ≤ ((rbootGetConfig f).roms i).toNat)
    (halign : ((rbootGetConfig f).roms i).toNat % 16 = 0) {chipSize : Nat}
    (hfits : ((rbootGetConfig f).roms i).toNat + bytes.length ≤ chipSize)
    (hchip : chipSize ≤ 0x1000000) {calls : List (Bytes × WriteAnswers)}
    (hgiven : given calls = bytes) (hlen : ∀ c ∈ calls, 0 < c.1.length ∧ c.1.length ≤ 4096)
    {s : Stream} (hs : (Stream.start ((rbootGetConfig f).roms i)).writeAll calls = some s) :
    ∃ elf secs, loadElf elffile = some elf ∧
      names.mapM (paddedSection elf sectionPadding) = some secs ∧
      ∀ answers : WriteAnswers, (rbootWriteEnd s.status answers).ops = [] ∧
      ∃ g, rbootSetCurrentRom (Flash.after sectorSize f s.log) (slotNumber i) true = (true, g) ∧
      ∃ runAddr, runAddr ≠ 0 ∧
        findImage g (checkImage (.ofFlash g chipSize (Nat.lt_of_le_of_lt hchip (by decide)))) =
          some ⟨g, runAddr, i.val⟩ ∧
        ∀ (buffer : Bytes) (memory : Ram),
          loadRom (.ofFlash g chipSize (Nat.lt_of_le_of_lt hchip (by decide))) runAddr buffer
              memory =
            some (elf.entry,
              Ram.storeAll memory (secs.map fun s => (s.address, s.data))) := by
  generalize haddr : (rbootGetConfig f).roms i = addr at *
  have hsize : chipSize < 4294967296 := Nat.lt_of_le_of_lt hchip (by decide)
  -- the image is in the flash
  have hstreamed : Streamed addr.toNat bytes s := by
    have hall := writeAll_streamed (show 0 < addr.toNat by omega) (start_streamed addr) hlen
      (by rw [List.nil_append, hgiven]; omega) hs
    rwa [List.nil_append, hgiven] at hall
  generalize hwritten : Flash.after sectorSize f s.log = written
  have hsame : SameApart (addr.toNat / sectorSize) (lastSector addr.toNat bytes.length) f
      written := by
    have hend : addr.toNat + totalLength (calls.map fun c => .flash c.1 c.2) < 4294967296 := by
      rw [totalLength_given, hgiven]
      omega
    have hcalls := update_sameApart (show 0 < addr.toNat by omega) hend (List.prefix_refl _) f
    rwa [totalLength_given, hgiven, runAll_of_writeAll hs, hwritten] at hcalls
  have hlo : 2 ≤ addr.toNat / sectorSize := by
    unfold sectorSize
    omega
  obtain ⟨hvalid', hget⟩ := valid_same hlo hsame hvalid
  obtain ⟨hmin, hlines⟩ := createBinFile_length h (by omega)
  have hwords : words bytes = bytes.length := by
    unfold words
    omega
  have hheld : Flash.read written addr.toNat bytes.length = bytes := by
    have hholds := hstreamed.written.holds f
    rw [hwords, List.take_length] at hholds
    rw [← hwritten]
    exact hholds
  -- selecting the slot leaves it there
  have hnumber : slotNumber i < 4 := by
    rw [UInt8.lt_iff_toNat_lt, slotNumber_toNat]
    exact i.isLt
  obtain ⟨g, hset, hvalidg, hsel⟩ := rbootSetCurrentRom_valid hvalid' hnumber
  obtain ⟨-, hroms, hkeep⟩ := rbootSetCurrentRom_keeps hvalid' (slotNumber i) true
  rw [hset, hget] at hroms
  rw [hset] at hkeep
  have hat : Flash.read g addr.toNat bytes.length = bytes := by
    refine (Flash.read_congr fun x hle _ => hkeep x ?_).trans hheld
    unfold bootConfigSector sectorSize
    omega
  have hselected : (rbootGetConfig g).currentRom = slotNumber i := congrArg Selection.currentRom hsel
  have hslot : (rbootGetConfig g).roms i = addr := (congrFun hroms i).trans haddr
  -- the loader
  obtain ⟨elf, irom, secs, rom, helf, -, hsecs, hrom, himage⟩ :=
    createBinFile_rom h (by omega) (by omega) halign hat
  have hparts : rom.parts < 255 := by
    rw [himage.parts, length_mapM hsecs]
    omega
  have hinside := himage.inside
  have hgood : checkImage (.ofFlash g chipSize hsize) addr ≠ 0 := by
    refine @checkImage_complete (.ofFlash g chipSize hsize) addr
      (Chip.ofFlash_healthy g chipSize hsize) rom hrom hparts ?_ ?_ ⟨?_, ?_⟩
    · rintro rfl
      exact absurd hstart (by decide)
    · show addr.toNat + 16 ≤ chipSize
      omega
    · show rom.chksumAt < chipSize
      omega
    · exact himage.chksum.mpr (.inl rfl)
  refine ⟨elf, secs, helf, hsecs, fun answers => ⟨?_, g, hset, _, hgood, ?_, ?_⟩⟩
  · rw [rbootWriteEnd, if_neg]
    rw [hstreamed.extraCount]
    omega
  · have hfound := @findImage_good g (checkImage (.ofFlash g chipSize hsize)) hvalidg.accepted
      (by rw [hvalidg.count, hselected]; exact hnumber) i (by rw [hselected, slotNumber_toNat])
      (by rw [hslot]; exact hgood)
    rw [hslot] at hfound
    exact hfound
  · intro buffer memory
    rw [@loadRom_accepted (.ofFlash g chipSize hsize) (Chip.ofFlash_healthy g chipSize hsize) addr
      rom hrom hparts hgood buffer memory, himage.entry, Rom.ranges, himage.sections]

/-! ## A device -/

/-- The configuration of `sampleFlash`, and an image in the first slot. -/
def deviceFlash : Flash := fun a =>
  if a / sectorSize = 2 then Esptool.slotFlash a else sampleFlash a

def deviceRom : Rom where
  start := 0x2020
  irom := some [0x12, 0x34, 0x56, 0, 0, 0, 0, 0, 0, 0, 0, 0, 0, 0, 0, 0]
  entry := 0x40100004
  sections := [⟨0x40100000, [1, 2, 3, 4, 5, 0, 0, 0]⟩]

theorem deviceFlash_valid : Valid deviceFlash ∧
    rbootGetConfig deviceFlash = sampleConfig.withChksum := by
  have hsame : SameApart 2 2 sampleFlash deviceFlash := by
    intro x hx
    apply if_neg
    rcases hx with hx | hx <;> omega
  obtain ⟨hvalid, hget⟩ := valid_same (Nat.le_refl 2) hsame sampleFlash_valid.1
  refine ⟨hvalid, hget.trans ?_⟩
  exact rbootGetConfig_write blankFlash sampleConfig.withChksum (length_configSector blankFlash)

theorem deviceFlash_roms : (rbootGetConfig deviceFlash).roms 0 = 0x2000 ∧
    (rbootGetConfig deviceFlash).roms 1 = 0x12000 := by
  rw [deviceFlash_valid.2]
  exact ⟨by decide, by decide⟩

theorem deviceFlash_good : GoodSlot deviceFlash 0x400000 (by decide) 0 deviceRom := by
  have hrom : readRom deviceFlash 0x2000 = some deviceRom := by decide +kernel
  have hintact : deviceRom.Intact deviceFlash 0x400000 := by
    constructor <;> decide +kernel
  refine ⟨?_, by decide, ?_⟩
  · rw [deviceFlash_roms.1]
    exact hrom
  · rw [deviceFlash_roms.1]
    exact @checkImage_complete (.ofFlash deviceFlash 0x400000 (by decide)) 0x2000
      (Chip.ofFlash_healthy _ _ _) deviceRom hrom (by decide) (by decide) (by decide) hintact

/-- A call that succeeds, and one that fails in the flash. -/
def deviceCalls : List WriteCall :=
  [.flash [1, 2, 3, 4, 5] ⟨true, true⟩, .flash [6, 7, 8, 9] ⟨true, false⟩]

theorem deviceFlash_apart :
    ImageApart ((0x12000 : UInt32).toNat / sectorSize)
      (lastSector (0x12000 : UInt32).toNat (totalLength deviceCalls)) 0x2000 deviceRom := by
  intro x _ hle
  have hlast : deviceRom.chksumAt = 0x203F := by decide
  left
  show x / 4096 < 18
  omega

theorem update_interrupted_sample :
    let g := Flash.after sectorSize deviceFlash ((Stream.start 0x12000).runAll deviceCalls).log
    ∃ runAddr, findImage g (checkImage (.ofFlash g 0x400000 (by decide))) =
      some ⟨g, runAddr, (0 : Fin 4).val⟩ := by
  have hi : (rbootGetConfig deviceFlash).currentRom.toNat = (0 : Fin 4).val := by
    rw [deviceFlash_valid.2]
    decide
  have hapart := deviceFlash_apart
  rw [show 0x2000 = ((rbootGetConfig deviceFlash).roms 0).toNat by
    rw [deviceFlash_roms.1]; rfl] at hapart
  exact ⟨_, (update_interrupted deviceFlash_valid.1 hi deviceFlash_good (by decide) (by decide) hapart
    (List.prefix_refl _)).1⟩

/-- The slot of the update is selected, though its image is bad. -/
theorem update_survives_sample :
    let g := (rbootSetCurrentRom (Flash.after sectorSize deviceFlash
      ((Stream.start 0x12000).runAll deviceCalls).log) 1 true).2
    ∃ b, findImage g (checkImage (.ofFlash g 0x400000 (by decide))) = some b ∧
      b.runAddr ≠ 0 := by
  have hapart := deviceFlash_apart
  rw [show 0x2000 = ((rbootGetConfig deviceFlash).roms 0).toNat by
    rw [deviceFlash_roms.1]; rfl] at hapart
  exact update_survives deviceFlash_valid.1 deviceFlash_good
    (by rw [deviceFlash_roms.1]; decide) (by decide) (by decide) hapart (List.prefix_refl _) 1 true

/-- The image in one chunk, to the second slot. -/
theorem update_boots_sample :
    ∃ s, (Stream.start ((rbootGetConfig deviceFlash).roms 1)).writeAll
        [(Esptool.sampleBytes, succeeds)] = some s ∧
      ∃ g, rbootSetCurrentRom (Flash.after sectorSize deviceFlash s.log) (slotNumber 1) true =
        (true, g) ∧ ∃ runAddr, runAddr ≠ 0 ∧
          findImage g (checkImage (.ofFlash g 0x400000 (by decide))) =
            some ⟨g, runAddr, (1 : Fin 4).val⟩ := by
  obtain ⟨s, hs⟩ := writeAll_succeeds [Esptool.sampleBytes]
    (.start ((rbootGetConfig deviceFlash).roms 1))
  have hlen : ∀ c ∈ [(Esptool.sampleBytes, succeeds)], 0 < c.1.length ∧ c.1.length ≤ 4096 := by
    decide +kernel
  have hroms : ((rbootGetConfig deviceFlash).roms 1).toNat = 0x12000 := by
    rw [deviceFlash_roms.2]
    rfl
  have hbytes : Esptool.sampleBytes.length = 0x40 := by decide +kernel
  have hgiven : given [(Esptool.sampleBytes, succeeds)] = Esptool.sampleBytes := by
    rw [given, List.flatMap_cons, List.flatMap_nil, List.append_nil]
  obtain ⟨_, _, -, -, hboots⟩ := update_boots Esptool.sampleBytes_eq (by decide) deviceFlash_valid.1
    (by rw [hroms]; decide) (by rw [hroms]) (show _ ≤ 0x400000 by rw [hroms, hbytes]; decide)
    (by decide) hgiven hlen hs
  obtain ⟨-, g, hset, runAddr, hrun, hfound, -⟩ := hboots succeeds
  exact ⟨s, hs, g, hset, runAddr, hrun, hfound⟩

end Rboot
end EspMisc
