/-
The boot loader.

`find_image` reads the configuration, writes a default one if it does not believe what it
reads, and boots the selected rom or, if its image is bad, the next one below that is
good.  `check_image` is an argument: it may answer anything for any address.  What the
loader makes of the configuration is said once, in `findImage_kept`.
-/
import EspMisc.Rboot.Config

namespace EspMisc
namespace Rboot

/-! ## The code -/

/-- The flash size, by the top half of `flags2` in the header of the rom at 0. -/
def flashSize (f : Flash) : Nat :=
  match (f 3).toNat / 16 with
  | 0 => 0x80000
  | 1 => 0x40000
  | 2 => 0x100000
  | 3 => 0x200000
  | 4 => 0x400000
  | _ => 0x80000

/-- The record after `ets_memset`. -/
def clearedConfig : RbootConfig where
  magic := 0
  version := 0
  mode := 0
  currentRom := 0
  gpioRom := 0
  count := 0
  lastMainRom := 0
  lastSetupRom := 0
  roms _ := 0
  chksum := 0
  block _ := 0

def defaultConfig (romconf : RbootConfig) (flashsize : Nat) : RbootConfig :=
  { romconf with
    count := 4
    roms := fun
      | 0 => UInt32.ofNat (sectorSize * (bootConfigSector + 1))
      | 1 => UInt32.ofNat (flashsize / 8 + sectorSize * (bootConfigSector + 1))
      | 2 => UInt32.ofNat (flashsize / 4 + sectorSize * (bootConfigSector + 1))
      | 3 => UInt32.ofNat (flashsize / 2 + sectorSize * (bootConfigSector + 1)) }

/-- The configuration of a fresh install. -/
def freshConfig (f : Flash) : RbootConfig :=
  (defaultConfig { clearedConfig with magic := bootConfigMagic, version := bootConfigVersion }
    (flashSize f)).withChksum

/-- The first part of `find_image`: the flash and the buffer once the configuration is
read, or replaced. -/
def loadConfig (f : Flash) : Flash × Bytes :=
  let buffer := configSector f
  if accepted buffer then (f, buffer)
  else
    let buffer := storeConfig (freshConfig f) buffer
    (writeSector f buffer, buffer)

/-- `roms[i]` in the buffer; an index outside of the array reads what lies there. -/
def romAt (buffer : Bytes) (i : Int) : UInt32 :=
  let offset := (8 + 4 * i).toNat
  word (buffer.getD offset 0) (buffer.getD (offset + 1) 0) (buffer.getD (offset + 2) 0)
    (buffer.getD (offset + 3) 0)

/-- The `while` loop: `romToBoot` and `runAddr` at its end, or at `return 0`. -/
def tryRoms (romconf : RbootConfig) (checkRom : Int → UInt32) :
    Nat → Int → UInt32 → Option (Int × UInt32)
  | 0, romToBoot, runAddr => if runAddr ≠ 0 then some (romToBoot, runAddr) else none
  | fuel + 1, romToBoot, runAddr =>
    if runAddr ≠ 0 then some (romToBoot, runAddr)
    else
      let romToBoot := romToBoot - 1
      let romToBoot := if romToBoot < 0 then (romconf.count.toNat : Int) - 1 else romToBoot
      if romToBoot = romconf.currentRom.toNat then some (romToBoot, 0)
      else tryRoms romconf checkRom fuel romToBoot (checkRom romToBoot)

/-- What `find_image` returns, with the rom it chose and the flash it leaves. -/
structure Booted where
  flash : Flash
  runAddr : UInt32
  romToBoot : Int

/-- The record once the selected rom is checked against the number of roms. -/
def checkSelected (romconf : RbootConfig) : RbootConfig :=
  if romconf.currentRom ≥ romconf.count then { romconf with currentRom := 0, lastSetupRom := 0 }
  else romconf

/-- A rom number as the `uint8` that the record has for it. -/
def romNumber (romToBoot : Int) : UInt8 := UInt8.ofNat (romToBoot % 256).toNat

theorem romNumber_toNat (rom : UInt8) : romNumber rom.toNat = rom := by
  have hlt := rom.toNat_lt
  apply UInt8.toNat_inj.mp
  rw [romNumber, UInt8.toNat_ofNat']
  omega

/-- The end of `find_image`. -/
def finishBoot (f : Flash) (buffer : Bytes) (romconf : RbootConfig) (updateConfig : Bool)
    (romToBoot : Int) (runAddr : UInt32) : Booted :=
  if runAddr = 0 then ⟨f, 0, romToBoot⟩
  else if updateConfig then
    let romconf := { romconf with currentRom := romNumber romToBoot }
    ⟨writeSector f (storeConfig romconf.withChksum buffer), runAddr, romToBoot⟩
  else ⟨f, runAddr, romToBoot⟩

/-- The second part of `find_image`.  The record is the start of the buffer.  The result is
`none` when the function does not return; with any roms it does (`findImage_isSome`). -/
def bootRom (f : Flash) (buffer : Bytes) (checkImage : UInt32 → UInt32) : Option Booted :=
  let read := RbootConfig.ofBytes buffer
  let romconf := checkSelected read
  let checkRom := fun i => checkImage (romAt (storeConfig romconf buffer) i)
  let selected : Int := romconf.currentRom.toNat
  let updateConfig := decide (read.currentRom ≥ read.count) || checkRom selected == 0
  (tryRoms romconf checkRom 256 selected (checkRom selected)).map fun booted =>
    finishBoot f buffer romconf updateConfig booted.1 booted.2

def findImage (f : Flash) (checkImage : UInt32 → UInt32) : Option Booted :=
  bootRom (loadConfig f).1 (loadConfig f).2 checkImage

/-! ## What the loader makes of the configuration -/

/-- The configuration the loader works with. -/
def bootConfig (f : Flash) : RbootConfig :=
  if accepted (configSector f) then rbootGetConfig f else freshConfig f

theorem loadConfig_spec (f : Flash) :
    configSector (loadConfig f).1 = (loadConfig f).2 ∧ accepted (loadConfig f).2 = true ∧
      rbootGetConfig (loadConfig f).1 = bootConfig f := by
  simp only [loadConfig, bootConfig]
  by_cases hacc : accepted (configSector f) = true
  · simp only [if_pos hacc]
    exact ⟨trivial, hacc, trivial⟩
  · simp only [if_neg hacc]
    refine ⟨configSector_write f (length_storeConfig _ (length_configSector f)), ?_,
      rbootGetConfig_write f _ (length_configSector f)⟩
    exact accepted_storeConfig rfl rfl _

theorem loadConfig_accepted {f : Flash} (h : accepted (configSector f) = true) :
    loadConfig f = (f, configSector f) := by
  unfold loadConfig
  rw [if_pos h]

/-- A configuration that was stored is read back with its checksum, the rest of the sector
stays, and the loader believes it if its magic and its version are right. -/
theorem rbootSetConfig_round_trip (f : Flash) (conf : RbootConfig) :
    (rbootSetConfig f conf true).1 = true ∧
    rbootGetConfig (rbootSetConfig f conf true).2 =
      { conf with chksum := calcChksum (conf.toBytes.take RbootConfig.chksumOffset) } ∧
    (∀ a, configAddr + RbootConfig.size ≤ a → a < configAddr + sectorSize →
      (rbootSetConfig f conf true).2 a = f a) ∧
    (conf.magic = bootConfigMagic → conf.version = bootConfigVersion →
      accepted (configSector (rbootSetConfig f conf true).2) = true ∧
        loadConfig (rbootSetConfig f conf true).2 =
          ((rbootSetConfig f conf true).2, configSector (rbootSetConfig f conf true).2)) := by
  have hset : rbootSetConfig f conf true =
      (true, writeSector f (storeConfig conf.withChksum (configSector f))) := rfl
  rw [hset]
  have hlen := length_configSector f
  refine ⟨rfl, rbootGetConfig_write f conf.withChksum hlen, ?_, ?_⟩
  · intro a hle hlt
    exact writeSector_rest f conf.withChksum hle hlt
  · intro hmagic hversion
    have hacc := accepted_storeConfig hmagic hversion (configSector f)
    rw [← configSector_write f (length_storeConfig conf.withChksum hlen)] at hacc
    exact ⟨hacc, loadConfig_accepted hacc⟩

/-- The default configuration, stored over a blank flash, is kept by the loader. -/
theorem rbootSetConfig_fresh_kept :
    accepted (configSector (rbootSetConfig (fun _ => 0xFF) (freshConfig fun _ => 0xFF) true).2) =
      true :=
  ((rbootSetConfig_round_trip (fun _ => 0xFF) (freshConfig fun _ => 0xFF)).2.2.2 rfl rfl).1

/-- The record in the buffer is the one in the flash. -/
theorem loadConfig_buffer (f : Flash) : RbootConfig.ofBytes (loadConfig f).2 = bootConfig f := by
  obtain ⟨hsector, -, hget⟩ := loadConfig_spec f
  rw [← hget, rbootGetConfig_eq, hsector]

/-- What the loader may change in a configuration `c` that it believes. -/
structure Kept (c : RbootConfig) (f : Flash) : Prop where
  accepted : accepted (configSector f) = true
  count : (rbootGetConfig f).count = c.count
  lastMainRom : (rbootGetConfig f).lastMainRom = c.lastMainRom
  lastSetupRom : (rbootGetConfig f).lastSetupRom = c.lastSetupRom ∨
    (rbootGetConfig f).lastSetupRom = 0

theorem kept_write {c c' : RbootConfig} (f : Flash) {buffer : Bytes}
    (hlen : buffer.length = sectorSize) (hmagic : c'.magic = bootConfigMagic)
    (hversion : c'.version = bootConfigVersion) (hcount : c'.count = c.count)
    (hmain : c'.lastMainRom = c.lastMainRom)
    (hsetup : c'.lastSetupRom = c.lastSetupRom ∨ c'.lastSetupRom = 0) :
    Kept c (writeSector f (storeConfig c'.withChksum buffer)) := by
  have hget := rbootGetConfig_write f c'.withChksum hlen
  refine ⟨?_, ?_, ?_, ?_⟩
  · rw [configSector_write f (length_storeConfig _ hlen)]
    exact accepted_storeConfig hmagic hversion buffer
  · rw [hget]
    exact hcount
  · rw [hget]
    exact hmain
  · rw [hget]
    exact hsetup

theorem accepted_magic {buffer : Bytes} (h : accepted buffer = true) :
    (RbootConfig.ofBytes buffer).magic = bootConfigMagic ∧
      (RbootConfig.ofBytes buffer).version = bootConfigVersion := by
  unfold accepted at h
  rw [decide_eq_true_iff] at h
  exact ⟨h.1, h.2.1⟩

theorem checkSelected_spec (c : RbootConfig) :
    (checkSelected c).magic = c.magic ∧ (checkSelected c).version = c.version ∧
      (checkSelected c).count = c.count ∧ (checkSelected c).lastMainRom = c.lastMainRom ∧
      ((checkSelected c).lastSetupRom = c.lastSetupRom ∨ (checkSelected c).lastSetupRom = 0) := by
  unfold checkSelected
  split
  · exact ⟨rfl, rfl, rfl, rfl, Or.inr rfl⟩
  · exact ⟨rfl, rfl, rfl, rfl, Or.inl rfl⟩

theorem finishBoot_kept {c : RbootConfig} {f : Flash} (hf : Kept c f)
    (hmagic : c.magic = bootConfigMagic) (hversion : c.version = bootConfigVersion)
    {buffer : Bytes} (hlen : buffer.length = sectorSize) (updateConfig : Bool) (romToBoot : Int)
    (runAddr : UInt32) :
    Kept c (finishBoot f buffer (checkSelected c) updateConfig romToBoot runAddr).flash := by
  obtain ⟨h1, h2, h3, h4, h5⟩ := checkSelected_spec c
  unfold finishBoot
  split
  · exact hf
  · split
    · exact kept_write f hlen (h1.trans hmagic) (h2.trans hversion) h3 h4 h5
    · exact hf

theorem findImage_kept {f : Flash} {checkImage : UInt32 → UInt32} {b : Booted}
    (h : findImage f checkImage = some b) : Kept (bootConfig f) b.flash := by
  obtain ⟨hsector, hacc, hget⟩ := loadConfig_spec f
  obtain ⟨hmagic, hversion⟩ := accepted_magic hacc
  have hof := loadConfig_buffer f
  obtain ⟨booted, -, hb⟩ := Option.map_eq_some_iff.mp h
  rw [← hb, hof]
  rw [hof] at hmagic hversion
  apply finishBoot_kept _ hmagic hversion
  · rw [← hsector]
    exact length_configSector _
  · refine ⟨?_, ?_, ?_, ?_⟩
    · rw [hsector]
      exact hacc
    · rw [hget]
    · rw [hget]
    · rw [hget]
      exact Or.inl rfl

theorem tryRoms_good {romconf : RbootConfig} {checkRom : Int → UInt32} {runAddr : UInt32}
    (h : runAddr ≠ 0) (fuel : Nat) (romToBoot : Int) :
    tryRoms romconf checkRom fuel romToBoot runAddr = some (romToBoot, runAddr) := by
  cases fuel with
  | zero => rw [tryRoms, if_pos h]
  | succ fuel => rw [tryRoms, if_pos h]

/-- The loop goes down through the roms until it comes back to the selected one. -/
theorem tryRoms_isSome {romconf : RbootConfig} {checkRom : Int → UInt32} {fuel : Nat} :
    ∀ {romToBoot : Int} {runAddr : UInt32}, romconf.currentRom < romconf.count →
      0 ≤ romToBoot → romToBoot < romconf.count.toNat →
      (if romconf.currentRom.toNat < romToBoot then romToBoot - romconf.currentRom.toNat
        else romToBoot + romconf.count.toNat - romconf.currentRom.toNat) ≤ (fuel : Int) →
      (tryRoms romconf checkRom fuel romToBoot runAddr).isSome := by
  induction fuel with
  | zero =>
    intro romToBoot runAddr hlt hnonneg hcount hfuel
    have hlt := UInt8.lt_iff_toNat_lt.mp hlt
    split at hfuel <;> omega
  | succ fuel ih =>
    intro romToBoot runAddr hlt hnonneg hcount hfuel
    have hsel := UInt8.lt_iff_toNat_lt.mp hlt
    rw [tryRoms]
    split
    · rfl
    · simp only
      generalize hnext : (if romToBoot - 1 < 0 then (romconf.count.toNat : Int) - 1
        else romToBoot - 1) = next
      have hrange : 0 ≤ next ∧ next < romconf.count.toNat := by
        split at hnext <;> omega
      split
      · rfl
      · next hother =>
        apply ih hlt hrange.1 hrange.2
        split at hfuel <;> split at hnext <;> split <;> omega

theorem checkSelected_lt {c : RbootConfig} (h : 0 < c.count) :
    (checkSelected c).currentRom < (checkSelected c).count := by
  unfold checkSelected
  split
  · exact h
  · next hlt => exact UInt8.not_le.mp hlt

/-- The loader returns when there are roms. -/
theorem findImage_isSome {f : Flash} (checkImage : UInt32 → UInt32)
    (h : 0 < (bootConfig f).count) : (findImage f checkImage).isSome := by
  have hof := loadConfig_buffer f
  have hlt := checkSelected_lt h
  have hsel := UInt8.lt_iff_toNat_lt.mp hlt
  have hcount := (checkSelected (bootConfig f)).count.toNat_lt
  rw [findImage, bootRom, hof, Option.isSome_map]
  apply tryRoms_isSome hlt
  · omega
  · omega
  · split <;> omega

/-- With a good image the selected rom is booted, and the configuration stays. -/
theorem findImage_selected {f : Flash} {checkImage : UInt32 → UInt32}
    (hacc : accepted (configSector f) = true)
    (hlt : (rbootGetConfig f).currentRom < (rbootGetConfig f).count)
    (hgood : ∀ addr, checkImage addr ≠ 0) :
    ∃ runAddr, runAddr ≠ 0 ∧ findImage f checkImage =
      some ⟨f, runAddr, (rbootGetConfig f).currentRom.toNat⟩ := by
  have hload := loadConfig_accepted hacc
  have hvalid : ¬ (rbootGetConfig f).currentRom ≥ (rbootGetConfig f).count :=
    UInt8.not_le.mpr hlt
  have hcheck : checkSelected (rbootGetConfig f) = rbootGetConfig f := if_neg hvalid
  have hrun := hgood (romAt (storeConfig (rbootGetConfig f) (configSector f))
    (rbootGetConfig f).currentRom.toNat)
  refine ⟨_, hrun, ?_⟩
  rw [findImage, hload, bootRom, ← rbootGetConfig_eq, hcheck]
  simp only [tryRoms_good hrun, Option.map_some, finishBoot, if_neg hrun]
  rw [if_neg]
  simp [hvalid, hgood]

end Rboot
end EspMisc
