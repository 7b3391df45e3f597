/-
The boot configuration.

The boot loader and the application share one record, at the start of a sector of its
own.  Either of them reads the sector, changes the record and writes the sector back, so
the rest of it stays; the checksum tells the loader whether to believe the record.
`rbootGetConfig_write` and `accepted_storeConfig` say what is read after a write.
-/
import Mathlib.Algebra.Ring.Nat
import Mathlib.Data.List.GetD
import EspMisc.Lib.Flash

namespace EspMisc
namespace Rboot

abbrev Bytes := List UInt8

/-! ## The record -/

def sectorSize : Nat := 0x1000

def bootConfigSector : Nat := 1

def bootConfigMagic : UInt8 := 0xE1

def bootConfigVersion : UInt8 := 0x01

def chksumInit : UInt8 := 0xEF

/-- `rboot_config`.  The fields of the application's own are the last roms. -/
structure RbootConfig where
  magic : UInt8
  version : UInt8
  mode : UInt8
  currentRom : UInt8
  gpioRom : UInt8
  count : UInt8
  lastMainRom : UInt8
  lastSetupRom : UInt8
  roms : Fin 4 → UInt32
  chksum : UInt8
  block : Fin 3 → UInt8

/-- Byte `i` of a word in memory, which has the lowest one first. -/
def byte (x : UInt32) (i : Nat) : UInt8 := UInt8.ofNat (x.toNat / 256 ^ i)

def word (b₀ b₁ b₂ b₃ : UInt8) : UInt32 :=
  UInt32.ofNat (b₀.toNat + 256 * b₁.toNat + 65536 * b₂.toNat + 16777216 * b₃.toNat)

theorem word_byte (x : UInt32) : word (byte x 0) (byte x 1) (byte x 2) (byte x 3) = x := by
  have hlt := x.toNat_lt
  apply UInt32.toNat_inj.mp
  simp only [word, byte, UInt32.toNat_ofNat', UInt8.toNat_ofNat']
  omega

namespace RbootConfig

/-- `sizeof(rboot_config)`. -/
def size : Nat := 28

/-- The offset of `chksum`. -/
def chksumOffset : Nat := 24

/-- The record in memory. -/
def toBytes (c : RbootConfig) : Bytes :=
  [c.magic, c.version, c.mode, c.currentRom, c.gpioRom, c.count, c.lastMainRom, c.lastSetupRom,
    byte (c.roms 0) 0, byte (c.roms 0) 1, byte (c.roms 0) 2, byte (c.roms 0) 3,
    byte (c.roms 1) 0, byte (c.roms 1) 1, byte (c.roms 1) 2, byte (c.roms 1) 3,
    byte (c.roms 2) 0, byte (c.roms 2) 1, byte (c.roms 2) 2, byte (c.roms 2) 3,
    byte (c.roms 3) 0, byte (c.roms 3) 1, byte (c.roms 3) 2, byte (c.roms 3) 3,
    c.chksum, c.block 0, c.block 1, c.block 2]

/-- The record that a pointer to `b` points to. -/
def ofBytes (b : Bytes) : RbootConfig where
  magic := b.getD 0 0
  version := b.getD 1 0
  mode := b.getD 2 0
  currentRom := b.getD 3 0
  gpioRom := b.getD 4 0
  count := b.getD 5 0
  lastMainRom := b.getD 6 0
  lastSetupRom := b.getD 7 0
  roms i := word (b.getD (8 + 4 * i) 0) (b.getD (9 + 4 * i) 0) (b.getD (10 + 4 * i) 0)
    (b.getD (11 + 4 * i) 0)
  chksum := b.getD 24 0
  block i := b.getD (25 + i) 0

theorem ofBytes_toBytes (c : RbootConfig) (rest : Bytes) : ofBytes (c.toBytes ++ rest) = c := by
  obtain ⟨magic, version, mode, currentRom, gpioRom, count, lastMainRom, lastSetupRom, roms,
    chksum, block⟩ := c
  simp only [ofBytes, toBytes, mk.injEq]
  refine ⟨rfl, rfl, rfl, rfl, rfl, rfl, rfl, rfl, ?_, rfl, ?_⟩
  · funext i
    match i with
    | 0 | 1 | 2 | 3 => exact word_byte _
  · funext i
    match i with
    | 0 | 1 | 2 => rfl

/-- Nothing after the record is looked at. -/
theorem ofBytes_append {l : Bytes} (h : l.length = size) (r : Bytes) :
    ofBytes (l ++ r) = ofBytes l := by
  have hget : ∀ k, k < 28 → (l ++ r).getD k 0 = l.getD k 0 := by
    intro k hk
    exact List.getD_append _ _ _ _ (Nat.lt_of_lt_of_eq hk h.symm)
  simp only [ofBytes, mk.injEq]
  refine ⟨hget _ (by decide), hget _ (by decide), hget _ (by decide), hget _ (by decide),
    hget _ (by decide), hget _ (by decide), hget _ (by decide), hget _ (by decide), ?_,
    hget _ (by decide), ?_⟩
  · funext i
    rw [hget _ (by omega), hget _ (by omega), hget _ (by omega), hget _ (by omega)]
  · funext i
    exact hget _ (by omega)

end RbootConfig

def calcChksum (b : Bytes) : UInt8 := b.foldl (· ^^^ ·) chksumInit

/-- The record with its checksum. -/
def RbootConfig.withChksum (c : RbootConfig) : RbootConfig :=
  { c with chksum := calcChksum (c.toBytes.take RbootConfig.chksumOffset) }

/-! ## The sector -/

def configAddr : Nat := bootConfigSector * sectorSize

/-- The sector that the record is at the start of. -/
def configSector (f : Flash) : Bytes := Flash.read f configAddr sectorSize

/-- Copies the record over the start of a buffer. -/
def storeConfig (c : RbootConfig) (buffer : Bytes) : Bytes :=
  c.toBytes ++ buffer.drop RbootConfig.size

def writeSector (f : Flash) (buffer : Bytes) : Flash :=
  Flash.program (Flash.eraseSector sectorSize f bootConfigSector) configAddr buffer

def rbootGetConfig (f : Flash) : RbootConfig :=
  .ofBytes (Flash.read f configAddr RbootConfig.size)

/-- `malloc` is whether `os_malloc` has memory. -/
def rbootSetConfig (f : Flash) (conf : RbootConfig) (malloc : Bool) : Bool × Flash :=
  if malloc = false then (false, f)
  else (true, writeSector f (storeConfig conf.withChksum (configSector f)))

/-- The test of `find_image`: the loader believes the record in its buffer. -/
def accepted (buffer : Bytes) : Bool :=
  let romconf := RbootConfig.ofBytes buffer
  romconf.magic = bootConfigMagic ∧ romconf.version = bootConfigVersion ∧
    romconf.chksum = calcChksum (buffer.take RbootConfig.chksumOffset)

/-! ## What is read after a write -/

@[simp] theorem length_configSector (f : Flash) : (configSector f).length = sectorSize :=
  Flash.length_read ..

@[simp] theorem length_storeConfig (c : RbootConfig) {buffer : Bytes}
    (h : buffer.length = sectorSize) : (storeConfig c buffer).length = sectorSize := by
  rw [storeConfig, List.length_append, List.length_drop, h]
  rfl

/-- A sector that was written is read as it was written. -/
theorem configSector_write (f : Flash) {buffer : Bytes} (h : buffer.length = sectorSize) :
    configSector (writeSector f buffer) = buffer := by
  have hblank : ∀ a, configAddr ≤ a → a < configAddr + buffer.length →
      Flash.eraseSector sectorSize f bootConfigSector a = 0xFF := by
    intro a hle hlt
    apply Flash.eraseSector_self
    rw [h] at hlt
    unfold configAddr bootConfigSector sectorSize at *
    omega
  have hread := Flash.read_program hblank
  rwa [h] at hread

theorem rbootGetConfig_eq (f : Flash) : rbootGetConfig f = .ofBytes (configSector f) := by
  unfold configSector
  rw [show sectorSize = RbootConfig.size + (sectorSize - RbootConfig.size) from rfl,
    Flash.read_append, RbootConfig.ofBytes_append (Flash.length_read ..)]
  rfl

theorem rbootGetConfig_write (f : Flash) (c : RbootConfig) {buffer : Bytes}
    (h : buffer.length = sectorSize) :
    rbootGetConfig (writeSector f (storeConfig c buffer)) = c := by
  rw [rbootGetConfig_eq, configSector_write f (length_storeConfig c h), storeConfig,
    RbootConfig.ofBytes_toBytes]

/-- The rest of the sector is written back as it was. -/
theorem writeSector_rest (f : Flash) (c : RbootConfig) {a : Nat}
    (hle : configAddr + RbootConfig.size ≤ a) (hlt : a < configAddr + sectorSize) :
    writeSector f (storeConfig c (configSector f)) a = f a := by
  have hsplit (g : Flash) : configSector g = Flash.read g configAddr RbootConfig.size ++
      Flash.read g (configAddr + RbootConfig.size) (sectorSize - RbootConfig.size) :=
    Flash.read_append g configAddr RbootConfig.size (sectorSize - RbootConfig.size)
  have hstored : storeConfig c (configSector f) = c.toBytes ++
      Flash.read f (configAddr + RbootConfig.size) (sectorSize - RbootConfig.size) := by
    rw [storeConfig, hsplit, List.drop_left' (Flash.length_read ..)]
  have hwritten := configSector_write f (length_storeConfig c (length_configSector f))
  rw [hstored, hsplit] at hwritten
  rw [hstored]
  have hrest := (List.append_inj hwritten (Flash.length_read ..)).2
  refine Flash.eq_of_read_eq hrest hle ?_
  unfold RbootConfig.size sectorSize at *
  omega

/-- A record with its checksum is believed when its magic and its version are right. -/
theorem accepted_storeConfig {c : RbootConfig} (hmagic : c.magic = bootConfigMagic)
    (hversion : c.version = bootConfigVersion) (buffer : Bytes) :
    accepted (storeConfig c.withChksum buffer) = true := by
  have htake : (storeConfig c.withChksum buffer).take RbootConfig.chksumOffset =
      c.toBytes.take RbootConfig.chksumOffset := rfl
  unfold accepted
  rw [htake, storeConfig, RbootConfig.ofBytes_toBytes, decide_eq_true_iff]
  exact ⟨hmagic, hversion, rfl⟩

end Rboot
end EspMisc
