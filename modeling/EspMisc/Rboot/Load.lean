/-
Loading an image.

`load_rom` copies the sections of an image to their addresses, block by block through a
buffer on the stack, and returns the entry point.  It does not look at what `SPIRead`
returns: where a read fails, the buffer still has what was there before.

`loadRom_spec` says that on a chip that answers the buffer does not matter, and
`loadRom_checked` puts the two passes together: what is loaded from the address that
`check_image` returned is what the checksum was about.
-/
import EspMisc.Rboot.Image
import EspMisc.Lib.Memory

namespace EspMisc
namespace Rboot

/-! ## The code -/

/-- What `SPIRead` leaves in the buffer. -/
def fill (chip : Chip) (buffer : Bytes) (addr : UInt32) (len : Nat) : Bytes :=
  match chip.spiRead addr len with
  | some b => b ++ buffer.drop len
  | none => buffer

/-- The variables of the inner loop. -/
structure Loading where
  buffer : Bytes
  readpos : UInt32
  writepos : UInt32
  memory : Ram

def copyBlock (chip : Chip) (readlen : Nat) (s : Loading) : Option Loading :=
  let buffer := fill chip s.buffer s.readpos readlen
  some {
    buffer := buffer
    readpos := s.readpos + UInt32.ofNat readlen
    writepos := s.writepos + UInt32.ofNat readlen
    memory := Ram.store s.memory s.writepos (buffer.take readlen) }

def copySection (chip : Chip) (s : Loading) : Option Loading :=
  let buffer := fill chip s.buffer s.readpos 8
  let remaining := (wordIn buffer 4).toNat
  blocks bufferSize (copyBlock chip) remaining remaining
    { buffer := buffer
      readpos := s.readpos + 8
      writepos := wordIn buffer 0
      memory := s.memory }

def copySections (chip : Chip) : Nat → Loading → Option Loading
  | 0, s => some s
  | sectcount + 1, s => (copySection chip s).bind (copySections chip sectcount)

/-- The entry point, and the memory.  The buffer is on the stack, so it starts with
whatever is there. -/
def loadRom (chip : Chip) (readpos : UInt32) (buffer : Bytes) (memory : Ram) :
    Option (UInt32 × Ram) :=
  let buffer := fill chip buffer readpos 8
  let usercode := wordIn buffer 4
  (copySections chip (buffer.getD 1 0).toNat ⟨buffer, readpos + 8, 0, memory⟩).map fun s =>
    (usercode, s.memory)

/-! ## What is loaded -/

/-- The ranges that an image is loaded to. -/
def Rom.ranges (rom : Rom) : List (UInt32 × Bytes) :=
  rom.sections.map fun s => (s.address, s.data)

section Load

variable {chip : Chip} (hchip : chip.Healthy)
include hchip

theorem fill_healthy (buffer : Bytes) {addr : UInt32} {len : Nat}
    (h : addr.toNat + len ≤ chip.size) :
    fill chip buffer addr len = Flash.read chip.contents addr.toNat len ++ buffer.drop len := by
  rw [fill, hchip addr len h]

/-- A word of a header that was read. -/
theorem wordIn_fill (buffer : Bytes) {addr : UInt32} (h : addr.toNat + 8 ≤ chip.size) {i : Nat}
    (hi : i + 3 < 8) :
    wordIn (fill chip buffer addr 8) i = wordAt chip.contents (addr.toNat + i) := by
  have hlen : (Flash.read chip.contents addr.toNat 8).length = 8 := Flash.length_read ..
  rw [fill_healthy hchip buffer h, ← wordIn_read chip.contents hi, wordIn, wordIn,
    List.getD_append _ _ _ _ (by omega), List.getD_append _ _ _ _ (by omega),
    List.getD_append _ _ _ _ (by omega), List.getD_append _ _ _ _ (by omega)]

/-- After `n` bytes of a section, which starts at `base` and goes to `d`. -/
structure Copied (chip : Chip) (base : Nat) (d : UInt32) (memory : Ram) (n : Nat) (s : Loading) :
    Prop where
  readpos : s.readpos.toNat = base + n
  writepos : s.writepos = d + UInt32.ofNat n
  memory : s.memory = Ram.store memory d (Flash.read chip.contents base n)

theorem copyBlock_copied {base n len total : Nat} {d : UInt32} {memory : Ram} {s : Loading}
    (htotal : base + total ≤ chip.size) (h : Copied chip base d memory n s)
    (hle : n + len ≤ total) :
    ∃ t, copyBlock chip len s = some t ∧ Copied chip base d memory (n + len) t := by
  have hpos := h.readpos
  refine ⟨_, rfl, ?_, ?_, ?_⟩
  · rw [toNat_add_of_le (by omega) chip.size_lt, hpos, Nat.add_assoc]
  · show s.writepos + UInt32.ofNat len = _
    rw [h.writepos, UInt32.add_assoc, UInt32.ofNat_add]
  · show Ram.store s.memory s.writepos ((fill chip s.buffer s.readpos len).take len) = _
    have hsize := chip.size_lt
    have hlen : (Flash.read chip.contents base n).length = n := Flash.length_read ..
    have hshort : n + (Flash.read chip.contents (base + n) len).length < 4294967296 := by
      rw [Flash.length_read]
      omega
    have happend := Ram.store_append memory d (hlen.symm ▸ hshort)
    rw [hlen] at happend
    rw [fill_healthy hchip _ (by omega), List.take_left' (Flash.length_read ..), h.memory,
      h.writepos, hpos, Flash.read_append, happend]

theorem copySection_spec {s : Loading}
    (h : s.readpos.toNat + 8 + lengthAt chip.contents s.readpos.toNat ≤ chip.size) :
    ∃ t, copySection chip s = some t ∧
      Copied chip (s.readpos.toNat + 8) (wordAt chip.contents s.readpos.toNat) s.memory
        (lengthAt chip.contents s.readpos.toNat) t := by
  have hle : s.readpos.toNat + 8 ≤ chip.size := by omega
  unfold copySection
  simp only [wordIn_fill hchip s.buffer hle (show 4 + 3 < 8 by decide),
    wordIn_fill hchip s.buffer hle (show 0 + 3 < 8 by decide)]
  refine blocks_total (by decide) (fun hs hn => copyBlock_copied hchip h hs hn)
    ⟨toNat_add_of_le hle chip.size_lt, (UInt32.add_zero _).symm, ?_⟩ (Nat.zero_add _)
    (Nat.le_refl _)
  exact (Ram.store_nil ..).symm

theorem copySections_spec {n : Nat} : ∀ {s : Loading},
    sectionsEnd s.readpos.toNat (sectionsAt chip.contents n s.readpos.toNat) ≤ chip.size →
    ∃ t, copySections chip n s = some t ∧ t.memory =
      Ram.storeAll s.memory
        ((sectionsAt chip.contents n s.readpos.toNat).map fun s => (s.address, s.data)) := by
  induction n with
  | zero =>
    intro s _
    exact ⟨s, rfl, rfl⟩
  | succ n ih =>
    intro s h
    rw [sectionsAt, sectionsEnd, Flash.length_read] at h
    have hinside : s.readpos.toNat + 8 + lengthAt chip.contents s.readpos.toNat ≤ chip.size :=
      Nat.le_trans (le_sectionsEnd ..) h
    obtain ⟨t, ht, hcopied⟩ := copySection_spec hchip hinside
    have hpos : t.readpos.toNat =
        s.readpos.toNat + 8 + (wordAt chip.contents (s.readpos.toNat + 4)).toNat := hcopied.readpos
    rw [← hpos] at h
    obtain ⟨u, hu, hmemory⟩ := ih h
    refine ⟨u, by rw [copySections, ht, Option.bind_some, hu], ?_⟩
    rw [hmemory, hcopied.memory, sectionsAt, ← hpos]
    rfl

/-- The loader copies the sections of the image whose standard header it is given. -/
theorem loadRom_spec {readpos : UInt32} (irom : Option Bytes) (buffer : Bytes) (memory : Ram)
    (h : (romFrom chip.contents irom readpos.toNat).stop ≤ chip.size) :
    loadRom chip readpos buffer memory =
      some ((romFrom chip.contents irom readpos.toNat).entry,
        Ram.storeAll memory (romFrom chip.contents irom readpos.toNat).ranges) := by
  have hle : readpos.toNat + 8 ≤ chip.size := Nat.le_trans (le_sectionsEnd ..) h
  have hcount : (fill chip buffer readpos 8).getD 1 0 = chip.contents (readpos.toNat + 1) := by
    rw [fill_healthy hchip buffer hle, List.getD_append _ _ _ _ (by rw [Flash.length_read]; decide),
      getD_read _ (by decide)]
  have hpos : (readpos + 8).toNat = readpos.toNat + 8 := toNat_add_eight hle
  unfold loadRom
  simp only [hcount, wordIn_fill hchip buffer hle (show 4 + 3 < 8 by decide)]
  have hend : sectionsEnd (readpos + 8).toNat (sectionsAt chip.contents
      (chip.contents (readpos.toNat + 1)).toNat (readpos + 8).toNat) ≤ chip.size := by
    rw [hpos]
    exact h
  obtain ⟨t, ht, hmemory⟩ := copySections_spec hchip
    (s := ⟨fill chip buffer readpos 8, readpos + 8, 0, memory⟩) hend
  rw [ht, Option.map_some, hmemory, hpos]
  rfl

theorem loadRom_accepted {addr : UInt32} {rom : Rom}
    (hrom : readRom chip.contents addr.toNat = some rom) (hparts : rom.parts < 255)
    (h : checkImage chip addr ≠ 0) (buffer : Bytes) (memory : Ram) :
    loadRom chip (checkImage chip addr) buffer memory =
      some (rom.entry, Ram.storeAll memory rom.ranges) := by
  obtain ⟨hstart, hinside, -⟩ := checkImage_sound hrom hparts h
  have hfrom : rom = romFrom chip.contents rom.irom rom.start := by
    rcases readRom_cases hrom with ⟨-, rfl⟩ | ⟨-, -, rfl⟩
    · rfl
    · rfl
  have hstop : (romFrom chip.contents rom.irom (checkImage chip addr).toNat).stop ≤ chip.size := by
    rw [hstart, ← hfrom]
    unfold Rom.chksumAt at hinside
    omega
  rw [loadRom_spec hchip rom.irom buffer memory hstop, hstart, ← hfrom]

/-- What is loaded is what was checked: from the address that `check_image` gives, the
loader copies the sections whose data the checksum is about, and goes to the entry point
in their header, whatever was on the stack. -/
theorem loadRom_checked {addr : UInt32} {rom : Rom}
    (hrom : readRom chip.contents addr.toNat = some rom) (hparts : rom.parts < 255)
    (h : checkImage chip addr ≠ 0) (buffer : Bytes) (memory : Ram) :
    chip.contents rom.chksumAt = calcChksum rom.data ∧
      loadRom chip (checkImage chip addr) buffer memory =
        some (rom.entry, Ram.storeAll memory rom.ranges) :=
  ⟨(checkImage_sound hrom hparts h).2.chksum,
    loadRom_accepted hchip hrom hparts h buffer memory⟩

end Load

/-- The section of the image in `sampleImage`. -/
theorem loadRom_checked_sample :
    loadRom sampleChip (checkImage sampleChip 16) [] (fun _ => 0) =
      some (0x40100000, Ram.storeAll (fun _ => 0) [(0x40100000, [0x56])]) := by
  have hrom : readRom sampleChip.contents (16 : UInt32).toNat = some sampleRom := readRom_sample
  exact (loadRom_checked (Chip.ofFlash_healthy _ _ _) hrom (by decide) (by decide +kernel) []
    fun _ => 0).2

end Rboot
end EspMisc
