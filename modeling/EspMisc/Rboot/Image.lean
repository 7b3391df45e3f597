/-
Images, and the check of the boot loader.

An image has a header, a number of sections and a checksum, which is in the last byte of
its 16 bytes.  An image of the new type has an irom section, with a header of its own,
before the rest.  `check_image` goes through all of them with a buffer of 256 bytes, and
returns the address of the standard header, or 0.

`readRom` is what the headers in a flash say.  `checkImage_iff` says that the check is
about that image: what is accepted is one whose checksum is right.  The count of the
sections is in one byte, in which `0xFF` also says that the irom section comes first; the
check goes wrong for an image with 255 parts or more, and no image below that.
-/
import EspMisc.Rboot.Boot
import EspMisc.Lib.Blocks

namespace EspMisc
namespace Rboot

/-! ## The code -/

/-- A flash chip, as the functions in the rom see it.  `SPIRead` gives what is there.  It
fails for what is not on the chip, and may fail for what is. -/
structure Chip where
  contents : Flash
  size : Nat
  size_lt : size < 4294967296
  spiRead : UInt32 → Nat → Option Bytes
  sound : ∀ {addr : UInt32} {len : Nat} {b : Bytes}, spiRead addr len = some b →
    addr.toNat + len ≤ size ∧ b = Flash.read contents addr.toNat len

def romMagic : UInt8 := 0xE9

def romMagicNew1 : UInt8 := 0xEA

def romMagicNew2 : UInt8 := 0x04

def bufferSize : Nat := 0x100

/-- The word at an offset of a buffer. -/
def wordIn (b : Bytes) (i : Nat) : UInt32 :=
  word (b.getD i 0) (b.getD (i + 1) 0) (b.getD (i + 2) 0) (b.getD (i + 3) 0)

/-- A block of a section: `readpos` and `chksum` after it. -/
def addBlock (chip : Chip) (readlen : Nat) (s : UInt32 × UInt8) : Option (UInt32 × UInt8) :=
  (chip.spiRead s.1 readlen).map fun buffer =>
    (s.1 + UInt32.ofNat readlen, xorSum s.2 buffer)

/-- A section, with its header. -/
def checkSection (chip : Chip) (readpos : UInt32) (chksum : UInt8) : Option (UInt32 × UInt8) :=
  (chip.spiRead readpos 8).bind fun header =>
    let remaining := (wordIn header 4).toNat
    blocks bufferSize (addBlock chip) remaining remaining (readpos + 8, chksum)

/-- The `for` loop.  A count of `0xFF` says that the standard header is still to come. -/
def checkSections (chip : Chip) :
    Nat → UInt8 → UInt8 → UInt32 → UInt8 → Option (UInt32 × UInt8)
  | 0, _, _, _, _ => none
  | fuel + 1, sectcurrent, sectcount, readpos, chksum =>
    if sectcurrent < sectcount then
      (checkSection chip readpos chksum).bind fun s =>
        if sectcount = 0xFF then
          (chip.spiRead s.1 8).bind fun header =>
            checkSections chip fuel (sectcurrent + 1) (header.getD 1 0 + 1) (s.1 + 8) s.2
        else checkSections chip fuel (sectcurrent + 1) sectcount s.1 s.2
    else some (readpos, chksum)

/-- `check_image` from the loop on. -/
def checkParts (chip : Chip) (romaddr : UInt32) (sectcount : UInt8) (readpos : UInt32) :
    UInt32 :=
  match checkSections chip 256 0 sectcount readpos chksumInit with
  | none => 0
  | some (readpos, chksum) =>
    match chip.spiRead (readpos ||| 0x0F) 1 with
    | none => 0
    | some buffer => if buffer.getD 0 0 ≠ chksum then 0 else romaddr

def checkImage (chip : Chip) (readpos : UInt32) : UInt32 :=
  if readpos = 0 ∨ readpos = 0xFFFFFFFF then 0
  else
    match chip.spiRead readpos 16 with
    | none => 0
    | some header =>
      if header.getD 0 0 = romMagic then
        checkParts chip readpos (header.getD 1 0) (readpos + 8)
      else if header.getD 0 0 = romMagicNew1 ∧ header.getD 1 0 = romMagicNew2 then
        checkParts chip (readpos + wordIn header 12 + 16) 0xFF (readpos + 8)
      else 0

/-! ## The image in a flash -/

structure Section where
  address : UInt32
  data : Bytes
  deriving DecidableEq

def wordAt (f : Flash) (a : Nat) : UInt32 := word (f a) (f (a + 1)) (f (a + 2)) (f (a + 3))

/-- The sections from `pos` on. -/
def sectionsAt (f : Flash) : Nat → Nat → List Section
  | 0, _ => []
  | n + 1, pos =>
    ⟨wordAt f pos, Flash.read f (pos + 8) (wordAt f (pos + 4)).toNat⟩ ::
      sectionsAt f n (pos + 8 + (wordAt f (pos + 4)).toNat)

/-- The address after some sections. -/
def sectionsEnd : Nat → List Section → Nat
  | pos, [] => pos
  | pos, s :: l => sectionsEnd (pos + 8 + s.data.length) l

structure Rom where
  /-- The address of the standard header. -/
  start : Nat
  /-- The irom section, if the image is of the new type. -/
  irom : Option Bytes
  entry : UInt32
  sections : List Section
  deriving DecidableEq

namespace Rom

/-- All that the checksum is about. -/
def data (rom : Rom) : Bytes := rom.irom.getD [] ++ rom.sections.flatMap Section.data

/-- The number of sections, with the irom section. -/
def parts (rom : Rom) : Nat := rom.irom.toList.length + rom.sections.length

def stop (rom : Rom) : Nat := sectionsEnd (rom.start + 8) rom.sections

/-- The last byte of the last 16. -/
def chksumAt (rom : Rom) : Nat := rom.stop / 16 * 16 + 15

end Rom

/-- The image whose standard header is at `start`. -/
def romFrom (f : Flash) (irom : Option Bytes) (start : Nat) : Rom where
  start := start
  irom := irom
  entry := wordAt f (start + 4)
  sections := sectionsAt f (f (start + 1)).toNat (start + 8)

/-- The image at an address. -/
def readRom (f : Flash) (addr : Nat) : Option Rom :=
  if f addr = romMagic then some (romFrom f none addr)
  else if f addr = romMagicNew1 ∧ f (addr + 1) = romMagicNew2 then
    some (romFrom f (some (Flash.read f (addr + 16) (wordAt f (addr + 12)).toNat))
      (addr + 16 + (wordAt f (addr + 12)).toNat))
  else none

/-- The image is on a chip of the given size, with its checksum. -/
structure Rom.Intact (f : Flash) (size : Nat) (rom : Rom) : Prop where
  inside : rom.chksumAt < size
  chksum : f rom.chksumAt = calcChksum rom.data

theorem length_sectionsAt (f : Flash) (n pos : Nat) : (sectionsAt f n pos).length = n := by
  induction n generalizing pos with
  | zero => rfl
  | succ n ih => rw [sectionsAt, List.length_cons, ih]

theorem le_sectionsEnd (pos : Nat) (l : List Section) : pos ≤ sectionsEnd pos l := by
  induction l generalizing pos with
  | nil => exact Nat.le_refl pos
  | cons s l ih =>
    have hle := ih (pos + 8 + s.data.length)
    rw [sectionsEnd]
    omega

/-! ## What is read -/

theorem getD_read (f : Flash) {a len i : Nat} (h : i < len) :
    (Flash.read f a len).getD i 0 = f (a + i) := by
  rw [List.getD_eq_getElem?_getD, Flash.read, List.getElem?_map, List.getElem?_range h]
  rfl

theorem wordIn_read (f : Flash) {a len i : Nat} (h : i + 3 < len) :
    wordIn (Flash.read f a len) i = wordAt f (a + i) := by
  rw [wordIn, getD_read f (by omega), getD_read f (by omega), getD_read f (by omega),
    getD_read f h]
  rfl

theorem toNat_add_of_le {a : UInt32} {n size : Nat} (h : a.toNat + n ≤ size)
    (hsize : size < 4294967296) : (a + UInt32.ofNat n).toNat = a.toNat + n := by
  rw [UInt32.toNat_add, UInt32.toNat_ofNat']
  omega

/-- The bits below 16 set. -/
theorem or_fifteen (n : Nat) : n ||| 15 = n / 16 * 16 + 15 := by
  have hlow : ∀ r < 16, r ||| 15 = 15 := by decide
  have hsplit : n = n / 16 * 2 ^ 4 + n % 16 := by omega
  have hlt : n % 16 < 2 ^ 4 := Nat.mod_lt _ (by decide)
  calc n ||| 15 = (n / 16) <<< 4 ||| n % 16 ||| 15 := by
        rw [← Nat.shiftLeft_add_eq_or_of_lt hlt, Nat.shiftLeft_eq, ← hsplit]
    _ = (n / 16) <<< 4 ||| 15 := by rw [Nat.or_assoc, hlow _ hlt]
    _ = n / 16 * 16 + 15 := by
        rw [← Nat.shiftLeft_add_eq_or_of_lt (by decide : 15 < 2 ^ 4), Nat.shiftLeft_eq]

/-! ## Sections -/

section Sections

variable {chip : Chip}

/-- `readpos` and `chksum` after `n` bytes of a section that starts at `base`. -/
structure Summed (chip : Chip) (base : Nat) (c : UInt8) (n : Nat) (s : UInt32 × UInt8) :
    Prop where
  pos : s.1.toNat = base + n
  inside : base + n ≤ chip.size
  sum : s.2 = xorSum c (Flash.read chip.contents base n)

theorem Summed.block {base n : Nat} {c : UInt8} {s : UInt32 × UInt8}
    (h : Summed chip base c n s) (len : Nat) (hle : base + n + len ≤ chip.size) :
    Summed chip base c (n + len)
      (s.1 + UInt32.ofNat len, xorSum s.2 (Flash.read chip.contents s.1.toNat len)) := by
  have hpos := h.pos
  refine ⟨?_, by omega, ?_⟩
  · rw [toNat_add_of_le (by omega) chip.size_lt, hpos, Nat.add_assoc]
  · rw [h.sum, hpos, ← xorSum_append, ← Flash.read_append]

theorem addBlock_summed {base n len : Nat} {c : UInt8} {s t : UInt32 × UInt8}
    (h : Summed chip base c n s) (ht : addBlock chip len s = some t) :
    Summed chip base c (n + len) t := by
  obtain ⟨b, hb, rfl⟩ := Option.map_eq_some_iff.mp ht
  obtain ⟨hle, rfl⟩ := chip.sound hb
  rw [h.pos] at hle
  exact h.block len hle

/-- A chip that answers for all it has. -/
def Chip.Healthy (chip : Chip) : Prop :=
  ∀ (addr : UInt32) (len : Nat), addr.toNat + len ≤ chip.size →
    chip.spiRead addr len = some (Flash.read chip.contents addr.toNat len)

theorem addBlock_total (hchip : chip.Healthy) {base total n len : Nat} {c : UInt8}
    {s : UInt32 × UInt8} (htotal : base + total ≤ chip.size) (h : Summed chip base c n s)
    (hle : n + len ≤ total) :
    ∃ t, addBlock chip len s = some t ∧ Summed chip base c (n + len) t := by
  have hpos := h.pos
  refine ⟨_, ?_, h.block len (by omega)⟩
  rw [addBlock, hchip s.1 len (by omega)]
  rfl

/-- The length of the section whose header is at `a`. -/
def lengthAt (f : Flash) (a : Nat) : Nat := (wordAt f (a + 4)).toNat

theorem Summed.start {readpos : UInt32} {c : UInt8} (h : readpos.toNat + 8 ≤ chip.size) :
    Summed chip (readpos.toNat + 8) c 0 (readpos + 8, c) :=
  ⟨toNat_add_of_le h chip.size_lt, h, rfl⟩

theorem checkSection_sound {readpos : UInt32} {c : UInt8} {s : UInt32 × UInt8}
    (h : checkSection chip readpos c = some s) :
    Summed chip (readpos.toNat + 8) c (lengthAt chip.contents readpos.toNat) s := by
  obtain ⟨header, hread, hloop⟩ := Option.bind_eq_some_iff.mp h
  obtain ⟨hle, rfl⟩ := chip.sound hread
  rw [wordIn_read _ (by decide)] at hloop
  have hend := blocks_invariant (fun h ht => addBlock_summed h ht) (Summed.start hle) hloop
  rwa [Nat.zero_add] at hend

theorem checkSection_complete (hchip : chip.Healthy) {readpos : UInt32} (c : UInt8)
    (h : readpos.toNat + 8 + lengthAt chip.contents readpos.toNat ≤ chip.size) :
    ∃ s, checkSection chip readpos c = some s ∧
      Summed chip (readpos.toNat + 8) c (lengthAt chip.contents readpos.toNat) s := by
  have hle : readpos.toNat + 8 ≤ chip.size := by omega
  rw [checkSection, hchip readpos 8 hle, Option.bind_some]
  simp only [wordIn_read chip.contents (show 4 + 3 < 8 by decide)]
  exact blocks_total (by decide) (fun hs hn => addBlock_total hchip h hs hn) (Summed.start hle)
    (Nat.zero_add _) (Nat.le_refl _)

/-- The sections that a loop still has before it. -/
def sectionsLeft (chip : Chip) (sectcurrent sectcount : UInt8) (readpos : UInt32) :
    List Section :=
  sectionsAt chip.contents (sectcount.toNat - sectcurrent.toNat) readpos.toNat

theorem sectionsLeft_cons {sectcurrent sectcount : UInt8} {readpos : UInt32} {c : UInt8}
    {s : UInt32 × UInt8} (h : sectcurrent < sectcount)
    (hs : Summed chip (readpos.toNat + 8) c (lengthAt chip.contents readpos.toNat) s) :
    sectionsLeft chip sectcurrent sectcount readpos =
      ⟨wordAt chip.contents readpos.toNat, Flash.read chip.contents (readpos.toNat + 8)
          (lengthAt chip.contents readpos.toNat)⟩ ::
        sectionsLeft chip (sectcurrent + 1) sectcount s.1 := by
  have hlt := UInt8.lt_iff_toNat_lt.mp h
  have hcount := sectcount.toNat_lt
  have hnext : (sectcurrent + 1).toNat = sectcurrent.toNat + 1 := by
    rw [UInt8.toNat_add]
    exact Nat.mod_eq_of_lt (by omega : sectcurrent.toNat + 1 < 256)
  have hleft : sectcount.toNat - sectcurrent.toNat =
      sectcount.toNat - (sectcurrent.toNat + 1) + 1 := by omega
  rw [sectionsLeft, sectionsLeft, hnext, hs.pos, hleft]
  rfl

/-- The loop goes through the sections that the headers say there are. -/
theorem checkSections_sound {fuel : Nat} {sectcount : UInt8} (hcount : sectcount ≠ 0xFF) :
    ∀ {sectcurrent : UInt8} {readpos : UInt32} {c : UInt8} {s : UInt32 × UInt8},
      checkSections chip fuel sectcurrent sectcount readpos c = some s →
      s.1.toNat = sectionsEnd readpos.toNat (sectionsLeft chip sectcurrent sectcount readpos) ∧
        s.2 = xorSum c
          ((sectionsLeft chip sectcurrent sectcount readpos).flatMap Section.data) := by
  induction fuel with
  | zero =>
    intro sectcurrent readpos c s h
    exact absurd h (by simp [checkSections])
  | succ fuel ih =>
    intro sectcurrent readpos c s h
    rw [checkSections] at h
    by_cases hlt : sectcurrent < sectcount
    · rw [if_pos hlt] at h
      obtain ⟨t, ht, hrest⟩ := Option.bind_eq_some_iff.mp h
      rw [if_neg hcount] at hrest
      have hsummed := checkSection_sound ht
      obtain ⟨hpos, hsum⟩ := ih hrest
      rw [sectionsLeft_cons hlt hsummed, sectionsEnd, Flash.length_read, List.flatMap_cons,
        xorSum_append, ← hsummed.pos, ← hsummed.sum]
      exact ⟨hpos, hsum⟩
    · rw [if_neg hlt] at h
      obtain rfl := Option.some.inj h
      have hle := UInt8.le_iff_toNat_le.mp (UInt8.not_lt.mp hlt)
      rw [sectionsLeft, Nat.sub_eq_zero_of_le hle]
      exact ⟨rfl, rfl⟩

theorem checkSections_complete (hchip : chip.Healthy) {fuel : Nat} {sectcount : UInt8}
    (hcount : sectcount ≠ 0xFF) :
    ∀ {sectcurrent : UInt8} {readpos : UInt32} (c : UInt8),
      sectcount.toNat - sectcurrent.toNat < fuel →
      sectionsEnd readpos.toNat (sectionsLeft chip sectcurrent sectcount readpos) ≤ chip.size →
      ∃ s, checkSections chip fuel sectcurrent sectcount readpos c = some s := by
  induction fuel with
  | zero =>
    intro sectcurrent readpos c hfuel hend
    exact absurd hfuel (Nat.not_lt_zero _)
  | succ fuel ih =>
    intro sectcurrent readpos c hfuel hend
    rw [checkSections]
    by_cases hlt : sectcurrent < sectcount
    · rw [if_pos hlt]
      have hnat := UInt8.lt_iff_toNat_lt.mp hlt
      -- what follows the section lies after it, so the section is on the chip as well
      have hinside : readpos.toNat + 8 + lengthAt chip.contents readpos.toNat ≤ chip.size := by
        have hleft : sectcount.toNat - sectcurrent.toNat =
            sectcount.toNat - (sectcurrent.toNat + 1) + 1 := by omega
        rw [sectionsLeft, hleft, sectionsAt, sectionsEnd, Flash.length_read] at hend
        exact Nat.le_trans (le_sectionsEnd ..) hend
      obtain ⟨s, hs, hsummed⟩ := checkSection_complete hchip c hinside
      rw [hs, Option.bind_some, if_neg hcount]
      rw [sectionsLeft_cons hlt hsummed, sectionsEnd, Flash.length_read, ← hsummed.pos] at hend
      apply ih s.2 _ hend
      have hsize := sectcount.toNat_lt
      rw [UInt8.toNat_add, Nat.mod_eq_of_lt (show sectcurrent.toNat + (1 : UInt8).toNat < 2 ^ 8 by
        show sectcurrent.toNat + 1 < 256
        omega)]
      show sectcount.toNat - (sectcurrent.toNat + 1) < fuel
      omega
    · exact ⟨_, if_neg hlt⟩

end Sections

/-! ## The image -/

section Image

variable {chip : Chip} {addr : UInt32}

/-- The address of the checksum, from the end of the sections. -/
theorem toNat_or_fifteen (readpos : UInt32) :
    (readpos ||| 0x0F).toNat = readpos.toNat / 16 * 16 + 15 := by
  rw [UInt32.toNat_or, ← or_fifteen]
  rfl

theorem checkParts_sound {romaddr readpos : UInt32} {sectcount : UInt8}
    (h : checkParts chip romaddr sectcount readpos ≠ 0) :
    checkParts chip romaddr sectcount readpos = romaddr ∧
      ∃ s, checkSections chip 256 0 sectcount readpos chksumInit = some s ∧
        s.1.toNat / 16 * 16 + 15 < chip.size ∧
        chip.contents (s.1.toNat / 16 * 16 + 15) = s.2 := by
  unfold checkParts at h ⊢
  cases hs : checkSections chip 256 0 sectcount readpos chksumInit with
  | none =>
    rw [hs] at h
    exact absurd rfl h
  | some s =>
    rw [hs] at h
    simp only at h ⊢
    cases hread : chip.spiRead (s.1 ||| 0x0F) 1 with
    | none =>
      rw [hread] at h
      exact absurd rfl h
    | some buffer =>
      rw [hread] at h
      simp only at h ⊢
      obtain ⟨hle, hbuffer⟩ := chip.sound hread
      rw [toNat_or_fifteen] at hle hbuffer
      have hat : buffer.getD 0 0 = chip.contents (s.1.toNat / 16 * 16 + 15) := by
        rw [hbuffer, getD_read _ Nat.one_pos]
      by_cases hsum : buffer.getD 0 0 = s.2
      · rw [if_neg (not_not_intro hsum)]
        exact ⟨rfl, s, rfl, hle, hat.symm.trans hsum⟩
      · rw [if_pos hsum] at h
        exact absurd rfl h

theorem checkParts_complete (hchip : chip.Healthy) (romaddr : UInt32) {readpos : UInt32}
    {sectcount : UInt8} {s : UInt32 × UInt8}
    (hs : checkSections chip 256 0 sectcount readpos chksumInit = some s)
    (hlt : s.1.toNat / 16 * 16 + 15 < chip.size)
    (hsum : chip.contents (s.1.toNat / 16 * 16 + 15) = s.2) :
    checkParts chip romaddr sectcount readpos = romaddr := by
  have hat := toNat_or_fifteen s.1
  have hread := hchip (s.1 ||| 0x0F) 1 (by rw [hat]; exact Nat.succ_le_of_lt hlt)
  unfold checkParts
  rw [hs]
  simp only [hread, getD_read chip.contents Nat.one_pos, hat, Nat.add_zero, hsum, ne_eq,
    not_true_eq_false, if_false]

theorem toNat_add_eight {a : UInt32} (h : a.toNat + 8 ≤ chip.size) :
    (a + 8).toNat = a.toNat + 8 := toNat_add_of_le h chip.size_lt

/-- `readpos` and `chksum` after all the parts of an image. -/
structure Rom.Summed (rom : Rom) (s : UInt32 × UInt8) : Prop where
  pos : s.1.toNat = rom.stop
  sum : s.2 = calcChksum rom.data

/-- The sections of the old type. -/
theorem checkSections_old (h : addr.toNat + 8 ≤ chip.size)
    (hcount : (chip.contents (addr.toNat + 1)).toNat < 255) :
    (∀ {s : UInt32 × UInt8}, checkSections chip 256 0 (chip.contents (addr.toNat + 1)) (addr + 8)
        chksumInit = some s → (romFrom chip.contents none addr.toNat).Summed s) ∧
      (chip.Healthy → (romFrom chip.contents none addr.toNat).stop ≤ chip.size →
        ∃ s, checkSections chip 256 0 (chip.contents (addr.toNat + 1)) (addr + 8) chksumInit =
          some s) := by
  have hne : chip.contents (addr.toNat + 1) ≠ 0xFF := by
    intro heq
    rw [heq] at hcount
    exact absurd hcount (by decide)
  have hleft : sectionsLeft chip 0 (chip.contents (addr.toNat + 1)) (addr + 8) =
      (romFrom chip.contents none addr.toNat).sections := by
    rw [sectionsLeft, toNat_add_eight h]
    rfl
  have hstop : sectionsEnd (addr + 8).toNat
      (sectionsLeft chip 0 (chip.contents (addr.toNat + 1)) (addr + 8)) =
      (romFrom chip.contents none addr.toNat).stop := by
    rw [hleft, toNat_add_eight h]
    rfl
  constructor
  · intro s hs
    obtain ⟨hpos, hsum⟩ := checkSections_sound hne hs
    exact ⟨hpos.trans hstop, hsum.trans (by rw [hleft]; rfl)⟩
  · intro hchip hend
    refine checkSections_complete hchip hne chksumInit ?_ (Nat.le_trans (Nat.le_of_eq hstop) hend)
    show (chip.contents (addr.toNat + 1)).toNat - 0 < 256
    omega

/-- The standard header of an image of the new type comes after the irom section. -/
def newStart (f : Flash) (addr : Nat) : Nat := addr + 16 + (wordAt f (addr + 12)).toNat

def newRom (f : Flash) (addr : Nat) : Rom :=
  romFrom f (some (Flash.read f (addr + 16) (wordAt f (addr + 12)).toNat)) (newStart f addr)

/-- What the loop does once the irom section is behind it. -/
theorem checkSections_second {s : UInt32 × UInt8} {c : UInt8}
    (hs : Summed chip (addr.toNat + 16) c (wordAt chip.contents (addr.toNat + 12)).toNat s)
    (hinside : s.1.toNat + 8 ≤ chip.size)
    (hcount : (chip.contents (newStart chip.contents addr.toNat + 1)).toNat < 254) :
    let sectcount := (Flash.read chip.contents s.1.toNat 8).getD 1 0 + 1
    sectcount ≠ 0xFF ∧
      sectionsLeft chip 1 sectcount (s.1 + 8) = (newRom chip.contents addr.toNat).sections ∧
      sectionsEnd (s.1 + 8).toNat (sectionsLeft chip 1 sectcount (s.1 + 8)) =
        (newRom chip.contents addr.toNat).stop := by
  have hpos : s.1.toNat = newStart chip.contents addr.toNat := hs.pos
  simp only [getD_read chip.contents (show 1 < 8 by decide), hpos]
  have htoNat : (chip.contents (newStart chip.contents addr.toNat + 1) + 1).toNat =
      (chip.contents (newStart chip.contents addr.toNat + 1)).toNat + 1 := by
    rw [UInt8.toNat_add]
    exact Nat.mod_eq_of_lt (by show _ + 1 < 256; omega)
  have hleft : sectionsLeft chip 1 (chip.contents (newStart chip.contents addr.toNat + 1) + 1)
      (s.1 + 8) = (newRom chip.contents addr.toNat).sections := by
    rw [sectionsLeft, htoNat, toNat_add_eight hinside, hpos]
    rfl
  refine ⟨?_, hleft, ?_⟩
  · intro heq
    rw [heq] at htoNat
    have : (0xFF : UInt8).toNat = 255 := rfl
    omega
  · rw [hleft, toNat_add_eight hinside, hpos]
    rfl

/-- The loop over an image of the new type. -/
theorem checkSections_first (c : UInt8) :
    checkSections chip 256 0 0xFF (addr + 8) c =
      (checkSection chip (addr + 8) c).bind fun s =>
        (chip.spiRead s.1 8).bind fun header =>
          checkSections chip 255 1 (header.getD 1 0 + 1) (s.1 + 8) s.2 := by
  rw [checkSections, if_pos (by decide)]
  rfl

theorem checkSections_new (h : addr.toNat + 8 ≤ chip.size)
    (hcount : (chip.contents (newStart chip.contents addr.toNat + 1)).toNat < 254) :
    (∀ {s : UInt32 × UInt8}, checkSections chip 256 0 0xFF (addr + 8) chksumInit = some s →
        (newRom chip.contents addr.toNat).Summed s) ∧
      (chip.Healthy → (newRom chip.contents addr.toNat).stop ≤ chip.size →
        ∃ s, checkSections chip 256 0 0xFF (addr + 8) chksumInit = some s) := by
  have height := toNat_add_eight h
  rw [checkSections_first]
  constructor
  · intro s hs
    obtain ⟨t, ht, hs⟩ := Option.bind_eq_some_iff.mp hs
    obtain ⟨header, hread, hs⟩ := Option.bind_eq_some_iff.mp hs
    obtain ⟨hinside, rfl⟩ := chip.sound hread
    have hirom := checkSection_sound ht
    rw [height] at hirom
    obtain ⟨hne, hleft, hstop⟩ := checkSections_second hirom hinside hcount
    obtain ⟨hpos, hsum⟩ := checkSections_sound hne hs
    refine ⟨hpos.trans hstop, hsum.trans ?_⟩
    rw [hleft, hirom.sum, ← xorSum_append]
    rfl
  · intro hchip hend
    have hle : newStart chip.contents addr.toNat + 8 ≤ chip.size :=
      Nat.le_trans (le_sectionsEnd ..) hend
    have hirom : (addr + 8).toNat + 8 + lengthAt chip.contents (addr + 8).toNat ≤ chip.size := by
      rw [height]
      exact Nat.le_trans (Nat.le_add_right _ 8) hle
    obtain ⟨t, ht, hsummed⟩ := checkSection_complete hchip chksumInit hirom
    rw [height] at hsummed
    have hinside : t.1.toNat + 8 ≤ chip.size := by
      rw [hsummed.pos]
      exact hle
    obtain ⟨hne, -, hstop⟩ := checkSections_second hsummed hinside hcount
    rw [ht, Option.bind_some, hchip t.1 8 hinside, Option.bind_some]
    refine checkSections_complete hchip hne t.2 ?_ (Nat.le_trans (Nat.le_of_eq hstop) hend)
    have hlt := ((Flash.read chip.contents t.1.toNat 8).getD 1 0 + 1).toNat_lt
    show _ - 1 < 255
    omega

theorem readRom_cases {f : Flash} {a : Nat} {rom : Rom} (h : readRom f a = some rom) :
    (f a = romMagic ∧ rom = romFrom f none a) ∨
      (f a ≠ romMagic ∧ (f a = romMagicNew1 ∧ f (a + 1) = romMagicNew2) ∧ rom = newRom f a) := by
  unfold readRom at h
  by_cases hold : f a = romMagic
  · rw [if_pos hold] at h
    exact .inl ⟨hold, (Option.some.inj h).symm⟩
  · rw [if_neg hold] at h
    by_cases hnew : f a = romMagicNew1 ∧ f (a + 1) = romMagicNew2
    · rw [if_pos hnew] at h
      exact .inr ⟨hold, hnew, (Option.some.inj h).symm⟩
    · rw [if_neg hnew] at h
      exact absurd h (by simp)

/-- `check_image` once the first header is read. -/
theorem checkImage_read (hzero : addr ≠ 0) (hlast : addr ≠ 0xFFFFFFFF)
    (hread : chip.spiRead addr 16 = some (Flash.read chip.contents addr.toNat 16)) :
    checkImage chip addr =
      if chip.contents addr.toNat = romMagic then
        checkParts chip addr (chip.contents (addr.toNat + 1)) (addr + 8)
      else if chip.contents addr.toNat = romMagicNew1 ∧
          chip.contents (addr.toNat + 1) = romMagicNew2 then
        checkParts chip (addr + wordAt chip.contents (addr.toNat + 12) + 16) 0xFF (addr + 8)
      else 0 := by
  unfold checkImage
  rw [if_neg (by rintro (h | h) <;> contradiction), hread]
  simp only [getD_read chip.contents (show 0 < 16 by decide), Nat.add_zero,
    getD_read chip.contents (show 1 < 16 by decide),
    wordIn_read chip.contents (show 12 + 3 < 16 by decide)]

/-- An address that is not refused is on the chip, and its header was read. -/
theorem checkImage_header (h : checkImage chip addr ≠ 0) :
    addr ≠ 0 ∧ addr ≠ 0xFFFFFFFF ∧ addr.toNat + 16 ≤ chip.size ∧
      chip.spiRead addr 16 = some (Flash.read chip.contents addr.toNat 16) := by
  unfold checkImage at h
  by_cases hbad : addr = 0 ∨ addr = 0xFFFFFFFF
  · rw [if_pos hbad] at h
    exact absurd rfl h
  · rw [if_neg hbad] at h
    cases hread : chip.spiRead addr 16 with
    | none =>
      rw [hread] at h
      exact absurd rfl h
    | some header =>
      obtain ⟨hle, hheader⟩ := chip.sound hread
      exact ⟨fun h0 => hbad (.inl h0), fun h1 => hbad (.inr h1), hle, by rw [hheader]⟩

theorem ne_last (h : addr.toNat + 16 ≤ chip.size) : addr ≠ 0xFFFFFFFF := by
  have hsize := chip.size_lt
  rintro rfl
  exact absurd h (by show ¬ 4294967295 + 16 ≤ chip.size; omega)

theorem parts_old {f : Flash} {a : Nat} (h : (romFrom f none a).parts < 255) :
    (f (a + 1)).toNat < 255 := by
  have hlen : (romFrom f none a).parts = 0 + (f (a + 1)).toNat :=
    congrArg (0 + ·) (length_sectionsAt ..)
  omega

theorem parts_new {f : Flash} {a : Nat} (h : (newRom f a).parts < 255) :
    (f (newStart f a + 1)).toNat < 254 := by
  have hlen : (newRom f a).parts = 1 + (f (newStart f a + 1)).toNat :=
    congrArg (1 + ·) (length_sectionsAt ..)
  omega

/-- The address of the standard header does not wrap around. -/
theorem toNat_newStart (h : newStart chip.contents addr.toNat ≤ chip.size) :
    (addr + wordAt chip.contents (addr.toNat + 12) + 16).toNat =
      newStart chip.contents addr.toNat := by
  have hlt := chip.size_lt
  unfold newStart at h ⊢
  rw [UInt32.toNat_add, UInt32.toNat_add]
  show ((addr.toNat + (wordAt chip.contents (addr.toNat + 12)).toNat) % 4294967296 + 16) %
    4294967296 = _
  omega

/-- What is accepted is intact, and its standard header is where the result says. -/
theorem checkImage_sound {rom : Rom} (hrom : readRom chip.contents addr.toNat = some rom)
    (hparts : rom.parts < 255) (h : checkImage chip addr ≠ 0) :
    (checkImage chip addr).toNat = rom.start ∧ rom.Intact chip.contents chip.size := by
  obtain ⟨hzero, hlast, hle, hread⟩ := checkImage_header h
  have hle8 : addr.toNat + 8 ≤ chip.size := by omega
  rw [checkImage_read hzero hlast hread] at h ⊢
  rcases readRom_cases hrom with ⟨hmagic, rfl⟩ | ⟨hmagic, hnew, rfl⟩
  · rw [if_pos hmagic] at h ⊢
    obtain ⟨hres, s, hs, hlt, hsum⟩ := checkParts_sound h
    have hsummed := (checkSections_old hle8 (parts_old hparts)).1 hs
    rw [hsummed.pos] at hlt hsum
    exact ⟨congrArg UInt32.toNat hres, hlt, hsum.trans hsummed.sum⟩
  · rw [if_neg hmagic, if_pos hnew] at h ⊢
    obtain ⟨hres, s, hs, hlt, hsum⟩ := checkParts_sound h
    have hsummed := (checkSections_new hle8 (parts_new hparts)).1 hs
    rw [hsummed.pos] at hlt hsum
    have hend : newStart chip.contents addr.toNat + 8 ≤ (newRom chip.contents addr.toNat).stop :=
      le_sectionsEnd ..
    rw [hres]
    exact ⟨toNat_newStart (by omega), hlt, hsum.trans hsummed.sum⟩

theorem readRom_start {f : Flash} {a : Nat} {rom : Rom} (h : readRom f a = some rom) :
    a ≤ rom.start := by
  rcases readRom_cases h with ⟨-, rfl⟩ | ⟨-, -, rfl⟩
  · exact Nat.le_refl a
  · exact Nat.le_trans (Nat.le_add_right a 16) (Nat.le_add_right ..)

/-- An image that is intact is accepted by a loader whose chip answers. -/
theorem checkImage_complete (hchip : chip.Healthy) {rom : Rom}
    (hrom : readRom chip.contents addr.toNat = some rom) (hparts : rom.parts < 255)
    (hzero : addr ≠ 0) (hle : addr.toNat + 16 ≤ chip.size)
    (hintact : rom.Intact chip.contents chip.size) : checkImage chip addr ≠ 0 := by
  have hle8 : addr.toNat + 8 ≤ chip.size := by omega
  have hpos : 0 < addr.toNat := Nat.pos_of_ne_zero fun h0 => hzero (UInt32.toNat_inj.mp h0)
  obtain ⟨hinside, hchksum⟩ := hintact
  have hstop : rom.stop ≤ chip.size := by
    unfold Rom.chksumAt at hinside
    omega
  rw [checkImage_read hzero (ne_last hle) (hchip addr 16 hle)]
  rcases readRom_cases hrom with ⟨hmagic, rfl⟩ | ⟨hmagic, hnew, rfl⟩
  · rw [if_pos hmagic]
    obtain ⟨hsound, hcomplete⟩ := checkSections_old hle8 (parts_old hparts)
    obtain ⟨s, hs⟩ := hcomplete hchip hstop
    have hsummed := hsound hs
    rw [checkParts_complete hchip addr hs (by rw [hsummed.pos]; exact hinside)
      (by rw [hsummed.pos, hsummed.sum]; exact hchksum)]
    exact hzero
  · rw [if_neg hmagic, if_pos hnew]
    obtain ⟨hsound, hcomplete⟩ := checkSections_new hle8 (parts_new hparts)
    have hend : newStart chip.contents addr.toNat + 8 ≤ (newRom chip.contents addr.toNat).stop :=
      le_sectionsEnd ..
    obtain ⟨s, hs⟩ := hcomplete hchip hstop
    have hsummed := hsound hs
    rw [checkParts_complete hchip _ hs (by rw [hsummed.pos]; exact hinside)
      (by rw [hsummed.pos, hsummed.sum]; exact hchksum)]
    intro hres
    have hstart := @toNat_newStart chip addr (by omega)
    rw [hres] at hstart
    have hle := readRom_start hrom
    exact absurd (Nat.lt_of_lt_of_le hpos hle) (Nat.not_lt_of_le (Nat.le_of_eq hstart.symm))

/-- The check is exact for an image with fewer than 255 parts: it is accepted, with the
address of its standard header, if and only if it is intact and the first header can be
read.  Intact is an image whose data and the seed `0xEF` sum up to the byte at its end. -/
theorem checkImage_iff (hchip : chip.Healthy) {rom : Rom}
    (hrom : readRom chip.contents addr.toNat = some rom) (hparts : rom.parts < 255) :
    (checkImage chip addr ≠ 0 ↔
      addr ≠ 0 ∧ addr.toNat + 16 ≤ chip.size ∧ rom.Intact chip.contents chip.size) ∧
    (checkImage chip addr ≠ 0 → (checkImage chip addr).toNat = rom.start) := by
  refine ⟨⟨fun h => ?_, fun h => ?_⟩, fun h => (checkImage_sound hrom hparts h).1⟩
  · obtain ⟨hzero, -, hle, -⟩ := checkImage_header h
    exact ⟨hzero, hle, (checkImage_sound hrom hparts h).2⟩
  · exact checkImage_complete hchip hrom hparts h.1 h.2.1 h.2.2

end Image

/-- A chip that never fails. -/
def Chip.ofFlash (f : Flash) (size : Nat) (h : size < 4294967296) : Chip where
  contents := f
  size := size
  size_lt := h
  spiRead addr len := if addr.toNat + len ≤ size then some (Flash.read f addr.toNat len) else none
  sound := by
    intro addr len b hread
    by_cases hle : addr.toNat + len ≤ size
    · rw [if_pos hle] at hread
      exact ⟨hle, (Option.some.inj hread).symm⟩
    · rw [if_neg hle] at hread
      exact absurd hread (by simp)

theorem Chip.ofFlash_healthy (f : Flash) (size : Nat) (h : size < 4294967296) :
    (Chip.ofFlash f size h).Healthy := fun _ _ hle => if_pos hle

/-- At 16 an image of the new type: an irom section of two bytes and a section of one. -/
def sampleImage : Flash := fun a =>
  ([0xEA, 0x04, 0, 0, 0, 0, 0, 0, 0, 0, 0, 0, 2, 0, 0, 0, 0x12, 0x34,
    0xE9, 1, 0, 0, 0, 0, 0x10, 0x40, 0, 0, 0x10, 0x40, 1, 0, 0, 0, 0x56, 0,
    0, 0, 0, 0, 0, 0, 0, 0, 0, 0, 0, 0x9F] : Bytes).getD (a - 16) 0

def sampleChip : Chip := .ofFlash sampleImage 64 (by decide)

def sampleRom : Rom := ⟨34, some [0x12, 0x34], 0x40100000, [⟨0x40100000, [0x56]⟩]⟩

theorem readRom_sample : readRom sampleImage 16 = some sampleRom := by decide +kernel

theorem checkImage_iff_sample : checkImage sampleChip 16 ≠ 0 := by
  have hrom : readRom sampleChip.contents (16 : UInt32).toNat = some sampleRom := readRom_sample
  have hintact : sampleRom.Intact sampleChip.contents sampleChip.size := by
    constructor <;> decide +kernel
  exact (checkImage_iff (Chip.ofFlash_healthy _ _ _) hrom (by decide)).1.mpr
    ⟨by decide, by decide, hintact⟩

end Rboot
end EspMisc
