/-
The tool that makes images.

`esptool2` takes sections out of an elf file and puts them into an image: a header, the
sections, each with a header of its own, and a checksum.  An image for the second version
of the boot loader has an irom section and an extra header before that.

`createBinFile_parts` says which bytes the image has, in terms of the sections of the elf
file.  The boot loader finds those sections again: an image that the tool has made, and
that is somewhere in a flash, is accepted, and what it loads is what the elf file had
(`checkImage_createBinFile`).  For that the loader and the tool have to agree on whether
the irom section is in the checksum.
-/
import EspMisc.Rboot.Load

namespace EspMisc
namespace Esptool

open Rboot

/-! ## The elf file -/

/-- `fseek` and `fread`. -/
def readAt (file : Bytes) (offset : UInt32) (len : Nat) : Option Bytes :=
  if offset.toNat + len ≤ file.length then some ((file.drop offset.toNat).take len) else none

/-- An `Elf32_Half` at an offset of a header. -/
def halfIn (b : Bytes) (i : Nat) : Nat := (b.getD i 0).toNat + 256 * (b.getD (i + 1) 0).toNat

/-- `MyElf_Section`. -/
structure ElfSection where
  offset : UInt32
  address : UInt32
  size : UInt32
  name : Bytes

/-- `MyElf_File`. -/
structure ElfFile where
  fd : Bytes
  entry : UInt32
  sections : List ElfSection

/-- A string of the string table. -/
def stringAt (strings : Bytes) (offset : Nat) : Bytes :=
  (strings.drop offset).takeWhile (· != 0)

/-- The loop over the section headers, from `i` on.  It stops at one that it cannot read. -/
def readSections (file strings : Bytes) (shoff : UInt32) (shentsize : Nat) :
    Nat → Nat → List ElfSection
  | 0, _ => []
  | count + 1, i =>
    match readAt file (shoff + UInt32.ofNat (shentsize * i)) 40 with
    | none => []
    | some temp =>
      { address := wordIn temp 12
        offset := wordIn temp 16
        size := wordIn temp 20
        name := stringAt strings (wordIn temp 0).toNat } ::
        readSections file strings shoff shentsize count (i + 1)

def loadElf (file : Bytes) : Option ElfFile :=
  (readAt file 0 52).bind fun header =>
    if header.take 4 ≠ [0x7F, 0x45, 0x4C, 0x46] then none
    else
      let shoff := wordIn header 32
      let shentsize := halfIn header 46
      let shnum := halfIn header 48
      let shstrndx := halfIn header 50
      if shstrndx = 0 then none
      else
        (readAt file (shoff + UInt32.ofNat (shentsize * shstrndx)) 40).bind fun temp =>
          if wordIn temp 20 = 0 then none
          else
            (readAt file (wordIn temp 16) (wordIn temp 20).toNat).map fun strings =>
              { fd := file
                entry := wordIn header 24
                sections := readSections file strings shoff shentsize (shnum - 1) 1 }

def getElfSection (elf : ElfFile) (name : Bytes) : Option ElfSection :=
  elf.sections.find? fun s => name = s.name

def getElfSectionData (elf : ElfFile) (sect : ElfSection) : Option Bytes :=
  if sect.size ≠ 0 ∧ sect.offset ≠ 0 then readAt elf.fd sect.offset sect.size.toNat else none

/-! ## The image -/

def imagePadding : Nat := 16

def sectionPadding : Nat := 4

def checksumInit : UInt8 := 0xEF

def binMagicIrom : UInt8 := 0xEA

def binMagicFlash : UInt8 := 0xE9

/-- A word as it is in a file. -/
def wordBytes (x : UInt32) : Bytes := [byte x 0, byte x 1, byte x 2, byte x 3]

/-- The number of bytes that bring a length to a multiple of `padto`. -/
def padding (padto len : Nat) : Nat :=
  if padto = 0 then 0 else if len % padto > 0 then padto - len % padto else 0

/-- The file after the section, and the checksum; `chksum` is `none` for a null pointer. -/
def writeElfSection (elf : ElfFile) (outfile : Bytes) (name : Bytes) (headed zeroaddr : Bool)
    (padto : Nat) (chksum : Option UInt8) : Option (Bytes × Option UInt8) :=
  (getElfSection elf name).bind fun sect =>
    let addr := if zeroaddr then 0 else sect.address
    let pad := padding padto sect.size.toNat
    let size := sect.size + UInt32.ofNat pad
    (getElfSectionData elf sect).map fun bindata =>
      (outfile ++ ((if headed then wordBytes addr ++ wordBytes size else []) ++
          (bindata ++ List.replicate pad 0)),
        -- the loop counts with an `int`
        chksum.map fun c => if sect.size.toNat < 2147483648 then xorSum c bindata else c)

/-- The loop over the sections that the command line names. -/
def writeSections (elf : ElfFile) : List Bytes → Bytes × UInt8 → Option (Bytes × UInt8)
  | [], s => some s
  | name :: names, s =>
    (writeElfSection elf s.1 name true false sectionPadding (some s.2)).bind fun t =>
      writeSections elf names (t.1, t.2.getD s.2)

/-- `Image_Header`. -/
def imageHeader (magic count mode clock size : UInt8) (entry : UInt32) : Bytes :=
  [magic, count, mode, size <<< 4 ||| clock] ++ wordBytes entry

/-- `.irom0.text` -/
def iromName : Bytes := [0x2E, 0x69, 0x72, 0x6F, 0x6D, 0x30, 0x2E, 0x74, 0x65, 0x78, 0x74]

/-- The file and the checksum before the standard header. -/
def writeIrom (elf : ElfFile) (bootver : Nat) (mode clock size : UInt8) (iromchksum : Bool) :
    Option (Bytes × UInt8) :=
  if bootver = 2 then
    (writeElfSection elf (imageHeader binMagicIrom 4 mode clock size elf.entry) iromName true true
      imagePadding (if iromchksum then some checksumInit else none)).map fun t =>
        (t.1, t.2.getD checksumInit)
  else some ([], checksumInit)

/-- The image file.  With a first version image that is too long for its library the tool
asks for a negative amount of memory, and does not survive it. -/
def createBinFile (elffile : Bytes) (bootver : Nat) (mode clock size : UInt8) (iromchksum : Bool)
    (sections : List Bytes) : Option Bytes :=
  (loadElf elffile).bind fun elf =>
    (writeIrom elf bootver mode clock size iromchksum).bind fun s =>
      (writeSections elf sections (s.1 ++ imageHeader binMagicFlash (UInt8.ofNat sections.length)
          mode clock size elf.entry, s.2)).bind fun t =>
        let outfile := t.1 ++ (List.replicate (padding imagePadding (t.1.length + 1)) 0 ++ [t.2])
        if bootver = 1 then
          if outfile.length ≤ 0x10000 then
            (writeElfSection elf (outfile ++ List.replicate (0x10000 - outfile.length) 0xFF)
              iromName false false 0 none).map Prod.fst
          else none
        else some outfile

/-! ## Which bytes an image has -/

/-- A section of an image, with its header. -/
def sectionBytes (s : Section) : Bytes :=
  wordBytes s.address ++ wordBytes (UInt32.ofNat s.data.length) ++ s.data

/-- A section of the elf file, as it is put into an image. -/
def paddedSection (elf : ElfFile) (padto : Nat) (name : Bytes) : Option Section :=
  (getElfSection elf name).bind fun sect =>
    (getElfSectionData elf sect).map fun bindata =>
      ⟨sect.address, bindata ++ List.replicate (padding padto sect.size.toNat) 0⟩

@[simp] theorem length_wordBytes (x : UInt32) : (wordBytes x).length = 4 := rfl

theorem length_sectionBytes (s : Section) : (sectionBytes s).length = 8 + s.data.length := by
  rw [sectionBytes, List.length_append, List.length_append, length_wordBytes, length_wordBytes]

theorem length_readAt {file b : Bytes} {offset : UInt32} {len : Nat}
    (h : readAt file offset len = some b) : b.length = len := by
  unfold readAt at h
  by_cases hle : offset.toNat + len ≤ file.length
  · rw [if_pos hle] at h
    rw [← Option.some.inj h, List.length_take, List.length_drop]
    omega
  · rw [if_neg hle] at h
    exact absurd h (by simp)

theorem length_getElfSectionData {elf : ElfFile} {sect : ElfSection} {b : Bytes}
    (h : getElfSectionData elf sect = some b) : b.length = sect.size.toNat := by
  unfold getElfSectionData at h
  by_cases hsize : sect.size ≠ 0 ∧ sect.offset ≠ 0
  · rw [if_pos hsize] at h
    exact length_readAt h
  · rw [if_neg hsize] at h
    exact absurd h (by simp)

/-- A section that was written with its header.  The length is that of what follows, and
the zeros do not count in the checksum. -/
theorem writeElfSection_headed {elf : ElfFile} {outfile name : Bytes} {zeroaddr : Bool}
    {padto : Nat} {chksum : Option UInt8} {t : Bytes × Option UInt8}
    (h : writeElfSection elf outfile name true zeroaddr padto chksum = some t)
    (hlen : t.1.length < 2147483648) :
    ∃ s, paddedSection elf padto name = some s ∧
      t.1 = outfile ++ sectionBytes ⟨if zeroaddr then 0 else s.address, s.data⟩ ∧
      t.2 = chksum.map fun c => xorSum c s.data := by
  obtain ⟨sect, hsect, h⟩ := Option.bind_eq_some_iff.mp h
  obtain ⟨bindata, hdata, rfl⟩ := Option.map_eq_some_iff.mp h
  have hsize := length_getElfSectionData hdata
  refine ⟨⟨sect.address, bindata ++ List.replicate (padding padto sect.size.toNat) 0⟩, ?_, ?_, ?_⟩
  · rw [paddedSection, hsect, Option.bind_some, hdata, Option.map_some]
  · have hword : UInt32.ofNat (bindata ++ List.replicate (padding padto sect.size.toNat) 0).length =
        sect.size + UInt32.ofNat (padding padto sect.size.toNat) := by
      rw [List.length_append, List.length_replicate, hsize, UInt32.ofNat_add, UInt32.ofNat_toNat]
    simp only [sectionBytes, hword, if_true]
  · have hlt : sect.size.toNat < 2147483648 := by
      simp only [List.length_append] at hlen
      omega
    simp only [hlt, if_true, xorSum_append, xorSum_zeros]

theorem writeSections_spec {elf : ElfFile} {names : List Bytes} : ∀ {s t : Bytes × UInt8},
    writeSections elf names s = some t → t.1.length < 2147483648 →
    ∃ secs, names.mapM (paddedSection elf sectionPadding) = some secs ∧
      t.1 = s.1 ++ secs.flatMap sectionBytes ∧ t.2 = xorSum s.2 (secs.flatMap Section.data) := by
  induction names with
  | nil =>
    intro s t h _
    obtain rfl := Option.some.inj h
    exact ⟨[], rfl, (List.append_nil _).symm, rfl⟩
  | cons name names ih =>
    intro s t h hlen
    obtain ⟨u, hu, hrest⟩ := Option.bind_eq_some_iff.mp h
    obtain ⟨secs, hsecs, hbytes, hsum⟩ := ih hrest hlen
    have hshort : u.1.length < 2147483648 := by
      have htotal := congrArg List.length hbytes
      simp only [List.length_append] at htotal
      omega
    obtain ⟨sec, hsec, hu1, hu2⟩ := writeElfSection_headed hu hshort
    refine ⟨sec :: secs, ?_, ?_, ?_⟩
    · rw [List.mapM_cons, hsec, hsecs]
      rfl
    · rw [hbytes, hu1, List.append_assoc, List.flatMap_cons]
      rfl
    · rw [hsum, hu2, List.flatMap_cons, xorSum_append]
      rfl

/-- The bytes of an image whose sections are given, up to the padding. -/
def imageBody (elf : ElfFile) (mode clock size : UInt8) (irom : Option Bytes)
    (secs : List Section) : Bytes :=
  (match irom with
    | none => []
    | some data =>
      imageHeader binMagicIrom 4 mode clock size elf.entry ++ sectionBytes ⟨0, data⟩) ++
    (imageHeader binMagicFlash (UInt8.ofNat secs.length) mode clock size elf.entry ++
      secs.flatMap sectionBytes)

/-- The padding and the checksum. -/
def imageEnd (body : Bytes) (chksum : UInt8) : Bytes :=
  List.replicate (padding imagePadding (body.length + 1)) 0 ++ [chksum]

theorem length_imageEnd (body : Bytes) (chksum : UInt8) :
    (body ++ imageEnd body chksum).length =
      body.length + (padding imagePadding (body.length + 1) + 1) := by
  rw [imageEnd, List.length_append, List.length_append, List.length_replicate,
    List.length_singleton]

theorem length_mapM {α β : Type} {g : α → Option β} : ∀ {l : List α} {r : List β},
    l.mapM g = some r → r.length = l.length := by
  intro l
  induction l with
  | nil =>
    intro r h
    obtain rfl := Option.some.inj h
    rfl
  | cons a l ih =>
    intro r h
    rw [List.mapM_cons] at h
    obtain ⟨b, -, h⟩ := Option.bind_eq_some_iff.mp h
    obtain ⟨r, hr, h⟩ := Option.bind_eq_some_iff.mp h
    obtain rfl := Option.some.inj h
    rw [List.length_cons, ih hr, List.length_cons]

/-- The image of the second version: the irom section, the sections and a checksum, which
has the irom section in it if the command line says so. -/
theorem createBinFile_parts {elffile bytes : Bytes} {mode clock size : UInt8} {iromchksum : Bool}
    {names : List Bytes}
    (h : createBinFile elffile 2 mode clock size iromchksum names = some bytes)
    (hlen : bytes.length < 2147483648) :
    ∃ elf irom secs, loadElf elffile = some elf ∧
      paddedSection elf imagePadding iromName = some irom ∧
      names.mapM (paddedSection elf sectionPadding) = some secs ∧
      bytes = imageBody elf mode clock size (some irom.data) secs ++
        imageEnd (imageBody elf mode clock size (some irom.data) secs)
          (xorSum (if iromchksum then xorSum checksumInit irom.data else checksumInit)
            (secs.flatMap Section.data)) := by
  obtain ⟨elf, helf, h⟩ := Option.bind_eq_some_iff.mp h
  obtain ⟨s, hs, h⟩ := Option.bind_eq_some_iff.mp h
  obtain ⟨t, ht, h⟩ := Option.bind_eq_some_iff.mp h
  rw [if_neg (by decide)] at h
  obtain rfl := Option.some.inj h
  rw [List.length_append] at hlen
  obtain ⟨secs, hsecs, hbytes, hsum⟩ := writeSections_spec ht (by omega)
  rw [writeIrom, if_pos rfl] at hs
  obtain ⟨u, hu, rfl⟩ := Option.map_eq_some_iff.mp hs
  have hshort : u.1.length < 2147483648 := by
    have htotal := congrArg List.length hbytes
    simp only [List.length_append] at htotal
    omega
  obtain ⟨irom, hirom, hu1, hu2⟩ := writeElfSection_headed hu hshort
  have hbody : t.1 = imageBody elf mode clock size (some irom.data) secs := by
    rw [hbytes]
    simp only [hu1, if_true]
    rw [← length_mapM hsecs, List.append_assoc]
    rfl
  have hchksum : u.2.getD checksumInit =
      if iromchksum then xorSum checksumInit irom.data else checksumInit := by
    rw [hu2]
    cases iromchksum <;> rfl
  refine ⟨elf, irom, secs, helf, hirom, hsecs, ?_⟩
  rw [hbody, hsum, ← hchksum]
  rfl

/-! ## What the loader finds -/

section Find

variable {f : Flash}

/-- The bytes are in the flash from `a` on. -/
def At (f : Flash) (a : Nat) (b : Bytes) : Prop := Flash.read f a b.length = b

theorem at_append {a : Nat} {l r : Bytes} :
    At f a (l ++ r) ↔ At f a l ∧ At f (a + l.length) r := by
  unfold At
  rw [List.length_append, Flash.read_append]
  constructor
  · intro h
    exact List.append_inj h (Flash.length_read ..)
  · rintro ⟨hl, hr⟩
    rw [hl, hr]

theorem at_cons {a : Nat} {b : UInt8} {l : Bytes} : At f a (b :: l) ↔ f a = b ∧ At f (a + 1) l := by
  rw [show b :: l = [b] ++ l from rfl, at_append]
  refine and_congr_left fun _ => ?_
  rw [At, List.length_singleton, Flash.read, List.range_one, List.map_singleton, Nat.add_zero]
  exact List.cons_eq_cons.trans (and_iff_left rfl)

theorem wordAt_at {a : Nat} {x : UInt32} (h : At f a (wordBytes x)) : wordAt f a = x := by
  obtain ⟨h0, h⟩ := at_cons.mp h
  obtain ⟨h1, h⟩ := at_cons.mp h
  obtain ⟨h2, h⟩ := at_cons.mp h
  obtain ⟨h3, -⟩ := at_cons.mp h
  rw [wordAt, h0, h1, h2, h3]
  exact word_byte x

theorem sectionBytes_at {pos : Nat} {s : Section} (h : At f pos (sectionBytes s))
    (hlen : s.data.length < 4294967296) :
    wordAt f pos = s.address ∧ (wordAt f (pos + 4)).toNat = s.data.length ∧
      Flash.read f (pos + 8) s.data.length = s.data := by
  obtain ⟨h, hdata⟩ := at_append.mp h
  obtain ⟨haddress, hlength⟩ := at_append.mp h
  refine ⟨wordAt_at haddress, ?_, hdata⟩
  have hword := wordAt_at hlength
  rw [length_wordBytes] at hword
  rw [hword, UInt32.toNat_ofNat']
  exact Nat.mod_eq_of_lt hlen

theorem sectionsAt_at {secs : List Section} : ∀ {pos : Nat},
    (∀ s ∈ secs, s.data.length < 4294967296) → At f pos (secs.flatMap sectionBytes) →
    sectionsAt f secs.length pos = secs ∧
      sectionsEnd pos secs = pos + (secs.flatMap sectionBytes).length := by
  induction secs with
  | nil => exact fun _ _ => ⟨rfl, rfl⟩
  | cons s secs ih =>
    intro pos hlen h
    obtain ⟨hs, hlen⟩ := List.forall_mem_cons.mp hlen
    rw [List.flatMap_cons] at h
    obtain ⟨hfirst, hrest⟩ := at_append.mp h
    obtain ⟨haddress, hlength, hdata⟩ := sectionBytes_at hfirst hs
    rw [length_sectionBytes, ← Nat.add_assoc] at hrest
    obtain ⟨hsecs, hend⟩ := ih hlen hrest
    constructor
    · rw [List.length_cons, sectionsAt, hlength, haddress, hdata, hsecs]
    · rw [sectionsEnd, hend, List.flatMap_cons, List.length_append, length_sectionBytes]
      omega

theorem imageHeader_at {a : Nat} {magic count mode clock size : UInt8} {entry : UInt32}
    (h : At f a (imageHeader magic count mode clock size entry)) :
    f a = magic ∧ f (a + 1) = count ∧ wordAt f (a + 4) = entry := by
  obtain ⟨hbytes, hentry⟩ := at_append.mp h
  obtain ⟨hmagic, hbytes⟩ := at_cons.mp hbytes
  obtain ⟨hcount, -⟩ := at_cons.mp hbytes
  exact ⟨hmagic, hcount, wordAt_at hentry⟩

@[simp] theorem length_imageHeader (magic count mode clock size : UInt8) (entry : UInt32) :
    (imageHeader magic count mode clock size entry).length = 8 := rfl

theorem length_imageBody (elf : ElfFile) (mode clock size : UInt8) (irom : Bytes)
    (secs : List Section) :
    (imageBody elf mode clock size (some irom) secs).length =
      8 + (8 + irom.length) + (8 + (secs.flatMap sectionBytes).length) := by
  simp only [imageBody, List.length_append, length_imageHeader, length_sectionBytes]

/-- The standard header and the sections. -/
theorem romFrom_at {elf : ElfFile} {mode clock size : UInt8} (irom : Option Bytes)
    {secs : List Section} {start : Nat} (hcount : secs.length < 256)
    (hlen : ∀ s ∈ secs, s.data.length < 4294967296)
    (h : At f start (imageHeader binMagicFlash (UInt8.ofNat secs.length) mode clock size elf.entry ++
      secs.flatMap sectionBytes)) :
    f start = romMagic ∧ romFrom f irom start = ⟨start, irom, elf.entry, secs⟩ ∧
      sectionsEnd (start + 8) secs = start + 8 + (secs.flatMap sectionBytes).length := by
  obtain ⟨hheader, hsections⟩ := at_append.mp h
  obtain ⟨hmagic, hat, hentry⟩ := imageHeader_at hheader
  obtain ⟨hsecs, hend⟩ := sectionsAt_at hlen hsections
  refine ⟨hmagic, ?_, hend⟩
  rw [romFrom, hentry, hat, UInt8.toNat_ofNat', Nat.mod_eq_of_lt hcount]
  exact congrArg (Rom.mk start irom elf.entry) hsecs

/-- The image of the second version is the one that its headers say. -/
theorem readRom_at {elf : ElfFile} {mode clock size : UInt8} {irom : Bytes}
    {secs : List Section} {addr : Nat} (hcount : secs.length < 256)
    (hlen : ∀ s ∈ secs, s.data.length < 4294967296) (hirom : irom.length < 4294967296)
    (h : At f addr (imageBody elf mode clock size (some irom) secs)) :
    readRom f addr = some ⟨addr + 16 + irom.length, some irom, elf.entry, secs⟩ ∧
      sectionsEnd (addr + 16 + irom.length + 8) secs =
        addr + (imageBody elf mode clock size (some irom) secs).length := by
  obtain ⟨hfirst, hrest⟩ := at_append.mp h
  obtain ⟨hheader, hsection⟩ := at_append.mp hfirst
  obtain ⟨hmagic, hmagic2, -⟩ := imageHeader_at hheader
  obtain ⟨-, hlength, hdata⟩ := sectionBytes_at hsection hirom
  rw [length_imageHeader] at hlength hdata
  have hstart : addr + (imageHeader binMagicIrom 4 mode clock size elf.entry ++
      sectionBytes ⟨0, irom⟩).length = addr + 16 + irom.length := by
    rw [List.length_append, length_imageHeader, length_sectionBytes]
    show addr + (8 + (8 + irom.length)) = addr + 16 + irom.length
    omega
  rw [hstart] at hrest
  obtain ⟨-, hrom, hend⟩ := romFrom_at (some irom) hcount hlen hrest
  constructor
  · have hne : f addr ≠ romMagic := by
      rw [hmagic]
      decide
    have hnew : f addr = romMagicNew1 ∧ f (addr + 1) = romMagicNew2 := ⟨hmagic, hmagic2⟩
    have hword : (wordAt f (addr + 12)).toNat = irom.length := hlength
    have hread : Flash.read f (addr + 16) irom.length = irom := hdata
    rw [readRom, if_neg hne, if_pos hnew, hword, hread, hrom]
  · rw [hend, length_imageBody]
    omega

/-- The checksum is where the loader looks for it. -/
theorem chksumAt_imageEnd {addr len : Nat} (h : addr % 16 = 0) :
    (addr + len) / 16 * 16 + 15 = addr + len + padding imagePadding (len + 1) := by
  unfold padding imagePadding
  rw [if_neg (by decide)]
  by_cases hpad : (len + 1) % 16 > 0
  · rw [if_pos hpad]
    omega
  · rw [if_neg hpad]
    omega

end Find

/-- The tool's checksum is right for the loader if the irom section is in it, or does not
matter. -/
theorem chksum_agrees_iff (iromchksum : Bool) (irom rest : Bytes) :
    xorSum (if iromchksum then xorSum checksumInit irom else checksumInit) rest =
        calcChksum (irom ++ rest) ↔ iromchksum = true ∨ xorSum 0 irom = 0 := by
  have hcalc : calcChksum (irom ++ rest) = xorSum (xorSum checksumInit irom) rest :=
    xorSum_append ..
  rw [hcalc, xorSum_inj]
  cases iromchksum with
  | true => exact iff_of_true rfl (.inl rfl)
  | false =>
    have hsplit : xorSum checksumInit irom = checksumInit ^^^ xorSum 0 irom := by
      rw [← xorSum_xor, UInt8.xor_zero]
    rw [if_neg Bool.false_ne_true, hsplit, or_iff_right Bool.false_ne_true]
    constructor
    · intro heq
      have hzero : checksumInit ^^^ 0 = checksumInit ^^^ xorSum 0 irom :=
        UInt8.xor_zero.trans heq
      exact ((UInt8.xor_right_inj _).mp hzero).symm
    · intro hzero
      rw [hzero, UInt8.xor_zero]

theorem mem_flatMap_length {secs : List Section} {s : Section} (h : s ∈ secs) :
    s.data.length ≤ (secs.flatMap sectionBytes).length := by
  obtain ⟨l, r, rfl⟩ := List.append_of_mem h
  rw [List.flatMap_append, List.flatMap_cons, List.length_append, List.length_append,
    length_sectionBytes]
  omega

/-- An image is of whole lines of 16 bytes. -/
theorem createBinFile_length {elffile bytes : Bytes} {mode clock size : UInt8}
    {iromchksum : Bool} {names : List Bytes}
    (h : createBinFile elffile 2 mode clock size iromchksum names = some bytes)
    (hbytes : bytes.length < 2147483648) : 16 ≤ bytes.length ∧ bytes.length % 16 = 0 := by
  obtain ⟨elf, irom, secs, -, -, -, hparts⟩ := createBinFile_parts h hbytes
  have hlength := length_imageBody elf mode clock size irom.data secs
  have htotal := congrArg List.length hparts
  rw [length_imageEnd] at htotal
  have hmultiple :=
    @chksumAt_imageEnd 0 (imageBody elf mode clock size (some irom.data) secs).length rfl
  omega

/-- What the loader reads where an image of the second version is: the sections of the elf
file, and a checksum that is right if the irom section is in it, or its own sum is zero. -/
structure ImageOf (elf : ElfFile) (irom : Section) (secs : List Section) (iromchksum : Bool)
    (f : Flash) (stop : Nat) (rom : Rom) : Prop where
  parts : rom.parts = 1 + secs.length
  entry : rom.entry = elf.entry
  sections : rom.sections = secs
  inside : rom.chksumAt < stop
  chksum : f rom.chksumAt = calcChksum rom.data ↔ iromchksum = true ∨ xorSum 0 irom.data = 0

theorem createBinFile_rom {elffile bytes : Bytes} {mode clock size : UInt8}
    {iromchksum : Bool} {names : List Bytes}
    (h : createBinFile elffile 2 mode clock size iromchksum names = some bytes)
    (hnames : names.length < 256) (hbytes : bytes.length < 2147483648) {f : Flash} {addr : Nat}
    (halign : addr % 16 = 0) (hat : Flash.read f addr bytes.length = bytes) :
    ∃ elf irom secs rom, loadElf elffile = some elf ∧
      paddedSection elf imagePadding iromName = some irom ∧
      names.mapM (paddedSection elf sectionPadding) = some secs ∧
      readRom f addr = some rom ∧
      ImageOf elf irom secs iromchksum f (addr + bytes.length) rom := by
  obtain ⟨elf, irom, secs, helf, hirom, hsecs, hparts⟩ := createBinFile_parts h hbytes
  have hcount : secs.length < 256 := by rwa [length_mapM hsecs]
  generalize hbody : imageBody elf mode clock size (some irom.data) secs = body at hparts
  generalize hchksum : xorSum (if iromchksum then xorSum checksumInit irom.data else checksumInit)
    (secs.flatMap Section.data) = chksum at hparts
  have hlength := hbody ▸ length_imageBody elf mode clock size irom.data secs
  have htotal : bytes.length = body.length + (padding imagePadding (body.length + 1) + 1) := by
    rw [hparts, length_imageEnd]
  have hlen : ∀ s ∈ secs, s.data.length < 4294967296 := by
    intro s hs
    have := mem_flatMap_length hs
    omega
  -- the headers in the flash say what the tool put there
  obtain ⟨hatBody, hatEnd⟩ : At f addr body ∧ At f (addr + body.length) (imageEnd body chksum) :=
    at_append.mp (by rw [At, ← hparts]; exact hat)
  obtain ⟨hrom, hend⟩ := readRom_at hcount hlen (by omega) (hbody ▸ hatBody)
  rw [hbody] at hend
  have hstored : f (addr + body.length + padding imagePadding (body.length + 1)) = chksum := by
    have hlast := (at_append.mp hatEnd).2
    rw [List.length_replicate] at hlast
    exact (at_cons.mp hlast).1
  have hchksumAt : (⟨addr + 16 + irom.data.length, some irom.data, elf.entry, secs⟩ : Rom).chksumAt =
      addr + body.length + padding imagePadding (body.length + 1) := by
    rw [← chksumAt_imageEnd halign, ← hend]
    rfl
  refine ⟨elf, irom, secs, _, helf, hirom, hsecs, hrom, rfl, rfl, rfl,
    by omega, ?_⟩
  rw [hchksumAt, hstored, ← hchksum]
  exact chksum_agrees_iff iromchksum irom.data (secs.flatMap Section.data)

/-- An image of the second version, anywhere in the flash, is accepted by the loader if
the irom section is in its checksum, or if its own sum is zero; and then the loader puts
the sections of the elf file where they belong. -/
theorem checkImage_createBinFile {elffile bytes : Bytes} {mode clock size : UInt8}
    {iromchksum : Bool} {names : List Bytes}
    (h : createBinFile elffile 2 mode clock size iromchksum names = some bytes)
    (hnames : names.length < 254) {chip : Chip} (hchip : chip.Healthy)
    (hsize : chip.size ≤ 0x1000000) {addr : UInt32} (hzero : addr ≠ 0)
    (halign : addr.toNat % 16 = 0) (hfits : addr.toNat + bytes.length ≤ chip.size)
    (hat : Flash.read chip.contents addr.toNat bytes.length = bytes) :
    ∃ elf irom secs, loadElf elffile = some elf ∧
      paddedSection elf imagePadding iromName = some irom ∧
      names.mapM (paddedSection elf sectionPadding) = some secs ∧
      (checkImage chip addr ≠ 0 ↔ iromchksum = true ∨ xorSum 0 irom.data = 0) ∧
      (checkImage chip addr ≠ 0 → ∀ (buffer : Bytes) (memory : Ram),
        loadRom chip (checkImage chip addr) buffer memory =
          some (elf.entry,
            Ram.storeAll memory (secs.map fun s => (s.address, s.data)))) := by
  obtain ⟨hmin, -⟩ := createBinFile_length h (by omega)
  obtain ⟨elf, irom, secs, rom, helf, hirom, hsecs, hrom, himage⟩ :=
    createBinFile_rom h (by omega) (by omega) halign hat
  have hparts : rom.parts < 255 := by
    rw [himage.parts, length_mapM hsecs]
    omega
  refine ⟨elf, irom, secs, helf, hirom, hsecs, ?_, ?_⟩
  · rw [← himage.chksum]
    constructor
    · intro hgood
      exact (checkImage_sound hrom hparts hgood).2.chksum
    · intro hgood
      have hinside := himage.inside
      exact checkImage_complete hchip hrom hparts hzero (by omega) ⟨by omega, hgood⟩
  · intro hgood buffer memory
    rw [loadRom_accepted hchip hrom hparts hgood buffer memory, himage.entry, Rom.ranges,
      himage.sections]

/-- An elf file with three bytes of `.irom0.text` and five bytes of `.text`. -/
def sampleElf : Bytes :=
  [0x7F, 0x45, 0x4C, 0x46, 0, 0, 0, 0, 0, 0, 0, 0, 0, 0, 0, 0, 2, 0, 0x5E, 0, 1, 0, 0, 0, 4, 0,
   0x10, 0x40, 0, 0, 0, 0, 0x59, 0, 0, 0, 0, 0, 0, 0, 0x34, 0, 0, 0, 0, 0, 0x28, 0, 4, 0, 3, 0,
   0x12, 0x34, 0x56, 1, 2, 3, 4, 5, 0, 0x2E, 0x69, 0x72, 0x6F, 0x6D, 0x30, 0x2E, 0x74, 0x65, 0x78,
   0x74, 0, 0x2E, 0x74, 0x65, 0x78, 0x74, 0, 0x2E, 0x73, 0x68, 0x73, 0x74, 0x72, 0x74, 0x61, 0x62,
   0, 0, 0, 0, 0, 1, 0, 0, 0, 0, 0, 0, 0, 0, 0, 0, 0, 0, 0, 0, 0, 0, 0, 0, 0, 0, 0, 0, 0, 0, 0, 0,
   0, 0, 0, 0, 0, 0, 0, 0, 0, 1, 0, 0, 0, 1, 0, 0, 0, 0, 0, 0, 0, 0x10, 0x20, 0x20, 0x40, 0x34, 0,
   0, 0, 3, 0, 0, 0, 0, 0, 0, 0, 0, 0, 0, 0, 0, 0, 0, 0, 0, 0, 0, 0, 0x0D, 0, 0, 0, 1, 0, 0, 0, 0,
   0, 0, 0, 0, 0, 0x10, 0x40, 0x37, 0, 0, 0, 5, 0, 0, 0, 0, 0, 0, 0, 0, 0, 0, 0, 0, 0, 0, 0, 0, 0,
   0, 0, 0x13, 0, 0, 0, 1, 0, 0, 0, 0, 0, 0, 0, 0, 0, 0, 0, 0x3C, 0, 0, 0, 0x1D, 0, 0, 0, 0, 0, 0,
   0, 0, 0, 0, 0, 0, 0, 0, 0, 0, 0, 0, 0]

/-- `.text` -/
def textName : Bytes := [0x2E, 0x74, 0x65, 0x78, 0x74]

def sampleBytes : Bytes := (createBinFile sampleElf 2 0 15 4 true [textName]).getD []

theorem sampleBytes_eq : createBinFile sampleElf 2 0 15 4 true [textName] = some sampleBytes := by
  decide +kernel

/-- The image in the first slot. -/
def slotFlash : Flash := fun a => sampleBytes.getD (a - 0x2000) 0

def slotChip : Chip := .ofFlash slotFlash 0x400000 (by decide)

theorem checkImage_createBinFile_sample : checkImage slotChip 0x2000 ≠ 0 := by
  have hat : Flash.read slotChip.contents (0x2000 : UInt32).toNat sampleBytes.length =
      sampleBytes := by decide +kernel
  obtain ⟨_, _, _, -, -, -, hiff, -⟩ := checkImage_createBinFile sampleBytes_eq (by decide)
    (Chip.ofFlash_healthy slotFlash 0x400000 (by decide)) (by decide) (by decide) (by decide)
    (by decide +kernel) hat
  exact hiff.mpr (.inl rfl)

end Esptool
end EspMisc
