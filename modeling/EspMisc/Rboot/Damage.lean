/-
Images that are not what they were.

The checksum of an image is the exclusive or of its data.  One byte that has changed, of
the irom section, of a section or of the checksum itself, is always found
(`checkImage_damaged`): the headers still say the same, so the check goes through the same
bytes.

The check does not see all that the loader uses, however.  The count of the sections is
one byte, and for an image of the new type the check counts the irom section as well.  At
255 the sum wraps around, and no section is looked at (`checkImage_unchecked`).
-/
import EspMisc.Rboot.Image

namespace EspMisc
namespace Rboot

section Damage

variable {f g : Flash} {a : Nat}

/-- Two flashes that differ in one byte. -/
structure DifferAt (f g : Flash) (a : Nat) : Prop where
  same : ∀ x, x ≠ a → g x = f x
  other : g a ≠ f a

theorem wordAt_congr {p : Nat} (h : ∀ x, p ≤ x → x < p + 4 → g x = f x) :
    wordAt g p = wordAt f p := by
  rw [wordAt, wordAt, h p (by omega) (by omega), h (p + 1) (by omega) (by omega),
    h (p + 2) (by omega) (by omega), h (p + 3) (by omega) (by omega)]

/-- Sections are the same where the flashes are. -/
theorem sectionsAt_congr {n : Nat} : ∀ {pos : Nat},
    (∀ x, pos ≤ x → x < sectionsEnd pos (sectionsAt f n pos) → g x = f x) →
    sectionsAt g n pos = sectionsAt f n pos := by
  induction n with
  | zero => exact fun _ => rfl
  | succ n ih =>
    intro pos h
    simp only [sectionsAt, sectionsEnd, Flash.length_read] at h ⊢
    have hend := le_sectionsEnd (pos + 8 + (wordAt f (pos + 4)).toNat)
      (sectionsAt f n (pos + 8 + (wordAt f (pos + 4)).toNat))
    have haddress : wordAt g pos = wordAt f pos :=
      wordAt_congr fun x hle hlt => h x hle (by omega)
    have hlength : wordAt g (pos + 4) = wordAt f (pos + 4) :=
      wordAt_congr fun x hle hlt => h x (by omega) (by omega)
    have hdata : Flash.read g (pos + 8) (wordAt f (pos + 4)).toNat =
        Flash.read f (pos + 8) (wordAt f (pos + 4)).toNat :=
      Flash.read_congr fun x hle hlt => h x (by omega) (by omega)
    rw [haddress, hlength, hdata, ih fun x hle hlt => h x (by omega) hlt]

theorem romFrom_congr (irom : Option Bytes) {start : Nat}
    (h : ∀ x, start ≤ x → x < (romFrom f irom start).stop → g x = f x) :
    romFrom g irom start = romFrom f irom start := by
  have hstop : start + 8 ≤ (romFrom f irom start).stop := le_sectionsEnd ..
  have hentry : wordAt g (start + 4) = wordAt f (start + 4) :=
    wordAt_congr fun x hle hlt => h x (by omega) (by omega)
  have hsections : sectionsAt g (f (start + 1)).toNat (start + 8) =
      sectionsAt f (f (start + 1)).toNat (start + 8) :=
    sectionsAt_congr fun x hle hlt => h x (by omega) hlt
  rw [romFrom, romFrom, h (start + 1) (by omega) (by omega), hentry, hsections]

/-- An image is the same where the flashes are. -/
theorem readRom_congr {addr : Nat} {rom : Rom} (hrom : readRom f addr = some rom)
    (h : ∀ x, addr ≤ x → x < rom.stop → g x = f x) : readRom g addr = some rom := by
  have hstop : rom.start + 8 ≤ rom.stop := le_sectionsEnd ..
  have hstart := readRom_start hrom
  have hmagic : g addr = f addr := h addr (Nat.le_refl _) (by omega)
  have hmagic2 : g (addr + 1) = f (addr + 1) := h (addr + 1) (by omega) (by omega)
  rcases readRom_cases hrom with ⟨hold, rfl⟩ | ⟨hold, hnew, rfl⟩
  · rw [readRom, hmagic, if_pos hold, romFrom_congr none h]
  · have hbefore : newStart f addr + 8 ≤ (newRom f addr).stop := hstop
    have hlen : newStart f addr = addr + 16 + (wordAt f (addr + 12)).toNat := rfl
    have hlength : wordAt g (addr + 12) = wordAt f (addr + 12) :=
      wordAt_congr fun x _ hlt => h x (by omega) (by omega)
    have hdata : Flash.read g (addr + 16) (wordAt f (addr + 12)).toNat =
        Flash.read f (addr + 16) (wordAt f (addr + 12)).toNat :=
      Flash.read_congr fun x _ hlt => h x (by omega) (by omega)
    rw [readRom, hmagic, hmagic2, if_neg hold, if_pos hnew, hlength, hdata]
    exact congrArg some (romFrom_congr _ fun x hle hlt => h x (by omega) hlt)

/-- The byte at `a` is data of one of the sections from `pos` on. -/
def inSections (a : Nat) : Nat → List Section → Prop
  | _, [] => False
  | pos, s :: l => (pos + 8 ≤ a ∧ a < pos + 8 + s.data.length) ∨
      inSections a (pos + 8 + s.data.length) l

theorem le_of_inSections {l : List Section} : ∀ {pos : Nat}, inSections a pos l →
    pos + 8 ≤ a ∧ a < sectionsEnd pos l := by
  induction l with
  | nil => exact fun h => absurd h id
  | cons s l ih =>
    intro pos h
    rw [sectionsEnd]
    rcases h with h | h
    · have hle := le_sectionsEnd (pos + 8 + s.data.length) l
      omega
    · have := ih h
      omega

/-- The range is the same up to one byte. -/
structure OneByte (f g : Flash) (a : Nat) (l r : Bytes) : Prop where
  split : ∃ before after, l = before ++ f a :: after ∧ r = before ++ g a :: after

theorem OneByte.append_left {l r : Bytes} (h : OneByte f g a l r) (t : Bytes) :
    OneByte f g a (t ++ l) (t ++ r) := by
  obtain ⟨before, after, rfl, rfl⟩ := h.split
  exact ⟨t ++ before, after, (List.append_assoc ..).symm, (List.append_assoc ..).symm⟩

theorem OneByte.append_right {l r : Bytes} (h : OneByte f g a l r) (t : Bytes) :
    OneByte f g a (l ++ t) (r ++ t) := by
  obtain ⟨before, after, rfl, rfl⟩ := h.split
  refine ⟨before, after ++ t, ?_, ?_⟩ <;> rw [List.append_assoc, List.cons_append]

theorem OneByte.calcChksum_ne {l r : Bytes} (h : OneByte f g a l r) (hne : g a ≠ f a) :
    calcChksum r ≠ calcChksum l := by
  obtain ⟨before, after, rfl, rfl⟩ := h.split
  exact xorSum_ne hne

theorem read_oneByte (h : DifferAt f g a) {p len : Nat} (hle : p ≤ a) (hlt : a < p + len) :
    OneByte f g a (Flash.read f p len) (Flash.read g p len) := by
  have hlen : len = (a - p) + (1 + (p + len - (a + 1))) := by omega
  have hread (e : Flash) : Flash.read e p len =
      Flash.read e p (a - p) ++ e a :: Flash.read e (a + 1) (p + len - (a + 1)) := by
    conv_lhs => rw [hlen, Flash.read_append, Flash.read_append]
    rw [Nat.add_sub_cancel' hle]
    rfl
  have hbefore : Flash.read g p (a - p) = Flash.read f p (a - p) :=
    Flash.read_congr fun x _ hx => h.same x (by omega)
  have hafter : Flash.read g (a + 1) (p + len - (a + 1)) =
      Flash.read f (a + 1) (p + len - (a + 1)) :=
    Flash.read_congr fun x hx _ => h.same x (by omega)
  refine ⟨_, _, hread f, ?_⟩
  rw [hread g, hbefore, hafter]

/-- A byte of data that changes leaves the sections where they are. -/
theorem sectionsAt_oneByte (h : DifferAt f g a) {n : Nat} : ∀ {pos : Nat},
    inSections a pos (sectionsAt f n pos) →
      sectionsEnd pos (sectionsAt g n pos) = sectionsEnd pos (sectionsAt f n pos) ∧
        OneByte f g a ((sectionsAt f n pos).flatMap Section.data)
          ((sectionsAt g n pos).flatMap Section.data) := by
  induction n with
  | zero => exact fun hin => absurd hin id
  | succ n ih =>
    intro pos hin
    have hle := (le_of_inSections hin).1
    have hword : wordAt g (pos + 4) = wordAt f (pos + 4) :=
      wordAt_congr fun x _ hx => h.same x (by omega)
    simp only [sectionsAt, sectionsEnd, Flash.length_read, List.flatMap_cons, hword]
    rw [sectionsAt] at hin
    rcases hin with ⟨hle, hlt⟩ | hin
    · rw [Flash.length_read] at hlt
      have hrest : sectionsAt g n (pos + 8 + (wordAt f (pos + 4)).toNat) =
          sectionsAt f n (pos + 8 + (wordAt f (pos + 4)).toNat) :=
        sectionsAt_congr fun x hx _ => h.same x (by omega)
      rw [hrest]
      exact ⟨rfl, (read_oneByte h hle hlt).append_right _⟩
    · rw [Flash.length_read] at hin
      have hafter := (le_of_inSections hin).1
      have hdata : Flash.read g (pos + 8) (wordAt f (pos + 4)).toNat =
          Flash.read f (pos + 8) (wordAt f (pos + 4)).toNat :=
        Flash.read_congr fun x _ hx => h.same x (by omega)
      obtain ⟨hend, hbyte⟩ := ih hin
      rw [hdata]
      exact ⟨hend, hbyte.append_left _⟩

/-- What one byte does to an image. -/
structure Damaged (f g : Flash) (a : Nat) (rom rom' : Rom) : Prop where
  stop : rom'.stop = rom.stop
  parts : rom'.parts = rom.parts
  byte : (a = rom.chksumAt ∧ rom'.data = rom.data) ∨
    (a < rom.stop ∧ OneByte f g a rom.data rom'.data)

theorem le_chksumAt (rom : Rom) : rom.stop ≤ rom.chksumAt := by
  unfold Rom.chksumAt
  omega

/-- The byte comes after the standard header. -/
theorem romFrom_damaged (h : DifferAt f g a) (irom : Option Bytes) {start : Nat}
    (ha : inSections a (start + 8) (romFrom f irom start).sections ∨
      a = (romFrom f irom start).chksumAt) :
    Damaged f g a (romFrom f irom start) (romFrom g irom start) := by
  have hstop : start + 8 ≤ (romFrom f irom start).stop := le_sectionsEnd ..
  have hchksum := le_chksumAt (romFrom f irom start)
  have hafter : start + 8 ≤ a := by
    rcases ha with ha | ha
    · have := (le_of_inSections ha).1
      omega
    · omega
  have hcount : g (start + 1) = f (start + 1) := h.same _ (by omega)
  have hparts : (romFrom g irom start).parts = (romFrom f irom start).parts := by
    rw [Rom.parts, Rom.parts, romFrom, romFrom, length_sectionsAt, length_sectionsAt, hcount]
  rcases ha with ha | ha
  · obtain ⟨hend, hbyte⟩ := sectionsAt_oneByte h ha
    refine ⟨?_, hparts, .inr ⟨(le_of_inSections ha).2, ?_⟩⟩
    · rw [Rom.stop, romFrom, hcount]
      exact hend
    · rw [Rom.data, Rom.data, romFrom, romFrom, hcount]
      exact hbyte.append_left _
  · have hsame : (romFrom g irom start).sections = (romFrom f irom start).sections := by
      rw [romFrom, romFrom, hcount]
      refine sectionsAt_congr fun x _ hx => h.same x ?_
      have hx : x < (romFrom f irom start).stop := hx
      omega
    refine ⟨?_, hparts, .inl ⟨ha, ?_⟩⟩
    · rw [Rom.stop, Rom.stop, hsame]
      rfl
    · rw [Rom.data, Rom.data, hsame]
      rfl

/-- The byte is of the irom section. -/
theorem newRom_damaged (h : DifferAt f g a) {addr : Nat} (hle : addr + 16 ≤ a)
    (hlt : a < newStart f addr) : Damaged f g a (newRom f addr) (newRom g addr) := by
  have hlength : wordAt g (addr + 12) = wordAt f (addr + 12) :=
    wordAt_congr fun x _ hx => h.same x (by omega)
  have hstart : newStart g addr = newStart f addr := by rw [newStart, newStart, hlength]
  have hsame : (newRom g addr).sections = (newRom f addr).sections := by
    rw [newRom, newRom, romFrom, romFrom, hstart, h.same (newStart f addr + 1) (by omega)]
    exact sectionsAt_congr fun x hx _ => h.same x (by omega)
  have hstop : newStart f addr + 8 ≤ (newRom f addr).stop := le_sectionsEnd ..
  refine ⟨?_, ?_, .inr ⟨by omega, ?_⟩⟩
  · rw [Rom.stop, Rom.stop, hsame]
    show sectionsEnd (newStart g addr + 8) _ = sectionsEnd (newStart f addr + 8) _
    rw [hstart]
  · rw [Rom.parts, Rom.parts, hsame]
    rfl
  · rw [Rom.data, Rom.data, hsame]
    show OneByte f g a (Flash.read f (addr + 16) _ ++ _) (Flash.read g (addr + 16) _ ++ _)
    rw [hlength]
    exact (read_oneByte h hle hlt).append_right _

/-- The byte at `a` is one that the checksum is about, or the checksum. -/
def Rom.Covers (rom : Rom) (a : Nat) : Prop :=
  (∃ irom, rom.irom = some irom ∧ rom.start ≤ a + irom.length ∧ a < rom.start) ∨
    inSections a (rom.start + 8) rom.sections ∨ a = rom.chksumAt

theorem readRom_damaged (h : DifferAt f g a) {addr : Nat} {rom : Rom}
    (hrom : readRom f addr = some rom) (ha : rom.Covers a) :
    ∃ rom', readRom g addr = some rom' ∧ Damaged f g a rom rom' := by
  have hstop : rom.start + 8 ≤ rom.stop := le_sectionsEnd ..
  have hchksum := le_chksumAt rom
  rcases readRom_cases hrom with ⟨hmagic, rfl⟩ | ⟨hmagic, hnew, rfl⟩
  · rcases ha with ⟨irom, hirom, -, -⟩ | ha
    · exact absurd hirom (by simp [romFrom])
    · have hafter : addr + 8 ≤ a := by
        rcases ha with ha | ha
        · have : addr + 8 + 8 ≤ a := (le_of_inSections ha).1
          omega
        · have hstart : (romFrom f none addr).start = addr := rfl
          omega
      refine ⟨romFrom g none addr, ?_, romFrom_damaged h none ha⟩
      rw [readRom, h.same addr (by omega), if_pos hmagic]
  · have hstart : (newRom f addr).start = newStart f addr := rfl
    have hirom : (newRom f addr).irom =
        some (Flash.read f (addr + 16) (wordAt f (addr + 12)).toNat) := rfl
    have hlen : newStart f addr = addr + 16 + (wordAt f (addr + 12)).toNat := rfl
    have hafter : addr + 16 ≤ a := by
      rcases ha with ⟨irom, hi, hle, -⟩ | ha | ha
      · obtain rfl := Option.some.inj (hirom.symm.trans hi)
        rw [Flash.length_read] at hle
        omega
      · have := (le_of_inSections ha).1
        omega
      · omega
    have hread : readRom g addr = some (newRom g addr) := by
      rw [readRom, h.same addr (by omega), h.same (addr + 1) (by omega), if_neg hmagic,
        if_pos hnew]
      rfl
    refine ⟨_, hread, ?_⟩
    rcases ha with ⟨irom, -, -, hlt⟩ | ha
    · exact newRom_damaged h hafter hlt
    · have hlength : wordAt g (addr + 12) = wordAt f (addr + 12) :=
        wordAt_congr fun x _ hx => h.same x (by omega)
      have hafter' : newStart f addr + 8 ≤ a := by
        rcases ha with ha | ha
        · have := (le_of_inSections ha).1
          omega
        · omega
      have hsame : newRom g addr = romFrom g (newRom f addr).irom (newStart f addr) := by
        rw [newRom, newStart, hlength, hirom]
        have hdata : Flash.read g (addr + 16) (wordAt f (addr + 12)).toNat =
            Flash.read f (addr + 16) (wordAt f (addr + 12)).toNat :=
          Flash.read_congr fun x _ hx => h.same x (by omega)
        rw [hdata]
        rfl
      rw [hsame]
      exact romFrom_damaged h _ ha

end Damage

/-- The check is about the bytes of the image, and no others. -/
theorem checkImage_congr {chip chip' : Chip} (hchip' : chip'.Healthy)
    (hsize : chip'.size = chip.size) {addr : UInt32} {rom : Rom}
    (hrom : readRom chip.contents addr.toNat = some rom) (hparts : rom.parts < 255)
    (hgood : checkImage chip addr ≠ 0)
    (h : ∀ x, addr.toNat ≤ x → x ≤ rom.chksumAt → chip'.contents x = chip.contents x) :
    readRom chip'.contents addr.toNat = some rom ∧ checkImage chip' addr = checkImage chip addr := by
  have hle := le_chksumAt rom
  have hafter : rom.start + 8 ≤ rom.stop := le_sectionsEnd ..
  have hrom' : readRom chip'.contents addr.toNat = some rom :=
    readRom_congr hrom fun x hx hlt => h x hx (by omega)
  obtain ⟨hzero, -, hinside, -⟩ := checkImage_header hgood
  obtain ⟨hstart, hintact⟩ := checkImage_sound hrom hparts hgood
  have hstop := readRom_start hrom
  have hgood' : checkImage chip' addr ≠ 0 := by
    refine checkImage_complete hchip' hrom' hparts hzero (by rw [hsize]; exact hinside) ⟨?_, ?_⟩
    · rw [hsize]
      exact hintact.inside
    · rw [h _ (by omega) (Nat.le_refl _)]
      exact hintact.chksum
  refine ⟨hrom', UInt32.toNat_inj.mp ?_⟩
  rw [(checkImage_sound hrom' hparts hgood').1, hstart]

/-- One byte of an accepted image that has changed is found, whatever it is now and
wherever it is in the data. -/
theorem checkImage_damaged {chip chip' : Chip} {addr : UInt32} {rom : Rom} {a : Nat}
    (hrom : readRom chip.contents addr.toNat = some rom) (hparts : rom.parts < 255)
    (hgood : checkImage chip addr ≠ 0) (h : DifferAt chip.contents chip'.contents a)
    (ha : rom.Covers a) : checkImage chip' addr = 0 := by
  obtain ⟨-, -, hchksum⟩ := checkImage_sound hrom hparts hgood
  obtain ⟨rom', hrom', hdamaged⟩ := readRom_damaged h hrom ha
  have hat : rom'.chksumAt = rom.chksumAt := by rw [Rom.chksumAt, hdamaged.stop, Rom.chksumAt]
  by_contra hbad
  obtain ⟨-, -, hchksum'⟩ := checkImage_sound hrom' (hdamaged.parts ▸ hparts) hbad
  rw [hat] at hchksum'
  rcases hdamaged.byte with ⟨rfl, hdata⟩ | ⟨hlt, hbyte⟩
  · apply h.other
    rw [hchksum', hchksum, hdata]
  · have hle := le_chksumAt rom
    rw [h.same _ (by omega), hchksum] at hchksum'
    exact hbyte.calcChksum_ne h.other hchksum'.symm

/-- A byte of the irom section. -/
theorem checkImage_damaged_sample :
    checkImage (.ofFlash (fun x => if x = 32 then 0 else sampleImage x) 64 (by decide)) 16 =
      0 := by
  have hrom : readRom sampleChip.contents (16 : UInt32).toNat = some sampleRom := readRom_sample
  have hdiffer : DifferAt sampleImage (fun x => if x = 32 then 0 else sampleImage x) 32 := by
    refine ⟨fun x hx => if_neg hx, ?_⟩
    decide +kernel
  exact checkImage_damaged hrom (by decide) (by decide +kernel) hdiffer
    (.inl ⟨_, rfl, by decide, by decide⟩)

/-! ## Too many sections -/

section Unchecked

variable {chip : Chip} {addr : UInt32}

/-- With a count of 255 the loop ends after the irom section. -/
theorem checkSections_wrapped (h : addr.toNat + 8 ≤ chip.size)
    (hcount : chip.contents (newStart chip.contents addr.toNat + 1) = 0xFF) :
    (∀ {s : UInt32 × UInt8}, checkSections chip 256 0 0xFF (addr + 8) chksumInit = some s →
        s.1.toNat = newStart chip.contents addr.toNat + 8 ∧
          s.2 = calcChksum ((newRom chip.contents addr.toNat).irom.getD [])) ∧
      (chip.Healthy → newStart chip.contents addr.toNat + 8 ≤ chip.size →
        ∃ s, checkSections chip 256 0 0xFF (addr + 8) chksumInit = some s) := by
  have height := toNat_add_eight h
  have hsecond {t : UInt32 × UInt8}
      (ht : Summed chip (addr.toNat + 16) chksumInit
        (wordAt chip.contents (addr.toNat + 12)).toNat t) :
      checkSections chip 255 1 ((Flash.read chip.contents t.1.toNat 8).getD 1 0 + 1) (t.1 + 8)
        t.2 = some (t.1 + 8, t.2) := by
    have hpos : t.1.toNat = newStart chip.contents addr.toNat := ht.pos
    rw [getD_read _ (by decide), hpos, hcount, checkSections, if_neg (by decide)]
  rw [checkSections_first]
  constructor
  · intro s hs
    obtain ⟨t, ht, hs⟩ := Option.bind_eq_some_iff.mp hs
    obtain ⟨header, hread, hs⟩ := Option.bind_eq_some_iff.mp hs
    obtain ⟨hinside, rfl⟩ := chip.sound hread
    have hirom := checkSection_sound ht
    rw [height] at hirom
    rw [hsecond hirom] at hs
    obtain rfl := Option.some.inj hs
    exact ⟨(toNat_add_eight hinside).trans (congrArg (· + 8) hirom.pos), hirom.sum⟩
  · intro hchip hend
    have hirom : (addr + 8).toNat + 8 + lengthAt chip.contents (addr + 8).toNat ≤ chip.size := by
      rw [height]
      exact Nat.le_trans (Nat.le_add_right _ 8) hend
    obtain ⟨t, ht, hsummed⟩ := checkSection_complete hchip chksumInit hirom
    rw [height] at hsummed
    have hinside : t.1.toNat + 8 ≤ chip.size := by
      rw [hsummed.pos]
      exact hend
    rw [ht, Option.bind_some, hchip t.1 8 hinside, Option.bind_some, hsecond hsummed]
    exact ⟨_, rfl⟩

/-- An image of the new type that says it has 255 sections is accepted or refused by its
irom section alone, with a byte of what the loader takes for the first section. -/
theorem checkImage_unchecked (hchip : chip.Healthy)
    (hnew : chip.contents addr.toNat = romMagicNew1 ∧
      chip.contents (addr.toNat + 1) = romMagicNew2)
    (hcount : chip.contents (newStart chip.contents addr.toNat + 1) = 0xFF) :
    (newRom chip.contents addr.toNat).sections.length = 255 ∧
    (checkImage chip addr ≠ 0 ↔ addr ≠ 0 ∧
      (newStart chip.contents addr.toNat + 8) / 16 * 16 + 15 < chip.size ∧
      chip.contents ((newStart chip.contents addr.toNat + 8) / 16 * 16 + 15) =
        calcChksum ((newRom chip.contents addr.toNat).irom.getD [])) := by
  have hstart : addr.toNat + 16 ≤ newStart chip.contents addr.toNat := Nat.le_add_right ..
  have hmagic : chip.contents addr.toNat ≠ romMagic := by
    rw [hnew.1]
    decide
  constructor
  · show (sectionsAt _ _ _).length = 255
    rw [length_sectionsAt, hcount]
    rfl
  constructor
  · intro h
    obtain ⟨hzero, hlast, hle, hread⟩ := checkImage_header h
    rw [checkImage_read hzero hlast hread, if_neg hmagic, if_pos hnew] at h
    obtain ⟨-, s, hs, hlt, hsum⟩ := checkParts_sound h
    obtain ⟨hpos, hsummed⟩ := (checkSections_wrapped (by omega) hcount).1 hs
    rw [hpos] at hlt hsum
    exact ⟨hzero, hlt, hsum.trans hsummed⟩
  · rintro ⟨hzero, hlt, hsum⟩
    have hle : addr.toNat + 16 ≤ chip.size := by omega
    obtain ⟨hsound, hcomplete⟩ := checkSections_wrapped (by omega) hcount
    obtain ⟨s, hs⟩ := hcomplete hchip (by omega)
    obtain ⟨hpos, hsummed⟩ := hsound hs
    rw [checkImage_read hzero (ne_last hle) (hchip addr 16 hle), if_neg hmagic, if_pos hnew,
      checkParts_complete hchip _ hs (by rw [hpos]; exact hlt)
        (by rw [hpos, hsummed]; exact hsum)]
    intro hres
    have htoNat := @toNat_newStart chip addr (by omega)
    rw [hres] at htoNat
    exact absurd htoNat (Nat.ne_of_lt (by show 0 < _; omega))

end Unchecked

/-- An irom section of no bytes, and a count of 255. -/
def manySections : Flash := fun a =>
  ([0xEA, 0x04, 0, 0, 0, 0, 0, 0, 0, 0, 0, 0, 0, 0, 0, 0, 0xE9, 0xFF, 0, 0, 0, 0, 0, 0,
    0, 0, 0, 0, 0, 0, 0, 0xEF] : Bytes).getD (a - 16) 0

theorem checkImage_unchecked_sample :
    checkImage (.ofFlash manySections 64 (by decide)) 16 ≠ 0 := by
  have hnew : manySections (16 : UInt32).toNat = romMagicNew1 ∧
      manySections ((16 : UInt32).toNat + 1) = romMagicNew2 := by decide +kernel
  refine (@checkImage_unchecked (.ofFlash manySections 64 (by decide)) 16
    (Chip.ofFlash_healthy _ _ _) hnew (by decide +kernel)).2.mpr ⟨by decide, ?_, ?_⟩
  · decide +kernel
  · decide +kernel

end Rboot
end EspMisc
