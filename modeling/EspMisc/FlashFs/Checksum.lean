/-
The checksum of a file, `fs_update_crc` of `platform/flash_fs.c`.

The function reads a file in pieces of at most `CRCBUF_LEN` bytes, as many as the layer
below gives, until it has seen as many bytes as the catalogue records.  The checksum does
not depend on the pieces (`fsUpdateCrc_content`).  A read of no bytes ends the loop, but a
read that fails does not: `crc_terminates_iff` says that the function returns unless the
reads fail forever before they have given the recorded size.
-/
import EspMisc.FlashFs.Files
import EspMisc.Util.Crc
import Mathlib.Algebra.BigOperators.Group.Finset.Basic
import Mathlib.Algebra.Order.BigOperators.Group.Finset

namespace EspMisc
namespace FlashFs

open Util (crc32ComputeBuf crc16ComputeBuf crc8ComputeBuf crc32 crc16 crc8)

def CRCBUF_LEN : UInt32 := 32

/-- What the calls of `fs_update_crc` return: the descriptor of `myfs_openname`, the result
of the first `myfs_seek`, and the bytes that the `k`-th `myfs_read` could give, or `none`
when it fails. -/
structure FsAnswers where
  fd : Int
  seek : Int
  reads : Nat → Option (List UInt8)

/-- `myspiffs_read`: the result, and the bytes in `crcBuf`. -/
def myfsRead (answer : Option (List UInt8)) (toRead : UInt16) : Int × List UInt8 :=
  match answer with
  | none => (-1, [])
  | some bytes => ((bytes.take toRead.toNat).length, bytes.take toRead.toNat)

def crcUpdate (flags : BitVec 16) (crcOut : UInt32) (crcBuf : List UInt8) : UInt32 :=
  if flags &&& MARK_CRC32 ≠ 0 then crc32ComputeBuf crcOut crcBuf
  else if flags &&& MARK_CRC16 ≠ 0 then (crc16ComputeBuf crcOut.toUInt16 crcBuf).toUInt32
  else if flags &&& MARK_CRC8 ≠ 0 then (crc8ComputeBuf crcOut.toUInt8 crcBuf).toUInt32
  else crcOut

/-- The variables of the loop, with the number of reads so far. -/
structure CrcLoop where
  bytesRem : UInt32
  crcOut : UInt32
  reads : Nat

def CrcLoop.toRead (s : CrcLoop) : UInt16 :=
  if s.bytesRem < CRCBUF_LEN then s.bytesRem.toUInt16 else CRCBUF_LEN.toUInt16

/-- The read loop.  The result is `none` when `fuel` turns are not enough. -/
def readCrc (flags : BitVec 16) (reads : Nat → Option (List UInt8)) :
    Nat → CrcLoop → Option CrcLoop
  | 0, _ => none
  | fuel + 1, s =>
    if s.bytesRem = 0 then some s
    else
      let read := myfsRead (reads s.reads) s.toRead
      if read.1 > 0 then
        readCrc flags reads fuel
          { bytesRem := s.bytesRem - UInt32.ofNat read.1.toNat
            crcOut := crcUpdate flags s.crcOut read.2
            reads := s.reads + 1 }
      else if read.1 = 0 then some { s with reads := s.reads + 1 }
      else readCrc flags reads fuel { s with reads := s.reads + 1 }

/-- The entry after the call, and the descriptors that were opened and closed. -/
structure CrcUpdated where
  entry : Option FsFile
  opened : List Int
  closed : List Int
  ret : Bool

/-- An error is returned as `-1`, which is true as well. -/
def fsUpdateCrc (answers : FsAnswers) (fuel : Nat) : Option FsFile → Option CrcUpdated
  | none => some ⟨none, [], [], true⟩
  | some f =>
    match getFs f with
    | none => some ⟨some f, [], [], true⟩
    | some _ =>
      if answers.fd < 0 then some ⟨some f, [], [], true⟩
      else if f.size > 0 then
        if answers.seek < 0 then some ⟨some f, [answers.fd], [answers.fd], true⟩
        else
          (readCrc f.flags answers.reads fuel ⟨f.size, 0, 0⟩).map fun s =>
            ⟨some { f with crc := s.crcOut }, [answers.fd], [answers.fd], true⟩
      else some ⟨some f, [answers.fd], [answers.fd], true⟩

/-- The function comes to its loop. -/
structure ReadsFile (answers : FsAnswers) (f : FsFile) : Prop where
  fs : (getFs f).isSome = true
  fd : 0 ≤ answers.fd
  size : 0 < f.size
  seek : 0 ≤ answers.seek

section Calls

variable {answers : FsAnswers} {f : FsFile}

theorem ReadsFile.fsUpdateCrc_eq (h : ReadsFile answers f) (fuel : Nat) :
    fsUpdateCrc answers fuel (some f) =
      (readCrc f.flags answers.reads fuel ⟨f.size, 0, 0⟩).map fun s =>
        ⟨some { f with crc := s.crcOut }, [answers.fd], [answers.fd], true⟩ := by
  obtain ⟨fs, hfs⟩ := Option.isSome_iff_exists.mp h.fs
  unfold fsUpdateCrc
  dsimp only
  rw [hfs]
  dsimp only
  rw [if_neg (Int.not_lt.mpr h.fd), if_pos h.size, if_neg (Int.not_lt.mpr h.seek)]

/-- Outside of the loop everything that is opened is closed. -/
theorem fsUpdateCrc_other {fsSt : Option FsFile} (h : ∀ f, fsSt = some f → ¬ReadsFile answers f)
    (fuel : Nat) : ∃ r, fsUpdateCrc answers fuel fsSt = some r ∧ r.closed = r.opened := by
  cases fsSt with
  | none => exact ⟨_, rfl, rfl⟩
  | some f =>
    unfold fsUpdateCrc
    dsimp only
    cases hfs : getFs f with
    | none => exact ⟨_, rfl, rfl⟩
    | some fs =>
      dsimp only
      split
      · exact ⟨_, rfl, rfl⟩
      · rename_i hfd
        split
        · rename_i hsize
          split
          · exact ⟨_, rfl, rfl⟩
          · rename_i hseek
            exact absurd ⟨Option.isSome_iff_exists.mpr ⟨fs, hfs⟩, Int.not_lt.mp hfd, hsize,
              Int.not_lt.mp hseek⟩ (h f rfl)
        · exact ⟨_, rfl, rfl⟩

end Calls

/-! ## One turn of the loop -/

section Turn

variable {flags : BitVec 16} {reads : Nat → Option (List UInt8)} {fuel : Nat} {s : CrcLoop}

theorem toRead_toNat (s : CrcLoop) : s.toRead.toNat = min 32 s.bytesRem.toNat := by
  unfold CrcLoop.toRead
  split
  · rename_i h
    have hlt : s.bytesRem.toNat < 32 := UInt32.lt_iff_toNat_lt.mp h
    rw [UInt32.toNat_toUInt16, Nat.mod_eq_of_lt (by omega), Nat.min_eq_right (by omega)]
  · rename_i h
    have hle : 32 ≤ s.bytesRem.toNat :=
      Nat.not_lt.mp fun hlt => h (UInt32.lt_iff_toNat_lt.mpr hlt)
    rw [Nat.min_eq_left hle]
    rfl

theorem readCrc_done (h : s.bytesRem = 0) : readCrc flags reads (fuel + 1) s = some s :=
  if_pos h

theorem readCrc_error (h : s.bytesRem ≠ 0) (hread : reads s.reads = none) :
    readCrc flags reads (fuel + 1) s =
      readCrc flags reads fuel { s with reads := s.reads + 1 } := by
  rw [readCrc, if_neg h, hread]
  rfl

theorem readCrc_empty (h : s.bytesRem ≠ 0) (hread : reads s.reads = some []) :
    readCrc flags reads (fuel + 1) s = some { s with reads := s.reads + 1 } := by
  rw [readCrc, if_neg h, hread, myfsRead]
  dsimp only
  rw [List.take_nil]
  rfl

/-- The bytes that a read gives. -/
def CrcLoop.piece (s : CrcLoop) (bytes : List UInt8) : List UInt8 := bytes.take s.toRead.toNat

def CrcLoop.take (s : CrcLoop) (flags : BitVec 16) (bytes : List UInt8) : CrcLoop where
  bytesRem := s.bytesRem - UInt32.ofNat (s.piece bytes).length
  crcOut := crcUpdate flags s.crcOut (s.piece bytes)
  reads := s.reads + 1

theorem length_piece (s : CrcLoop) (bytes : List UInt8) :
    (s.piece bytes).length = min (min 32 s.bytesRem.toNat) bytes.length := by
  rw [CrcLoop.piece, List.length_take, toRead_toNat]

theorem readCrc_bytes {bytes : List UInt8} (h : s.bytesRem ≠ 0)
    (hread : reads s.reads = some bytes) (hne : bytes ≠ []) :
    readCrc flags reads (fuel + 1) s = readCrc flags reads fuel (s.take flags bytes) := by
  have hpos : 0 < ((s.piece bytes).length : Int) := by
    have hlen := List.length_pos_iff.mpr hne
    have hrem : s.bytesRem.toNat ≠ 0 := fun hzero => h (UInt32.toNat_inj.mp hzero)
    rw [length_piece]
    omega
  rw [readCrc, if_neg h, hread]
  exact if_pos hpos

theorem take_bytesRem (s : CrcLoop) (flags : BitVec 16) (bytes : List UInt8) :
    (s.take flags bytes).bytesRem.toNat = s.bytesRem.toNat - min 32 bytes.length := by
  have hlt := s.bytesRem.toNat_lt
  have hlen := length_piece s bytes
  have hsmall : (UInt32.ofNat (s.piece bytes).length).toNat = (s.piece bytes).length := by
    rw [UInt32.toNat_ofNat', Nat.mod_eq_of_lt (by omega)]
  have hle : UInt32.ofNat (s.piece bytes).length ≤ s.bytesRem := by
    rw [UInt32.le_iff_toNat_le, hsmall]
    omega
  change (s.bytesRem - UInt32.ofNat (s.piece bytes).length).toNat = _
  rw [UInt32.toNat_sub_of_le _ _ hle, hsmall]
  omega

end Turn

/-! ## The checksum of the content -/

/-- The check of a whole content that the flags of an entry ask for. -/
def fileCrc (flags : BitVec 16) (content : List UInt8) : UInt32 :=
  if flags &&& MARK_CRC32 ≠ 0 then crc32 content
  else if flags &&& MARK_CRC16 ≠ 0 then (crc16 content).toUInt32
  else if flags &&& MARK_CRC8 ≠ 0 then (crc8 content).toUInt32
  else 0

theorem crcUpdate_start (flags : BitVec 16) (content : List UInt8) :
    crcUpdate flags 0 content = fileCrc flags content := by
  unfold crcUpdate fileCrc
  rw [show (0 : UInt32).toUInt16 = 0 from rfl, show (0 : UInt32).toUInt8 = 0 from rfl,
    Util.crc32ComputeBuf_eq, Util.crc16ComputeBuf_eq, Util.crc8ComputeBuf_eq]

theorem crcUpdate_append (flags : BitVec 16) (c : UInt32) (a b : List UInt8) :
    crcUpdate flags (crcUpdate flags c a) b = crcUpdate flags c (a ++ b) := by
  unfold crcUpdate
  split
  · exact Util.crc32ComputeBuf_append c a b
  · split
    · rw [UInt16.toUInt16_toUInt32, Util.crc16ComputeBuf_append]
    · split
      · rw [UInt8.toUInt8_toUInt32, Util.crc8ComputeBuf_append]
      · rfl

theorem crcUpdate_pieces (flags : BitVec 16) (c : UInt32) (a : List UInt8)
    (pieces : List (List UInt8)) :
    pieces.foldl (crcUpdate flags) (crcUpdate flags c a) =
      crcUpdate flags c (a ++ pieces.flatten) := by
  induction pieces generalizing a with
  | nil => rw [List.flatten_nil, List.append_nil]; rfl
  | cons piece pieces ih =>
    rw [List.foldl_cons, crcUpdate_append, ih, List.flatten_cons, List.append_assoc]

/-- The loop takes one piece after the other. -/
theorem readCrc_pieces (flags : BitVec 16) {reads : Nat → Option (List UInt8)}
    {pieces : List (List UInt8)} {s : CrcLoop}
    (hfit : ∀ piece ∈ pieces, piece ≠ [] ∧ piece.length ≤ 32)
    (hread : ∀ k piece, pieces[k]? = some piece → reads (s.reads + k) = some piece)
    (hrem : s.bytesRem.toNat = pieces.flatten.length) :
    ∃ r, readCrc flags reads (pieces.length + 1) s = some r ∧
      r.crcOut = pieces.foldl (crcUpdate flags) s.crcOut := by
  induction pieces generalizing s with
  | nil => exact ⟨s, readCrc_done (UInt32.toNat_inj.mp hrem), rfl⟩
  | cons piece pieces ih =>
    obtain ⟨⟨hne, hshort⟩, hfit⟩ := List.forall_mem_cons.mp hfit
    rw [List.flatten_cons, List.length_append] at hrem
    have hpos := List.length_pos_iff.mpr hne
    have hmore : s.bytesRem ≠ 0 := by
      intro hzero
      rw [hzero] at hrem
      exact absurd hrem (by change 0 ≠ _; omega)
    have hwhole : s.piece piece = piece := by
      rw [CrcLoop.piece, toRead_toNat]
      exact List.take_of_length_le (by omega)
    obtain ⟨r, hr, hcrc⟩ := ih (s := s.take flags piece) hfit
      (fun k next hnext => by
        rw [← hread (k + 1) next hnext, Nat.add_comm k, ← Nat.add_assoc]
        rfl)
      (by rw [take_bytesRem]; omega)
    refine ⟨r, ?_, ?_⟩
    · rw [List.length_cons, readCrc_bytes hmore (hread 0 piece rfl) hne]
      exact hr
    · have hout : (s.take flags piece).crcOut = crcUpdate flags s.crcOut piece := by
        change crcUpdate flags s.crcOut (s.piece piece) = _
        rw [hwhole]
      rw [hcrc, hout, List.foldl_cons]

/-- Whatever pieces of at most `CRCBUF_LEN` bytes the reads give, the entry gets the check
of the whole content. -/
theorem fsUpdateCrc_content {answers : FsAnswers} {f : FsFile} (hfile : ReadsFile answers f)
    {content : List UInt8} (hsize : f.size.toNat = content.length)
    (pieces : List (List UInt8)) (hpieces : pieces.flatten = content)
    (hfit : ∀ piece ∈ pieces, piece ≠ [] ∧ piece.length ≤ 32)
    (hread : ∀ k piece, pieces[k]? = some piece → answers.reads k = some piece) :
    ∃ fuel r, fsUpdateCrc answers fuel (some f) = some r ∧
      r.entry = some { f with crc := fileCrc f.flags content } := by
  obtain ⟨r, hr, hcrc⟩ := readCrc_pieces f.flags (s := ⟨f.size, 0, 0⟩) hfit
    (fun k piece hk => by rw [Nat.zero_add]; exact hread k piece hk)
    (hsize.trans (congrArg _ hpieces.symm))
  have hnone : crcUpdate f.flags 0 [] = 0 := by
    unfold crcUpdate
    repeat' split
    all_goals rfl
  rw [show (⟨f.size, 0, 0⟩ : CrcLoop).crcOut = crcUpdate f.flags 0 [] from hnone.symm,
    crcUpdate_pieces, List.nil_append, hpieces, crcUpdate_start] at hcrc
  refine ⟨pieces.length + 1,
    ⟨some { f with crc := r.crcOut }, [answers.fd], [answers.fd], true⟩, ?_, ?_⟩
  · rw [hfile.fsUpdateCrc_eq, hr]
    rfl
  · rw [hcrc]

/-- A file of `FS0` with the digits from `1` to `9`, which gets a CRC-32. -/
def sampleFile : FsFile := ⟨MARK_STATICFS ||| MARK_CRC32, 9, 0, [97]⟩

/-- Two bytes, and then the other seven. -/
def sampleAnswers : FsAnswers where
  fd := 1
  seek := 0
  reads k := [[49, 50], [51, 52, 53, 54, 55, 56, 57]][k]?

theorem sampleFile_read : ReadsFile sampleAnswers sampleFile := by
  constructor <;> decide

theorem fsUpdateCrc_content_sample :
    ∃ fuel r, fsUpdateCrc sampleAnswers fuel (some sampleFile) = some r ∧
      r.entry = some { sampleFile with crc := 0xCBF43926 } := by
  have hcrc : fileCrc sampleFile.flags [49, 50, 51, 52, 53, 54, 55, 56, 57] = 0xCBF43926 := by
    decide +kernel
  rw [← hcrc]
  refine fsUpdateCrc_content sampleFile_read rfl
    [[49, 50], [51, 52, 53, 54, 55, 56, 57]] rfl (by decide) ?_
  intro k piece hk
  exact hk

/-! ## When the loop ends -/

/-- How many bytes a read adds, while there are that many to read. -/
def given (answer : Option (List UInt8)) : Nat := min 32 (answer.getD []).length

def total (reads : Nat → Option (List UInt8)) (n : Nat) : Nat :=
  ∑ k ∈ Finset.range n, given (reads k)

/-- From some read on every read fails, and the reads before it gave fewer than `size`
bytes and none of them came to the end of the file. -/
def FailsForever (size : Nat) (reads : Nat → Option (List UInt8)) : Prop :=
  ∃ n, (∀ k, n ≤ k → reads k = none) ∧ (∀ k < n, reads k ≠ some []) ∧ total reads n < size

section Ends

variable {flags : BitVec 16} {reads : Nat → Option (List UInt8)} {size : Nat} {s : CrcLoop}

theorem total_succ (reads : Nat → Option (List UInt8)) (n : Nat) :
    total reads (n + 1) = total reads n + given (reads n) :=
  Finset.sum_range_succ _ n

theorem total_mono {m n : Nat} (h : m ≤ n) : total reads m ≤ total reads n :=
  Finset.sum_le_sum_of_subset (Finset.range_subset_range.mpr h)

/-- What is left to read, as far as the reads have given it. -/
def CrcLoop.Left (reads : Nat → Option (List UInt8)) (size : Nat) (s : CrcLoop) : Prop :=
  s.bytesRem.toNat = size - total reads s.reads

theorem CrcLoop.Left.error (h : s.Left reads size) (hread : reads s.reads = none) :
    CrcLoop.Left reads size { s with reads := s.reads + 1 } := by
  have hgiven : given (reads s.reads) = 0 := by rw [hread]; rfl
  change s.bytesRem.toNat = _
  rw [h, total_succ, hgiven, Nat.add_zero]

theorem CrcLoop.Left.bytes (h : s.Left reads size) {bytes : List UInt8}
    (hread : reads s.reads = some bytes) : (s.take flags bytes).Left reads size := by
  have hgiven : given (reads s.reads) = min 32 bytes.length := by rw [hread]; rfl
  change (s.take flags bytes).bytesRem.toNat = size - total reads (s.reads + 1)
  rw [take_bytesRem, h, total_succ, hgiven, Nat.sub_sub]

theorem CrcLoop.Left.more (h : s.Left reads size) (hlt : total reads s.reads < size) :
    s.bytesRem ≠ 0 := by
  intro hzero
  unfold CrcLoop.Left at h
  rw [hzero] at h
  change 0 = _ at h
  omega

theorem readCrc_trapped (hlt : ∀ n, total reads n < size) (hsome : ∀ k, reads k ≠ some [])
    (fuel : Nat) (h : s.Left reads size) : readCrc flags reads fuel s = none := by
  induction fuel generalizing s with
  | zero => rfl
  | succ fuel ih =>
    have hmore := h.more (hlt s.reads)
    cases hread : reads s.reads with
    | none => rw [readCrc_error hmore hread, ih (h.error hread)]
    | some bytes =>
      have hne : bytes ≠ [] := fun hnil => hsome s.reads (hread.trans (congrArg some hnil))
      rw [readCrc_bytes hmore hread hne, ih (h.bytes hread)]

/-- The loop ends with the read at the end of the file or after the recorded size. -/
theorem readCrc_ends (n : Nat) (h : s.Left reads size)
    (hend : reads (s.reads + n) = some [] ∨ size ≤ total reads (s.reads + n)) :
    ∃ r, readCrc flags reads (n + 1) s = some r := by
  induction n generalizing s with
  | zero =>
    by_cases hmore : s.bytesRem = 0
    · exact ⟨s, readCrc_done hmore⟩
    · rcases hend with hread | hle
      · exact ⟨_, readCrc_empty hmore hread⟩
      · refine absurd (UInt32.toNat_inj.mp ?_) hmore
        exact h.trans (Nat.sub_eq_zero_of_le hle)
  | succ n ih =>
    have hnext : s.reads + (n + 1) = s.reads + 1 + n := by omega
    rw [hnext] at hend
    by_cases hmore : s.bytesRem = 0
    · exact ⟨s, readCrc_done hmore⟩
    · cases hread : reads s.reads with
      | none =>
        rw [readCrc_error hmore hread]
        exact ih (h.error hread) hend
      | some bytes =>
        by_cases hnil : bytes = []
        · exact ⟨_, readCrc_empty hmore (hread.trans (congrArg some hnil))⟩
        · rw [readCrc_bytes hmore hread hnil]
          exact ih (h.bytes hread) hend

/-- Reads that give fewer than `size` bytes in all, and never come to the end of the file,
fail from some read on. -/
theorem failsForever_of_total (hlt : ∀ n, total reads n < size)
    (hsome : ∀ k, reads k ≠ some []) : FailsForever size reads := by
  obtain ⟨_, ⟨n, rfl⟩, hmin⟩ := WellFounded.has_min wellFounded_lt
    (Set.range fun n => size - total reads n) ⟨_, 0, rfl⟩
  refine ⟨n, fun k hk => ?_, fun k _ => hsome k, hlt n⟩
  have hle : total reads (k + 1) ≤ total reads n := by
    have hmin : ¬size - total reads (k + 1) < size - total reads n := hmin _ ⟨k + 1, rfl⟩
    have hltk := hlt (k + 1)
    have hltn := hlt n
    omega
  have hge : total reads n ≤ total reads k := total_mono hk
  cases hread : reads k with
  | none => rfl
  | some bytes =>
    have hpos := List.length_pos_iff.mpr fun hnil => hsome k (hread.trans (congrArg some hnil))
    have hgiven : given (reads k) = min 32 bytes.length := by rw [hread]; rfl
    rw [total_succ, hgiven] at hle
    omega

theorem readCrc_ends_iff (flags : BitVec 16) (hleft : s.Left reads size) (hstart : s.reads = 0) :
    (∃ fuel r, readCrc flags reads fuel s = some r) ↔ ¬FailsForever size reads := by
  constructor
  · rintro ⟨fuel, r, hr⟩ ⟨n, hfail, hsome, hlt⟩
    have hall (k : Nat) : reads k ≠ some [] := by
      rcases Nat.lt_or_ge k n with hk | hk
      · exact hsome k hk
      · rw [hfail k hk]
        nofun
    have hbound (k : Nat) : total reads k < size := by
      refine Nat.lt_of_le_of_lt ?_ hlt
      rcases Nat.le_total k n with hk | hk
      · exact total_mono hk
      · refine Nat.le_of_eq (Finset.sum_subset (Finset.range_subset_range.mpr hk) ?_).symm
        intro j _ hj
        rw [hfail j (Nat.not_lt.mp fun hlt => hj (Finset.mem_range.mpr hlt))]
        rfl
    rw [readCrc_trapped hbound hall fuel hleft] at hr
    exact absurd hr nofun
  · intro hfails
    by_contra hnone
    refine hfails (failsForever_of_total (fun n => ?_) fun k hk => ?_)
    · refine Nat.not_le.mp fun hle => hnone ⟨n + 1, readCrc_ends n hleft (.inr ?_)⟩
      rwa [hstart, Nat.zero_add]
    · refine hnone ⟨k + 1, readCrc_ends k hleft (.inl ?_)⟩
      rwa [hstart, Nat.zero_add]

end Ends

/-- The call returns, and has closed the descriptor that it opened. -/
def CrcTerminates (answers : FsAnswers) (fsSt : Option FsFile) : Prop :=
  ∃ fuel r, fsUpdateCrc answers fuel fsSt = some r ∧ r.closed = r.opened

/-- The call returns unless it comes to its loop and the reads fail forever. -/
theorem crc_terminates_iff (answers : FsAnswers) (fsSt : Option FsFile) :
    CrcTerminates answers fsSt ↔
      ∀ f, fsSt = some f → ReadsFile answers f → ¬FailsForever f.size.toNat answers.reads := by
  by_cases hreads : ∃ f, fsSt = some f ∧ ReadsFile answers f
  · obtain ⟨f, rfl, hfile⟩ := hreads
    have hleft : CrcLoop.Left answers.reads f.size.toNat ⟨f.size, 0, 0⟩ := rfl
    have hends := readCrc_ends_iff f.flags hleft rfl
    constructor
    · rintro ⟨fuel, r, hr, -⟩ g hg -
      obtain rfl := Option.some.inj hg
      rw [hfile.fsUpdateCrc_eq] at hr
      obtain ⟨s, hs, -⟩ := Option.map_eq_some_iff.mp hr
      exact hends.mp ⟨fuel, s, hs⟩
    · intro hfails
      obtain ⟨fuel, s, hs⟩ := hends.mpr (hfails f rfl hfile)
      refine ⟨fuel, _, (hfile.fsUpdateCrc_eq fuel).trans (congrArg _ hs), rfl⟩
  · have hother (f : FsFile) (hf : fsSt = some f) : ¬ReadsFile answers f :=
      fun hfile => hreads ⟨f, hf, hfile⟩
    refine iff_of_true ⟨0, fsUpdateCrc_other hother 0⟩ ?_
    intro f hf hfile
    exact absurd hfile (hother f hf)

/-- Every read fails. -/
def failingAnswers : FsAnswers := ⟨1, 0, fun _ => none⟩

theorem failing_not_terminates : ¬CrcTerminates failingAnswers (some sampleFile) := by
  rintro ⟨fuel, r, hr, -⟩
  have hfile : ReadsFile failingAnswers sampleFile := by
    constructor <;> decide
  have htotal (n : Nat) : total failingAnswers.reads n < 9 := by
    rw [show total failingAnswers.reads n = 0 from Finset.sum_eq_zero fun k _ => rfl]
    decide
  have hleft : CrcLoop.Left failingAnswers.reads 9 ⟨sampleFile.size, 0, 0⟩ := rfl
  rw [hfile.fsUpdateCrc_eq, readCrc_trapped htotal (fun k => nofun) fuel hleft] at hr
  exact absurd hr nofun

end FlashFs
end EspMisc
