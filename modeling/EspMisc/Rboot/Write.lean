/-
Writing an image to flash.

`rboot_write_flash` takes an image in chunks of any length and programs whole words, so
it carries up to three bytes from one call to the next.  `streamed` says what holds
after any number of calls: the carry and the flash together have what was given.

`rboot_write_end` has to write the carry, padded with `0xFF`.  It hands the carry to
`rboot_write_flash` as new data while it is still counted as the old carry, so the bytes
are written twice; `imageEnd_iff` says for which images this is right all the same.
-/
import EspMisc.Rboot.Config

namespace EspMisc
namespace Rboot

/-! ## The code -/

/-- `rboot_write_status`.  `extra_bytes` has four bytes. -/
structure RbootWriteStatus where
  startAddr : Nat
  startSector : Nat
  lastSectorErased : Int
  extraCount : Nat
  extraBytes : Bytes
  deriving Repr, DecidableEq

/-- An integer as a `uint32`. -/
def uint32 (n : Int) : Nat := (n % 4294967296).toNat

/-- A `uint32` as an `int32`. -/
def int32 (n : Nat) : Int := if n < 2147483648 then n else n - 4294967296

def rbootWriteInit (startAddr : UInt32) : RbootWriteStatus :=
  let startSector := startAddr.toNat / sectorSize
  { startAddr := startAddr.toNat
    startSector := startSector
    lastSectorErased := int32 (uint32 (startSector - 1))
    extraCount := 0
    extraBytes := [0, 0, 0, 0] }

/-- What the SDK answers a call of `rboot_write_flash`.  `spi_flash_erase_sector`, whose
result is not looked at, does not fail. -/
structure WriteAnswers where
  /-- `os_malloc` has memory. -/
  malloc : Bool
  /-- `spi_flash_write` succeeds.  If not, it programs nothing. -/
  write : Bool
  deriving Repr, DecidableEq

/-- The `while` loop, with the number of turns it takes as fuel. -/
def eraseLoop (lastsect : Int) : Nat → Int → Int × List Flash.Op
  | 0, lastSectorErased => (lastSectorErased, [])
  | fuel + 1, lastSectorErased =>
    if lastsect > lastSectorErased then
      let lastSectorErased := lastSectorErased + 1
      let rest := eraseLoop lastsect fuel lastSectorErased
      (rest.1, .erase lastSectorErased.toNat :: rest.2)
    else (lastSectorErased, [])

/-- What a call of the writer returns, and what it did to the flash. -/
structure WriteResult where
  ret : Bool
  status : RbootWriteStatus
  ops : List Flash.Op
  deriving Repr, DecidableEq

/-- `((start_addr + len) - 1) / SECTOR_SIZE`. -/
def lastSect (startAddr len : Nat) : Int := int32 (uint32 (startAddr + len - 1) / sectorSize)

/-- The part of `rboot_write_flash` that works on the flash: erase any additional sectors
that the first `len` bytes of `buffer` need, and write them. -/
def writeBuffer (status : RbootWriteStatus) (buffer : Bytes) (len : Nat) (write : Bool) :
    WriteResult :=
  let lastsect := lastSect status.startAddr len
  let loop := eraseLoop lastsect (lastsect - status.lastSectorErased).toNat
    status.lastSectorErased
  let status := { status with lastSectorErased := loop.1 }
  if write then
    ⟨true, { status with startAddr := uint32 (status.startAddr + len) },
      loop.2 ++ [.program status.startAddr (buffer.take len)]⟩
  else ⟨false, status, loop.2⟩

/-- `len` is the length of `data`, and a NULL `data` is as good as an empty one. -/
def rbootWriteFlash (status : RbootWriteStatus) (data : Bytes) (answers : WriteAnswers) :
    WriteResult :=
  if data.length = 0 then ⟨true, status, []⟩
  else if answers.malloc = false then ⟨false, status, []⟩
  else
    let buffer := status.extraBytes.take status.extraCount ++ data
    let len := (data.length + status.extraCount) % 65536
    let extraCount := len % 4
    let len := len - extraCount
    -- the bytes of `extra_bytes` that are not copied over stay
    let extraBytes := (buffer.drop len).take extraCount ++ status.extraBytes.drop extraCount
    writeBuffer { status with extraCount := extraCount, extraBytes := extraBytes } buffer len
      answers.write

def rbootWriteEnd (status : RbootWriteStatus) (answers : WriteAnswers) : WriteResult :=
  if status.extraCount ≠ 0 then
    let status := { status with
      extraBytes := status.extraBytes.take status.extraCount ++
        List.replicate (4 - status.extraCount) 0xFF }
    rbootWriteFlash status status.extraBytes answers
  else ⟨true, status, []⟩

theorem uint32_eq {n : Nat} (h : n < 4294967296) : uint32 n = n := by
  unfold uint32
  omega

theorem int32_eq {n : Nat} (h : n < 2147483648) : int32 n = n := if_pos h

/-- Going down from 0, too. -/
theorem int32_uint32 {n : Int} (h : -1 ≤ n) (h' : n < 2147483648) : int32 (uint32 n) = n := by
  unfold int32 uint32
  split <;> omega

/-! ## One call -/

/-- A stream: the status, and what was done to the flash since it began. -/
structure Stream where
  status : RbootWriteStatus
  log : List Flash.Op
  deriving Repr, DecidableEq

namespace Stream

def start (startAddr : UInt32) : Stream := ⟨rbootWriteInit startAddr, []⟩

/-- The stream after a call. -/
def extend (s : Stream) (r : WriteResult) : Stream := ⟨r.status, s.log ++ r.ops⟩

/-- The calls of `rboot_write_flash`, if they all succeed. -/
def writeAll : Stream → List (Bytes × WriteAnswers) → Option Stream
  | s, [] => some s
  | s, (chunk, answers) :: calls =>
    let r := rbootWriteFlash s.status chunk answers
    if r.ret then (s.extend r).writeAll calls else none

/-- The stream as a writer that knows nothing of the carry. -/
def writer (s : Stream) : Flash.Writer :=
  ⟨s.status.startAddr, (s.status.lastSectorErased + 1).toNat, s.log⟩

end Stream

/-- The bytes of `data` that make whole words, by their number. -/
def words (data : Bytes) : Nat := data.length / 4 * 4

/-- What holds of a stream that began at `start` and was given `data`. -/
structure Streamed (start : Nat) (data : Bytes) (s : Stream) : Prop where
  last : -1 ≤ s.status.lastSectorErased
  written : Flash.Written sectorSize start (data.take (words data)) s.writer
  extraCount : s.status.extraCount = data.length % 4
  length_extraBytes : s.status.extraBytes.length = 4
  extraBytes : s.status.extraBytes.take s.status.extraCount = data.drop (words data)

/-- The loop erases up to `lastsect`. -/
theorem eraseLoop_eq {lastsect : Int} {fuel : Nat} :
    ∀ {last : Int}, -1 ≤ last → fuel = (lastsect - last).toNat →
      eraseLoop lastsect fuel last =
        (max last lastsect, Flash.erases (last + 1).toNat fuel) := by
  induction fuel with
  | zero =>
    intro last _ hfuel
    rw [eraseLoop, Int.max_eq_left (by omega)]
    rfl
  | succ fuel ih =>
    intro last hlast hfuel
    have hsucc : (last + 1 + 1).toNat = (last + 1).toNat + 1 := by omega
    rw [eraseLoop, if_pos (by omega)]
    simp only [ih (show -1 ≤ last + 1 by omega) (by omega), hsucc]
    rw [Int.max_eq_right (by omega), Int.max_eq_right (by omega), Flash.erases]

theorem start_writer (startAddr : UInt32) :
    -1 ≤ (rbootWriteInit startAddr).lastSectorErased ∧
      (Stream.start startAddr).writer = .start sectorSize startAddr.toNat := by
  have hsec : startAddr.toNat / sectorSize < 1048576 := by
    have := startAddr.toNat_lt
    unfold sectorSize
    omega
  simp only [Stream.writer, Stream.start, rbootWriteInit, Flash.Writer.start]
  generalize startAddr.toNat / sectorSize = sector at hsec ⊢
  rw [int32_uint32 (by omega) (by omega), show ((sector : Int) - 1 + 1).toNat = sector by omega]
  exact ⟨by omega, rfl⟩

theorem start_streamed (startAddr : UInt32) :
    Streamed startAddr.toNat [] (.start startAddr) := by
  obtain ⟨hlast, hwriter⟩ := start_writer startAddr
  refine ⟨hlast, ?_, rfl, rfl, rfl⟩
  rw [hwriter]
  exact Flash.written_start ..

section Call

variable {start : Nat} {data chunk : Bytes} {s : Stream}

theorem words_le (data : Bytes) : words data ≤ data.length := Nat.div_mul_le_self ..

/-- The buffer of a call: the bytes that are not written yet. -/
theorem Streamed.buffer (h : Streamed start data s) (chunk : Bytes) :
    s.status.extraBytes.take (data.length % 4) ++ chunk = (data ++ chunk).drop (words data) := by
  rw [← h.extraCount, h.extraBytes, List.drop_append_of_le_length (words_le data)]

theorem length_drop_words (data : Bytes) :
    (data.drop (words data)).length = data.length % 4 := by
  unfold words
  rw [List.length_drop]
  omega

theorem words_mono (data chunk : Bytes) : words data ≤ words (data ++ chunk) := by
  unfold words
  rw [List.length_append]
  omega

theorem take_words (data chunk : Bytes) :
    (data ++ chunk).take (words (data ++ chunk)) = data.take (words data) ++
      ((data ++ chunk).drop (words data)).take (words (data ++ chunk) - words data) := by
  have hle := words_mono data chunk
  conv_lhs => rw [show words (data ++ chunk) =
    words data + (words (data ++ chunk) - words data) by omega, List.take_add]
  rw [List.take_append_of_le_length (words_le data)]

/-- The sectors up to the last byte of the call. -/
theorem lastSect_eq {pos len : Nat} (hpos : 0 < pos) (hlt : pos + len < 4294967296) :
    lastSect pos len = ((pos + len - 1) / sectorSize : Nat) := by
  have hsect : (pos + len - 1) / sectorSize < 2147483648 := by
    unfold sectorSize
    omega
  rw [lastSect, show ((pos : Int) + len - 1) = (pos + len - 1 : Nat) by omega, uint32_eq (by omega),
    int32_eq hsect]

theorem Streamed.length_words (h : Streamed start data s) :
    s.status.startAddr = start + words data := by
  have hpos := h.written.pos
  rwa [List.length_take, Nat.min_eq_left (words_le data)] at hpos

/-- The lengths that a call computes. -/
theorem length_call (data : Bytes) {chunk : Bytes} (hle : chunk.length ≤ 4096) :
    (chunk.length + data.length % 4) % 65536 % 4 = (data ++ chunk).length % 4 ∧
      (chunk.length + data.length % 4) % 65536 - (data ++ chunk).length % 4 =
        words (data ++ chunk) - words data := by
  unfold words
  rw [List.length_append]
  omega

/-- What the second part of a call that succeeds does. -/
theorem writeBuffer_spec (log : List Flash.Op) (status : RbootWriteStatus) (buffer : Bytes)
    (len : Nat) (hlast : -1 ≤ status.lastSectorErased) (hpos : 0 < status.startAddr)
    (hlt : status.startAddr + len < 4294967296) (hlen : len ≤ buffer.length) :
    let r := writeBuffer status buffer len true
    Stream.writer ⟨r.status, log ++ r.ops⟩ =
        (Stream.writer ⟨status, log⟩).append sectorSize (buffer.take len) ∧
      -1 ≤ r.status.lastSectorErased := by
  unfold writeBuffer
  rw [lastSect_eq hpos hlt, if_pos rfl, ← Int.natCast_add, uint32_eq hlt, eraseLoop_eq hlast rfl]
  simp only [Stream.writer, Flash.Writer.append, List.length_take, Nat.min_eq_left hlen]
  generalize (status.startAddr + len - 1) / sectorSize = sect
  refine ⟨?_, by omega⟩
  rw [show ((sect : Int) - status.lastSectorErased).toNat =
    sect + 1 - (status.lastSectorErased + 1).toNat by omega,
    show (max status.lastSectorErased (sect : Int) + 1).toNat =
      max (status.lastSectorErased + 1).toNat (sect + 1) by omega]

theorem writeBuffer_ret (status : RbootWriteStatus) (buffer : Bytes) (len : Nat) (write : Bool) :
    (writeBuffer status buffer len write).ret = write := by
  cases write <;> rfl

theorem writeBuffer_extra (status : RbootWriteStatus) (buffer : Bytes) (len : Nat) (write : Bool) :
    (writeBuffer status buffer len write).status.extraCount = status.extraCount ∧
      (writeBuffer status buffer len write).status.extraBytes = status.extraBytes := by
  cases write <;> exact ⟨rfl, rfl⟩

/-- What a call that succeeds does to a stream. -/
theorem rbootWriteFlash_spec (h : Streamed start data s) (hpos : 0 < start)
    (hlt : start + (data ++ chunk).length < 4294967296) (hne : chunk ≠ [])
    (hle : chunk.length ≤ 4096) {answers : WriteAnswers}
    (hret : (rbootWriteFlash s.status chunk answers).ret = true) :
    Streamed start (data ++ chunk) (s.extend (rbootWriteFlash s.status chunk answers)) := by
  have hchunk : chunk.length ≠ 0 := fun h0 => hne (List.length_eq_zero_iff.mp h0)
  have haddr := h.length_words
  obtain ⟨hcount, hlen⟩ := length_call data hle
  have hmono := words_mono data chunk
  have hall := words_le (data ++ chunk)
  have hmalloc : answers.malloc ≠ false := by
    intro hm
    rw [rbootWriteFlash, if_neg hchunk, if_pos hm] at hret
    exact absurd hret (by simp)
  rw [rbootWriteFlash, if_neg hchunk, if_neg hmalloc] at hret ⊢
  simp only [writeBuffer_ret] at hret
  simp only [h.extraCount, h.buffer chunk, hcount, hlen, hret]
  have hextra : (((data ++ chunk).drop (words data)).drop (words (data ++ chunk) - words data)).take
      ((data ++ chunk).length % 4) = (data ++ chunk).drop (words (data ++ chunk)) := by
    rw [List.drop_drop, Nat.add_sub_cancel' hmono]
    exact List.take_of_length_le (Nat.le_of_eq (length_drop_words _))
  rw [hextra]
  generalize hstatus : ({ s.status with
    extraCount := (data ++ chunk).length % 4
    extraBytes := (data ++ chunk).drop (words (data ++ chunk)) ++
      s.status.extraBytes.drop ((data ++ chunk).length % 4) } : RbootWriteStatus) = status
  have hsame : (⟨status, s.log⟩ : Stream).writer = s.writer := by
    rw [← hstatus]
    rfl
  obtain ⟨hwriter, hlast⟩ := writeBuffer_spec s.log status ((data ++ chunk).drop (words data))
    (words (data ++ chunk) - words data)
    (by rw [← hstatus]; exact h.last) (by rw [← hstatus]; show 0 < s.status.startAddr; omega)
    (by rw [← hstatus]; show s.status.startAddr + _ < _; omega) (by rw [List.length_drop]; omega)
  obtain ⟨hc, hb⟩ := writeBuffer_extra status ((data ++ chunk).drop (words data))
    (words (data ++ chunk) - words data) true
  have hfour := h.length_extraBytes
  refine ⟨hlast, ?_, ?_, ?_, ?_⟩
  · rw [Stream.extend, hwriter, hsame, take_words]
    exact h.written.append _
  · rw [Stream.extend, hc, ← hstatus]
  · rw [Stream.extend, hb, ← hstatus, List.length_append, length_drop_words, List.length_drop]
    omega
  · rw [Stream.extend, hb, hc, ← hstatus]
    show List.take _ (_ ++ _) = _
    rw [← length_drop_words (data ++ chunk), List.take_left]

end Call

/-! ## The stream -/

/-- What was given to a stream by the calls. -/
def given (calls : List (Bytes × WriteAnswers)) : Bytes := calls.flatMap Prod.fst

/-- Whatever the chunks are, the stream keeps up with them. -/
theorem writeAll_streamed {start : Nat} (hpos : 0 < start)
    {calls : List (Bytes × WriteAnswers)} :
    ∀ {data : Bytes} {s t : Stream}, Streamed start data s →
      (∀ c ∈ calls, 0 < c.1.length ∧ c.1.length ≤ 4096) →
      start + (data ++ given calls).length < 4294967296 → s.writeAll calls = some t →
      Streamed start (data ++ given calls) t := by
  induction calls with
  | nil =>
    intro data s t h _ _ ht
    obtain rfl := Option.some.inj ht
    rwa [given, List.flatMap_nil, List.append_nil]
  | cons call calls ih =>
    obtain ⟨chunk, answers⟩ := call
    intro data s t h hlen hlt ht
    obtain ⟨hcall, hlen⟩ := List.forall_mem_cons.mp hlen
    have hchunk : 0 < chunk.length := hcall.1
    have hgiven : data ++ given ((chunk, answers) :: calls) = data ++ chunk ++ given calls := by
      rw [given, List.flatMap_cons, List.append_assoc]
      rfl
    rw [hgiven] at hlt ⊢
    simp only [Stream.writeAll] at ht
    split at ht
    case isFalse => exact absurd ht (by simp)
    next hret =>
    refine ih (rbootWriteFlash_spec h hpos ?_ (List.ne_nil_of_length_pos hchunk) hcall.2 hret) hlen
      hlt ht
    rw [List.length_append] at hlt
    omega

/-- After any calls that succeed, the flash and the carry have what was given, and the
sectors were erased when they were needed and once. -/
theorem streamed {startAddr : UInt32} (halign : startAddr.toNat % 4 = 0)
    (hpos : 0 < startAddr.toNat) {calls : List (Bytes × WriteAnswers)}
    (hlen : ∀ c ∈ calls, 0 < c.1.length ∧ c.1.length ≤ 4096)
    (hend : startAddr.toNat + (given calls).length ≤ 2 ^ 31) {s : Stream}
    (hs : (Stream.start startAddr).writeAll calls = some s) (f : Flash) :
    startAddr.toNat ≤ s.status.startAddr ∧
      Flash.read (Flash.after sectorSize f s.log) startAddr.toNat
          (s.status.startAddr - startAddr.toNat) ++
        s.status.extraBytes.take s.status.extraCount = given calls ∧
      s.status.extraCount < 4 ∧ s.status.startAddr % 4 = 0 ∧
      (∀ sector, (∃ op ∈ s.log, ∃ a, op.Programs a ∧ a / sectorSize = sector) →
        Flash.ErasedOnce sectorSize sector s.log) ∧
      ∀ sector, .erase sector ∈ s.log → sector = startAddr.toNat / sectorSize ∨
        startAddr.toNat / sectorSize < sector ∧
          ∃ op ∈ s.log, ∃ a, op.Programs a ∧ sector ≤ a / sectorSize := by
  have h : Streamed startAddr.toNat (given calls) s :=
    writeAll_streamed hpos (start_streamed startAddr) hlen
      (by rw [List.nil_append]; exact Nat.lt_of_le_of_lt hend (by decide)) hs
  have haddr := h.length_words
  have hw := h.written
  refine ⟨by omega, ?_, ?_, ?_, ?_, ?_⟩
  · have hheld := hw.holds f
    rw [List.length_take, Nat.min_eq_left (words_le _)] at hheld
    rw [haddr, Nat.add_sub_cancel_left, h.extraBytes]
    exact (congrArg (· ++ _) hheld).trans (List.take_append_drop ..)
  · rw [h.extraCount]
    exact Nat.mod_lt _ (by decide)
  · rw [haddr, words]
    omega
  · intro sector hprog
    exact hw.programmed_once hprog
  · intro sector hmem
    exact hw.erased_needed hmem

/-- Two bytes, and then three. -/
def sampleCalls : List (Bytes × WriteAnswers) :=
  [([1, 2], ⟨true, true⟩), ([3, 4, 5], ⟨true, true⟩)]

def sampleStream : Stream :=
  ⟨⟨0x2004, 2, 2, 1, [5, 2, 0, 0]⟩, [.program 0x2000 [], .erase 2, .program 0x2000 [1, 2, 3, 4]]⟩

theorem sampleStream_eq : (Stream.start 0x2000).writeAll sampleCalls = some sampleStream := by
  decide

/-- The two bytes wait for the rest of their word. -/
theorem streamed_sampleCalls :
    Flash.read (Flash.after sectorSize (fun _ => 0) sampleStream.log) 0x2000 4 ++ [5] =
      [1, 2, 3, 4, 5] :=
  (streamed (by decide) (by decide) (by decide) (by decide) sampleStream_eq fun _ => 0).2.1

/-! ## The end of the image -/

/-- The SDK does what it is asked. -/
def succeeds : WriteAnswers := ⟨true, true⟩

theorem rbootWriteFlash_ret (status : RbootWriteStatus) (data : Bytes) :
    (rbootWriteFlash status data succeeds).ret = true := by
  rw [rbootWriteFlash]
  split
  · rfl
  · rw [if_neg (show succeeds.malloc ≠ false by decide)]
    exact writeBuffer_ret ..

theorem writeAll_succeeds (chunks : List Bytes) :
    ∀ s : Stream, ∃ t, s.writeAll (chunks.map (·, succeeds)) = some t := by
  induction chunks with
  | nil =>
    intro s
    exact ⟨s, rfl⟩
  | cons chunk chunks ih =>
    intro s
    simp only [List.map_cons, Stream.writeAll, rbootWriteFlash_ret, if_true]
    exact ih _

theorem given_succeeds (chunks : List Bytes) :
    given (chunks.map (·, succeeds)) = chunks.flatten := by
  rw [given, List.flatMap_map, List.flatMap_id']

/-- `data` padded with `0xFF` to a multiple of 4. -/
def padded (data : Bytes) : Bytes := data ++ List.replicate ((4 - data.length % 4) % 4) 0xFF

/-- From `start` on the flash holds the padded image, and nothing after it up to the end
of the last sector that the log has reached. -/
def Holds (start : Nat) (data : Bytes) (log : List Flash.Op) (f : Flash) : Prop :=
  Flash.read (Flash.after sectorSize f log) start (padded data).length = padded data ∧
    ∀ a, start + (padded data).length ≤ a →
      (∃ op ∈ log, ∃ t, op.Touches sectorSize t ∧ a / sectorSize ≤ t) →
      Flash.after sectorSize f log a = 0xFF

/-- The bytes after the last whole word. -/
def carry (data : Bytes) : Bytes := data.drop (words data)

theorem length_carry (data : Bytes) : (carry data).length = data.length % 4 :=
  length_drop_words data

/-- The bytes that `rboot_write_end` hands over as new data. -/
def lastChunk (data : Bytes) : Bytes :=
  carry data ++ List.replicate (4 - data.length % 4) 0xFF

theorem rbootWriteEnd_streamed {start : Nat} {data : Bytes} {s : Stream}
    (h : Streamed start data s) (hpos : 0 < start) (hle : start + data.length ≤ 2 ^ 31)
    (hr : data.length % 4 ≠ 0) :
    (rbootWriteEnd s.status succeeds).ret = true ∧
      Streamed start (data ++ lastChunk data) (s.extend (rbootWriteEnd s.status succeeds)) := by
  have hchunk : (lastChunk data).length = 4 := by
    rw [lastChunk, List.length_append, length_carry, List.length_replicate]
    omega
  have hbytes : s.status.extraBytes.take s.status.extraCount ++
      List.replicate (4 - s.status.extraCount) 0xFF = lastChunk data := by
    rw [h.extraBytes, h.extraCount]
    rfl
  rw [rbootWriteEnd, if_pos (by rw [h.extraCount]; exact hr), hbytes]
  have hs : Streamed start data ⟨{ s.status with extraBytes := lastChunk data }, s.log⟩ := by
    refine ⟨h.last, h.written, h.extraCount, hchunk, ?_⟩
    show (lastChunk data).take s.status.extraCount = carry data
    rw [h.extraCount, ← length_carry, lastChunk, List.take_left]
  refine ⟨rbootWriteFlash_ret .., rbootWriteFlash_spec hs hpos ?_ ?_ ?_ (rbootWriteFlash_ret ..)⟩
  · rw [List.length_append, hchunk]
    omega
  · exact List.ne_nil_of_length_pos (by omega)
  · omega

theorem Streamed.holds_iff {start : Nat} {data image : Bytes} {s : Stream}
    (h : Streamed start image s) (hlen : (padded data).length = words image) (f : Flash) :
    Holds start data s.log f ↔ image.take (words image) = padded data := by
  have hheld := h.written.holds f
  have haddr := h.length_words
  rw [List.length_take, Nat.min_eq_left (words_le _)] at hheld
  unfold Holds
  rw [hlen]
  constructor
  · intro hholds
    exact hheld.symm.trans hholds.1
  · intro heq
    refine ⟨hheld.trans heq, fun a ha ht => ?_⟩
    exact h.written.blank_touched f (by show s.status.startAddr ≤ a; omega) ht

/-- The carry padded with its own first bytes is the padded carry. -/
theorem lastChunk_iff (data : Bytes) :
    (lastChunk data).take (4 - data.length % 4) = List.replicate (4 - data.length % 4) 0xFF ↔
      ∀ b ∈ (carry data).take (4 - data.length % 4), b = 0xFF := by
  have hlt : data.length % 4 < 4 := Nat.mod_lt _ (by decide)
  rw [lastChunk, List.take_append, List.eq_replicate_iff]
  constructor
  · intro h b hb
    exact h.2 b (List.mem_append_left _ hb)
  · intro h
    constructor
    · rw [List.length_append, List.length_take, List.length_take, List.length_replicate,
        length_carry]
      omega
    · intro b hb
      rcases List.mem_append.mp hb with hb | hb
      · exact h b hb
      · exact (List.mem_replicate.mp (List.mem_of_mem_take hb)).2

/-- The image is in the flash at the end exactly when the bytes that stand in for the
padding, the first ones of the carry, are `0xFF`. -/
theorem imageEnd_iff {startAddr : UInt32} (hpos : 0 < startAddr.toNat) {chunks : List Bytes}
    (hlen : ∀ c ∈ chunks, 0 < c.length ∧ c.length ≤ 4096)
    (hend : startAddr.toNat + chunks.flatten.length ≤ 2 ^ 31) (f : Flash) :
    ∃ s, (Stream.start startAddr).writeAll (chunks.map (·, succeeds)) = some s ∧
      (rbootWriteEnd s.status succeeds).ret = true ∧
      (Holds startAddr.toNat chunks.flatten
          (s.extend (rbootWriteEnd s.status succeeds)).log f ↔
        ∀ b ∈ (carry chunks.flatten).take (4 - chunks.flatten.length % 4), b = 0xFF) := by
  obtain ⟨s, hs⟩ := writeAll_succeeds chunks (.start startAddr)
  have h : Streamed startAddr.toNat chunks.flatten s := by
    have hgiven := given_succeeds chunks
    rw [← hgiven]
    refine writeAll_streamed hpos (start_streamed startAddr) ?_ ?_ hs
    · intro c hc
      obtain ⟨chunk, hchunk, rfl⟩ := List.mem_map.mp hc
      exact hlen chunk hchunk
    · rw [List.nil_append, hgiven]
      exact Nat.lt_of_le_of_lt hend (by decide)
  refine ⟨s, hs, ?_⟩
  generalize chunks.flatten = data at h hend ⊢
  by_cases hr : data.length % 4 = 0
  · -- nothing is left to write
    have hwords : words data = data.length := by
      unfold words
      omega
    have hpad : padded data = data := by
      rw [padded, hr]
      exact List.append_nil _
    rw [rbootWriteEnd, if_neg (by rw [h.extraCount]; exact not_not_intro hr), Stream.extend,
      List.append_nil, h.holds_iff (by rw [hpad, hwords]), hpad, hwords, carry, hwords]
    simp
  · obtain ⟨hret, hend⟩ := rbootWriteEnd_streamed h hpos hend hr
    refine ⟨hret, ?_⟩
    have hwords : words (data ++ lastChunk data) = data.length + (4 - data.length % 4) := by
      have hcarry := length_carry data
      rw [words, List.length_append, lastChunk, List.length_append, hcarry,
        List.length_replicate]
      omega
    have hpad : padded data = data ++ List.replicate (4 - data.length % 4) 0xFF := by
      rw [padded, Nat.mod_eq_of_lt (show 4 - data.length % 4 < 4 by omega)]
    rw [hend.holds_iff, hwords, hpad, List.take_length_add_append, List.append_right_inj,
      lastChunk_iff]
    rw [hpad, hwords, List.length_append, List.length_replicate]

/-- One byte that is not `0xFF` is written twice. -/
theorem imageEnd_twice :
    ∃ s, (Stream.start 0x2000).writeAll [([1], succeeds)] = some s ∧
      (rbootWriteEnd s.status succeeds).ret = true ∧
      ¬ Holds 0x2000 [1] (s.extend (rbootWriteEnd s.status succeeds)).log fun _ => 0 := by
  have hs : (Stream.start 0x2000).writeAll [([1], succeeds)] =
      some ⟨⟨0x2000, 2, 1, 1, [1, 0, 0, 0]⟩, [.program 0x2000 []]⟩ := by decide
  refine ⟨_, hs, by decide, fun hholds => ?_⟩
  exact absurd hholds.1 (by decide +kernel)

/-- A word needs no padding. -/
theorem imageEnd_iff_word :
    ∃ s, (Stream.start 0x2000).writeAll [([1, 2, 3, 4], succeeds)] = some s ∧
      Holds 0x2000 [1, 2, 3, 4] (s.extend (rbootWriteEnd s.status succeeds)).log
        fun _ => 0 := by
  obtain ⟨s, hs, -, hiff⟩ :=
    @imageEnd_iff 0x2000 (by decide) [[1, 2, 3, 4]] (by decide) (by decide) fun _ => 0
  refine ⟨s, hs, hiff.mpr fun b hb => ?_⟩
  -- a whole word leaves nothing to carry
  have hcarry : carry [[1, 2, 3, 4]].flatten = [] := rfl
  rw [hcarry, List.take_nil] at hb
  cases hb

end Rboot
end EspMisc
