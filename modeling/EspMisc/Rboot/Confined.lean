/-
Where an update can reach.

An update is a number of calls of `rboot_write_flash` and `rboot_write_end`, each of
which may fail, for want of memory or in the flash, and the application may go on after a
call that failed.  Whatever they do, the sectors they work on are those from the start of
the image to the last byte that it could have by now (`runAll_confined`).  So nothing
else in the flash depends on how far an update came.
-/
import EspMisc.Rboot.Retry

namespace EspMisc
namespace Rboot

/-- A call of an update. -/
inductive WriteCall where
  | flash (chunk : Bytes) (answers : WriteAnswers)
  | finish (answers : WriteAnswers)

namespace WriteCall

/-- The bytes that the call has to write; `rboot_write_end` makes a word of the carry. -/
def length : WriteCall → Nat
  | flash chunk _ => chunk.length
  | finish _ => 4

def run (s : Stream) : WriteCall → Stream
  | flash chunk answers => s.extend (rbootWriteFlash s.status chunk answers)
  | finish answers => s.extend (rbootWriteEnd s.status answers)

end WriteCall

/-- The stream after some calls, whether they succeed or not. -/
def Stream.runAll (s : Stream) (calls : List WriteCall) : Stream := calls.foldl WriteCall.run s

/-- The number of bytes that some calls were given. -/
def totalLength (calls : List WriteCall) : Nat := (calls.map WriteCall.length).sum

/-- An operation that works on sectors from `lo` to `hi`. -/
def Between (lo hi : Nat) (op : Flash.Op) : Prop :=
  ∀ t, op.Touches sectorSize t → lo ≤ t ∧ t ≤ hi

/-- The sector of the last of `n` bytes. -/
def lastSector (start n : Nat) : Nat := (start + n - 1) / sectorSize

/-- A stream that began at `start` and was given at most `n` bytes. -/
structure Confined (start n : Nat) (s : Stream) : Prop where
  sound : Sound s.status
  lower : start ≤ s.status.startAddr
  upper : s.status.startAddr + s.status.extraCount ≤ start + n
  first : ((start / sectorSize : Nat) : Int) ≤ s.status.lastSectorErased + 1
  log : ∀ op ∈ s.log, Between (start / sectorSize) (lastSector start n) op

section Call

variable {start n : Nat} {s : Stream}

theorem Between.mono {lo hi hi' : Nat} {op : Flash.Op} (h : Between lo hi op) (hle : hi ≤ hi') :
    Between lo hi' op := fun t ht => ⟨(h t ht).1, Nat.le_trans (h t ht).2 hle⟩

theorem lastSector_mono {n' : Nat} (h : n ≤ n') : lastSector start n ≤ lastSector start n' :=
  Nat.div_le_div_right (by omega)

theorem start_confined (startAddr : UInt32) : Confined startAddr.toNat 0 (.start startAddr) := by
  obtain ⟨hlast, hwriter⟩ := start_writer startAddr
  refine ⟨Reached.init.sound, Nat.le_refl _, Nat.le_refl _, ?_, fun op hop => absurd hop
    List.not_mem_nil⟩
  have hnext : ((rbootWriteInit startAddr).lastSectorErased + 1).toNat =
      startAddr.toNat / sectorSize := congrArg Flash.Writer.next hwriter
  show ((startAddr.toNat / sectorSize : Nat) : Int) ≤ (rbootWriteInit startAddr).lastSectorErased + 1
  omega

theorem wordLen_le (s : RbootWriteStatus) (chunk : Bytes) :
    wordLen s chunk + total s chunk % 4 ≤ chunk.length + s.extraCount := by
  have hmod := Nat.mod_le (chunk.length + s.extraCount) 65536
  have hmod4 := Nat.mod_le (total s chunk) 4
  unfold wordLen
  unfold total at *
  omega

/-- A call that got its memory. -/
theorem Confined.called (h : Confined start n s) (hpos : 0 < start) {chunk : Bytes}
    (hne : chunk.length ≠ 0) (hlt : start + (n + chunk.length) < 4294967296) (write : Bool) :
    Confined start (n + chunk.length)
      (s.extend (rbootWriteFlash s.status chunk ⟨true, write⟩)) := by
  have hle := wordLen_le s.status chunk
  obtain ⟨hsound, hlower, hupper, hfirst, hlog⟩ := h
  have hlast := lastSect_eq (show 0 < s.status.startAddr by omega)
    (show s.status.startAddr + wordLen s.status chunk < 4294967296 by omega)
  have hreach : (s.status.startAddr + wordLen s.status chunk - 1) / sectorSize ≤
      lastSector start (n + chunk.length) := Nat.div_le_div_right (by omega)
  have hmono : lastSector start n ≤ lastSector start (n + chunk.length) :=
    lastSector_mono (Nat.le_add_right ..)
  rw [rbootWriteFlash_called hsound hne]
  refine ⟨called_sound hsound chunk write, ?_, ?_, ?_, ?_⟩
  · show start ≤ (Rboot.called s.status chunk write).startAddr
    unfold Rboot.called
    cases write with
    | true =>
      show start ≤ uint32 (s.status.startAddr + wordLen s.status chunk)
      have hcast : ((s.status.startAddr : Int) + wordLen s.status chunk) =
        ((s.status.startAddr + wordLen s.status chunk : Nat) : Int) := by omega
      rw [hcast, uint32_eq (by omega)]
      omega
    | false => exact hlower
  · show (Rboot.called s.status chunk write).startAddr + total s.status chunk % 4 ≤ _
    unfold Rboot.called
    cases write with
    | true =>
      show uint32 (s.status.startAddr + wordLen s.status chunk) + total s.status chunk % 4 ≤ _
      have hcast : ((s.status.startAddr : Int) + wordLen s.status chunk) =
        ((s.status.startAddr + wordLen s.status chunk : Nat) : Int) := by omega
      rw [hcast, uint32_eq (by omega)]
      omega
    | false =>
      show s.status.startAddr + total s.status chunk % 4 ≤ _
      omega
  · show _ ≤ max s.status.lastSectorErased _ + 1
    omega
  · intro op hop
    rcases List.mem_append.mp hop with hop | hop
    · exact (hlog op hop).mono hmono
    rcases List.mem_append.mp hop with hop | hop
    · obtain ⟨t, hle, hlt, rfl⟩ := Flash.mem_erases.mp hop
      rintro t' rfl
      rw [hlast] at hlt
      have herased := hsound.last
      generalize (s.status.startAddr + wordLen s.status chunk - 1) / sectorSize = sect at hreach hlt
      generalize start / sectorSize = lo at hfirst ⊢
      omega
    · cases write with
      | false => exact absurd hop List.not_mem_nil
      | true =>
        obtain rfl := List.mem_singleton.mp hop
        rintro t ⟨a, ⟨hfrom, hto⟩, rfl⟩
        have hlen : ((s.status.leftover ++ chunk).take (wordLen s.status chunk)).length ≤
            wordLen s.status chunk := List.length_take_le ..
        exact ⟨Nat.div_le_div_right (by omega),
          Nat.div_le_div_right (show a ≤ start + (n + chunk.length) - 1 by omega)⟩

theorem Confined.mono (h : Confined start n s) {n' : Nat} (hle : n ≤ n') : Confined start n' s :=
  ⟨h.sound, h.lower, Nat.le_trans h.upper (by omega), h.first,
    fun op hop => (h.log op hop).mono (lastSector_mono hle)⟩

theorem Confined.write (h : Confined start n s) (hpos : 0 < start) {chunk : Bytes}
    (hlt : start + (n + chunk.length) < 4294967296) (answers : WriteAnswers) :
    Confined start (n + chunk.length) (s.extend (rbootWriteFlash s.status chunk answers)) := by
  have hskip : Confined start (n + chunk.length) (s.extend ⟨false, s.status, []⟩) := by
    refine ⟨h.sound, h.lower, Nat.le_trans h.upper (by omega), h.first, fun op hop => ?_⟩
    rw [Stream.extend, List.append_nil] at hop
    exact (h.log op hop).mono (lastSector_mono (Nat.le_add_right ..))
  by_cases hne : chunk.length = 0
  · rw [rbootWriteFlash, if_pos hne]
    exact hskip
  · obtain ⟨malloc, write⟩ := answers
    cases malloc with
    | false =>
      rw [rbootWriteFlash, if_neg hne, if_pos rfl]
      exact hskip
    | true => exact h.called hpos hne hlt write

theorem Confined.run (h : Confined start n s) (hpos : 0 < start) {call : WriteCall}
    (hlt : start + (n + call.length) < 4294967296) :
    Confined start (n + call.length) (call.run s) := by
  cases call with
  | flash chunk answers => exact h.write hpos hlt answers
  | finish answers =>
    show Confined start (n + 4) (s.extend (rbootWriteEnd s.status answers))
    rw [rbootWriteEnd]
    by_cases hcarry : s.status.extraCount ≠ 0
    · rw [if_pos hcarry]
      have hcount := h.sound.count
      have hlength := h.sound.length
      have hfour : (s.status.extraBytes.take s.status.extraCount ++
          List.replicate (4 - s.status.extraCount) 0xFF).length = 4 := by
        rw [List.length_append, List.length_take, List.length_replicate]
        omega
      have hpadded : Confined start n ⟨{ s.status with
          extraBytes := s.status.extraBytes.take s.status.extraCount ++
            List.replicate (4 - s.status.extraCount) 0xFF }, s.log⟩ :=
        ⟨⟨h.sound.last, hcount, hfour⟩, h.lower, h.upper, h.first, h.log⟩
      have hroom : start + (n + (s.status.extraBytes.take s.status.extraCount ++
          List.replicate (4 - s.status.extraCount) 0xFF).length) < 4294967296 := by
        rw [hfour]
        exact hlt
      have hwritten := hpadded.write hpos hroom answers
      rw [hfour] at hwritten
      exact hwritten
    · rw [if_neg hcarry, Stream.extend, List.append_nil]
      exact h.mono (Nat.le_add_right ..)

end Call

theorem runAll_confined {start : Nat} (hpos : 0 < start) {calls : List WriteCall} :
    ∀ {n : Nat} {s : Stream}, Confined start n s →
      start + (n + totalLength calls) < 4294967296 →
      Confined start (n + totalLength calls) (s.runAll calls) := by
  induction calls with
  | nil => exact fun h _ => h
  | cons call calls ih =>
    intro n s h hlt
    have htotal : totalLength (call :: calls) = call.length + totalLength calls := rfl
    rw [htotal] at hlt ⊢
    rw [← Nat.add_assoc n] at hlt ⊢
    exact ih (h.run hpos (by omega)) hlt

end Rboot
end EspMisc
