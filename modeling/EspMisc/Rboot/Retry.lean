/-
Calling `rboot_write_flash` again after it failed.

The carry and its count are replaced before `spi_flash_write` is called, and `start_addr`
after it has succeeded.  A call that fails there has taken its chunk into the carry, and
the same chunk given again comes after it.  `retry_iff` says when the second call does
what the first one should have done: when no memory was all that was missing, or when the
chunk is of whole words and what it left of the carry is as good as the old one.
-/
import EspMisc.Rboot.Write

namespace EspMisc
namespace Rboot

/-- The carry. -/
def RbootWriteStatus.leftover (s : RbootWriteStatus) : Bytes := s.extraBytes.take s.extraCount

/-- A status that calls lead to, whether they succeed or fail. -/
inductive Reached (startAddr : UInt32) : RbootWriteStatus → Prop
  | init : Reached startAddr (rbootWriteInit startAddr)
  | write {s : RbootWriteStatus} (h : Reached startAddr s) {chunk : Bytes}
      (hlen : chunk.length < 65536) (answers : WriteAnswers) :
      Reached startAddr (rbootWriteFlash s chunk answers).status
  | finish {s : RbootWriteStatus} (h : Reached startAddr s) (answers : WriteAnswers) :
      Reached startAddr (rbootWriteEnd s answers).status

structure Sound (s : RbootWriteStatus) : Prop where
  last : -1 ≤ s.lastSectorErased
  count : s.extraCount < 4
  length : s.extraBytes.length = 4

/-- The number of bytes in the buffer of a call, as a `uint16`. -/
def total (s : RbootWriteStatus) (chunk : Bytes) : Nat := (chunk.length + s.extraCount) % 65536

/-- The number of bytes that a call programs. -/
def wordLen (s : RbootWriteStatus) (chunk : Bytes) : Nat := total s chunk - total s chunk % 4

section Call

variable {s : RbootWriteStatus} {chunk : Bytes}

/-- The status after a call that got its memory. -/
def called (s : RbootWriteStatus) (chunk : Bytes) (write : Bool) : RbootWriteStatus where
  startAddr := if write then uint32 (s.startAddr + wordLen s chunk) else s.startAddr
  startSector := s.startSector
  lastSectorErased := max s.lastSectorErased (lastSect s.startAddr (wordLen s chunk))
  extraCount := total s chunk % 4
  extraBytes := ((s.leftover ++ chunk).drop (wordLen s chunk)).take (total s chunk % 4) ++
    s.extraBytes.drop (total s chunk % 4)

/-- The sectors that a call erases. -/
def callErases (s : RbootWriteStatus) (chunk : Bytes) : List Flash.Op :=
  Flash.erases (s.lastSectorErased + 1).toNat
    (lastSect s.startAddr (wordLen s chunk) - s.lastSectorErased).toNat

theorem rbootWriteFlash_called (h : Sound s) (hne : chunk.length ≠ 0) (write : Bool) :
    rbootWriteFlash s chunk ⟨true, write⟩ =
      ⟨write, called s chunk write, callErases s chunk ++
        if write then [.program s.startAddr ((s.leftover ++ chunk).take (wordLen s chunk))]
        else []⟩ := by
  rw [rbootWriteFlash, if_neg hne, if_neg (by simp)]
  simp only [writeBuffer]
  rw [eraseLoop_eq h.last rfl]
  cases write with
  | true => rfl
  | false =>
    rw [if_neg Bool.false_ne_true, if_neg Bool.false_ne_true, List.append_nil]
    rfl

theorem length_leftover (h : Sound s) : s.leftover.length = s.extraCount := by
  have hcount := h.count
  rw [RbootWriteStatus.leftover, List.length_take, h.length]
  omega

/-- What a call leaves of its buffer. -/
theorem length_rest (h : Sound s) (chunk : Bytes) :
    (((s.leftover ++ chunk).drop (wordLen s chunk)).take (total s chunk % 4)).length =
      total s chunk % 4 := by
  have hle := Nat.mod_le (chunk.length + s.extraCount) 65536
  have hmod := Nat.mod_le (total s chunk) 4
  rw [List.length_take, List.length_drop, List.length_append, length_leftover h]
  unfold wordLen
  unfold total at *
  omega

theorem called_sound (h : Sound s) (chunk : Bytes) (write : Bool) :
    Sound (called s chunk write) where
  last := Int.le_trans h.last (Int.le_max_left ..)
  count := Nat.mod_lt _ (by decide)
  length := by
    have hmod := Nat.mod_lt (total s chunk) (show 0 < 4 by decide)
    rw [called, List.length_append, length_rest h, List.length_drop, h.length]
    omega

theorem called_leftover (h : Sound s) (chunk : Bytes) (write : Bool) :
    (called s chunk write).leftover =
      ((s.leftover ++ chunk).drop (wordLen s chunk)).take (total s chunk % 4) := by
  rw [RbootWriteStatus.leftover, called]
  exact List.take_left' (length_rest h chunk)

theorem rbootWriteFlash_sound (h : Sound s) (chunk : Bytes) (answers : WriteAnswers) :
    Sound (rbootWriteFlash s chunk answers).status := by
  by_cases hne : chunk.length = 0
  · rw [rbootWriteFlash, if_pos hne]
    exact h
  · obtain ⟨malloc, write⟩ := answers
    cases malloc with
    | false =>
      rw [rbootWriteFlash, if_neg hne, if_pos rfl]
      exact h
    | true =>
      rw [rbootWriteFlash_called h hne]
      exact called_sound h chunk write

end Call

theorem Reached.sound {startAddr : UInt32} {s : RbootWriteStatus} (h : Reached startAddr s) :
    Sound s := by
  induction h with
  | init => exact ⟨(start_writer startAddr).1, Nat.zero_lt_succ 3, rfl⟩
  | write _ _ answers ih => exact rbootWriteFlash_sound ih _ answers
  | @finish s _ answers ih =>
    have hcount := ih.count
    have hlength := ih.length
    rw [rbootWriteEnd]
    split
    · apply rbootWriteFlash_sound
      refine ⟨ih.last, hcount, ?_⟩
      show (s.extraBytes.take s.extraCount ++ List.replicate (4 - s.extraCount) 0xFF).length = 4
      rw [List.length_append, List.length_take, List.length_replicate]
      omega
    · exact ih

/-! ## The second call -/

/-- After a call that failed, a second one leaves the flash, from `start` on, and the
status as one call that succeeds. -/
def Recovers (start : Nat) (s : RbootWriteStatus) (chunk : Bytes) (answers : WriteAnswers)
    (f : Flash) : Prop :=
  let failed := rbootWriteFlash s chunk answers
  let again := rbootWriteFlash failed.status chunk succeeds
  let once := rbootWriteFlash s chunk succeeds
  (∀ a, start ≤ a → Flash.after sectorSize f (failed.ops ++ again.ops) a =
    Flash.after sectorSize f once.ops a) ∧
  again.status.startAddr = once.status.startAddr ∧
  again.status.leftover = once.status.leftover

/-- The flash with the sectors erased that a chunk of whole words needs. -/
def cleared (s : RbootWriteStatus) (chunk : Bytes) (f : Flash) : Flash := fun a =>
  if s.lastSectorErased < (a / sectorSize : Nat) ∧
    ((a / sectorSize : Nat) : Int) ≤ lastSect s.startAddr chunk.length then 0xFF
  else f a

/-- The chunk is of whole words, and its last bytes program what the carry would have
programmed. -/
def Repeatable (start : Nat) (s : RbootWriteStatus) (chunk : Bytes) (f : Flash) : Prop :=
  chunk.length % 4 = 0 ∧ ∀ i < s.extraCount, start ≤ s.startAddr + i →
    cleared s chunk f (s.startAddr + i) &&& s.extraBytes.getD i 0 =
      cleared s chunk f (s.startAddr + i) &&&
        chunk.getD (chunk.length - s.extraCount + i) 0

section Again

variable {s : RbootWriteStatus} {chunk : Bytes}

/-- A chunk that is not of whole words changes the number of bytes in the carry, and so
does the second call. -/
theorem called_twice_count (h : Sound s)
    (heq : (called (called s chunk false) chunk true).leftover = (called s chunk true).leftover) :
    chunk.length % 4 = 0 := by
  have hlen := congrArg List.length heq
  rw [length_leftover (called_sound (called_sound h chunk false) chunk true),
    length_leftover (called_sound h chunk true)] at hlen
  have htwice : (chunk.length + (chunk.length + s.extraCount) % 65536 % 4) % 65536 % 4 =
      (chunk.length + s.extraCount) % 65536 % 4 := hlen
  omega

theorem total_words (h : Sound s) (hlen : chunk.length < 65536) (hwords : chunk.length % 4 = 0) :
    total s chunk % 4 = s.extraCount ∧ wordLen s chunk = chunk.length := by
  have hcount := h.count
  unfold wordLen
  unfold total
  omega

/-- The carry after a chunk of whole words is the end of the chunk. -/
theorem rest_words (h : Sound s) (hne : chunk.length ≠ 0) (hlen : chunk.length < 65536)
    (hwords : chunk.length % 4 = 0) (write : Bool) :
    (called s chunk write).leftover = chunk.drop (chunk.length - s.extraCount) := by
  have hcount := h.count
  obtain ⟨htotal, hlen'⟩ := total_words h hlen hwords
  rw [called_leftover h, htotal, hlen', List.drop_append, length_leftover h,
    List.drop_of_length_le (by rw [length_leftover h]; omega), List.nil_append]
  apply List.take_of_length_le
  rw [List.length_drop]
  omega

theorem after_callErases (h : Sound s) (hlen : chunk.length < 65536)
    (hwords : chunk.length % 4 = 0) (f : Flash) :
    Flash.after sectorSize f (callErases s chunk) = cleared s chunk f := by
  have hlast := h.last
  funext a
  rw [callErases, Flash.after_erases, (total_words h hlen hwords).2, cleared]
  generalize a / sectorSize = sector
  generalize lastSect s.startAddr chunk.length = last
  by_cases hin : s.lastSectorErased < (sector : Int) ∧ (sector : Int) ≤ last
  · rw [if_pos hin, if_pos (by omega)]
  · rw [if_neg hin, if_neg (by omega)]

/-- The second call finds its sectors erased. -/
theorem callErases_called (h : Sound s) (hlen : chunk.length < 65536)
    (hwords : chunk.length % 4 = 0) : callErases (called s chunk false) chunk = [] := by
  have hlast : (called s chunk false).lastSectorErased =
      max s.lastSectorErased (lastSect s.startAddr (wordLen s chunk)) := rfl
  have haddr : (called s chunk false).startAddr = s.startAddr := rfl
  rw [callErases, (total_words (called_sound h chunk false) hlen hwords).2, hlast, haddr,
    (total_words h hlen hwords).2]
  rw [show (lastSect s.startAddr chunk.length -
    max s.lastSectorErased (lastSect s.startAddr chunk.length)).toNat = 0 by omega]
  rfl

/-- Byte `i` of what a call programs. -/
theorem getD_take_append {carry : Bytes} {n i : Nat} (hi : i < n) :
    ((carry ++ chunk).take n).getD i 0 =
      if i < carry.length then carry.getD i 0 else chunk.getD (i - carry.length) 0 := by
  rw [List.getD_eq_getElem?_getD, List.getElem?_take_of_lt hi]
  by_cases hcarry : i < carry.length
  · rw [if_pos hcarry, List.getElem?_append_left hcarry, List.getD_eq_getElem?_getD]
  · rw [if_neg hcarry, List.getElem?_append_right (by omega), List.getD_eq_getElem?_getD]

theorem programs_same_iff (h : Sound s) (hne : chunk.length ≠ 0) (hlen : chunk.length < 65536)
    (hwords : chunk.length % 4 = 0) (start : Nat) (f : Flash) :
    (∀ a, start ≤ a →
      Flash.program f s.startAddr
          (((called s chunk false).leftover ++ chunk).take chunk.length) a =
        Flash.program f s.startAddr ((s.leftover ++ chunk).take chunk.length) a) ↔
      ∀ i < s.extraCount, start ≤ s.startAddr + i →
        f (s.startAddr + i) &&& s.extraBytes.getD i 0 =
          f (s.startAddr + i) &&& chunk.getD (chunk.length - s.extraCount + i) 0 := by
  have hcount := h.count
  have hrest := rest_words h hne hlen hwords false
  have hleft := length_leftover h
  have hleft' : (called s chunk false).leftover.length = s.extraCount := by
    rw [hrest, List.length_drop]
    omega
  have hlong (carry : Bytes) : ((carry ++ chunk).take chunk.length).length = chunk.length := by
    rw [List.length_take, List.length_append]
    omega
  have hold (i : Nat) (hi : i < s.extraCount) : s.leftover.getD i 0 = s.extraBytes.getD i 0 := by
    rw [List.getD_eq_getElem?_getD, RbootWriteStatus.leftover, List.getElem?_take_of_lt hi,
      List.getD_eq_getElem?_getD]
  have hnew (i : Nat) : (called s chunk false).leftover.getD i 0 =
      chunk.getD (chunk.length - s.extraCount + i) 0 := by
    rw [hrest, List.getD_eq_getElem?_getD, List.getElem?_drop, List.getD_eq_getElem?_getD]
  rw [Flash.program_eq_iff f s.startAddr start ((hlong _).trans (hlong _).symm), hlong]
  constructor
  · intro heq i hi hstart
    have hat := heq i (by omega) hstart
    rw [getD_take_append (by omega), getD_take_append (by omega), hleft, hleft', if_pos hi,
      if_pos hi, hold i hi, hnew] at hat
    exact hat.symm
  · intro heq i hi hstart
    rw [getD_take_append hi, getD_take_append hi, hleft, hleft']
    by_cases hcarry : i < s.extraCount
    · rw [if_pos hcarry, if_pos hcarry, hold i hcarry, hnew]
      exact (heq i hcarry hstart).symm
    · rw [if_neg hcarry, if_neg hcarry]

theorem recovers_words_iff (h : Sound s) (hne : chunk.length ≠ 0) (hlen : chunk.length < 65536)
    (hwords : chunk.length % 4 = 0) (start : Nat) (f : Flash) :
    Recovers start s chunk ⟨true, false⟩ f ↔ Repeatable start s chunk f := by
  have h' := called_sound h chunk false
  have haddr : (called s chunk false).startAddr = s.startAddr := rfl
  have hsame := (total_words h hlen hwords).2
  have hsame' := (total_words h' hlen hwords).2
  have hcount : (called s chunk false).extraCount = s.extraCount := (total_words h hlen hwords).1
  have hstatus : (called (called s chunk false) chunk true).startAddr =
      (called s chunk true).startAddr := by
    show uint32 ((called s chunk false).startAddr + wordLen (called s chunk false) chunk) =
      uint32 (s.startAddr + wordLen s chunk)
    rw [haddr, hsame, hsame']
  have hrest : (called (called s chunk false) chunk true).leftover =
      (called s chunk true).leftover := by
    rw [rest_words h' hne hlen hwords, rest_words h hne hlen hwords, hcount]
  have hprograms := programs_same_iff h hne hlen hwords start (cleared s chunk f)
  unfold Recovers Repeatable succeeds
  simp only [rbootWriteFlash_called h hne, rbootWriteFlash_called h' hne,
    callErases_called h hlen hwords, haddr, hsame, hsame', hstatus, hrest, and_self, and_true]
  rw [and_iff_right hwords, ← hprograms]
  simp only [Bool.false_eq_true, if_false, if_true, List.append_nil, List.nil_append,
    Flash.after_append, after_callErases h hlen hwords]
  rfl

end Again

/-- A call that failed can be repeated exactly when it failed for want of memory, or its
chunk is of whole words and ends with bytes that program what the carry would have. -/
theorem retry_iff {startAddr : UInt32} {s : RbootWriteStatus} (h : Reached startAddr s)
    {chunk : Bytes} (hlen : chunk.length < 65536) {answers : WriteAnswers}
    (hfail : (rbootWriteFlash s chunk answers).ret = false) (f : Flash) :
    Recovers startAddr.toNat s chunk answers f ↔
      answers.malloc = false ∨ Repeatable startAddr.toNat s chunk f := by
  have hne : chunk.length ≠ 0 := by
    intro hzero
    rw [rbootWriteFlash, if_pos hzero] at hfail
    exact absurd hfail (by simp)
  obtain ⟨malloc, write⟩ := answers
  cases malloc with
  | false =>
    refine iff_of_true ?_ (.inl rfl)
    have hfailed : rbootWriteFlash s chunk ⟨false, write⟩ = ⟨false, s, []⟩ := by
      rw [rbootWriteFlash, if_neg hne, if_pos rfl]
    unfold Recovers
    rw [hfailed]
    exact ⟨fun _ _ => rfl, rfl, rfl⟩
  | true =>
    have hwrite : write = false := by
      rw [rbootWriteFlash_called h.sound hne] at hfail
      exact hfail
    subst hwrite
    rw [or_iff_right (by simp)]
    by_cases hwords : chunk.length % 4 = 0
    · exact recovers_words_iff h.sound hne hlen hwords startAddr.toNat f
    · refine iff_of_false ?_ (fun hrepeat => hwords hrepeat.1)
      intro hrecovers
      apply hwords
      apply called_twice_count h.sound
      have hrest := hrecovers.2.2
      simp only [succeeds, rbootWriteFlash_called h.sound hne,
        rbootWriteFlash_called (called_sound h.sound chunk false) hne] at hrest
      exact hrest

/-- One byte waits for the next call. -/
def sampleStatus : RbootWriteStatus := (rbootWriteFlash (rbootWriteInit 0x2000) [1] succeeds).status

theorem sampleStatus_reached : Reached 0x2000 sampleStatus :=
  .write .init (show [(1 : UInt8)].length < 65536 by decide) succeeds

/-- The two bytes that the call which failed was given are taken into the carry, and the
second call appends them once more. -/
theorem retry_not_recovers :
    Reached 0x2000 sampleStatus ∧
      (rbootWriteFlash sampleStatus [2, 3] ⟨true, false⟩).ret = false ∧
      ¬Recovers 0x2000 sampleStatus [2, 3] ⟨true, false⟩ fun _ => 0 := by
  refine ⟨sampleStatus_reached, by decide, ?_⟩
  intro hrecovers
  exact absurd hrecovers.2.2 (by decide)

/-- The chunk ends with the byte that waits. -/
theorem retry_recovers :
    Reached 0x2000 sampleStatus ∧
      (rbootWriteFlash sampleStatus [2, 3, 4, 1] ⟨true, false⟩).ret = false ∧
      Recovers 0x2000 sampleStatus [2, 3, 4, 1] ⟨true, false⟩ fun _ => 0 := by
  have hfail : (rbootWriteFlash sampleStatus [2, 3, 4, 1] ⟨true, false⟩).ret = false := by decide
  refine ⟨sampleStatus_reached, hfail,
    (retry_iff sampleStatus_reached (by decide) hfail _).mpr (.inr ⟨by decide, ?_⟩)⟩
  intro i hi _
  have hone : sampleStatus.extraCount = 1 := by decide
  obtain rfl : i = 0 := by omega
  rfl

end Rboot
end EspMisc
