/-
The check byte of the scratchpad.

`onewire_crc8` works by a table that was copied into `util/crc.c`.  It is the table of
the eight shifts of `Lib/Crc.lean`, so `onewire_crc8` agrees with `Crc8_ComputeBuf`, which
shifts bit by bit.  The check is there for the errors of a single wire: a disturbance
hits a few bits that follow each other.  `burst_detected` says that none of up to eight
bits goes unnoticed, wherever it hits, and what `read_temp_done_cb` makes of that.
-/
import EspMisc.OneWire.Loop
import EspMisc.Util.Crc

namespace EspMisc
namespace OneWire

open Crc (crc shift Burst)

theorem dscrcTable_eq :
    dscrcTable.map UInt8.toBitVec =
      (List.range 256).map fun i => (shift 0x8C#8)^[8] (BitVec.ofNat 8 i) := by
  decide +kernel

theorem dscrcTable_getD (b : UInt8) :
    (dscrcTable.getD b.toNat 0).toBitVec = (shift 0x8C#8)^[8] b.toBitVec := by
  have hentry := Crc.table_getD dscrcTable_eq b.toNat_lt 0
  have hindex : BitVec.ofNat 8 b.toNat = b.toBitVec :=
    (BitVec.ofNat_toNat 8 b.toBitVec).trans (BitVec.setWidth_eq _)
  rw [hentry, hindex]

theorem onewireCrc8_fold (r : UInt8) (data : List UInt8) :
    (data.foldl (fun crc byte => dscrcTable.getD (crc ^^^ byte).toNat 0) r).toBitVec =
      crc 0x8C#8 r.toBitVec data := by
  induction data generalizing r with
  | nil => rfl
  | cons b data ih =>
    rw [List.foldl_cons, ih, dscrcTable_getD, Crc.crc_cons (Nat.le_refl 8), BitVec.setWidth_eq,
      UInt8.toBitVec_xor]

theorem onewireCrc8_crc (data : List UInt8) :
    (onewireCrc8 data).toBitVec = crc 0x8C#8 0#8 data :=
  onewireCrc8_fold 0 data

theorem onewireCrc8_eq_crc8ComputeBuf (data : List UInt8) :
    onewireCrc8 data = Util.crc8ComputeBuf 0 data := by
  refine UInt8.toBitVec_inj.mp ?_
  rw [onewireCrc8_crc, Util.crc8ComputeBuf_crc]
  rfl

/-! ## Bursts -/

/-- Data bytes and their check byte in the order of transmission, lowest bits first. -/
def transmitted (data : List UInt8) (check : UInt8) : List Bool :=
  (data ++ [check]).flatMap Crc.bits

/-- The check byte takes the register of its own data to zero, and no other does. -/
theorem onewireCrc8_eq_iff (data : List UInt8) (check : UInt8) :
    onewireCrc8 data = check ↔
      (transmitted data check).foldl (Crc.feed 0x8C#8) 0#8 = 0#8 := by
  have hregister : (transmitted data check).foldl (Crc.feed 0x8C#8) 0#8 =
      (shift 0x8C#8)^[8] ((onewireCrc8 data).toBitVec ^^^ check.toBitVec) := by
    have happend : (transmitted data check).foldl (Crc.feed 0x8C#8) 0#8 =
        crc 0x8C#8 (onewireCrc8 data).toBitVec [check] := by
      rw [transmitted, List.flatMap_append, List.foldl_append, onewireCrc8_crc]
      rfl
    rw [happend, Crc.crc_cons (Nat.le_refl 8), BitVec.setWidth_eq]
    rfl
  have hzero : (shift 0x8C#8)^[8] 0#8 = 0#8 :=
    Function.iterate_fixed (Crc.shift_zero 0x8C#8) 8
  rw [hregister]
  constructor
  · rintro rfl
    rw [BitVec.xor_self, hzero]
  · intro h
    have hinj : Function.Injective (shift 0x8C#8)^[8] := (Crc.shift_injective rfl).iterate 8
    exact UInt8.toBitVec_inj.mp (BitVec.xor_eq_zero_iff.mp (hinj (h.trans hzero.symm)))

theorem not_both_of_burst {data data' : List UInt8} {check check' : UInt8}
    (h : Burst 8 (transmitted data check) (transmitted data' check')) :
    ¬(onewireCrc8 data = check ∧ onewireCrc8 data' = check') := by
  rintro ⟨hok, hok'⟩
  have hzero := (onewireCrc8_eq_iff data check).mp hok
  have hzero' := (onewireCrc8_eq_iff data' check').mp hok'
  exact Crc.feeds_burst (by decide) rfl 0#8 h (hzero.trans hzero'.symm)

/-- A scratchpad with a wrong check byte is dropped. -/
theorem readTempDoneCb_rejected {s : Loop}
    (h : onewireCrc8 (s.driver.spad 8) ≠ s.driver.spadBuf 8) :
    (readTempDoneCb s).2 = [] ∧ (readTempDoneCb s).1.latestTemp = s.latestTemp := by
  have htemp (s : Loop) : (hwTimerDisarm s).latestTemp = s.latestTemp := by
    unfold hwTimerDisarm
    split <;> rfl
  unfold readTempDoneCb
  dsimp only
  split
  · exact ⟨rfl, (htemp _).trans (htemp s)⟩
  · rw [(hwTimerDisarm_keeps s).1, if_neg h, if_neg h]
    exact ⟨rfl, htemp s⟩

/-- Of two transmissions that differ by a burst of at most eight bits, one at most passes
the check, and a valid scratchpad that was hit by such a burst is not taken for a
temperature. -/
theorem burst_detected :
    (∀ (data data' : List UInt8) (check check' : UInt8),
      Burst 8 (transmitted data check) (transmitted data' check') →
        ¬(onewireCrc8 data = check ∧ onewireCrc8 data' = check')) ∧
    ∀ (valid : Nat → UInt8) (s : Loop),
      onewireCrc8 ((List.range 8).map valid) = valid 8 →
      Burst 8 (transmitted ((List.range 8).map valid) (valid 8))
        (transmitted (s.driver.spad 8) (s.driver.spadBuf 8)) →
        (readTempDoneCb s).2 = [] ∧ (readTempDoneCb s).1.latestTemp = s.latestTemp := by
  refine ⟨fun _ _ _ _ => not_both_of_burst, fun valid s hvalid hburst => ?_⟩
  exact readTempDoneCb_rejected fun hok => not_both_of_burst hburst ⟨hvalid, hok⟩

/-- A valid scratchpad of zeros whose last bit was hit. -/
theorem burst_detected_last_bit :
    let hit : Nat → UInt8 := fun k => if k = 8 then 0x80 else 0
    let s := { Loop.boot with driver := { Loop.boot.driver with spadBuf := hit } }
    onewireCrc8 (s.driver.spad 8) ≠ 0x80 ∧ (readTempDoneCb s).2 = [] := by
  intro hit s
  have hburst : Burst 8 (transmitted ((List.range 8).map fun _ => 0) 0)
      (transmitted ((List.range 8).map hit) (hit 8)) := by
    refine ⟨rfl, by decide, 64, fun i hi => ?_⟩
    have hlt : i < 72 := by
      by_contra hge
      have hlen : ∀ b : List Bool, b.length = 72 → b[i]? = none := fun b hb =>
        List.getElem?_eq_none (hb ▸ Nat.le_of_not_lt hge)
      exact hi ((hlen _ rfl).trans (hlen _ rfl).symm)
    refine ⟨?_, hlt⟩
    by_contra hlow
    exact hi ((by decide : ∀ j < 64, (transmitted ((List.range 8).map fun _ => 0) 0)[j]? =
      (transmitted ((List.range 8).map hit) (hit 8))[j]?) i (Nat.lt_of_not_le hlow))
  have hzero : onewireCrc8 ((List.range 8).map fun _ => 0) = 0 := rfl
  refine ⟨fun hok => ?_, (burst_detected.2 (fun _ => 0) s hzero hburst).1⟩
  exact burst_detected.1 _ _ _ _ hburst ⟨hzero, hok⟩

end OneWire
end EspMisc
