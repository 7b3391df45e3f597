/-
The transactions of `driver/spi.c`.

`spi_transaction` sets up the registers of an SPI unit, starts the unit and, when it is
done, copies what was received from the data registers.  What the unit leaves in the data
registers is a parameter.  The copies are recorded with the register each word was taken
from and the amount it was shifted by.

How many words are copied and where they are taken from is computed in one way for each
byte order.  `receives_iff` is the exact condition under which every received word is
copied from its own register.
-/
import Mathlib.Data.List.Basic
import Mathlib.Data.BitVec

namespace EspMisc
namespace Driver

def SPI_USR : UInt32 := 0x40000
def SPI_USR_COMMAND : UInt32 := 0x80000000
def SPI_USR_ADDR : UInt32 := 0x40000000
def SPI_USR_DUMMY : UInt32 := 0x20000000
def SPI_USR_MISO : UInt32 := 0x10000000
def SPI_USR_MOSI : UInt32 := 0x8000000
def SPI_WR_BYTE_ORDER : UInt32 := 0x800
def SPI_RD_BYTE_ORDER : UInt32 := 0x400

/-- The registers of one unit that a transaction writes. -/
structure SpiRegs where
  cmd : UInt32
  user : UInt32
  user1 : UInt32
  user2 : UInt32
  addr : UInt32
  w0 : UInt32
deriving DecidableEq, Repr

/-- The lengths and the data of a transaction. -/
structure Transfer where
  cmdBits : UInt8
  cmdData : UInt16
  addrBits : UInt32
  addrData : UInt32
  doutBits : UInt32
  doutData : UInt32
  dinBits : UInt32
  dummyBits : UInt32
deriving DecidableEq, Repr

/-- `din_data[index] = Wregister`, shifted to the right in one of the byte orders. -/
structure Store where
  index : Nat
  register : Nat
  shift : Option UInt32
  value : UInt32
deriving DecidableEq, Repr

namespace SpiRegs

def setUser (r : SpiRegs) (mask : UInt32) : SpiRegs := { r with user := r.user ||| mask }

def clearUser (r : SpiRegs) (mask : UInt32) : SpiRegs := { r with user := r.user &&& ~~~mask }

/-- The functions of the unit that a transaction uses, as far as they are not enabled with
their data. -/
def enable (r : SpiRegs) (t : Transfer) : SpiRegs :=
  let r := r.clearUser
    (SPI_USR_MOSI ||| SPI_USR_MISO ||| SPI_USR_COMMAND ||| SPI_USR_ADDR ||| SPI_USR_DUMMY)
  let r := if t.dinBits ≠ 0 then r.setUser SPI_USR_MISO else r
  if t.dummyBits ≠ 0 then r.setUser SPI_USR_DUMMY else r

def bitlengths (r : SpiRegs) (t : Transfer) : SpiRegs :=
  { r with
    user1 := ((t.addrBits - 1) &&& 0x3F) <<< 26 ||| ((t.doutBits - 1) &&& 0x1FF) <<< 17 |||
      ((t.dinBits - 1) &&& 0x1FF) <<< 8 ||| ((t.dummyBits - 1) &&& 0xFF) <<< 0 }

def command (r : SpiRegs) (t : Transfer) : SpiRegs :=
  if t.cmdBits ≠ 0 then
    let command := (t.cmdData.toUInt32 <<< (16 - t.cmdBits.toUInt32)).toUInt16
    let command := (command >>> (8 : UInt16) &&& 0xff) ||| (command <<< (8 : UInt16) &&& 0xff00)
    let r := r.setUser SPI_USR_COMMAND
    { r with
      user2 := ((t.cmdBits.toUInt32 - 1) &&& 0xF) <<< 28 ||| (command.toUInt32 &&& 0xFFFF) }
  else r

def address (r : SpiRegs) (t : Transfer) : SpiRegs :=
  if t.addrBits ≠ 0 then
    { r.setUser SPI_USR_ADDR with addr := t.addrData <<< (32 - t.addrBits) }
  else r

/-- The word that is copied to `W0`. -/
def doutWord (user : UInt32) (t : Transfer) : UInt32 :=
  if user &&& SPI_WR_BYTE_ORDER ≠ 0 then t.doutData <<< (32 - t.doutBits)
  else
    let doutExtraBits := t.doutBits % 8
    if doutExtraBits ≠ 0 then
      let whole := t.doutBits - doutExtraBits
      ((0xFFFFFFFF : UInt32) <<< whole &&& t.doutData) <<< (8 - doutExtraBits) |||
        (0xFFFFFFFF : UInt32) >>> (32 - whole) &&& t.doutData
    else t.doutData

def dout (r : SpiRegs) (t : Transfer) : SpiRegs :=
  if t.doutBits ≠ 0 then
    let r := r.setUser SPI_USR_MOSI
    { r with w0 := doutWord r.user t }
  else r

def start (r : SpiRegs) : SpiRegs := { r with cmd := r.cmd ||| SPI_USR }

end SpiRegs

/-- One word of the receive loop; `w` is what the unit has left in the data registers.  A
shift by 32 takes the amount modulo 32 here, as the shift instruction does. -/
def dinStore (user dinBits : UInt32) (w : Nat → UInt32) (idx : UInt8) : Store :=
  if user &&& SPI_RD_BYTE_ORDER ≠ 0 then
    let amount := 32 - dinBits % 32
    ⟨idx.toNat, 0, some amount, w 0 >>> amount⟩
  else ⟨idx.toNat, idx.toNat, none, w idx.toNat⟩

/-- The receive loop, or `none` when `turns` are not enough for it: `idx` is a `char`. -/
def dinLoop (user dinBits : UInt32) (w : Nat → UInt32) : Nat → UInt8 → Option (List Store)
  | 0, _ => none
  | turns + 1, idx =>
    let stored := dinStore user dinBits w idx
    if (idx + 1).toUInt32 < dinBits / 32 then
      (dinLoop user dinBits w turns (idx + 1)).map (stored :: ·)
    else some [stored]

/-- `spi_transaction` on the registers of unit `spiNo`: the registers when the unit is
started, the words stored and the result.  The loops that wait for the unit end when it is
ready, with the data registers `w`. -/
def spiTransaction (spiNo : Nat) (t : Transfer) (r : SpiRegs) (w : Nat → UInt32) :
    SpiRegs × Option (List Store) × Bool :=
  if spiNo > 1 then (r, some [], false)
  else
    let r := ((((r.enable t).bitlengths t).command t).address t).dout t
    let stored :=
      if t.dinBits ≠ 0 then dinLoop r.user t.dinBits w (t.dinBits.toNat / 32 + 1) 0
      else some []
    (r.start, stored, true)

/-! ## The byte order -/

theorem setUser_flag {r : SpiRegs} {mask flag : UInt32} (h : mask &&& flag = 0) :
    (r.setUser mask).user &&& flag = r.user &&& flag := by
  refine UInt32.toBitVec_inj.mp ?_
  show (r.user.toBitVec ||| mask.toBitVec) &&& flag.toBitVec = r.user.toBitVec &&& flag.toBitVec
  have hmask : mask.toBitVec &&& flag.toBitVec = 0#32 := UInt32.toBitVec_inj.mpr h
  rw [BitVec.and_or_distrib_right, hmask, BitVec.or_zero]

theorem clearUser_flag {r : SpiRegs} {mask flag : UInt32} (h : ~~~mask &&& flag = flag) :
    (r.clearUser mask).user &&& flag = r.user &&& flag := by
  show r.user &&& ~~~mask &&& flag = r.user &&& flag
  rw [UInt32.and_assoc, h]

/-- A transaction leaves the byte order of what is received as it was. -/
theorem user_rdByteOrder (r : SpiRegs) (t : Transfer) :
    (((((r.enable t).bitlengths t).command t).address t).dout t).user &&& SPI_RD_BYTE_ORDER =
      r.user &&& SPI_RD_BYTE_ORDER := by
  have henable : (r.enable t).user &&& SPI_RD_BYTE_ORDER = r.user &&& SPI_RD_BYTE_ORDER := by
    have hcleared : (r.clearUser (SPI_USR_MOSI ||| SPI_USR_MISO ||| SPI_USR_COMMAND |||
        SPI_USR_ADDR ||| SPI_USR_DUMMY)).user &&& SPI_RD_BYTE_ORDER =
          r.user &&& SPI_RD_BYTE_ORDER :=
      clearUser_flag (by decide)
    have hmiso : SPI_USR_MISO &&& SPI_RD_BYTE_ORDER = 0 := by decide
    have hdummy : SPI_USR_DUMMY &&& SPI_RD_BYTE_ORDER = 0 := by decide
    simp only [SpiRegs.enable]
    split <;> split <;> simp only [setUser_flag hmiso, setUser_flag hdummy, hcleared]
  have hcommand (r : SpiRegs) :
      (r.command t).user &&& SPI_RD_BYTE_ORDER = r.user &&& SPI_RD_BYTE_ORDER := by
    unfold SpiRegs.command
    split
    · exact setUser_flag (by decide)
    · rfl
  have haddress (r : SpiRegs) :
      (r.address t).user &&& SPI_RD_BYTE_ORDER = r.user &&& SPI_RD_BYTE_ORDER := by
    unfold SpiRegs.address
    split
    · exact setUser_flag (by decide)
    · rfl
  have hdout (r : SpiRegs) :
      (r.dout t).user &&& SPI_RD_BYTE_ORDER = r.user &&& SPI_RD_BYTE_ORDER := by
    unfold SpiRegs.dout
    split
    · exact setUser_flag (by decide)
    · rfl
  rw [hdout, haddress, hcommand]
  exact henable

/-! ## The receive loop -/

/-- The word with index `i`. -/
def storeOf (user dinBits : UInt32) (w : Nat → UInt32) (i : Nat) : Store :=
  dinStore user dinBits w (UInt8.ofNat i)

/-- The loop stores a word for every 32 bits, and at least one. -/
theorem dinLoop_eq {dinBits : UInt32} (hbits : dinBits.toNat ≤ 512) (user : UInt32)
    (w : Nat → UInt32) {turns i : Nat} (hi : i ≤ 16) (hturns : dinBits.toNat / 32 < i + turns)
    (hpos : 0 < turns) :
    dinLoop user dinBits w turns (UInt8.ofNat i) =
      some ((List.range' i (max 1 (dinBits.toNat / 32 - i))).map (storeOf user dinBits w)) := by
  induction turns generalizing i with
  | zero => exact absurd hpos (Nat.lt_irrefl 0)
  | succ turns ih =>
    have hindex : UInt8.ofNat i + 1 = UInt8.ofNat (i + 1) := (UInt8.ofNat_add i 1).symm
    have hmore : (UInt8.ofNat (i + 1)).toUInt32 < dinBits / 32 ↔ i + 1 < dinBits.toNat / 32 := by
      rw [UInt32.lt_iff_toNat_lt, UInt32.toNat_div, UInt8.toNat_toUInt32,
        UInt8.toNat_ofNat', Nat.mod_eq_of_lt (by omega)]
      rfl
    rw [dinLoop, hindex]
    by_cases hnext : i + 1 < dinBits.toNat / 32
    · rw [if_pos (hmore.mpr hnext), ih (by omega) (by omega) (by omega), Option.map_some,
        show max 1 (dinBits.toNat / 32 - i) = max 1 (dinBits.toNat / 32 - (i + 1)) + 1 by omega,
        List.range'_succ]
      rfl
    · rw [if_neg (mt hmore.mp hnext), show max 1 (dinBits.toNat / 32 - i) = 1 by omega]
      rfl

section Words

variable {user dinBits : UInt32} {w : Nat → UInt32} {i : Nat}

theorem storeOf_normal (h : user &&& SPI_RD_BYTE_ORDER = 0) (hi : i < 256) :
    storeOf user dinBits w i = ⟨i, i, none, w i⟩ := by
  have hindex : (UInt8.ofNat i).toNat = i := by rw [UInt8.toNat_ofNat', Nat.mod_eq_of_lt hi]
  rw [storeOf, dinStore, if_neg (not_not.mpr h), hindex]

/-- In the other byte order every word is taken from `W0`. -/
theorem storeOf_reverse (h : user &&& SPI_RD_BYTE_ORDER ≠ 0) (hi : i < 256) :
    storeOf user dinBits w i =
      ⟨i, 0, some (32 - dinBits % 32), w 0 >>> (32 - dinBits % 32)⟩ := by
  have hindex : (UInt8.ofNat i).toNat = i := by rw [UInt8.toNat_ofNat', Nat.mod_eq_of_lt hi]
  rw [storeOf, dinStore, if_pos h, hindex]

theorem shift_toNat (dinBits : UInt32) :
    (32 - dinBits % 32).toNat = 32 - dinBits.toNat % 32 := by
  have hlt : dinBits.toNat % 32 < 32 := Nat.mod_lt _ (by decide)
  rw [UInt32.toNat_sub_of_le, UInt32.toNat_mod]
  · rfl
  · rw [UInt32.le_iff_toNat_le, UInt32.toNat_mod]
    exact Nat.le_of_lt hlt

end Words

/-! ## What is received -/

/-- One word for every 32 bits begun, each taken from its own register, and shifted by less
than 32 if at all. -/
structure Receives (w : Nat → UInt32) (dinBits : Nat) (stored : List Store) : Prop where
  words : stored.map (·.index) = List.range ((dinBits + 31) / 32)
  registers : ∀ st ∈ stored, st.register = st.index
  values : ∀ st ∈ stored, st.value = w st.register >>> st.shift.getD 0
  shifts : ∀ st ∈ stored, ∀ amount, st.shift = some amount → amount.toNat < 32

theorem spiTransaction_stored {spiNo : Nat} {t : Transfer} (hunit : spiNo ≤ 1)
    (hpos : 1 ≤ t.dinBits.toNat) (hle : t.dinBits.toNat ≤ 512) (r : SpiRegs) (w : Nat → UInt32) :
    ∃ user, user &&& SPI_RD_BYTE_ORDER = r.user &&& SPI_RD_BYTE_ORDER ∧
      (spiTransaction spiNo t r w).2 =
        (some ((List.range (max 1 (t.dinBits.toNat / 32))).map (storeOf user t.dinBits w)),
          true) := by
  let user := (((((r.enable t).bitlengths t).command t).address t).dout t).user
  refine ⟨user, user_rdByteOrder r t, ?_⟩
  have hbits : t.dinBits ≠ 0 := by
    intro hzero
    rw [hzero] at hpos
    exact absurd hpos (by decide)
  have hloop : dinLoop user t.dinBits w (t.dinBits.toNat / 32 + 1) (UInt8.ofNat 0) = _ :=
    dinLoop_eq hle user w (Nat.zero_le 16) (by omega) (Nat.succ_pos _)
  rw [List.range_eq_range']
  simp only [spiTransaction, if_neg (Nat.not_lt.mpr hunit), if_pos hbits]
  exact congrArg (·, true) hloop

theorem receives_normal {user dinBits : UInt32} {w : Nat → UInt32}
    (h : user &&& SPI_RD_BYTE_ORDER = 0) (hpos : 1 ≤ dinBits.toNat) (hle : dinBits.toNat ≤ 512) :
    Receives w dinBits.toNat
        ((List.range (max 1 (dinBits.toNat / 32))).map (storeOf user dinBits w)) ↔
      dinBits.toNat ≤ 32 ∨ 32 ∣ dinBits.toNat := by
  have hstores : (List.range (max 1 (dinBits.toNat / 32))).map (storeOf user dinBits w) =
      (List.range (max 1 (dinBits.toNat / 32))).map fun i => ⟨i, i, none, w i⟩ :=
    List.map_congr_left fun i hi => storeOf_normal h (by have := List.mem_range.mp hi; omega)
  rw [hstores]
  constructor
  · intro hreceives
    have hwords := congrArg List.length hreceives.words
    rw [List.length_map, List.length_map, List.length_range, List.length_range] at hwords
    omega
  · intro hcond
    have hwords : max 1 (dinBits.toNat / 32) = (dinBits.toNat + 31) / 32 := by omega
    refine ⟨?_, ?_, ?_, ?_⟩
    · rw [List.map_map, hwords]
      exact List.map_id _
    all_goals
      intro st hst
      obtain ⟨i, _, rfl⟩ := List.mem_map.mp hst
    · rfl
    · exact (UInt32.shiftRight_zero).symm
    · intro amount hamount
      exact absurd hamount (by simp)

theorem receives_reverse {user dinBits : UInt32} {w : Nat → UInt32}
    (h : user &&& SPI_RD_BYTE_ORDER ≠ 0) (hpos : 1 ≤ dinBits.toNat) (hle : dinBits.toNat ≤ 512) :
    Receives w dinBits.toNat
        ((List.range (max 1 (dinBits.toNat / 32))).map (storeOf user dinBits w)) ↔
      dinBits.toNat ≤ 31 := by
  have hstores : (List.range (max 1 (dinBits.toNat / 32))).map (storeOf user dinBits w) =
      (List.range (max 1 (dinBits.toNat / 32))).map fun i =>
        ⟨i, 0, some (32 - dinBits % 32), w 0 >>> (32 - dinBits % 32)⟩ :=
    List.map_congr_left fun i hi => storeOf_reverse h (by have := List.mem_range.mp hi; omega)
  have hamount := shift_toNat dinBits
  rw [hstores]
  constructor
  · intro hreceives
    have hwords := congrArg List.length hreceives.words
    rw [List.length_map, List.length_map, List.length_range, List.length_range] at hwords
    have hshift := hreceives.shifts _
      (List.mem_map_of_mem (List.mem_range.mpr (show 0 < max 1 (dinBits.toNat / 32) by omega)))
      _ rfl
    rw [hamount] at hshift
    omega
  · intro hcond
    rw [show max 1 (dinBits.toNat / 32) = 1 by omega]
    refine ⟨?_, ?_, ?_, ?_⟩
    · rw [show (dinBits.toNat + 31) / 32 = 1 by omega]
      rfl
    all_goals
      intro st hst
      obtain ⟨i, hi, rfl⟩ := List.mem_map.mp hst
      obtain rfl : i = 0 := by have := List.mem_range.mp hi; omega
    · rfl
    · rfl
    · intro amount hsome
      obtain rfl := Option.some.inj hsome
      rw [hamount]
      omega

/-- Up to 512 bits are received as they should be exactly when, in the normal order, they fit
into one word or fill every word, and, in the other one, they do not fill one word. -/
theorem receives_iff {spiNo : Nat} {t : Transfer} (hunit : spiNo ≤ 1)
    (hpos : 1 ≤ t.dinBits.toNat) (hle : t.dinBits.toNat ≤ 512) (r : SpiRegs) (w : Nat → UInt32) :
    (∃ stored, (spiTransaction spiNo t r w).2 = (some stored, true) ∧
        Receives w t.dinBits.toNat stored) ↔
      if r.user &&& SPI_RD_BYTE_ORDER = 0 then t.dinBits.toNat ≤ 32 ∨ 32 ∣ t.dinBits.toNat
      else t.dinBits.toNat ≤ 31 := by
  obtain ⟨user, hflag, hstored⟩ := spiTransaction_stored hunit hpos hle r w
  have hreceives : (∃ stored, (spiTransaction spiNo t r w).2 = (some stored, true) ∧
      Receives w t.dinBits.toNat stored) ↔ Receives w t.dinBits.toNat
        ((List.range (max 1 (t.dinBits.toNat / 32))).map (storeOf user t.dinBits w)) := by
    constructor
    · rintro ⟨stored, heq, hreceives⟩
      obtain rfl := Option.some.inj (Prod.mk.inj (heq.symm.trans hstored)).1
      exact hreceives
    · intro hreceives
      exact ⟨_, hstored, hreceives⟩
  rw [hreceives]
  by_cases horder : r.user &&& SPI_RD_BYTE_ORDER = 0
  · rw [if_pos horder, receives_normal (hflag.trans horder) hpos hle]
  · rw [if_neg horder, receives_reverse (hflag ▸ horder) hpos hle]

/-- A transaction that only receives. -/
def receiving (dinBits : UInt32) : Transfer := ⟨0, 0, 0, 0, 0, 0, dinBits, 0⟩

/-- Two whole words in the normal order. -/
theorem receives_two_words :
    ∃ stored, (spiTransaction 1 (receiving 64) ⟨0, 0, 0, 0, 0, 0⟩ fun i => UInt32.ofNat i).2 =
        (some stored, true) ∧ Receives (fun i => UInt32.ofNat i) 64 stored :=
  (receives_iff (by decide) (by decide) (by decide) _ _).mpr (by decide)

/-- Forty bits are received as one word. -/
theorem not_receives_forty_bits :
    ¬∀ (t : Transfer) (r : SpiRegs) (w : Nat → UInt32), 1 ≤ t.dinBits.toNat →
      t.dinBits.toNat ≤ 512 → ∃ stored, (spiTransaction 1 t r w).2 = (some stored, true) ∧
        Receives w t.dinBits.toNat stored := by
  intro h
  obtain ⟨stored, hstored, hreceives⟩ :=
    h (receiving 40) ⟨0, 0, 0, 0, 0, 0⟩ (fun _ => 0) (by decide) (by decide)
  have hone : (spiTransaction 1 (receiving 40) ⟨0, 0, 0, 0, 0, 0⟩ fun _ => 0).2 =
      (some [⟨0, 0, none, 0⟩], true) := by decide +kernel
  obtain rfl := Option.some.inj (Prod.mk.inj (hstored.symm.trans hone)).1
  exact absurd hreceives.words (by decide)

end Driver
end EspMisc
