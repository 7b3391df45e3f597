/-
Cyclic redundancy checks, least significant bit first.

A register of `w` bits takes one bit of the message at a time: `shift` moves it down by
one place and adds the polynomial when the bit that falls out is set, and `feed` adds the
bit of the message to the one that falls out.  `crc` feeds all bits of the bytes of a
message, each byte from its lowest bit on.

Programs do not work bit by bit.  `crc_cons` adds a whole byte to the register and shifts
eight times, and `shifts_table` takes the eight shifts of the low byte from a table.

A check of `w` bits is there to notice a burst: messages that differ only inside of `w`
consecutive bits.  `feeds_burst` says that it does, for every polynomial whose highest
bit is set.
-/
import Mathlib.Data.BitVec
import Mathlib.Logic.Function.Iterate

namespace EspMisc
namespace Crc

variable {w : Nat}

def shift (poly r : BitVec w) : BitVec w :=
  if r.getLsbD 0 then (r >>> 1) ^^^ poly else r >>> 1

/-- One bit of the message. -/
def feed (poly r : BitVec w) (bit : Bool) : BitVec w :=
  if r.getLsbD 0 ^^ bit then (r >>> 1) ^^^ poly else r >>> 1

/-- The bits of a byte, the lowest one first. -/
def bits (b : UInt8) : List Bool := (List.range 8).map b.toBitVec.getLsbD

def crc (poly r : BitVec w) (message : List UInt8) : BitVec w :=
  (message.flatMap bits).foldl (feed poly) r

/-- The bit that falls out, as programs test it. -/
theorem shift_eq (hw : 0 < w) (poly r : BitVec w) :
    shift poly r = if r &&& 1#w ≠ 0#w then (r >>> 1) ^^^ poly else r >>> 1 := by
  have hbit : r &&& 1#w ≠ 0#w ↔ r.getLsbD 0 = true := by
    rw [BitVec.and_one_eq_setWidth_ofBool_getLsbD]
    cases hr : r.getLsbD 0 with
    | false => simp
    | true =>
      refine iff_of_true (fun hzero => ?_) rfl
      have hlow := congrArg (·.getLsbD 0) hzero
      simp [hw] at hlow
  unfold shift
  exact (if_congr hbit rfl rfl).symm

/-! ## Bytes -/

theorem shift_xor (poly x y : BitVec w) :
    shift poly (x ^^^ y) = shift poly x ^^^ shift poly y := by
  have hcancel : (x >>> 1) ^^^ poly ^^^ ((y >>> 1) ^^^ poly) = x >>> 1 ^^^ y >>> 1 := by
    rw [BitVec.xor_assoc, BitVec.xor_comm (y >>> 1) poly, ← BitVec.xor_assoc poly poly,
      BitVec.xor_self, BitVec.zero_xor]
  unfold shift
  rw [BitVec.getLsbD_xor, BitVec.ushiftRight_xor_distrib]
  cases x.getLsbD 0 <;> cases y.getLsbD 0
  · rfl
  · exact BitVec.xor_assoc _ _ _
  · change x >>> 1 ^^^ y >>> 1 ^^^ poly = x >>> 1 ^^^ poly ^^^ y >>> 1
    rw [BitVec.xor_assoc, BitVec.xor_assoc, BitVec.xor_comm poly]
  · exact hcancel.symm

theorem shifts_xor (poly : BitVec w) (n : Nat) (x y : BitVec w) :
    (shift poly)^[n] (x ^^^ y) = (shift poly)^[n] x ^^^ (shift poly)^[n] y := by
  induction n generalizing x y with
  | zero => rfl
  | succ n ih => rw [Function.iterate_succ_apply, shift_xor, ih]; rfl

/-- A register whose lowest bits are clear only moves down. -/
theorem shifts_clear (poly : BitVec w) {n : Nat} {x : BitVec w}
    (h : ∀ i < n, x.getLsbD i = false) : (shift poly)^[n] x = x >>> n := by
  induction n with
  | zero => exact (BitVec.ushiftRight_zero x).symm
  | succ n ih =>
    have hlow : (x >>> n).getLsbD 0 = false := by
      rw [BitVec.getLsbD_ushiftRight]
      exact h n (Nat.lt_succ_self n)
    rw [Function.iterate_succ_apply', ih fun i hi => h i (Nat.lt_succ_of_lt hi), shift, hlow,
      BitVec.shiftRight_add]
    rfl

/-- A bit of the message, with the rest of its byte still in the register. -/
theorem shift_feed (poly r m : BitVec w) :
    shift poly (r ^^^ m) = feed poly r (m.getLsbD 0) ^^^ (m >>> 1) := by
  unfold shift feed
  rw [BitVec.getLsbD_xor, BitVec.ushiftRight_xor_distrib]
  split
  · rw [BitVec.xor_assoc, BitVec.xor_comm (m >>> 1), ← BitVec.xor_assoc]
  · rfl

theorem feeds_shifts (poly r m : BitVec w) (n : Nat) :
    (shift poly)^[n] (r ^^^ m) =
      ((List.range n).map m.getLsbD).foldl (feed poly) r ^^^ (m >>> n) := by
  induction n with
  | zero => rw [BitVec.ushiftRight_zero]; rfl
  | succ n ih =>
    rw [Function.iterate_succ_apply', ih, shift_feed, List.range_succ, List.map_append,
      List.foldl_append, BitVec.getLsbD_ushiftRight, BitVec.shiftRight_add]
    rfl

theorem byte_shift (b : UInt8) : b.toBitVec.setWidth w >>> 8 = 0#w := by
  refine BitVec.eq_of_getLsbD_eq fun i hi => ?_
  rw [BitVec.getLsbD_ushiftRight, BitVec.getLsbD_setWidth,
    BitVec.getLsbD_of_ge b.toBitVec (8 + i) (Nat.le_add_right 8 i), Bool.and_false,
    BitVec.getLsbD_zero]

/-- A byte is added to the register, and the register is shifted eight times. -/
theorem crc_cons (hw : 8 ≤ w) (poly r : BitVec w) (b : UInt8) (message : List UInt8) :
    crc poly r (b :: message) =
      crc poly ((shift poly)^[8] (r ^^^ b.toBitVec.setWidth w)) message := by
  have hbits : bits b = (List.range 8).map (b.toBitVec.setWidth w).getLsbD := by
    refine List.map_congr_left fun i hi => ?_
    have hlt : i < w := Nat.lt_of_lt_of_le (List.mem_range.mp hi) hw
    rw [BitVec.getLsbD_setWidth, decide_eq_true hlt, Bool.true_and]
  unfold crc
  rw [List.flatMap_cons, List.foldl_append, hbits, feeds_shifts, byte_shift, BitVec.xor_zero]

theorem getLsbD_low (i : Nat) : (255#w).getLsbD i = (decide (i < w) && decide (i < 8)) := by
  rw [BitVec.getLsbD_ofNat, show (255 : Nat) = 2 ^ 8 - 1 from rfl, Nat.testBit_two_pow_sub_one]

/-- The eight shifts of a register are those of its low byte, and the rest moved down. -/
theorem shifts_eight (poly x : BitVec w) :
    (shift poly)^[8] x = x >>> 8 ^^^ (shift poly)^[8] (x &&& 255#w) := by
  have hclear (i : Nat) (hi : i < 8) : (x &&& ~~~255#w).getLsbD i = false := by
    rw [BitVec.getLsbD_and, BitVec.getLsbD_not, getLsbD_low, decide_eq_true hi]
    cases decide (i < w) <;> simp
  have hhigh : (x &&& ~~~255#w) >>> 8 = x >>> 8 := by
    refine BitVec.eq_of_getLsbD_eq fun i hi => ?_
    have hge : ¬8 + i < 8 := Nat.not_lt.mpr (Nat.le_add_right 8 i)
    rw [BitVec.getLsbD_ushiftRight, BitVec.getLsbD_ushiftRight, BitVec.getLsbD_and,
      BitVec.getLsbD_not, getLsbD_low, decide_eq_false hge]
    by_cases hlt : 8 + i < w
    · simp [hlt]
    · simp [BitVec.getLsbD_of_ge x (8 + i) (Nat.le_of_not_lt hlt)]
  have hsplit : x = (x &&& ~~~255#w) ^^^ (x &&& 255#w) := by
    refine BitVec.eq_of_getLsbD_eq fun i hi => ?_
    rw [BitVec.getLsbD_xor, BitVec.getLsbD_and, BitVec.getLsbD_and, BitVec.getLsbD_not]
    cases x.getLsbD i <;> cases (255#w).getLsbD i <;> simp [hi]
  conv_lhs => rw [hsplit]
  rw [shifts_xor, shifts_clear poly hclear, hhigh]

/-- A byte of the message by a table of the eight shifts of every byte. -/
theorem shifts_table (poly r : BitVec w) (b : UInt8) :
    (shift poly)^[8] (r ^^^ b.toBitVec.setWidth w) =
      r >>> 8 ^^^ (shift poly)^[8] ((r ^^^ b.toBitVec.setWidth w) &&& 255#w) := by
  rw [shifts_eight, BitVec.ushiftRight_xor_distrib, byte_shift, BitVec.xor_zero]

/-- An entry of a table that was computed row by row. -/
theorem table_getD {α β : Type*} {table : List α} {f : α → β} {g : Nat → β} {n : Nat}
    (h : table.map f = (List.range n).map g) {i : Nat} (hi : i < n) (d : α) :
    f (table.getD i d) = g i := by
  have hget := congrArg (·[i]?) h
  simp only [List.getElem?_map, List.getElem?_range hi, Option.map_some] at hget
  obtain ⟨e, he, heq⟩ := Option.map_eq_some_iff.mp hget
  rw [List.getD_eq_getElem?_getD, he]
  exact heq

/-! ## Bursts -/

section Burst

variable {poly : BitVec w}

theorem shift_zero (poly : BitVec w) : shift poly 0#w = 0#w := by
  unfold shift
  rw [BitVec.getLsbD_zero, BitVec.zero_ushiftRight]
  rfl

/-- The highest bit of the polynomial shows whether it was added. -/
theorem eq_zero_of_shift (htop : poly.getLsbD (w - 1) = true) {x : BitVec w}
    (h : shift poly x = 0#w) : x = 0#w := by
  unfold shift at h
  cases hlow : x.getLsbD 0 with
  | true =>
    rw [hlow, if_pos rfl] at h
    have hout : x.getLsbD (1 + (w - 1)) = false :=
      BitVec.getLsbD_of_ge x (1 + (w - 1)) (by omega)
    have hbit := congrArg (·.getLsbD (w - 1)) h
    simp only [BitVec.getLsbD_xor, BitVec.getLsbD_ushiftRight, htop, hout, BitVec.getLsbD_zero,
      Bool.false_xor] at hbit
    exact absurd hbit Bool.true_eq_false.mp
  | false =>
    rw [hlow, if_neg Bool.false_ne_true] at h
    refine BitVec.eq_of_getLsbD_eq fun i hi => ?_
    rw [BitVec.getLsbD_zero]
    cases i with
    | zero => exact hlow
    | succ i =>
      have hbit := congrArg (·.getLsbD i) h
      simp only [BitVec.getLsbD_ushiftRight, BitVec.getLsbD_zero] at hbit
      rwa [Nat.add_comm] at hbit

theorem shift_injective (htop : poly.getLsbD (w - 1) = true) :
    Function.Injective (shift poly) := by
  intro x y hxy
  have hzero : shift poly (x ^^^ y) = 0#w := by
    rw [shift_xor, hxy, BitVec.xor_self]
  exact BitVec.xor_eq_zero_iff.mp (eq_zero_of_shift htop hzero)

/-- One bit is a shift of the register with the bit added at its low end. -/
theorem feed_shift (hw : 0 < w) (poly r : BitVec w) (bit : Bool) :
    feed poly r bit = shift poly (r ^^^ (BitVec.ofBool bit).setWidth w) := by
  unfold feed shift
  have hlow : ((BitVec.ofBool bit).setWidth w).getLsbD 0 = bit := by
    rw [BitVec.getLsbD_setWidth, decide_eq_true hw, Bool.true_and, BitVec.getLsbD_ofBool]
    exact Bool.true_and bit
  have hout : (BitVec.ofBool bit).setWidth w >>> 1 = 0#w := by
    refine BitVec.eq_of_getLsbD_eq fun i hi => ?_
    rw [BitVec.getLsbD_ushiftRight, BitVec.getLsbD_setWidth,
      BitVec.getLsbD_of_ge (BitVec.ofBool bit) (1 + i) (Nat.le_add_right 1 i), Bool.and_false,
      BitVec.getLsbD_zero]
  rw [BitVec.getLsbD_xor, hlow, BitVec.ushiftRight_xor_distrib, hout, BitVec.xor_zero]

/-- The same bits keep two registers apart. -/
theorem feeds_injective (hw : 0 < w) (htop : poly.getLsbD (w - 1) = true) (m : List Bool) :
    Function.Injective fun r => m.foldl (feed poly) r := by
  induction m with
  | nil => exact Function.injective_id
  | cons bit m ih =>
    intro r s hrs
    have hfeed : feed poly r bit = feed poly s bit := ih hrs
    rw [feed_shift hw, feed_shift hw] at hfeed
    exact (BitVec.xor_left_inj _).mp (shift_injective htop hfeed)

/-- Up to `w` bits as a register, the first one lowest. -/
def packed (w : Nat) (b : List Bool) : BitVec w := (BitVec.ofBoolListLE b).setWidth w

theorem packed_getLsbD {b : List Bool} {i : Nat} (hi : i < w) :
    (packed w b).getLsbD i = b.getD i false := by
  rw [packed, BitVec.getLsbD_setWidth, decide_eq_true hi, Bool.true_and,
    BitVec.getLsbD_ofBoolListLE]

/-- After as many shifts as there are bits, none of them is left. -/
theorem feeds_packed (poly r : BitVec w) {b : List Bool} (hle : b.length ≤ w) :
    b.foldl (feed poly) r = (shift poly)^[b.length] (r ^^^ packed w b) := by
  have hbits : (List.range b.length).map (packed w b).getLsbD = b := by
    refine List.ext_getElem (by simp) fun i hi hi' => ?_
    rw [List.getElem_map, List.getElem_range, packed_getLsbD (Nat.lt_of_lt_of_le hi' hle),
      List.getD_eq_getElem?_getD, List.getElem?_eq_getElem hi', Option.getD_some]
  have hout : packed w b >>> b.length = 0#w := by
    refine BitVec.eq_of_getLsbD_eq fun i hi => ?_
    rw [BitVec.getLsbD_ushiftRight, packed, BitVec.getLsbD_setWidth,
      BitVec.getLsbD_of_ge _ (b.length + i) (Nat.le_add_right _ i), Bool.and_false,
      BitVec.getLsbD_zero]
  rw [feeds_shifts, hbits, hout, BitVec.xor_zero]

/-- Up to `w` bits are read back from the register that they lead to. -/
theorem window_injective (htop : poly.getLsbD (w - 1) = true) (r : BitVec w) {b b' : List Bool}
    (hlen : b.length = b'.length) (hle : b.length ≤ w)
    (h : b.foldl (feed poly) r = b'.foldl (feed poly) r) : b = b' := by
  rw [feeds_packed poly r hle, feeds_packed poly r (hlen ▸ hle), hlen] at h
  have hpacked : packed w b = packed w b' :=
    (BitVec.xor_right_inj _).mp ((shift_injective htop).iterate _ h)
  refine List.ext_getElem hlen fun i hi hi' => ?_
  have hlt : i < w := Nat.lt_of_lt_of_le hi hle
  have hbit : b.getD i false = b'.getD i false := by
    rw [← packed_getLsbD hlt, hpacked, packed_getLsbD hlt]
  rwa [List.getD_eq_getElem?_getD, List.getD_eq_getElem?_getD, List.getElem?_eq_getElem hi,
    List.getElem?_eq_getElem hi'] at hbit

/-- Messages of the same length that differ, and only inside of `n` consecutive bits. -/
structure Burst (n : Nat) (m m' : List Bool) : Prop where
  length : m.length = m'.length
  ne : m ≠ m'
  close : ∃ p, ∀ i, m[i]? ≠ m'[i]? → p ≤ i ∧ i < p + n

/-- A burst of at most `w` bits changes the register. -/
theorem feeds_burst (hw : 0 < w) (htop : poly.getLsbD (w - 1) = true) (r : BitVec w)
    {m m' : List Bool} (h : Burst w m m') : m.foldl (feed poly) r ≠ m'.foldl (feed poly) r := by
  intro heq
  obtain ⟨p, hclose⟩ := h.close
  have hsplit (c : List Bool) : c = c.take p ++ ((c.drop p).take w ++ c.drop (p + w)) := by
    rw [← List.drop_drop, List.take_append_drop, List.take_append_drop]
  have hbefore : m.take p = m'.take p := by
    refine List.ext_getElem? fun i => ?_
    rw [List.getElem?_take, List.getElem?_take]
    by_cases hi : i < p
    · rw [if_pos hi, if_pos hi]
      by_contra hne
      exact absurd (hclose i hne).1 (Nat.not_le.mpr hi)
    · rw [if_neg hi, if_neg hi]
  have hafter : m.drop (p + w) = m'.drop (p + w) := by
    refine List.ext_getElem? fun i => ?_
    rw [List.getElem?_drop, List.getElem?_drop]
    by_contra hne
    exact absurd (hclose _ hne).2 (Nat.not_lt.mpr (Nat.le_add_right _ i))
  rw [hsplit m, hsplit m', hbefore, hafter, List.foldl_append, List.foldl_append,
    List.foldl_append, List.foldl_append] at heq
  have hwindow : (m.drop p).take w = (m'.drop p).take w := by
    refine window_injective htop _ ?_ (List.length_take_le w _) (feeds_injective hw htop _ heq)
    rw [List.length_take, List.length_take, List.length_drop, List.length_drop, h.length]
  refine h.ne ?_
  rw [hsplit m, hsplit m', hbefore, hwindow, hafter]

end Burst

end Crc
end EspMisc
