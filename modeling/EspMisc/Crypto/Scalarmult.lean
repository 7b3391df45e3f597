/-
`newcrypto/scalarmult_curve25519.c`.

A Montgomery ladder over the bits of a clamped scalar.  The code keeps two points in `work`
and exchanges them by masks, one exchange late, and never the last time: `scalarmult_ladder`
says that it is the ladder all the same, since the last bit of a clamped scalar is 0.
-/
import Mathlib.Data.ZMod.Basic
import EspMisc.Lib.Ladder
import EspMisc.Crypto.Fe25519

namespace EspMisc
namespace Crypto

/-- The array `work`. -/
structure Work where
  x0 : Cells
  xp : Cells
  zp : Cells
  xq : Cells
  zq : Cells

def workCswap (w : Work) (b : UInt8) : Work :=
  let t : Cells := ⟨fun _ => 0⟩
  let t := bigintCmov t w.xp b 32
  let xp := bigintCmov w.xp w.xq b 32
  let xq := bigintCmov w.xq t b 32
  let t := bigintCmov t w.zp b 32
  let zp := bigintCmov w.zp w.zq b 32
  let zq := bigintCmov w.zq t b 32
  ⟨w.x0, xp, zp, xq, zq⟩

/-- `_121666`. -/
def curveConstant : Cells :=
  ⟨fun i => if i = 0 then 0x42 else if i = 1 then 0xDB else if i = 2 then 0x01 else 0⟩

def ladderstep (w : Work) : Work :=
  let t1 := fe25519Add w.xp w.zp
  let t2 := fe25519Sub w.xp w.zp
  let t7 := fe25519Square t2
  let t6 := fe25519Square t1
  let t5 := fe25519Sub t6 t7
  let t3 := fe25519Add w.xq w.zq
  let t4 := fe25519Sub w.xq w.zq
  let t2 := fe25519Mul t3 t2
  let t3 := fe25519Mul t4 t1
  let xq := fe25519Add t3 t2
  let zq := fe25519Sub t3 t2
  let xq := fe25519Square xq
  let zq := fe25519Square zq
  let zq := fe25519Mul zq w.x0
  let xp := fe25519Mul t6 t7
  let zp := fe25519Mul t5 curveConstant
  let zp := fe25519Add zp t7
  let zp := fe25519Mul zp t5
  ⟨w.x0, xp, zp, xq, zq⟩

/-- The values of `i` and `j` in the two loops. -/
def ladderPlaces : List (Nat × Nat) :=
  (List.range 32).flatMap fun n =>
    let first := if n = 0 then 6 else 7
    (List.range (first + 1)).map fun m => (31 - n, first - m)

/-- The body of the loops, with the bit before in `prevbit`. -/
def ladderBody (s : Cells) (state : Work × UInt8) (place : Nat × Nat) : Work × UInt8 :=
  let bit := 1 &&& (s place.1 >>> place.2.toUInt8)
  let swap := bit ^^^ state.2
  (ladderstep (workCswap state.1 swap), bit)

/-- `xr` and `zr` as they are left. -/
def mladder (xr s : Cells) : Cells × Cells :=
  let one : Cells := ⟨fun i => if i = 0 then 1 else 0⟩
  let zero : Cells := ⟨fun _ => 0⟩
  let work : Work := ⟨xr, one, zero, xr, one⟩
  let last := ladderPlaces.foldl (ladderBody s) (work, 0)
  (last.1.xp, last.1.zp)

def fe25519Unpack (x : Cells) : Cells := ⟨fun i => if i = 31 then x i &&& 127 else x i⟩

/-- The scalar `e`. -/
def clampScalar (s : Cells) : Cells :=
  let e := s.set 0 (s 0 &&& 248)
  let e := e.set 31 (e 31 &&& 127)
  e.set 31 (e 31 ||| 64)

/-- `crypto_scalarmult_curve25519`, with the bytes of `r`. -/
def scalarmult (s p : Cells) : Cells :=
  let e := clampScalar s
  let t := fe25519Unpack p
  let result := mladder t e
  let z := fe25519Invert result.2
  let t := fe25519Mul result.1 z
  fe25519Freeze t

/-! ## Elements of the field -/

abbrev Field25519 : Type := ZMod (2 ^ 255 - 19)

def element (c : Cells) : Field25519 := (limbs c 0 32 : ℤ)

theorem modulus_eq : ((2 ^ 255 - 19 : Nat) : ℤ) = P25519 := by
  rw [P25519]
  norm_num

theorem element_eq_iff {c : Cells} {n : ℤ} :
    element c = (n : Field25519) ↔ limbs c 0 32 ≡ n [ZMOD P25519] := by
  rw [element, ZMod.intCast_eq_intCast_iff, modulus_eq]

theorem element_add (a b : Cells) : element (fe25519Add a b) = element a + element b := by
  rw [element_eq_iff.mpr (fe25519Add_value a b), Int.cast_add, element, element]

theorem element_sub (a b : Cells) : element (fe25519Sub a b) = element a - element b := by
  rw [element_eq_iff.mpr (fe25519Sub_value a b), Int.cast_sub, element, element]

theorem element_mul (a b : Cells) : element (fe25519Mul a b) = element a * element b := by
  rw [element_eq_iff.mpr (fe25519Mul_value a b), Int.cast_mul, element, element]

theorem element_square (a : Cells) : element (fe25519Square a) = element a ^ 2 := by
  rw [fe25519Square, element_mul, pow_two]

theorem element_freeze (a : Cells) : element (fe25519Freeze a) = element a := by
  have hmod : limbs (fe25519Freeze a) 0 32 ≡ limbs a 0 32 [ZMOD P25519] := by
    rw [fe25519Freeze_value]
    exact Int.mod_modEq _ _
  exact element_eq_iff.mpr hmod

theorem element_invert (a : Cells) : element (fe25519Invert a) = element a ^ (2 ^ 255 - 21) := by
  rw [element_eq_iff.mpr (fe25519Invert_power a), Int.cast_pow, element]

theorem element_constant : element curveConstant = 121666 := by
  have hlimbs : limbs curveConstant 0 32 = 121666 := by decide
  rw [element, hlimbs]
  rfl

theorem element_cmov (r x : Cells) {b : UInt8} (hb : b.toNat ≤ 1) :
    element (bigintCmov r x b 32) = if b.toNat = 1 then element x else element r := by
  rw [element, bigintCmov_limbs r x hb]
  split
  · rfl
  · rfl

/-! ## Points -/

abbrev Point : Type := Field25519 × Field25519

def pointDouble (p : Point) : Point :=
  let s := (p.1 + p.2) ^ 2
  let d := (p.1 - p.2) ^ 2
  (s * d, ((s - d) * 121666 + d) * (s - d))

/-- The sum of two points whose difference has the coordinate `x`. -/
def pointAdd (x : Field25519) (p q : Point) : Point :=
  let a := (q.1 + q.2) * (p.1 - p.2)
  let b := (q.1 - q.2) * (p.1 + p.2)
  ((b + a) ^ 2, (b - a) ^ 2 * x)

theorem pointAdd_comm (x : Field25519) (p q : Point) : pointAdd x p q = pointAdd x q p := by
  refine Prod.ext ?_ ?_
  · simp only [pointAdd]
    ring
  · simp only [pointAdd]
    ring

def Work.points (w : Work) : Point × Point :=
  ((element w.xp, element w.zp), (element w.xq, element w.zq))

theorem ladderstep_points (w : Work) :
    (ladderstep w).points =
      (pointDouble w.points.1, pointAdd (element w.x0) w.points.1 w.points.2) := by
  simp only [Work.points, ladderstep, pointDouble, pointAdd, element_add, element_sub, element_mul,
    element_square, element_constant]

theorem workCswap_points (w : Work) {b : UInt8} (hb : b.toNat ≤ 1) :
    (workCswap w b).points = Ladder.swapIf (b.toNat == 1) w.points := by
  simp only [Work.points, workCswap, element_cmov _ _ hb]
  by_cases h : b.toNat = 1
  · simp only [h, if_true, beq_self_eq_true, Ladder.swapIf, Prod.swap]
  · have hfalse : (b.toNat == 1) = false := beq_eq_false_iff_ne.mpr h
    simp only [h, hfalse, if_false, Ladder.swapIf, Bool.false_eq_true]

/-! ## The loop -/

def bitAt (s : Cells) (place : Nat × Nat) : UInt8 := 1 &&& (s place.1 >>> place.2.toUInt8)

theorem bitAt_le (s : Cells) (place : Nat × Nat) : (bitAt s place).toNat ≤ 1 := by
  rw [bitAt, UInt8.toNat_and]
  exact Nat.and_le_left

theorem toNat_xor_bits {b c : UInt8} (hb : b.toNat ≤ 1) (hc : c.toNat ≤ 1) :
    (b ^^^ c).toNat ≤ 1 ∧ ((b ^^^ c).toNat == 1) = xor (b.toNat == 1) (c.toNat == 1) := by
  rcases byte_zero_or_one hb with rfl | rfl
  · rcases byte_zero_or_one hc with rfl | rfl
    · exact ⟨by decide, rfl⟩
    · exact ⟨by decide, rfl⟩
  · rcases byte_zero_or_one hc with rfl | rfl
    · exact ⟨by decide, rfl⟩
    · exact ⟨by decide, rfl⟩

/-- One turn exchanges late, as the lazy ladder does. -/
theorem ladderBody_points (s : Cells) (w : Work) {prevbit : UInt8} (hprev : prevbit.toNat ≤ 1)
    (place : Nat × Nat) :
    ((ladderBody s (w, prevbit) place).1.points,
        (ladderBody s (w, prevbit) place).2.toNat == 1) =
      Ladder.lazyStep pointDouble (pointAdd (element w.x0)) (w.points, prevbit.toNat == 1)
        ((bitAt s place).toNat == 1) := by
  obtain ⟨hle, hxor⟩ := toNat_xor_bits (bitAt_le s place) hprev
  have hpoints : (ladderBody s (w, prevbit) place).1.points =
      (pointDouble (workCswap w (bitAt s place ^^^ prevbit)).points.1,
        pointAdd (element w.x0) (workCswap w (bitAt s place ^^^ prevbit)).points.1
          (workCswap w (bitAt s place ^^^ prevbit)).points.2) :=
    ladderstep_points (workCswap w (bitAt s place ^^^ prevbit))
  rw [hpoints, workCswap_points w hle, hxor]
  rfl

theorem ladderBody_foldl (s : Cells) (places : List (Nat × Nat)) (w : Work) {prevbit : UInt8}
    (hprev : prevbit.toNat ≤ 1) :
    (places.foldl (ladderBody s) (w, prevbit)).1.points =
      ((places.map fun place => (bitAt s place).toNat == 1).foldl
        (Ladder.lazyStep pointDouble (pointAdd (element w.x0)))
        (w.points, prevbit.toNat == 1)).1 := by
  induction places generalizing w prevbit with
  | nil => rfl
  | cons place places ih =>
    have hstep := ladderBody_points s w hprev place
    rw [List.map_cons, List.foldl_cons, List.foldl_cons, ← hstep]
    exact ih (ladderBody s (w, prevbit) place).1 (bitAt_le s place)

/-! ## The bits of the scalar -/

theorem ladderPlaces_eq :
    ladderPlaces = (List.range 255).map fun n => ((254 - n) / 8, (254 - n) % 8) := by
  decide +kernel

/-- The bit `k` of the number in 32 bytes. -/
theorem bitAt_testBit (s : Cells) {k : Nat} (hk : k < 256) :
    ((bitAt s (k / 8, k % 8)).toNat == 1) = (limbs s 0 32).toNat.testBit k := by
  have hq : k / 8 < 32 := by omega
  have hr : k % 8 < 8 := Nat.mod_lt k (by decide)
  have hsplit : limbs s 0 32 = limbs s 0 (k / 8) + 256 ^ (k / 8) *
      ((s (k / 8)).toNat + 256 * limbs s (k / 8 + 1) (31 - k / 8)) := by
    have hlen : 32 = k / 8 + (31 - k / 8 + 1) := by omega
    conv_lhs => rw [hlen]
    rw [limbs_split, Nat.zero_add]
    rfl
  have hlow := limbs_bounds s 0 (k / 8)
  have hhigh := limbs_bounds s (k / 8 + 1) (31 - k / 8)
  obtain ⟨low, hlow'⟩ := Int.eq_ofNat_of_zero_le hlow.1
  obtain ⟨high, hhigh'⟩ := Int.eq_ofNat_of_zero_le hhigh.1
  have hnat : (limbs s 0 32).toNat =
      low + 256 ^ (k / 8) * ((s (k / 8)).toNat + 256 * high) := by
    rw [hsplit, hlow', hhigh']
    exact Int.toNat_natCast _
  have hlt : low < 256 ^ (k / 8) := by
    have h := hlow.2
    rw [hlow'] at h
    exact_mod_cast h
  have hpow : 2 ^ k = 256 ^ (k / 8) * 2 ^ (k % 8) := by
    rw [show 256 = 2 ^ 8 from rfl, ← Nat.pow_mul, ← Nat.pow_add, Nat.div_add_mod]
  have hdiv : (limbs s 0 32).toNat / 2 ^ k % 2 = (s (k / 8)).toNat / 2 ^ (k % 8) % 2 := by
    have hbyte : 256 * high = 2 ^ (k % 8) * (2 * (2 ^ (7 - k % 8) * high)) := by
      rw [← Nat.mul_assoc 2, ← Nat.pow_succ', ← Nat.mul_assoc, ← Nat.pow_add,
        show k % 8 + (7 - k % 8).succ = 8 by omega]
    rw [hnat, hpow, ← Nat.div_div_eq_div_mul, Nat.add_mul_div_left _ _ (Nat.pow_pos (by decide)),
      Nat.div_eq_of_lt hlt, Nat.zero_add, hbyte, Nat.add_mul_div_left _ _ (Nat.two_pow_pos _),
      Nat.add_mul_mod_self_left]
  have hbit : (bitAt s (k / 8, k % 8)).toNat = (s (k / 8)).toNat / 2 ^ (k % 8) % 2 := by
    have hshift : (k % 8).toUInt8.toNat % 8 = k % 8 := by
      have hnat : (k % 8).toUInt8.toNat = k % 8 := Nat.mod_eq_of_lt (by omega)
      rw [hnat, Nat.mod_mod]
    rw [bitAt, UInt8.toNat_and, UInt8.toNat_shiftRight, hshift, Nat.shiftRight_eq_div_pow,
      Nat.and_comm]
    exact Nat.and_one_is_mod _
  rw [Nat.testBit_eq_decide_div_mod_eq, hdiv, hbit]
  rfl

/-! ## The whole function -/

/-- The ladder for `k` times the point with the coordinate `x`, as an element of the field. -/
def x25519 (k : Nat) (x : Field25519) : Field25519 :=
  let bits := (List.range 255).map fun n => k.testBit (254 - n)
  let p := (bits.foldl (Ladder.step pointDouble (pointAdd x)) ((1, 0), (x, 1))).1
  p.1 * p.2 ^ (2 ^ 255 - 21)

/-- The last bit of a clamped scalar. -/
theorem clampScalar_even (s : Cells) : ((bitAt (clampScalar s) (0, 0)).toNat == 1) = false := by
  have hfirst : clampScalar s 0 = s 0 &&& 248 := by
    rw [clampScalar, Arr.set_of_ne _ (by decide), Arr.set_of_ne _ (by decide), Arr.set_self]
  have hzero : bitAt (clampScalar s) (0, 0) = 0 := by
    have hmask : (1 : UInt8) &&& 248 = 0 := rfl
    have hdef : bitAt (clampScalar s) (0, 0) =
        (1 : UInt8) &&& ((s 0 &&& 248) >>> (0 : UInt8)) := by
      rw [← hfirst]
      rfl
    rw [hdef, UInt8.shiftRight_zero, UInt8.and_comm (s 0), ← UInt8.and_assoc, hmask,
      UInt8.zero_and]
  rw [hzero]
  rfl

/-- Nothing is left to be exchanged after the last bit. -/
theorem mladder_points (x s : Cells) (hlast : ((bitAt s (0, 0)).toNat == 1) = false) :
    (element (mladder x s).1, element (mladder x s).2) =
      (((List.range 255).map fun n => (limbs s 0 32).toNat.testBit (254 - n)).foldl
        (Ladder.step pointDouble (pointAdd (element x))) ((1, 0), (element x, 1))).1 := by
  let one : Cells := ⟨fun i => if i = 0 then 1 else 0⟩
  let zero : Cells := ⟨fun _ => 0⟩
  let work : Work := ⟨x, one, zero, x, one⟩
  have hone : element one = 1 := by
    have hlimbs : limbs one 0 32 = 1 := by decide
    rw [element, hlimbs, Int.cast_one]
  have hzero : element zero = 0 := by
    have hlimbs : limbs zero 0 32 = 0 := by decide
    rw [element, hlimbs, Int.cast_zero]
  have hbits : ladderPlaces.map (fun place => (bitAt s place).toNat == 1) =
      (List.range 255).map fun n => (limbs s 0 32).toNat.testBit (254 - n) := by
    rw [ladderPlaces_eq, List.map_map]
    refine List.map_congr_left fun n hn => ?_
    exact bitAt_testBit s (by omega)
  have hend : ((List.range 255).map
      fun n => (limbs s 0 32).toNat.testBit (254 - n)).getLastD false = false := by
    rw [← hlast, bitAt_testBit s (k := 0) (by decide)]
    rfl
  have hpoints : work.points = ((1, 0), (element x, 1)) := by
    rw [Work.points, hone, hzero]
  have hrun := @ladderBody_foldl s ladderPlaces work 0 (by decide)
  rw [hbits] at hrun
  generalize (List.range 255).map (fun n => (limbs s 0 32).toNat.testBit (254 - n)) = bits
    at hrun hend ⊢
  have hlazy := @Ladder.lazy_foldl _ pointDouble _ (pointAdd_comm (element x)) bits work.points
    false
  have hfirst : (bits.foldl (Ladder.lazyStep pointDouble (pointAdd (element x)))
      (work.points, false)).1 =
        bits.foldl (Ladder.step pointDouble (pointAdd (element x))) work.points := by
    rw [hend] at hlazy
    exact congrArg Prod.fst hlazy
  have hdef : mladder x s = ((ladderPlaces.foldl (ladderBody s) (work, 0)).1.xp,
      (ladderPlaces.foldl (ladderBody s) (work, 0)).1.zp) := by
    rw [mladder]
  rw [hdef, ← hpoints, ← hfirst]
  have hprev : ((0 : UInt8).toNat == 1) = false := rfl
  have hstart : work.x0 = x := rfl
  rw [hprev, hstart] at hrun
  rw [← hrun, Work.points]

theorem scalarmult_ladder (s p : Cells) :
    element (scalarmult s p) =
        x25519 (limbs (clampScalar s) 0 32).toNat (element (fe25519Unpack p)) ∧
      limbs (scalarmult s p) 0 32 < P25519 := by
  have hpoints := mladder_points (fe25519Unpack p) (clampScalar s) (clampScalar_even s)
  constructor
  · rw [scalarmult, x25519, ← hpoints]
    simp only [element_freeze, element_mul, element_invert]
  · rw [scalarmult]
    simp only [fe25519Freeze_value]
    exact Int.emod_lt_of_pos _ (by decide)

end Crypto
end EspMisc
