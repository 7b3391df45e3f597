/-
`newcrypto/fe25519.c`: the integers modulo `2 ^ 255 - 19`.

An element is any number of 32 bytes.  What does not fit comes back at the low end, times 38,
since `2 ^ 256` is 38 there; only `fe25519_freeze` brings the number below the modulus.
`fe25519_ring` says what sum, difference and product are, and `fe25519_powers` which powers
the long chains of `fe25519_invert` and `fe25519_pow2523` are.
-/
import EspMisc.Crypto.Karatsuba

namespace EspMisc
namespace Crypto

def eccParamP : Cells := ⟨fun i => if i = 0 then 0xED else if i = 31 then 0x7F else 0xFF⟩

def fe25519Add (a b : Cells) : Cells :=
  let sum := bigintAdd ⟨fun _ => 0⟩ a b 32
  let r := sum.1
  let tmp : UInt16 := (sum.2.toUInt16 <<< 1 ||| (r 31 >>> 7).toUInt16) * 19
  let low := carryOn r 0 31 tmp
  low.1.set 31 ((low.1 31 &&& 0x7f) + low.2.toUInt8)

/-- `tmp = (uint16_t) r->v[i] - tmp; r->v[i] = tmp & 0xff; tmp >>= 15`, for `n` bytes. -/
def borrowOn (r : Cells) (n : Nat) (tmp : UInt16) : Cells × UInt16 :=
  let difference := chain (fun i (tmp : UInt16) =>
    let tmp := (r i).toUInt16 - tmp
    ((tmp &&& 255).toUInt8, tmp >>> 15)) 0 n tmp r.get
  (⟨difference.1⟩, difference.2)

def fe25519Sub (a b : Cells) : Cells :=
  let difference := bigintSub ⟨fun _ => 0⟩ a b 32
  let r := borrowOn difference.1 32 (difference.2.toUInt16 * 38)
  (borrowOn r.1 3 (r.2 * 38)).1

/-- The first loop of the reduction, over `n` bytes. -/
def foldHigh (t : Cells) (n : Nat) : Cells × UInt16 :=
  let r := chain (fun i (uv : UInt16) =>
    let high := (t (i + 32)).toUInt16
    let uv := (high <<< 5) + (high <<< 2) + (high <<< 1) + (uv >>> 8) + (t i).toUInt16
    ((uv &&& 255).toUInt8, uv)) 0 n 0 (fun _ => 0)
  (⟨r.1⟩, r.2)

def fe25519Mul (a b : Cells) : Cells :=
  let t := bigintMul32 a b
  let r := foldHigh t 32
  let uv := (r.2 >>> 8) * 38
  let r := carryOn r.1 0 32 uv
  let uv := r.2 * 38
  (carryOn r.1 0 3 uv).1

def fe25519Square (x : Cells) : Cells := fe25519Mul x x

def fe25519Freeze (r : Cells) : Cells :=
  let rt := bigintSub ⟨fun _ => 0⟩ r eccParamP 32
  let r := bigintCmov r rt.1 (1 - rt.2) 32
  let rt := bigintSub ⟨fun _ => 0⟩ r eccParamP 32
  bigintCmov r rt.1 (1 - rt.2) 32

/-- A loop that squares `t1` by way of `t0`, twice in each turn.  What it leaves in the other
of the two is overwritten after it. -/
def squarePairs (turns : Nat) (t : Cells) : Cells :=
  (fun t => fe25519Square (fe25519Square t))^[turns] t

def fe25519Invert (x : Cells) : Cells :=
  let z2 := fe25519Square x
  let t1 := fe25519Square z2
  let t0 := fe25519Square t1
  let z9 := fe25519Mul t0 x
  let z11 := fe25519Mul z9 z2
  let t0 := fe25519Square z11
  let z2_5_0 := fe25519Mul t0 z9
  let t0 := fe25519Square z2_5_0
  let t1 := fe25519Square t0
  let t0 := fe25519Square t1
  let t1 := fe25519Square t0
  let t0 := fe25519Square t1
  let z2_10_0 := fe25519Mul t0 z2_5_0
  let t0 := fe25519Square z2_10_0
  let t1 := squarePairs 4 (fe25519Square t0)
  let z2_20_0 := fe25519Mul t1 z2_10_0
  let t0 := fe25519Square z2_20_0
  let t1 := squarePairs 9 (fe25519Square t0)
  let t0 := fe25519Mul t1 z2_20_0
  let t1 := fe25519Square t0
  let t0 := squarePairs 4 (fe25519Square t1)
  let z2_50_0 := fe25519Mul t0 z2_10_0
  let t0 := fe25519Square z2_50_0
  let t1 := squarePairs 24 (fe25519Square t0)
  let z2_100_0 := fe25519Mul t1 z2_50_0
  let t1 := fe25519Square z2_100_0
  let t0 := squarePairs 49 (fe25519Square t1)
  let t1 := fe25519Mul t0 z2_100_0
  let t0 := fe25519Square t1
  let t1 := squarePairs 24 (fe25519Square t0)
  let t0 := fe25519Mul t1 z2_50_0
  let t1 := fe25519Square t0
  let t0 := fe25519Square t1
  let t1 := fe25519Square t0
  let t0 := fe25519Square t1
  let t1 := fe25519Square t0
  fe25519Mul t1 z11

def fe25519Pow2523 (x : Cells) : Cells :=
  let z2 := fe25519Square x
  let t := fe25519Square z2
  let t := fe25519Square t
  let z9 := fe25519Mul t x
  let z11 := fe25519Mul z9 z2
  let t := fe25519Square z11
  let z2_5_0 := fe25519Mul t z9
  let t := fe25519Square^[4] (fe25519Square z2_5_0)
  let z2_10_0 := fe25519Mul t z2_5_0
  let t := fe25519Square^[9] (fe25519Square z2_10_0)
  let z2_20_0 := fe25519Mul t z2_10_0
  let t := fe25519Square^[19] (fe25519Square z2_20_0)
  let t := fe25519Mul t z2_20_0
  let t := fe25519Square^[9] (fe25519Square t)
  let z2_50_0 := fe25519Mul t z2_10_0
  let t := fe25519Square^[49] (fe25519Square z2_50_0)
  let z2_100_0 := fe25519Mul t z2_50_0
  let t := fe25519Square^[99] (fe25519Square z2_100_0)
  let t := fe25519Mul t z2_100_0
  let t := fe25519Square^[49] (fe25519Square t)
  let t := fe25519Mul t z2_50_0
  let t := fe25519Square t
  let t := fe25519Square t
  fe25519Mul t x

/-! ## Loops that carry -/

def P25519 : ℤ := 2 ^ 255 - 19

theorem limbs_eccParamP : limbs eccParamP 0 32 = P25519 := by decide

theorem borrowOn_value (r : Cells) (n : Nat) {u : UInt16} (hu : u.toNat ≤ 256) :
    limbs (borrowOn r n u).1 0 n - 256 ^ n * (borrowOn r n u).2.toNat =
      limbs r 0 n - u.toNat := by
  let f : Nat → UInt16 → UInt8 × UInt16 := fun i tmp =>
    let tmp := (r i).toUInt16 - tmp
    ((tmp &&& 255).toUInt8, tmp >>> 15)
  have hstep : ∀ i (c : UInt16), 0 ≤ i → i < 0 + n → c.toNat ≤ 256 →
      ((f i c).1.toNat : ℤ) + 256 * (-((f i c).2.toNat : ℤ)) =
        (r i).toNat + -(c.toNat : ℤ) ∧ (f i c).2.toNat ≤ 256 := by
    intro i c _ _ hc
    have hr := (r i).toNat_lt
    have hdiff : ((r i).toUInt16 - c).toNat = (65536 + (r i).toNat - c.toNat) % 65536 := by
      rw [UInt16.toNat_sub, UInt8.toNat_toUInt16]
      omega
    change (((((r i).toUInt16 - c) &&& 255).toUInt8.toNat : ℤ) +
      256 * (-((((r i).toUInt16 - c) >>> 15).toNat : ℤ)) = _) ∧
      (((r i).toUInt16 - c) >>> 15).toNat ≤ 256
    rw [toNat_low, toNat_top, hdiff]
    omega
  have hvalue := (@chain_value _ _ f 0 n u r.get 256 (fun v => (v.toNat : ℤ))
    (fun c => -(c.toNat : ℤ)) (fun _ c => c.toNat ≤ 256) _ hstep hu).1
  have hend : limbs (borrowOn r n u).1 0 n + 256 ^ n * -((borrowOn r n u).2.toNat : ℤ) =
      limbs r 0 n + -(u.toNat : ℤ) := hvalue
  linear_combination hend

theorem borrowOn_outside (r : Cells) {n i : Nat} (u : UInt16) (h : n ≤ i) :
    (borrowOn r n u).1 i = r i :=
  chain_outside (.inr (by omega))

theorem foldHigh_value (t : Cells) (n : Nat) :
    limbs (foldHigh t n).1 0 n + 256 ^ n * ((foldHigh t n).2.toNat / 256 : Nat) =
        limbs t 0 n + 38 * limbs t 32 n ∧
      (foldHigh t n).2.toNat < 9985 := by
  let f : Nat → UInt16 → UInt8 × UInt16 := fun i uv =>
    let high := (t (i + 32)).toUInt16
    let uv := (high <<< 5) + (high <<< 2) + (high <<< 1) + (uv >>> 8) + (t i).toUInt16
    ((uv &&& 255).toUInt8, uv)
  have hstep : ∀ i (c : UInt16), 0 ≤ i → i < 0 + n → c.toNat < 9985 →
      ((f i c).1.toNat : ℤ) + 256 * (((f i c).2.toNat / 256 : Nat) : ℤ) =
        ((t i).toNat + 38 * (t (i + 32)).toNat : ℤ) + ((c.toNat / 256 : Nat) : ℤ) ∧
        (f i c).2.toNat < 9985 := by
    intro i c _ _ hc
    have hlow := (t i).toNat_lt
    have hhigh := (t (i + 32)).toNat_lt
    have hshift : ∀ k : UInt16, k.toNat < 6 →
        ((t (i + 32)).toUInt16 <<< k).toNat = (t (i + 32)).toNat * 2 ^ k.toNat := by
      intro k hk
      have hk' : k.toNat % 16 = k.toNat := by omega
      have hpow : 2 ^ k.toNat ≤ 2 ^ 6 := Nat.pow_le_pow_right (by decide) (by omega)
      have hsmall := Nat.mul_le_mul (Nat.le_of_lt hhigh) hpow
      rw [UInt16.toNat_shiftLeft, UInt8.toNat_toUInt16, hk', Nat.shiftLeft_eq]
      omega
    have hfive : ((t (i + 32)).toUInt16 <<< 5).toNat = (t (i + 32)).toNat * 32 :=
      hshift 5 (by decide)
    have htwo : ((t (i + 32)).toUInt16 <<< 2).toNat = (t (i + 32)).toNat * 4 :=
      hshift 2 (by decide)
    have hone : ((t (i + 32)).toUInt16 <<< 1).toNat = (t (i + 32)).toNat * 2 :=
      hshift 1 (by decide)
    have huv : (f i c).2.toNat = 38 * (t (i + 32)).toNat + c.toNat / 256 + (t i).toNat := by
      change ((((t (i + 32)).toUInt16 <<< 5) + ((t (i + 32)).toUInt16 <<< 2) +
        ((t (i + 32)).toUInt16 <<< 1) + (c >>> 8) + (t i).toUInt16)).toNat = _
      rw [UInt16.toNat_add, UInt16.toNat_add, UInt16.toNat_add, UInt16.toNat_add, hfive, htwo,
        hone, toNat_shift, UInt8.toNat_toUInt16]
      omega
    have hbyte : (f i c).1.toNat = (f i c).2.toNat % 256 := toNat_low _
    rw [hbyte, huv]
    omega
  obtain ⟨hvalue, hlast⟩ := @chain_value _ _ f 0 n 0 (fun _ => 0) 256 (fun v => (v.toNat : ℤ))
    (fun c => ((c.toNat / 256 : Nat) : ℤ)) (fun _ c => c.toNat < 9985) _ hstep (by decide)
  have hzero : (((0 : UInt16).toNat / 256 : Nat) : ℤ) = 0 := rfl
  rw [weigh_add, weigh_mul, @weigh_shift 256 (fun i => ((t i).toNat : ℤ)), Nat.zero_add, hzero,
    add_zero] at hvalue
  exact ⟨hvalue, hlast⟩

/-! ## Sums, differences and products -/

/-- A carry that comes back at the low end. -/
theorem toNat_times38 {u : UInt16} (hu : u.toNat ≤ 1000) : (u * 38).toNat = 38 * u.toNat := by
  have hnat : (38 : UInt16).toNat = 38 := rfl
  rw [UInt16.toNat_mul, hnat]
  omega

/-- The bits from 255 on, times 19. -/
theorem toNat_topBits {c q : UInt8} (hc : c.toNat ≤ 1) (hq : q.toNat ≤ 1) :
    ((c.toUInt16 <<< 1 ||| q.toUInt16) * 19).toNat = 19 * (2 * c.toNat + q.toNat) := by
  rcases byte_zero_or_one hc with rfl | rfl
  · rcases byte_zero_or_one hq with rfl | rfl
    · rfl
    · rfl
  · rcases byte_zero_or_one hq with rfl | rfl
    · rfl
    · rfl

theorem fe25519Add_value (a b : Cells) :
    limbs (fe25519Add a b) 0 32 ≡ limbs a 0 32 + limbs b 0 32 [ZMOD P25519] := by
  let sum := bigintAdd ⟨fun _ => 0⟩ a b 32
  let r := sum.1
  let tmp : UInt16 := (sum.2.toUInt16 <<< 1 ||| (r 31 >>> 7).toUInt16) * 19
  let low := carryOn r 0 31 tmp
  obtain ⟨hsum, hcarry⟩ := bigintAdd_value ⟨fun _ => 0⟩ a b 32
  have htop := (r 31).toNat_lt
  have hq : (r 31 >>> 7).toNat = (r 31).toNat / 128 := by
    rw [UInt8.toNat_shiftRight]
    exact Nat.shiftRight_eq_div_pow _ 7
  have hm : (r 31 &&& 0x7f).toNat = (r 31).toNat % 128 := by
    rw [UInt8.toNat_and]
    exact Nat.and_two_pow_sub_one_eq_mod _ 7
  have htmp : tmp.toNat = 19 * (2 * sum.2.toNat + (r 31).toNat / 128) :=
    (toNat_topBits hcarry (by omega)).trans (by rw [hq])
  have hle : sum.2.toNat ≤ 1 := hcarry
  have hlow : limbs low.1 0 31 + 256 ^ 31 * low.2.toNat = limbs r 0 31 + tmp.toNat :=
    carryOn_value r 0 31 (by omega)
  have hlow' := limbs_bounds low.1 0 31
  have hr := limbs_bounds r 0 31
  have hu : low.2.toNat ≤ 1 := by omega
  have hkept : low.1 31 = r 31 := carryOn_outside r tmp (.inr (by omega))
  have hlast : (fe25519Add a b 31).toNat = (r 31).toNat % 128 + low.2.toNat := by
    have hset : fe25519Add a b 31 = (low.1 31 &&& 0x7f) + low.2.toUInt8 := Arr.set_self _ _ _
    rw [hset, hkept, UInt8.toNat_add, hm, UInt16.toNat_toUInt8]
    omega
  have hfirst : limbs (fe25519Add a b) 0 31 = limbs low.1 0 31 :=
    limbs_update_outside (.inr (by omega)) _
  have hsplit : limbs (fe25519Add a b) 0 32 =
      limbs low.1 0 31 + 256 ^ 31 * (fe25519Add a b 31).toNat := by
    rw [← hfirst]
    exact limbs_succ_back _ 0 31
  have hsplit' : limbs r 0 32 = limbs r 0 31 + 256 ^ 31 * (r 31).toNat := limbs_succ_back r 0 31
  have hsum' : limbs r 0 32 + 256 ^ 32 * sum.2.toNat = limbs a 0 32 + limbs b 0 32 := hsum
  refine Int.modEq_iff_dvd.mpr ⟨2 * sum.2.toNat + ((r 31).toNat / 128 : Nat), ?_⟩
  rw [hlast] at hsplit
  rw [hsplit, P25519]
  omega

theorem fe25519Sub_value (a b : Cells) :
    limbs (fe25519Sub a b) 0 32 ≡ limbs a 0 32 - limbs b 0 32 [ZMOD P25519] := by
  let difference := bigintSub ⟨fun _ => 0⟩ a b 32
  let r := borrowOn difference.1 32 (difference.2.toUInt16 * 38)
  let s := borrowOn r.1 3 (r.2 * 38)
  obtain ⟨hvalue, hborrow⟩ := bigintSub_value ⟨fun _ => 0⟩ a b 32
  have hle : difference.2.toNat ≤ 1 := hborrow
  have hfirst : (difference.2.toUInt16 * 38).toNat = 38 * difference.2.toNat := by
    have hnat : difference.2.toUInt16.toNat = difference.2.toNat := UInt8.toNat_toUInt16 _
    rw [toNat_times38 (by omega), hnat]
  have hr : limbs r.1 0 32 - 256 ^ 32 * r.2.toNat =
      limbs difference.1 0 32 - (difference.2.toUInt16 * 38).toNat :=
    borrowOn_value difference.1 32 (by omega)
  have hdbounds := limbs_bounds difference.1 0 32
  have hrbounds := limbs_bounds r.1 0 32
  have hagain : r.2.toNat ≤ 1 := by omega
  have hsecond : (r.2 * 38).toNat = 38 * r.2.toNat := toNat_times38 (by omega)
  have hs : limbs s.1 0 3 - 256 ^ 3 * s.2.toNat = limbs r.1 0 3 - (r.2 * 38).toNat :=
    borrowOn_value r.1 3 (by omega)
  have hsplit : limbs r.1 0 32 = limbs r.1 0 3 + 256 ^ 3 * limbs r.1 3 29 := limbs_split r.1 0 3 29
  have hhigh : limbs s.1 3 29 = limbs r.1 3 29 :=
    limbs_congr fun i hi _ => borrowOn_outside r.1 _ (by omega)
  have hsplit' : limbs (fe25519Sub a b) 0 32 = limbs s.1 0 3 + 256 ^ 3 * limbs r.1 3 29 := by
    rw [← hhigh]
    exact limbs_split s.1 0 3 29
  have hlowbounds := limbs_bounds r.1 0 3
  have hhighbounds := limbs_bounds r.1 3 29
  have hsbounds := limbs_bounds s.1 0 3
  have hvalue' : limbs difference.1 0 32 - 256 ^ 32 * difference.2.toNat =
      limbs a 0 32 - limbs b 0 32 := hvalue
  -- a second borrow leaves a number so near to the top that its low bytes give it
  have hdone : s.2.toNat = 0 := by omega
  refine Int.modEq_iff_dvd.mpr ⟨-(2 * (difference.2.toNat + r.2.toNat)), ?_⟩
  rw [hsplit', P25519]
  omega

theorem fe25519Mul_value (a b : Cells) :
    limbs (fe25519Mul a b) 0 32 ≡ limbs a 0 32 * limbs b 0 32 [ZMOD P25519] := by
  let t := bigintMul32 a b
  let r := foldHigh t 32
  let s := carryOn r.1 0 32 ((r.2 >>> 8) * 38)
  let w := carryOn s.1 0 3 (s.2 * 38)
  obtain ⟨hfold, hlast⟩ := foldHigh_value t 32
  have huv : r.2.toNat < 9985 := hlast
  have hshift : (r.2 >>> 8).toNat = r.2.toNat / 256 := toNat_shift _
  have hfirst : ((r.2 >>> 8) * 38).toNat = 38 * (r.2.toNat / 256) := by
    rw [toNat_times38 (by omega), hshift]
  have hs : limbs s.1 0 32 + 256 ^ 32 * s.2.toNat =
      limbs r.1 0 32 + ((r.2 >>> 8) * 38).toNat := carryOn_value r.1 0 32 (by omega)
  have hrbounds := limbs_bounds r.1 0 32
  have hsbounds := limbs_bounds s.1 0 32
  have hcarry : s.2.toNat ≤ 1 := by omega
  have hsecond : (s.2 * 38).toNat = 38 * s.2.toNat := toNat_times38 (by omega)
  have hw : limbs w.1 0 3 + 256 ^ 3 * w.2.toNat = limbs s.1 0 3 + (s.2 * 38).toNat :=
    carryOn_value s.1 0 3 (by omega)
  have hsplit : limbs s.1 0 32 = limbs s.1 0 3 + 256 ^ 3 * limbs s.1 3 29 := limbs_split s.1 0 3 29
  have hhigh : limbs w.1 3 29 = limbs s.1 3 29 :=
    limbs_congr fun i hi _ => carryOn_outside s.1 _ (.inr (by omega))
  have hsplit' : limbs (fe25519Mul a b) 0 32 = limbs w.1 0 3 + 256 ^ 3 * limbs s.1 3 29 := by
    rw [← hhigh]
    exact limbs_split w.1 0 3 29
  have hlowbounds := limbs_bounds s.1 0 3
  have hhighbounds := limbs_bounds s.1 3 29
  have hwbounds := limbs_bounds w.1 0 3
  -- a carry out of all 32 bytes leaves a small number, so three bytes are enough
  have hdone : w.2.toNat = 0 := by omega
  have hproduct : limbs t 0 32 + 256 ^ 32 * limbs t 32 32 = limbs a 0 32 * limbs b 0 32 := by
    rw [← bigintMul32_value]
    exact (limbs_split t 0 32 32).symm
  have hfold' : limbs r.1 0 32 + 256 ^ 32 * (r.2.toNat / 256 : Nat) =
      limbs t 0 32 + 38 * limbs t 32 32 := hfold
  refine Int.modEq_iff_dvd.mpr
    ⟨2 * (limbs t 32 32 + (r.2.toNat / 256 : Nat) + s.2.toNat), ?_⟩
  rw [hsplit', ← hproduct, P25519]
  omega

/-! ## The least residue -/

theorem bigintCmov_limbs (r x : Cells) {b : UInt8} (hb : b.toNat ≤ 1) (len : Nat) :
    limbs (bigintCmov r x b len) 0 len =
      if b.toNat = 1 then limbs x 0 len else limbs r 0 len := by
  have hcells : ∀ i, i < len → bigintCmov r x b len i = if b.toNat = 1 then x i else r i := by
    intro i hi
    have hselect := select_eq (r i) (x i) hb
    simp only [bigintCmov, if_pos hi]
    exact hselect
  by_cases h : b.toNat = 1
  · rw [if_pos h]
    exact limbs_congr fun i _ hi => by rw [hcells i (by omega), if_pos h]
  · rw [if_neg h]
    exact limbs_congr fun i _ hi => by rw [hcells i (by omega), if_neg h]

/-- A subtraction of the modulus where it fits. -/
theorem reduceOnce_value (r : Cells) :
    limbs (bigintCmov r (bigintSub ⟨fun _ => 0⟩ r eccParamP 32).1
        (1 - (bigintSub ⟨fun _ => 0⟩ r eccParamP 32).2) 32) 0 32 =
      if P25519 ≤ limbs r 0 32 then limbs r 0 32 - P25519 else limbs r 0 32 := by
  obtain ⟨hvalue, hborrow⟩ := bigintSub_value ⟨fun _ => 0⟩ r eccParamP 32
  have hbounds := limbs_bounds r 0 32
  have hdbounds := limbs_bounds (bigintSub ⟨fun _ => 0⟩ r eccParamP 32).1 0 32
  rw [limbs_eccParamP] at hvalue
  have hone : (1 - (bigintSub ⟨fun _ => 0⟩ r eccParamP 32).2).toNat =
      1 - (bigintSub ⟨fun _ => 0⟩ r eccParamP 32).2.toNat := by
    have hnat : (1 : UInt8).toNat = 1 := rfl
    rw [UInt8.toNat_sub, hnat]
    omega
  rw [bigintCmov_limbs _ _ (by omega), hone]
  have hp : P25519 = 2 ^ 255 - 19 := rfl
  by_cases hge : P25519 ≤ limbs r 0 32
  · rw [if_pos hge, if_pos (by omega)]
    omega
  · rw [if_neg hge, if_neg (by omega)]

/-- Twice is enough, since `2 ^ 256` is only 38 more than twice the modulus. -/
theorem fe25519Freeze_value (r : Cells) :
    limbs (fe25519Freeze r) 0 32 = limbs r 0 32 % P25519 := by
  have hbounds := limbs_bounds r 0 32
  have hp : P25519 =
      57896044618658097711785492504343953926634992332820282019728792003956564819949 := rfl
  rw [fe25519Freeze]
  simp only [reduceOnce_value]
  rw [hp]
  by_cases hfirst : 57896044618658097711785492504343953926634992332820282019728792003956564819949 ≤
      limbs r 0 32
  · rw [if_pos hfirst]
    split
    · omega
    · omega
  · rw [if_neg hfirst, if_neg hfirst]
    omega

/-- What is packed after a sum, a difference or a product is the residue of the integers'. -/
theorem fe25519_ring (a b : Cells) :
    limbs (fe25519Freeze (fe25519Add a b)) 0 32 = (limbs a 0 32 + limbs b 0 32) % P25519 ∧
      limbs (fe25519Freeze (fe25519Sub a b)) 0 32 = (limbs a 0 32 - limbs b 0 32) % P25519 ∧
      limbs (fe25519Freeze (fe25519Mul a b)) 0 32 = limbs a 0 32 * limbs b 0 32 % P25519 := by
  rw [fe25519Freeze_value, fe25519Freeze_value, fe25519Freeze_value]
  exact ⟨fe25519Add_value a b, fe25519Sub_value a b, fe25519Mul_value a b⟩

/-! ## Powers -/

/-- `z` is the power of `x` with the exponent `e`. -/
def Power (x z : Cells) (e : Nat) : Prop :=
  limbs z 0 32 ≡ limbs x 0 32 ^ e [ZMOD P25519]

namespace Power

variable {x z y : Cells} {e f : Nat}

theorem self (x : Cells) : Power x x 1 := by
  rw [Power, pow_one]

theorem mul (hz : Power x z e) (hy : Power x y f) : Power x (fe25519Mul z y) (e + f) := by
  rw [Power, pow_add]
  exact (fe25519Mul_value z y).trans (Int.ModEq.mul hz hy)

theorem square (hz : Power x z e) : Power x (fe25519Square z) (2 * e) := by
  rw [two_mul]
  exact hz.mul hz

theorem squares (hz : Power x z e) (n : Nat) : Power x (fe25519Square^[n] z) (2 ^ n * e) := by
  induction n with
  | zero => rw [pow_zero, one_mul]; exact hz
  | succ n ih =>
    rw [Function.iterate_succ_apply', pow_succ', mul_assoc]
    exact ih.square

theorem pairs (hz : Power x z e) (n : Nat) : Power x (squarePairs n z) (4 ^ n * e) := by
  induction n with
  | zero => rw [pow_zero, one_mul]; exact hz
  | succ n ih =>
    rw [squarePairs, Function.iterate_succ_apply', pow_succ',
      show 4 * 4 ^ n * e = 2 * (2 * (4 ^ n * e)) by ring]
    exact ih.square.square

theorem of_eq (hz : Power x z e) (h : e = f) : Power x z f := h ▸ hz

end Power

/-- The exponent is two less than the modulus. -/
theorem fe25519Invert_power (x : Cells) : Power x (fe25519Invert x) (2 ^ 255 - 21) := by
  have hone := Power.self x
  have htwo := hone.square
  have hnine := htwo.square.square.mul hone
  have heleven := hnine.mul htwo
  have hfive := (heleven.square.mul hnine).of_eq (f := 2 ^ 5 - 1) (by norm_num)
  have hten := (hfive.square.square.square.square.square.mul hfive).of_eq (f := 2 ^ 10 - 1)
    (by norm_num)
  have htwenty := ((hten.square.square.pairs 4).mul hten).of_eq (f := 2 ^ 20 - 1) (by norm_num)
  have hforty := ((htwenty.square.square.pairs 9).mul htwenty).of_eq (f := 2 ^ 40 - 1)
    (by norm_num)
  have hfifty := ((hforty.square.square.pairs 4).mul hten).of_eq (f := 2 ^ 50 - 1) (by norm_num)
  have hhundred := ((hfifty.square.square.pairs 24).mul hfifty).of_eq (f := 2 ^ 100 - 1)
    (by norm_num)
  have htwohundred := ((hhundred.square.square.pairs 49).mul hhundred).of_eq (f := 2 ^ 200 - 1)
    (by norm_num)
  have hmost := ((htwohundred.square.square.pairs 24).mul hfifty).of_eq (f := 2 ^ 250 - 1)
    (by norm_num)
  exact (hmost.square.square.square.square.square.mul heleven).of_eq (by norm_num)

theorem fe25519Pow2523_power (x : Cells) : Power x (fe25519Pow2523 x) (2 ^ 252 - 3) := by
  have hone := Power.self x
  have htwo := hone.square
  have hnine := htwo.square.square.mul hone
  have heleven := hnine.mul htwo
  have hfive := (heleven.square.mul hnine).of_eq (f := 2 ^ 5 - 1) (by norm_num)
  have hten := ((hfive.square.squares 4).mul hfive).of_eq (f := 2 ^ 10 - 1) (by norm_num)
  have htwenty := ((hten.square.squares 9).mul hten).of_eq (f := 2 ^ 20 - 1) (by norm_num)
  have hforty := ((htwenty.square.squares 19).mul htwenty).of_eq (f := 2 ^ 40 - 1) (by norm_num)
  have hfifty := ((hforty.square.squares 9).mul hten).of_eq (f := 2 ^ 50 - 1) (by norm_num)
  have hhundred := ((hfifty.square.squares 49).mul hfifty).of_eq (f := 2 ^ 100 - 1) (by norm_num)
  have htwohundred := ((hhundred.square.squares 99).mul hhundred).of_eq (f := 2 ^ 200 - 1)
    (by norm_num)
  have hmost := ((htwohundred.square.squares 49).mul hfifty).of_eq (f := 2 ^ 250 - 1)
    (by norm_num)
  exact (hmost.square.square.mul hone).of_eq (by norm_num)

theorem fe25519_powers (x : Cells) :
    limbs (fe25519Freeze (fe25519Invert x)) 0 32 = limbs x 0 32 ^ (2 ^ 255 - 21) % P25519 ∧
      limbs (fe25519Freeze (fe25519Pow2523 x)) 0 32 =
        limbs x 0 32 ^ (2 ^ 252 - 3) % P25519 := by
  rw [fe25519Freeze_value, fe25519Freeze_value]
  exact ⟨fe25519Invert_power x, fe25519Pow2523_power x⟩

end Crypto
end EspMisc
