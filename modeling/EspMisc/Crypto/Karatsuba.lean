/-
The products of `newcrypto/bigint.c` for numbers of 16 and of 32 bytes.

They are made of products of half the length, three instead of four: the middle one is that
of the sums of the halves, less the other two.  The code keeps it in one byte more than both
halves have, and drops what does not fit; `bigintMul32_value` says that nothing is lost.
-/
import Mathlib.Data.Int.ModEq
import EspMisc.Crypto.Bigint

namespace EspMisc
namespace Crypto

/-! ## Parts of arrays -/

/-- The first `n` bytes of `x`, written at `r + s`. -/
def Arr.place (r : Cells) (s n : Nat) (x : Cells) : Cells :=
  ⟨fun i => if s ≤ i ∧ i < s + n then x (i - s) else r i⟩

theorem limbs_from (r : Cells) (s n : Nat) : limbs (r.from s) 0 n = limbs r s n := by
  have h := @weigh_shift 256 (fun i => ((r i).toNat : ℤ)) 0 n s
  rw [Nat.zero_add] at h
  rw [limbs, limbs, ← h]
  exact weigh_congr fun i _ _ => by simp only [Arr.from, Nat.add_comm s i]

theorem limbs_place (r : Cells) (s n : Nat) (x : Cells) :
    limbs (r.place s n x) s n = limbs x 0 n := by
  rw [← limbs_from]
  refine limbs_congr fun i _ hi => ?_
  have hin : s ≤ s + i ∧ s + i < s + n := by omega
  simp only [Arr.from, Arr.place, if_pos hin, Nat.add_sub_cancel_left]

theorem limbs_place_outside (r x : Cells) {s n k l : Nat} (h : k + l ≤ s ∨ s + n ≤ k) :
    limbs (r.place s n x) k l = limbs r k l :=
  limbs_congr fun i hk hl => if_neg (by omega)

/-- `u += r[i]; r[i] = u & 0xff; u >>= 8`, for the `n` bytes from `s` on. -/
def carryOn (r : Cells) (s n : Nat) (u : UInt16) : Cells × UInt16 :=
  let sum := chain (fun i (u : UInt16) =>
    let u := u + (r i).toUInt16
    ((u &&& 255).toUInt8, u >>> 8)) s n u r.get
  (⟨sum.1⟩, sum.2)

theorem carryOn_value (r : Cells) (s n : Nat) {u : UInt16} (hu : u.toNat < 65281) :
    limbs (carryOn r s n u).1 s n + 256 ^ n * (carryOn r s n u).2.toNat =
      limbs r s n + u.toNat := by
  let f : Nat → UInt16 → UInt8 × UInt16 := fun i u =>
    let u := u + (r i).toUInt16
    ((u &&& 255).toUInt8, u >>> 8)
  have hstep : ∀ i (u : UInt16), s ≤ i → i < s + n → u.toNat < 65281 →
      ((f i u).1.toNat : ℤ) + 256 * ((f i u).2.toNat : ℤ) = (r i).toNat + u.toNat ∧
        (f i u).2.toNat < 65281 := by
    intro i u _ _ hu
    have hr := (r i).toNat_lt
    have hsum : (u + (r i).toUInt16).toNat = u.toNat + (r i).toNat := by
      rw [UInt16.toNat_add, UInt8.toNat_toUInt16]
      omega
    change (((u + (r i).toUInt16) &&& 255).toUInt8.toNat : ℤ) +
      256 * ((u + (r i).toUInt16) >>> 8).toNat = _ ∧ ((u + (r i).toUInt16) >>> 8).toNat < 65281
    rw [toNat_low, toNat_shift, hsum]
    omega
  exact (@chain_value _ _ f s n u r.get 256 (fun v => (v.toNat : ℤ))
    (fun c => (c.toNat : ℤ)) (fun _ c => c.toNat < 65281) _ hstep hu).1

theorem carryOn_outside (r : Cells) {s n i : Nat} (u : UInt16) (h : i < s ∨ s + n ≤ i) :
    (carryOn r s n u).1 i = r i :=
  chain_outside h

/-- `t[n] -= bigint_sub(t,t,x,n)`. -/
def subFrom (t x : Cells) (n : Nat) : Cells :=
  let difference := bigintSub t t x n
  difference.1.set n (difference.1 n - difference.2)

theorem toNat_sub_wrap (x y : UInt8) :
    ∃ e : ℤ, ((x - y).toNat : ℤ) = x.toNat - y.toNat + 256 * e := by
  have hx := x.toNat_lt
  have hy := y.toNat_lt
  rw [UInt8.toNat_sub]
  by_cases h : y.toNat ≤ x.toNat
  · exact ⟨0, by omega⟩
  · exact ⟨1, by omega⟩

theorem subFrom_value (t x : Cells) (n : Nat) :
    limbs (subFrom t x n) 0 (n + 1) ≡ limbs t 0 (n + 1) - limbs x 0 n [ZMOD 256 ^ (n + 1)] := by
  obtain ⟨hvalue, -⟩ := bigintSub_value t t x n
  obtain ⟨e, he⟩ := toNat_sub_wrap ((bigintSub t t x n).1 n) (bigintSub t t x n).2
  have hlow : limbs (subFrom t x n) 0 n = limbs (bigintSub t t x n).1 0 n :=
    limbs_update_outside (.inr (by omega)) _
  have htop : subFrom t x n n = (bigintSub t t x n).1 n - (bigintSub t t x n).2 :=
    Arr.set_self _ _ _
  have hkept : (bigintSub t t x n).1 n = t n := bigintSub_outside t t x (le_refl n)
  rw [limbs_succ_back, limbs_succ_back, hlow, Nat.zero_add, htop, he, hkept]
  refine Int.modEq_iff_dvd.mpr ⟨-e, ?_⟩
  rw [pow_succ]
  linear_combination -hvalue

/-! ## Three products for four -/

/-- `bigint_add(r+h,r+h,t,2*h+1)`, and the carry through the `n` bytes behind it. -/
def addMiddle (r t : Cells) (h n : Nat) : Cells :=
  let sum := bigintAdd (r.from h) (r.from h) t (2 * h + 1)
  (carryOn (r.place h (2 * h + 1) sum.1) (3 * h + 1) n sum.2.toUInt16).1

theorem addMiddle_value (r t : Cells) (h n : Nat) :
    limbs (addMiddle r t h n) 0 (3 * h + 1 + n) ≡
      limbs r 0 (3 * h + 1 + n) + 256 ^ h * limbs t 0 (2 * h + 1)
        [ZMOD 256 ^ (3 * h + 1 + n)] := by
  let sum := bigintAdd (r.from h) (r.from h) t (2 * h + 1)
  let q := r.place h (2 * h + 1) sum.1
  obtain ⟨hsum, hcarry⟩ := bigintAdd_value (r.from h) (r.from h) t (2 * h + 1)
  rw [limbs_from] at hsum
  have hbyte : sum.2.toUInt16.toNat = sum.2.toNat := UInt8.toNat_toUInt16 _
  have hon := @carryOn_value q (3 * h + 1) n sum.2.toUInt16 (by
    have : sum.2.toNat ≤ 1 := hcarry
    omega)
  have hsplit : ∀ x : Cells, limbs x 0 (3 * h + 1 + n) =
      limbs x 0 h + 256 ^ h * (limbs x h (2 * h + 1) +
        256 ^ (2 * h + 1) * limbs x (3 * h + 1) n) := by
    intro x
    have hlen : 3 * h + 1 + n = h + (2 * h + 1 + n) := by omega
    have hmid : h + (2 * h + 1) = 3 * h + 1 := by omega
    rw [hlen, limbs_split, Nat.zero_add, limbs_split, hmid]
  have hlow : limbs (addMiddle r t h n) 0 h = limbs r 0 h := by
    have hkept : limbs (addMiddle r t h n) 0 h = limbs q 0 h :=
      limbs_congr fun i _ hi => carryOn_outside q _ (.inl (by omega))
    rw [hkept]
    exact limbs_place_outside r _ (.inl (by omega))
  have hmiddle : limbs (addMiddle r t h n) h (2 * h + 1) = limbs sum.1 0 (2 * h + 1) := by
    have hkept : limbs (addMiddle r t h n) h (2 * h + 1) = limbs q h (2 * h + 1) :=
      limbs_congr fun i _ hi => carryOn_outside q _ (.inl (by omega))
    rw [hkept]
    exact limbs_place r h _ _
  have hrest : limbs q (3 * h + 1) n = limbs r (3 * h + 1) n :=
    limbs_place_outside r _ (.inr (by omega))
  have hhigh : limbs (addMiddle r t h n) (3 * h + 1) n =
      limbs (carryOn q (3 * h + 1) n sum.2.toUInt16).1 (3 * h + 1) n := rfl
  rw [hbyte, hrest] at hon
  rw [hsplit, hsplit r, hlow, hmiddle, hhigh]
  refine Int.modEq_iff_dvd.mpr ⟨(carryOn q (3 * h + 1) n sum.2.toUInt16).2.toNat, ?_⟩
  have hpow : (256 : ℤ) ^ (3 * h + 1 + n) = 256 ^ h * (256 ^ (2 * h + 1) * 256 ^ n) := by
    rw [← pow_add, ← pow_add]
    congr 1
    omega
  rw [hpow]
  linear_combination (-(256 : ℤ) ^ h) * hsum - 256 ^ h * 256 ^ (2 * h + 1) * hon

/-- The halves and the middle are the product, when the middle has the bytes that it needs. -/
theorem middle_value {r t : Cells} {h n : Nat} {a₀ a₁ b₀ b₁ : ℤ}
    (hr : limbs r 0 (3 * h + 1 + n) = a₀ * b₀ + 256 ^ h * 256 ^ h * (a₁ * b₁))
    (ht : limbs t 0 (2 * h + 1) ≡ (a₀ + a₁) * (b₀ + b₁) - a₀ * b₀ - a₁ * b₁
      [ZMOD 256 ^ (2 * h + 1)])
    (hmiddle : 0 ≤ a₀ * b₁ + a₁ * b₀ ∧ a₀ * b₁ + a₁ * b₀ < 256 ^ (2 * h + 1))
    (hproduct : 0 ≤ (a₀ + 256 ^ h * a₁) * (b₀ + 256 ^ h * b₁) ∧
      (a₀ + 256 ^ h * a₁) * (b₀ + 256 ^ h * b₁) < 256 ^ (3 * h + 1 + n)) :
    limbs (addMiddle r t h n) 0 (3 * h + 1 + n) =
      (a₀ + 256 ^ h * a₁) * (b₀ + 256 ^ h * b₁) := by
  have hequal : limbs t 0 (2 * h + 1) = a₀ * b₁ + a₁ * b₀ := by
    have hbounds := limbs_bounds t 0 (2 * h + 1)
    have hcross : (a₀ + a₁) * (b₀ + b₁) - a₀ * b₀ - a₁ * b₁ = a₀ * b₁ + a₁ * b₀ := by ring
    rw [hcross, Int.ModEq, Int.emod_eq_of_lt hbounds.1 hbounds.2,
      Int.emod_eq_of_lt hmiddle.1 hmiddle.2] at ht
    exact ht
  have hsum := addMiddle_value r t h n
  have hvalue : limbs r 0 (3 * h + 1 + n) + 256 ^ h * limbs t 0 (2 * h + 1) =
      (a₀ + 256 ^ h * a₁) * (b₀ + 256 ^ h * b₁) := by
    rw [hr, hequal]
    ring
  have hbounds := limbs_bounds (addMiddle r t h n) 0 (3 * h + 1 + n)
  rw [hvalue, Int.ModEq, Int.emod_eq_of_lt hbounds.1 hbounds.2,
    Int.emod_eq_of_lt hproduct.1 hproduct.2] at hsum
  exact hsum

/-! ## The three routines -/

/-- `t[h] = bigint_add(t,a,a+h,h)`, with the byte `top` added to the carry. -/
def halvesSum (a : Cells) (h : Nat) (top : UInt8) : Cells :=
  let sum := bigintAdd ⟨fun _ => 0⟩ a (a.from h) h
  sum.1.set h (top + sum.2)

/-- `bigint_mul(r,a,b,h)` and `bigint_mul(r+2*h,a+h,b+h,n)`. -/
def outerProducts (a b : Cells) (h n : Nat) : Cells :=
  Arr.place (bigintMul ⟨fun _ => 0⟩ a b h) (2 * h) (2 * n)
    (bigintMul ⟨fun _ => 0⟩ (a.from h) (b.from h) n)

/-- `u = t[16]; u -= bigint_sub(t,t,r,16); t[16] = u & 0xff; u >>= 15; t[17] -= u`. -/
def subCarried (t r : Cells) : Cells :=
  let difference := bigintSub t t r 16
  let u : Int := (t 16).toNat - difference.2.toNat
  let t := difference.1.set 16 (UInt8.ofInt u)
  let u := u >>> (15 : Nat)
  t.set 17 (t 17 - UInt8.ofInt u)

def bigintMul16c (a b : Cells) : Cells :=
  let r := outerProducts a b 8 9
  let t := bigintMul ⟨fun _ => 0⟩ (halvesSum a 8 (a 16)) (halvesSum b 8 (b 16)) 9
  let t := subFrom t (r.from 16) 17
  let t := subCarried t r
  addMiddle r t 8 9

def bigintMul16 (a b : Cells) : Cells :=
  let r := outerProducts a b 8 8
  let t := bigintMul ⟨fun _ => 0⟩ (halvesSum a 8 0) (halvesSum b 8 0) 9
  let t := subFrom t r 16
  let t := subFrom t (r.from 16) 16
  addMiddle r t 8 7

def bigintMul32 (a b : Cells) : Cells :=
  let r := Arr.place (bigintMul16 a b) 32 32 (bigintMul16 (a.from 16) (b.from 16))
  let t := bigintMul16c (halvesSum a 16 0) (halvesSum b 16 0)
  let t := subFrom t r 32
  let t := subFrom t (r.from 32) 32
  addMiddle r t 16 15

theorem halvesSum_value (a : Cells) (h : Nat) {top : UInt8} (htop : top.toNat < 255) :
    limbs (halvesSum a h top) 0 (h + 1) =
      limbs a 0 h + limbs a h h + 256 ^ h * top.toNat := by
  let sum := bigintAdd ⟨fun _ => 0⟩ a (a.from h) h
  obtain ⟨hvalue, hcarry⟩ := bigintAdd_value ⟨fun _ => 0⟩ a (a.from h) h
  have hlow : limbs (halvesSum a h top) 0 h = limbs sum.1 0 h :=
    limbs_update_outside (.inr (by omega)) _
  have hbyte : (halvesSum a h top h).toNat = top.toNat + sum.2.toNat := by
    have hset : halvesSum a h top h = top + sum.2 := Arr.set_self _ _ _
    have hle : sum.2.toNat ≤ 1 := hcarry
    rw [hset, UInt8.toNat_add]
    omega
  rw [limbs_from] at hvalue
  rw [limbs_succ_back, hlow, Nat.zero_add, hbyte]
  push_cast
  linear_combination hvalue

theorem halvesSum_carry (a : Cells) (h : Nat) :
    limbs (halvesSum a h 0) 0 (h + 1) = limbs a 0 h + limbs a h h := by
  rw [halvesSum_value a h (by decide)]
  exact (congrArg _ (mul_zero _)).trans (add_zero _)

theorem halvesSum_top (a : Cells) (h : Nat) : (halvesSum a h 0 h).toNat ≤ 1 := by
  have hset : halvesSum a h 0 h = 0 + (bigintAdd ⟨fun _ => 0⟩ a (a.from h) h).2 :=
    Arr.set_self _ _ _
  rw [hset, UInt8.zero_add]
  exact (bigintAdd_value ⟨fun _ => 0⟩ a (a.from h) h).2

theorem outerProducts_value (a b : Cells) (h n : Nat) :
    limbs (outerProducts a b h n) 0 (2 * h) = limbs a 0 h * limbs b 0 h ∧
      limbs (outerProducts a b h n) (2 * h) (2 * n) = limbs a h n * limbs b h n := by
  constructor
  · rw [outerProducts, limbs_place_outside _ _ (.inl (by omega))]
    exact (bigintMul_value _ a b h).1
  · rw [outerProducts, limbs_place, (bigintMul_value _ _ _ n).1, limbs_from, limbs_from]

/-! ## Their values -/

theorem limbs_low (r : Cells) (s n k : Nat) : limbs r s (n + k) ≡ limbs r s n [ZMOD 256 ^ n] := by
  rw [limbs_split]
  exact Int.modEq_iff_dvd.mpr ⟨-limbs r (s + n) k, by ring⟩

theorem limbs_bounds_half (r : Cells) (s n : Nat) {k : ℤ} (h : ((r (s + n)).toNat : ℤ) < k) :
    0 ≤ limbs r s (n + 1) ∧ limbs r s (n + 1) < k * 256 ^ n := by
  have hlow := limbs_bounds r s n
  refine ⟨(limbs_bounds r s (n + 1)).1, ?_⟩
  have hpow : (0 : ℤ) < 256 ^ n := by positivity
  have htop : ((r (s + n)).toNat + 1 : ℤ) * 256 ^ n ≤ k * 256 ^ n :=
    mul_le_mul_of_nonneg_right (by omega) (le_of_lt hpow)
  rw [limbs_succ_back]
  linarith

/-- What is left in the middle when the outer products are taken away. -/
theorem subFrom_twice (t x y : Cells) (n : Nat) :
    limbs (subFrom (subFrom t x n) y n) 0 (n + 1) ≡
      limbs t 0 (n + 1) - limbs x 0 n - limbs y 0 n [ZMOD 256 ^ (n + 1)] :=
  (subFrom_value (subFrom t x n) y n).trans ((subFrom_value t x n).sub_right _)

theorem mul_bounds {x y m n : ℤ} (hx : 0 ≤ x ∧ x < m) (hy : 0 ≤ y ∧ y < n) :
    0 ≤ x * y ∧ x * y < m * n :=
  ⟨mul_nonneg hx.1 hy.1, mul_lt_mul'' hx.2 hy.2 hx.1 hy.1⟩

/-- The two outer products and that of the sums, for numbers of two halves. -/
theorem threeProducts_value {a b r t : Cells} {h n : Nat} (hn : 3 * h + 1 + n = 2 * h + 2 * h)
    (hlow : limbs r 0 (2 * h) = limbs a 0 h * limbs b 0 h)
    (hhigh : limbs r (2 * h) (2 * h) = limbs a h h * limbs b h h)
    (ht : limbs t 0 (2 * h + 2) =
      (limbs a 0 h + limbs a h h) * (limbs b 0 h + limbs b h h)) :
    limbs (addMiddle r (subFrom (subFrom t r (2 * h)) (r.from (2 * h)) (2 * h)) h n) 0
        (2 * h + 2 * h) = limbs a 0 (2 * h) * limbs b 0 (2 * h) := by
  have hmiddle := subFrom_twice t r (r.from (2 * h)) (2 * h)
  have hwhole := (limbs_low t 0 (2 * h + 1) 1).symm
  rw [ht] at hwhole
  rw [limbs_from, hlow, hhigh] at hmiddle
  have hleft := hmiddle.trans ((hwhole.sub_right _).sub_right _)
  have hr : limbs r 0 (3 * h + 1 + n) = limbs a 0 h * limbs b 0 h +
      256 ^ h * 256 ^ h * (limbs a h h * limbs b h h) := by
    rw [← hlow, ← hhigh, hn, limbs_split, Nat.zero_add, two_mul, pow_add]
  have hcross₁ := mul_bounds (limbs_bounds a 0 h) (limbs_bounds b h h)
  have hcross₂ := mul_bounds (limbs_bounds a h h) (limbs_bounds b 0 h)
  have hmid : 0 ≤ limbs a 0 h * limbs b h h + limbs a h h * limbs b 0 h ∧
      limbs a 0 h * limbs b h h + limbs a h h * limbs b 0 h < 256 ^ (2 * h + 1) := by
    have hpow : (256 : ℤ) ^ (2 * h + 1) = 256 ^ h * 256 ^ h * 256 := by
      rw [pow_succ, two_mul, pow_add]
    rw [hpow]
    constructor
    · linarith
    · linarith
  have hproduct := mul_bounds (limbs_bounds a 0 (2 * h)) (limbs_bounds b 0 (2 * h))
  have ha : limbs a 0 (2 * h) = limbs a 0 h + 256 ^ h * limbs a h h := by
    rw [two_mul, limbs_split, Nat.zero_add]
  have hb : limbs b 0 (2 * h) = limbs b 0 h + 256 ^ h * limbs b h h := by
    rw [two_mul, limbs_split, Nat.zero_add]
  rw [ha, hb, ← pow_add, ← hn] at hproduct
  rw [ha, hb, ← hn]
  exact middle_value hr hleft hmid hproduct

theorem bigintMul16_value (a b : Cells) :
    limbs (bigintMul16 a b) 0 32 = limbs a 0 16 * limbs b 0 16 := by
  obtain ⟨hlow, hhigh⟩ := outerProducts_value a b 8 8
  have ht := (bigintMul_value ⟨fun _ => 0⟩ (halvesSum a 8 0) (halvesSum b 8 0) 9).1
  rw [halvesSum_carry, halvesSum_carry] at ht
  exact @threeProducts_value a b _ _ 8 7 rfl hlow hhigh ht

theorem ofInt_sub_toNat (x y : UInt8) :
    UInt8.ofInt ((x.toNat : ℤ) - y.toNat) = x - y := by
  apply UInt8.toNat_inj.mp
  have hx := x.toNat_lt
  have hy := y.toNat_lt
  have hof : (UInt8.ofInt ((x.toNat : ℤ) - y.toNat)).toNat =
      (((x.toNat : ℤ) - y.toNat) % 256).toNat % 256 := rfl
  rw [hof, UInt8.toNat_sub]
  omega

/-- The last byte is not part of the middle: whatever the code does with it, it is dropped. -/
theorem subCarried_value (t r : Cells) :
    limbs (subCarried t r) 0 17 = limbs (subFrom t r 16) 0 17 := by
  have hkept : (bigintSub t t r 16).1 16 = t 16 := bigintSub_outside t t r (by omega)
  refine limbs_congr fun i _ hi => ?_
  rw [subCarried, Arr.set_of_ne _ (by omega), subFrom, ofInt_sub_toNat, hkept]

theorem carried_middle (t r : Cells) :
    limbs (subCarried (subFrom t (r.from 16) 17) r) 0 17 ≡
      limbs t 0 18 - limbs r 16 18 - limbs r 0 16 [ZMOD 256 ^ 17] := by
  have hdvd : (256 : ℤ) ^ 17 ∣ 256 ^ (17 + 1) := pow_dvd_pow 256 (Nat.le_succ 17)
  have hsub := (subFrom_value t (r.from 16) 17).of_dvd hdvd
  rw [limbs_from] at hsub
  have hfirst := ((limbs_low (subFrom t (r.from 16) 17) 0 17 1).symm.trans hsub).trans
    ((limbs_low r 16 17 1).symm.sub_left _)
  rw [subCarried_value]
  exact (subFrom_value _ r 16).trans (hfirst.sub_right _)

/-- A product of numbers with 17 bytes, of which the last is at most 1. -/
theorem bigintMul16c_value {a b : Cells} (ha : (a 16).toNat ≤ 1) (hb : (b 16).toNat ≤ 1) :
    limbs (bigintMul16c a b) 0 34 = limbs a 0 17 * limbs b 0 17 := by
  obtain ⟨hlow, hhigh⟩ := outerProducts_value a b 8 9
  let r := outerProducts a b 8 9
  let t := bigintMul ⟨fun _ => 0⟩ (halvesSum a 8 (a 16)) (halvesSum b 8 (b 16)) 9
  have ha₀ := limbs_bounds a 0 8
  have ha₂ : ((a 16).toNat : ℤ) < 2 := by omega
  have ha₁ : 0 ≤ limbs a 8 9 ∧ limbs a 8 9 < 2 * 256 ^ 8 := limbs_bounds_half a 8 8 ha₂
  have hb₀ := limbs_bounds b 0 8
  have hb₂ : ((b 16).toNat : ℤ) < 2 := by omega
  have hb₁ : 0 ≤ limbs b 8 9 ∧ limbs b 8 9 < 2 * 256 ^ 8 := limbs_bounds_half b 8 8 hb₂
  have hproduct : limbs t 0 18 =
      (limbs a 0 8 + limbs a 8 9) * (limbs b 0 8 + limbs b 8 9) := by
    have hvalue := (bigintMul_value ⟨fun _ => 0⟩ (halvesSum a 8 (a 16)) (halvesSum b 8 (b 16)) 9).1
    have hback : ∀ x : Cells, limbs x 8 9 = limbs x 8 8 + 256 ^ 8 * (x 16).toNat :=
      fun x => limbs_succ_back x 8 8
    rw [halvesSum_value a 8 (by omega), halvesSum_value b 8 (by omega), add_assoc, add_assoc,
      ← hback, ← hback] at hvalue
    exact hvalue
  have hmiddle := carried_middle t r
  rw [hproduct, hlow, hhigh, sub_right_comm] at hmiddle
  have hr : limbs r 0 (3 * 8 + 1 + 9) = limbs a 0 8 * limbs b 0 8 +
      256 ^ 8 * 256 ^ 8 * (limbs a 8 9 * limbs b 8 9) := by
    rw [← hlow, ← hhigh]
    exact limbs_split r 0 16 18
  have hcross₁ := mul_bounds ha₀ hb₁
  have hcross₂ := mul_bounds ha₁ hb₀
  have hwhole := mul_bounds (limbs_bounds a 0 17) (limbs_bounds b 0 17)
  have hwa : limbs a 0 17 = limbs a 0 8 + 256 ^ 8 * limbs a 8 9 := limbs_split a 0 8 9
  have hwb : limbs b 0 17 = limbs b 0 8 + 256 ^ 8 * limbs b 8 9 := limbs_split b 0 8 9
  rw [hwa, hwb] at hwhole ⊢
  have hmid : 0 ≤ limbs a 0 8 * limbs b 8 9 + limbs a 8 9 * limbs b 0 8 ∧
      limbs a 0 8 * limbs b 8 9 + limbs a 8 9 * limbs b 0 8 < 256 ^ (2 * 8 + 1) := by
    omega
  exact middle_value hr hmiddle hmid hwhole

theorem bigintMul32_value (a b : Cells) :
    limbs (bigintMul32 a b) 0 64 = limbs a 0 32 * limbs b 0 32 := by
  let r := Arr.place (bigintMul16 a b) 32 32 (bigintMul16 (a.from 16) (b.from 16))
  have hlow : limbs r 0 32 = limbs a 0 16 * limbs b 0 16 := by
    rw [← bigintMul16_value]
    exact limbs_place_outside _ _ (.inl (by omega))
  have hhigh : limbs r 32 32 = limbs a 16 16 * limbs b 16 16 := by
    rw [← limbs_from a, ← limbs_from b, ← bigintMul16_value]
    exact limbs_place _ _ _ _
  have ht := bigintMul16c_value (halvesSum_top a 16) (halvesSum_top b 16)
  rw [halvesSum_carry, halvesSum_carry] at ht
  exact @threeProducts_value a b r _ 16 15 rfl hlow hhigh ht

end Crypto
end EspMisc
