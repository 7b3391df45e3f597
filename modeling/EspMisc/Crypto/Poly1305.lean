/-
`newcrypto/onetime_auth_poly1305.c`.

The authenticator takes the blocks of a message as the coefficients of a polynomial over
the integers modulo `2 ^ 130 - 5`.  The code works in arrays of 17 bytes, in which a number
may stay a little above `2 ^ 130` until the end.  `poly1305_value` says that what it writes
is the authenticator, for every key and every message.
-/
import Mathlib.Data.Int.ModEq
import EspMisc.Crypto.Bigint

namespace EspMisc
namespace Crypto

abbrev Bytes := List UInt8

/-! ## Arrays of 17 bytes -/

def polyAdd (h x : Cells) : Cells :=
  ⟨(chain (fun i (c : UInt8) =>
    let v := h i + (x i + c)
    (v, if v < h i ∨ v < x i ∨ (c ≠ 0 ∧ v = h i) then 1 else 0)) 0 17 0 h.get).1⟩

/-- `h[k] += c; c = (h[k] == 0) && c`, from the cell `s` up to the cell 16. -/
def propagate (h : Cells) (s : Nat) (c : UInt8) : Cells :=
  ⟨(chain (fun k (c : UInt8) =>
    let v := h k + c
    (v, if v = 0 ∧ c ≠ 0 then 1 else 0)) s (17 - s) c h.get).1⟩

def minusp : Cells := ⟨fun i => if i = 0 then 5 else if i = 16 then 252 else 0⟩

def polyFreeze (h : Cells) : Cells :=
  let t : UInt32 := (h 16 >>> 2).toUInt32 * 5
  let h := h.set 16 (h 16 &&& 3)
  let h := h.set 0 (h 0 + (t &&& 255).toUInt8)
  let c := if h 0 < (t &&& 255).toUInt8 then 1 else 0
  let horig := propagate h 1 c
  let h := polyAdd horig minusp
  let negative := -(h 16 >>> 7)
  ⟨fun j => if j < 17 then h j ^^^ (negative &&& (horig j ^^^ h j)) else h j⟩

/-- The loop of `mulmod` at the byte `i`. -/
def mulmodStep (hr : Cells) (i : Nat) : Cells :=
  let t : UInt32 := (hr i >>> 2).toUInt32 ^^^ ((hr (i + 1) &&& 3).toUInt32 <<< 6)
  let hr := hr.set i (hr i &&& 3)
  let hr := hr.set (i + 1) (hr (i + 1) &&& 252)
  let t := t * 5
  let thr := hr (i - 16)
  let hr := hr.set (i - 16) (hr (i - 16) + (t &&& 255).toUInt8)
  let c : UInt8 := if hr (i - 16) < (t &&& 255).toUInt8 ∨ hr (i - 16) < thr then 1 else 0
  let thr := hr (i - 15)
  let hr := hr.set (i - 15) (hr (i - 15) + ((t >>> 8).toUInt8 + c))
  let c : UInt8 := if hr (i - 15) < (t >>> 8).toUInt8 ∨ hr (i - 15) < thr then 1 else 0
  propagate hr (i - 14) c

/-- `bigint_mul` writes all of `hr`. -/
def mulmod (h r : Cells) : Cells :=
  let hr := bigintMul ⟨fun _ => 0⟩ h r 17
  let hr := (List.range' 16 16).foldl mulmodStep hr
  let t : UInt32 := (hr 32 >>> 2).toUInt32 * 5
  let hr := hr.set 16 (hr 16 + (t &&& 255).toUInt8)
  ⟨fun i => if i < 17 then hr i else h i⟩

/-! ## Messages -/

/-- The first half of a key. -/
def clamped (k : Cells) : Cells :=
  ⟨fun i =>
    if i = 3 ∨ i = 7 ∨ i = 11 ∨ i = 15 then k i &&& 15
    else if i = 4 ∨ i = 8 ∨ i = 12 then k i &&& 252
    else if i < 16 then k i
    else 0⟩

/-- The first 16 bytes of what is left, or all of it, and a 1 behind them. -/
def polyBlock (m : Bytes) : Cells :=
  ⟨fun i =>
    if i < 16 ∧ i < m.length then m.getD i 0
    else if i = min 16 m.length then 1
    else 0⟩

/-- The loop over the message, of which `m` is left. -/
def absorb (r : Cells) (m : Bytes) (h : Cells) : Cells :=
  if m = [] then h else absorb r (m.drop 16) (mulmod (polyAdd h (polyBlock m)) r)
termination_by m.length
decreasing_by
  rw [List.length_drop]
  have := List.length_pos_iff.mpr (by assumption)
  omega

/-- `crypto_onetimeauth_poly1305`, with the 16 bytes of `out`.  `inlen` is a `uint16_t`. -/
def poly1305 (m : Bytes) (k : Cells) : Bytes :=
  let h := polyFreeze (absorb (clamped k) m ⟨fun _ => 0⟩)
  let c : Cells := ⟨fun j => if j < 16 then k (j + 16) else 0⟩
  (List.range 16).map (polyAdd h c).get

/-! ## Carries -/

theorem chain_carry {f : Nat → UInt8 → UInt8 × UInt8} {d : Nat → ℤ} {s n : Nat} {c : UInt8}
    (hstep : ∀ i (c : UInt8), s ≤ i → i < s + n → c.toNat ≤ 1 →
      ((f i c).1.toNat : ℤ) + 256 * ((f i c).2.toNat : ℤ) = d i + c.toNat ∧ (f i c).2.toNat ≤ 1)
    (hc : c.toNat ≤ 1) (r : Cells) :
    ∃ carry : Nat, carry ≤ 1 ∧
      limbs ⟨(chain f s n c r.get).1⟩ s n + 256 ^ n * carry = weigh 256 d s n + c.toNat := by
  obtain ⟨hvalue, hcarry⟩ := @chain_value _ _ f s n c r.get 256 (fun v => (v.toNat : ℤ))
    (fun c => (c.toNat : ℤ)) (fun _ c => c.toNat ≤ 1) d hstep hc
  exact ⟨(chain f s n c r.get).2.toNat, hcarry, hvalue⟩

/-- The comparisons of `add` see every carry. -/
theorem add_carry (a b : UInt8) {c : UInt8} (hc : c.toNat ≤ 1) :
    (a + (b + c)).toNat + 256 * (if a + (b + c) < a ∨ a + (b + c) < b ∨
        (c ≠ 0 ∧ a + (b + c) = a) then (1 : UInt8) else 0).toNat =
      a.toNat + b.toNat + c.toNat ∧
    (if a + (b + c) < a ∨ a + (b + c) < b ∨ (c ≠ 0 ∧ a + (b + c) = a) then (1 : UInt8)
      else 0).toNat ≤ 1 := by
  have ha := a.toNat_lt
  have hb := b.toNat_lt
  have hv : (a + (b + c)).toNat = (a.toNat + b.toNat + c.toNat) % 256 := by
    rw [UInt8.toNat_add, UInt8.toNat_add]
    omega
  have hone : (1 : UInt8).toNat = 1 := rfl
  have hzero : (0 : UInt8).toNat = 0 := rfl
  simp only [UInt8.lt_iff_toNat_lt, ne_eq, ← UInt8.toNat_inj, hv, hzero]
  split
  · omega
  · omega

/-- The comparison of `mulmod` with what was added and what was there before. -/
theorem add_small_carry (a b : UInt8) :
    (a + b).toNat + 256 * (if a + b < b ∨ a + b < a then (1 : UInt8) else 0).toNat =
        a.toNat + b.toNat ∧
      (if a + b < b ∨ a + b < a then (1 : UInt8) else 0).toNat ≤ 1 := by
  have ha := a.toNat_lt
  have hb := b.toNat_lt
  have hone : (1 : UInt8).toNat = 1 := rfl
  have hzero : (0 : UInt8).toNat = 0 := rfl
  simp only [UInt8.lt_iff_toNat_lt, UInt8.toNat_add]
  split
  · omega
  · omega

theorem add_high_carry (a : UInt8) {b c : UInt8} (hb : b.toNat < 255) (hc : c.toNat ≤ 1) :
    (a + (b + c)).toNat + 256 * (if a + (b + c) < b ∨ a + (b + c) < a then (1 : UInt8)
        else 0).toNat = a.toNat + b.toNat + c.toNat ∧
      (if a + (b + c) < b ∨ a + (b + c) < a then (1 : UInt8) else 0).toNat ≤ 1 := by
  have ha := a.toNat_lt
  have hone : (1 : UInt8).toNat = 1 := rfl
  have hzero : (0 : UInt8).toNat = 0 := rfl
  have hv : (a + (b + c)).toNat = (a.toNat + b.toNat + c.toNat) % 256 := by
    rw [UInt8.toNat_add, UInt8.toNat_add]
    omega
  simp only [UInt8.lt_iff_toNat_lt, hv]
  split
  · omega
  · omega

/-- The test for zero of `propagate`. -/
theorem increment_carry (a : UInt8) {c : UInt8} (hc : c.toNat ≤ 1) :
    (a + c).toNat + 256 * (if a + c = 0 ∧ c ≠ 0 then (1 : UInt8) else 0).toNat =
        a.toNat + c.toNat ∧
      (if a + c = 0 ∧ c ≠ 0 then (1 : UInt8) else 0).toNat ≤ 1 := by
  have ha := a.toNat_lt
  have hone : (1 : UInt8).toNat = 1 := rfl
  have hzero : (0 : UInt8).toNat = 0 := rfl
  simp only [ne_eq, ← UInt8.toNat_inj, UInt8.toNat_add, hzero]
  split
  · omega
  · omega

theorem polyAdd_carry (h x : Cells) :
    ∃ carry : Nat, carry ≤ 1 ∧
      limbs (polyAdd h x) 0 17 + 256 ^ 17 * carry = limbs h 0 17 + limbs x 0 17 := by
  let f : Nat → UInt8 → UInt8 × UInt8 := fun i c =>
    let v := h i + (x i + c)
    (v, if v < h i ∨ v < x i ∨ (c ≠ 0 ∧ v = h i) then 1 else 0)
  have hstep : ∀ i (c : UInt8), 0 ≤ i → i < 0 + 17 → c.toNat ≤ 1 →
      ((f i c).1.toNat : ℤ) + 256 * ((f i c).2.toNat : ℤ) =
        ((h i).toNat + (x i).toNat : ℤ) + c.toNat ∧ (f i c).2.toNat ≤ 1 := by
    intro i c _ _ hc
    obtain ⟨hvalue, hcarry⟩ := add_carry (h i) (x i) hc
    exact ⟨by exact_mod_cast hvalue, hcarry⟩
  obtain ⟨carry, hcarry, hvalue⟩ := chain_carry hstep (c := 0) (Nat.zero_le 1) h
  rw [weigh_add] at hvalue
  exact ⟨carry, hcarry, hvalue.trans (add_zero _)⟩

theorem polyAdd_value {h x : Cells} (hlt : limbs h 0 17 + limbs x 0 17 < 256 ^ 17) :
    limbs (polyAdd h x) 0 17 = limbs h 0 17 + limbs x 0 17 := by
  obtain ⟨carry, hcarry, hvalue⟩ := polyAdd_carry h x
  have hlow := (limbs_bounds (polyAdd h x) 0 17).1
  rcases Nat.le_one_iff_eq_zero_or_eq_one.mp hcarry with rfl | rfl
  · simpa using hvalue
  · push_cast at hvalue
    omega

/-- The carry goes up to the cell 16. -/
theorem propagate_value (h : Cells) (s : Nat) {c : UInt8} (hc : c.toNat ≤ 1) :
    (∃ carry : Nat, carry ≤ 1 ∧ limbs (propagate h s c) s (17 - s) + 256 ^ (17 - s) * carry =
        limbs h s (17 - s) + c.toNat) ∧
      ∀ i, i < s ∨ s + (17 - s) ≤ i → propagate h s c i = h i := by
  let f : Nat → UInt8 → UInt8 × UInt8 := fun k c =>
    let v := h k + c
    (v, if v = 0 ∧ c ≠ 0 then 1 else 0)
  have hstep : ∀ i (c : UInt8), s ≤ i → i < s + (17 - s) → c.toNat ≤ 1 →
      ((f i c).1.toNat : ℤ) + 256 * ((f i c).2.toNat : ℤ) = ((h i).toNat : ℤ) + c.toNat ∧
        (f i c).2.toNat ≤ 1 := by
    intro i c _ _ hc
    obtain ⟨hvalue, hcarry⟩ := increment_carry (h i) hc
    exact ⟨by exact_mod_cast hvalue, hcarry⟩
  exact ⟨chain_carry hstep hc h, fun i hi => chain_outside hi⟩

/-! ## Reduction -/

theorem toNat_bytes {t : UInt32} (ht : t.toNat < 65536) :
    (t &&& 255).toUInt8.toNat = t.toNat % 256 ∧ (t >>> 8).toUInt8.toNat = t.toNat / 256 := by
  constructor
  · rw [UInt32.toNat_toUInt8, UInt32.toNat_and]
    have h : t.toNat &&& 255 = t.toNat % 256 := Nat.and_two_pow_sub_one_eq_mod t.toNat 8
    change (t.toNat &&& 255) % 256 = _
    rw [h, Nat.mod_mod]
  · rw [UInt32.toNat_toUInt8, UInt32.toNat_shiftRight]
    have h : t.toNat >>> 8 = t.toNat / 256 := Nat.shiftRight_eq_div_pow t.toNat 8
    change (t.toNat >>> 8) % 256 = _
    rw [h]
    omega

theorem toNat_quarter (x : UInt8) : (x >>> 2).toNat = x.toNat / 4 := by
  rw [UInt8.toNat_shiftRight]
  exact Nat.shiftRight_eq_div_pow x.toNat 2

theorem toNat_and_three (x : UInt8) : (x &&& 3).toNat = x.toNat % 4 := by
  rw [UInt8.toNat_and]
  exact Nat.and_two_pow_sub_one_eq_mod x.toNat 2

theorem toNat_and_rest (x : UInt8) : (x &&& 252).toNat = x.toNat - x.toNat % 4 := by
  have hall : ∀ n < 256, n &&& 252 = n - n % 4 := by decide +kernel
  rw [UInt8.toNat_and]
  exact hall _ x.toNat_lt

/-- The bits that a step takes out of the array. -/
def spilled (x y : UInt8) : Nat := x.toNat / 4 + 64 * (y.toNat % 4)

theorem spilled_lt (x y : UInt8) : spilled x y < 256 := by
  have hx := x.toNat_lt
  unfold spilled
  omega

theorem toNat_spilled (x y : UInt8) :
    ((x >>> 2).toUInt32 ^^^ ((y &&& 3).toUInt32 <<< 6)).toNat = spilled x y := by
  have hx := x.toNat_lt
  have hdisjoint : ∀ u < 64, ∀ v < 4, u ^^^ v * 64 % 4294967296 = u + 64 * v := by decide
  rw [UInt32.toNat_xor, UInt32.toNat_shiftLeft, UInt8.toNat_toUInt32, UInt8.toNat_toUInt32,
    toNat_quarter, toNat_and_three, Nat.shiftLeft_eq]
  exact hdisjoint _ (by omega) _ (Nat.mod_lt _ (by decide))

/-- The array without the bits that a step takes out. -/
def masked (hr : Cells) (i : Nat) : Cells :=
  (hr.set i (hr i &&& 3)).set (i + 1) ((hr.set i (hr i &&& 3)) (i + 1) &&& 252)

/-- The array after the sums at the first two bytes, and the carry out of them. -/
def addTwo (q : Cells) (j : Nat) (lo hi : UInt8) : Cells × UInt8 :=
  let q₁ := q.set j (q j + lo)
  let c : UInt8 := if q₁ j < lo ∨ q₁ j < q j then 1 else 0
  let q₂ := q₁.set (j + 1) (q₁ (j + 1) + (hi + c))
  (q₂, if q₂ (j + 1) < hi ∨ q₂ (j + 1) < q₁ (j + 1) then 1 else 0)

theorem addTwo_value (q : Cells) (j : Nat) (lo : UInt8) {hi : UInt8} (hhi : hi.toNat < 255) :
    (addTwo q j lo hi).2.toNat ≤ 1 ∧
      ((addTwo q j lo hi).1 j).toNat + 256 * ((addTwo q j lo hi).1 (j + 1)).toNat +
          65536 * (addTwo q j lo hi).2.toNat =
        (q j).toNat + 256 * (q (j + 1)).toNat + lo.toNat + 256 * hi.toNat ∧
      ∀ k, k ≠ j → k ≠ j + 1 → (addTwo q j lo hi).1 k = q k := by
  obtain ⟨hlow, hcarry⟩ := add_small_carry (q j) lo
  obtain ⟨hhigh, hcarry'⟩ := add_high_carry (q (j + 1)) hhi hcarry
  have hj : (addTwo q j lo hi).1 j = q j + lo := by
    simp only [addTwo]
    rw [Arr.set_of_ne _ (by omega), Arr.set_self]
  have hnext : ∀ v, q.set j v (j + 1) = q (j + 1) := fun v => q.set_of_ne (by omega) v
  have hj' : (addTwo q j lo hi).1 (j + 1) = q (j + 1) +
      (hi + if q j + lo < lo ∨ q j + lo < q j then 1 else 0) := by
    simp only [addTwo, Arr.set_self, hnext]
  have hc : (addTwo q j lo hi).2 = if q (j + 1) + (hi + if q j + lo < lo ∨ q j + lo < q j then 1
      else 0) < hi ∨ q (j + 1) + (hi + if q j + lo < lo ∨ q j + lo < q j then 1 else 0) <
        q (j + 1) then 1 else 0 := by
    simp only [addTwo, Arr.set_self, hnext]
  refine ⟨by rw [hc]; exact hcarry', ?_, fun k hk hk' => ?_⟩
  · rw [hj, hj', hc]
    omega
  · simp only [addTwo]
    rw [Arr.set_of_ne _ hk', Arr.set_of_ne _ hk]

theorem mulmodStep_value (hr : Cells) {j : Nat} (hj : j < 16) :
    (∃ carry : Nat, carry ≤ 1 ∧
        limbs (mulmodStep hr (16 + j)) j (17 - j) + 256 ^ (17 - j) * carry =
          limbs (masked hr (16 + j)) j (17 - j) + 5 * spilled (hr (16 + j)) (hr (16 + j + 1))) ∧
      ∀ k, k < j ∨ 17 ≤ k → mulmodStep hr (16 + j) k = masked hr (16 + j) k := by
  have hspilled := spilled_lt (hr (16 + j)) (hr (16 + j + 1))
  generalize ht : ((hr (16 + j) >>> 2).toUInt32 ^^^ ((hr (16 + j + 1) &&& 3).toUInt32 <<< 6)) * 5 =
    t
  have htimes : t.toNat = 5 * spilled (hr (16 + j)) (hr (16 + j + 1)) := by
    rw [← ht, UInt32.toNat_mul, toNat_spilled]
    change spilled _ _ * 5 % 4294967296 = _
    omega
  have hstep : mulmodStep hr (16 + j) = propagate
      (addTwo (masked hr (16 + j)) j (t &&& 255).toUInt8 (t >>> 8).toUInt8).1 (j + 2)
      (addTwo (masked hr (16 + j)) j (t &&& 255).toUInt8 (t >>> 8).toUInt8).2 := by
    have h16 : 16 + j - 16 = j := by omega
    have h15 : 16 + j - 15 = j + 1 := by omega
    have h14 : 16 + j - 14 = j + 2 := by omega
    simp only [mulmodStep, h16, h15, h14, ht]
    rfl
  generalize masked hr (16 + j) = q at hstep ⊢
  obtain ⟨hlo, hhi⟩ := toNat_bytes (t := t) (by omega)
  have hsmall : (t >>> 8).toUInt8.toNat < 255 := by omega
  obtain ⟨hcarry, hsum, hsame⟩ := addTwo_value q j (t &&& 255).toUInt8 hsmall
  obtain ⟨⟨carry, hle, hvalue⟩, hrest⟩ := propagate_value
    (addTwo q j (t &&& 255).toUInt8 (t >>> 8).toUInt8).1 (j + 2) hcarry
  rw [← hstep] at hvalue hrest
  refine ⟨⟨carry, hle, ?_⟩, fun k hk => ?_⟩
  · have hsplit : ∀ r : Cells, limbs r j (17 - j) =
        (r j).toNat + 256 * (r (j + 1)).toNat + 65536 * limbs r (j + 2) (17 - (j + 2)) := by
      intro r
      have hlen : 17 - j = 17 - (j + 2) + 1 + 1 := by omega
      rw [hlen, limbs, weigh, weigh, limbs]
      ring
    have hpow : (256 : ℤ) ^ (17 - j) = 65536 * 256 ^ (17 - (j + 2)) := by
      have hlen : 17 - j = 17 - (j + 2) + 2 := by omega
      rw [hlen, pow_add]
      ring
    have hbehind : limbs (addTwo q j (t &&& 255).toUInt8 (t >>> 8).toUInt8).1 (j + 2)
        (17 - (j + 2)) = limbs q (j + 2) (17 - (j + 2)) :=
      limbs_congr fun k hk _ => hsame k (by omega) (by omega)
    rw [hbehind] at hvalue
    rw [hsplit, hsplit, hpow, hrest j (.inl (by omega)), hrest (j + 1) (.inl (by omega))]
    have hbytes : ((t &&& 255).toUInt8.toNat : ℤ) + 256 * (t >>> 8).toUInt8.toNat =
        5 * spilled (hr (16 + j)) (hr (16 + j + 1)) := by
      omega
    have hsum' : (((addTwo q j (t &&& 255).toUInt8 (t >>> 8).toUInt8).1 j).toNat : ℤ) +
        256 * ((addTwo q j (t &&& 255).toUInt8 (t >>> 8).toUInt8).1 (j + 1)).toNat +
        65536 * (addTwo q j (t &&& 255).toUInt8 (t >>> 8).toUInt8).2.toNat =
        (q j).toNat + 256 * (q (j + 1)).toNat + (t &&& 255).toUInt8.toNat +
          256 * (t >>> 8).toUInt8.toNat := by
      exact_mod_cast hsum
    linear_combination 65536 * hvalue + hsum' + hbytes
  · rw [hrest k (by omega), hsame k (by omega) (by omega)]

section Mulmod

variable (q : Cells)

/-- The part of a product below `2 ^ 130`. -/
def lowPart : ℤ := limbs q 0 16 + 256 ^ 16 * ((q 16).toNat % 4 : Nat)

/-- The first `j` bytes of the part above. -/
def highPart (j : Nat) : ℤ :=
  weigh 256 (fun l => (spilled (q (16 + l)) (q (16 + l + 1)) : ℤ)) 0 j

theorem lowPart_bounds : 0 ≤ lowPart q ∧ lowPart q < 4 * 256 ^ 16 := by
  obtain ⟨hlow, hhigh⟩ := limbs_bounds q 0 16
  have hmod : (q 16).toNat % 4 < 4 := Nat.mod_lt _ (by decide)
  unfold lowPart
  omega

theorem highPart_bounds (j : Nat) : 0 ≤ highPart q j ∧ highPart q j < 256 ^ j :=
  weigh_bounds (fun l _ _ => ⟨by omega, by have := spilled_lt (q (16 + l)) (q (16 + l + 1)); omega⟩)
    (by decide)

theorem highPart_succ (j : Nat) :
    highPart q (j + 1) = highPart q j + 256 ^ j * spilled (q (16 + j)) (q (16 + j + 1)) := by
  rw [highPart, weigh_succ_back, Nat.zero_add]
  rfl

/-- Both parts make up the product. -/
theorem parts_value (j : Nat) :
    limbs q 0 (16 + j) + 256 ^ (16 + j) * ((q (16 + j)).toNat % 4 : Nat) =
      lowPart q + 4 * 256 ^ 16 * highPart q j := by
  induction j with
  | zero => rw [Nat.add_zero, show highPart q 0 = 0 from rfl, mul_zero, add_zero, lowPart]
  | succ j ih =>
    have hbyte : ((q (16 + j)).toNat : ℤ) = 4 * ((q (16 + j)).toNat / 4 : Nat) +
        ((q (16 + j)).toNat % 4 : Nat) := by omega
    rw [highPart_succ, ← Nat.add_assoc, limbs_succ_back, Nat.zero_add, hbyte, spilled]
    push_cast at ih ⊢
    linear_combination ih

/-- The loop of `mulmod` after `j` steps. -/
structure Reduced (j : Nat) (r : Cells) : Prop where
  above : ∀ k, 17 + j ≤ k → r k = q k
  bits : (r (16 + j)).toNat / 4 = (q (16 + j)).toNat / 4
  value : limbs (r.set (16 + j) (r (16 + j) &&& 3)) 0 17 = lowPart q + 5 * highPart q j

theorem reduced_zero : Reduced q 0 q := by
  refine ⟨fun k _ => rfl, rfl, ?_⟩
  have hbelow : limbs (q.set 16 (q 16 &&& 3)) 0 16 = limbs q 0 16 :=
    limbs_update_outside (.inr (by omega)) _
  rw [Nat.add_zero, limbs_succ_back, hbelow, Nat.zero_add, Arr.set_self, toNat_and_three,
    show highPart q 0 = 0 from rfl, mul_zero, add_zero, lowPart]

variable {q}

theorem Reduced.step {j : Nat} {r : Cells} (h : Reduced q j r) (hj : j < 16) :
    Reduced q (j + 1) (mulmodStep r (16 + j)) := by
  obtain ⟨⟨carry, hle, hvalue⟩, hsame⟩ := mulmodStep_value r hj
  have hbits : spilled (r (16 + j)) (r (16 + j + 1)) =
      spilled (q (16 + j)) (q (16 + j + 1)) := by
    rw [spilled, spilled, h.bits, h.above _ (by omega)]
  have hmasked : ∀ k, k ≠ 16 + j → k ≠ 16 + j + 1 → masked r (16 + j) k = r k := by
    intro k hk hk'
    rw [masked, Arr.set_of_ne _ hk', Arr.set_of_ne _ hk]
  have hlow : limbs (masked r (16 + j)) 0 17 = lowPart q + 5 * highPart q j := by
    rw [← h.value, masked, limbs_update_outside (.inr (by omega))]
  have hsplit : ∀ p : Cells, limbs p 0 17 = limbs p 0 j + 256 ^ j * limbs p j (17 - j) := by
    intro p
    have hsum := limbs_split p 0 j (17 - j)
    rwa [Nat.zero_add, show j + (17 - j) = 17 by omega] at hsum
  have hbelow : limbs (mulmodStep r (16 + j)) 0 j = limbs (masked r (16 + j)) 0 j :=
    limbs_congr fun k _ hk => hsame k (.inl (by omega))
  have hpow : (256 : ℤ) ^ 17 = 256 ^ j * 256 ^ (17 - j) := by
    rw [← pow_add, show j + (17 - j) = 17 by omega]
  have hsum : limbs (mulmodStep r (16 + j)) 0 17 + 256 ^ 17 * carry =
      lowPart q + 5 * highPart q (j + 1) := by
    rw [hsplit] at hlow
    rw [hsplit, hbelow, hpow, highPart_succ, ← hbits]
    linear_combination hlow + 256 ^ j * hvalue
  -- the sum is too small for a carry out of the cell 16
  have hcarry : carry = 0 := by
    have hbound := (highPart_bounds q (j + 1)).2
    have hpow' : (256 : ℤ) ^ (j + 1) ≤ 256 ^ 16 := pow_le_pow_right₀ (by decide) (by omega)
    have hpart := (lowPart_bounds q).2
    have hstep := (limbs_bounds (mulmodStep r (16 + j)) 0 17).1
    rcases Nat.le_one_iff_eq_zero_or_eq_one.mp hle with hzero | hone
    · exact hzero
    · rw [hone] at hsum
      push_cast at hsum
      omega
  refine ⟨fun k hk => ?_, ?_, ?_⟩
  · rw [hsame k (.inr (by omega)), hmasked k (by omega) (by omega), h.above k (by omega)]
  · have hcell : mulmodStep r (16 + j) (16 + (j + 1)) = q (16 + (j + 1)) &&& 252 := by
      rw [hsame _ (.inr (by omega)), masked, ← Nat.add_assoc, Arr.set_self,
        Arr.set_of_ne _ (by omega), h.above _ (by omega)]
    rw [hcell, toNat_and_rest]
    omega
  · rw [limbs_update_outside (.inr (by omega)), ← hsum, hcarry]
    push_cast
    ring

theorem reduced_all : Reduced q 16 ((List.range' 16 16).foldl mulmodStep q) := by
  have hall : ∀ j ≤ 16, Reduced q j ((List.range' 16 j).foldl mulmodStep q) := by
    intro j hj
    induction j with
    | zero => exact reduced_zero q
    | succ j ih =>
      rw [List.range'_1_concat, List.foldl_append]
      exact (ih (by omega)).step (by omega)
  exact hall 16 (le_refl 16)

/-- A product below `2 ^ 256` is reduced once. -/
theorem mulmod_value {h r : Cells} (hlt : limbs h 0 17 * limbs r 0 17 < 256 ^ 32) :
    ∃ high : ℤ, 0 ≤ high ∧ 4 * 256 ^ 16 * high ≤ limbs h 0 17 * limbs r 0 17 ∧
      limbs (mulmod h r) 0 17 = limbs h 0 17 * limbs r 0 17 - (4 * 256 ^ 16 - 5) * high ∧
      limbs (mulmod h r) 0 17 < 4 * 256 ^ 16 + 5 * high := by
  obtain ⟨hproduct, -⟩ := bigintMul_value ⟨fun _ => 0⟩ h r 17
  generalize hq : bigintMul ⟨fun _ => 0⟩ h r 17 = q at hproduct
  have htop : limbs q 0 (2 * 17) = limbs q 0 32 + 256 ^ 32 * (q 32).toNat +
      256 ^ 33 * (q 33).toNat := by
    rw [show 2 * 17 = 32 + 1 + 1 from rfl, limbs_succ_back, limbs_succ_back]
  have hlow := (limbs_bounds q 0 32).1
  have hzero : (q 32).toNat = 0 ∧ (q 33).toNat = 0 := by omega
  have hparts : limbs q 0 32 + 256 ^ 32 * ((q 32).toNat % 4 : Nat) =
      lowPart q + 4 * 256 ^ 16 * highPart q 16 := parts_value q 16
  have hreduced : Reduced q 16 ((List.range' 16 16).foldl mulmodStep q) := reduced_all
  generalize hloop : (List.range' 16 16).foldl mulmodStep q = p at hreduced
  have hnothing : (p 32 >>> 2).toUInt32 * 5 = 0 := by
    have hbits := hreduced.bits
    apply UInt32.toNat_inj.mp
    rw [UInt32.toNat_mul, UInt8.toNat_toUInt32, toNat_quarter, hbits, hzero.1]
    rfl
  have hmulmod : limbs (mulmod h r) 0 17 = lowPart q + 5 * highPart q 16 := by
    rw [← hreduced.value, limbs_update_outside (.inr (by omega))]
    refine limbs_congr fun k _ hk => ?_
    have hlt : k < 17 := by omega
    have hadd : (0 &&& 255 : UInt32).toUInt8 = 0 := rfl
    simp only [mulmod, hq, hloop, hnothing, if_pos hlt, hadd, UInt8.add_zero]
    by_cases hk' : k = 16
    · rw [hk', Arr.set_self]
    · rw [Arr.set_of_ne _ hk']
  have hpart := lowPart_bounds q
  rw [← hproduct, htop, hzero.1, hzero.2]
  rw [hzero.1] at hparts
  refine ⟨highPart q 16, (highPart_bounds q 16).1, ?_, ?_, ?_⟩
  · omega
  · omega
  · omega

end Mulmod

/-! ## The end -/

def P1305 : ℤ := 4 * 256 ^ 16 - 5

theorem limbs_minusp : limbs minusp 0 17 = 256 ^ 17 - P1305 := by
  simp [limbs, weigh, minusp, P1305]

/-- What is above `2 ^ 130` is folded once. -/
theorem fold_value {h : Cells} (hlt : limbs h 0 17 < 5 * 256 ^ 16) {t : UInt8}
    (ht : t.toNat = 5 * ((h 16).toNat / 4)) :
    limbs (propagate ((h.set 16 (h 16 &&& 3)).set 0 (h 0 + t)) 1
      (if h 0 + t < t then 1 else 0)) 0 17 =
      limbs h 0 17 - P1305 * ((h 16).toNat / 4 : Nat) := by
  have hsum : (h 0 + t).toNat + 256 * (if h 0 + t < t then (1 : UInt8) else 0).toNat =
      (h 0).toNat + t.toNat := by
    have hone : (1 : UInt8).toNat = 1 := rfl
    have hzero : (0 : UInt8).toNat = 0 := rfl
    have hlt := (h 0).toNat_lt
    have hlt' := t.toNat_lt
    simp only [UInt8.lt_iff_toNat_lt, UInt8.toNat_add]
    split
    · omega
    · omega
  generalize (if h 0 + t < t then (1 : UInt8) else 0) = c at hsum ⊢
  generalize hg : (h.set 16 (h 16 &&& 3)).set 0 (h 0 + t) = g
  have hbyte := (h 0).toNat_lt
  have hbyte' := t.toNat_lt
  obtain ⟨⟨carry, hle, hvalue⟩, hsame⟩ := propagate_value g 1 (c := c) (by omega)
  have hfirst : ∀ r : Cells, limbs r 0 17 = (r 0).toNat + 256 * limbs r 1 16 := fun r => rfl
  have hmask : limbs (h.set 16 (h 16 &&& 3)) 0 17 =
      limbs h 0 17 - 256 ^ 16 * (4 * ((h 16).toNat / 4 : Nat)) := by
    rw [limbs_update (Nat.zero_le _) (by omega), toNat_and_three]
    omega
  have hg₀ : g 0 = h 0 + t := by rw [← hg, Arr.set_self]
  have hg₁ : limbs g 1 16 = limbs (h.set 16 (h 16 &&& 3)) 1 16 := by
    rw [← hg, limbs_update_outside (.inl (by omega))]
  have hh₀ : (h.set 16 (h 16 &&& 3)) 0 = h 0 := Arr.set_of_ne _ (by omega) _
  rw [hfirst, hh₀] at hmask
  rw [hfirst, hsame 0 (.inl (by omega)), hg₀]
  rw [show 17 - 1 = 16 from rfl, hg₁] at hvalue
  have hpropagated := (limbs_bounds (propagate g 1 c) 1 16)
  unfold P1305
  have hh := (limbs_bounds h 0 17).1
  rcases Nat.le_one_iff_eq_zero_or_eq_one.mp hle with rfl | rfl
  · push_cast at hvalue
    omega
  · push_cast at hvalue
    omega

theorem polyFreeze_value {h : Cells} (hlt : limbs h 0 17 < 5 * 256 ^ 16) :
    limbs (polyFreeze h) 0 17 = limbs h 0 17 % P1305 := by
  have htop : limbs h 0 17 = limbs h 0 16 + 256 ^ 16 * (h 16).toNat := by
    rw [limbs_succ_back]
  have hrest := limbs_bounds h 0 16
  have hquarter : (h 16).toNat / 4 ≤ 1 := by omega
  generalize ht : (h 16 >>> 2).toUInt32 * 5 = t
  have htimes : t.toNat = 5 * ((h 16).toNat / 4) := by
    rw [← ht, UInt32.toNat_mul, UInt8.toNat_toUInt32, toNat_quarter]
    change (h 16).toNat / 4 * 5 % 4294967296 = _
    omega
  have hlow := (toNat_bytes (t := t) (by omega)).1
  have hfold := fold_value hlt (t := (t &&& 255).toUInt8) (by omega)
  generalize hg : propagate ((h.set 16 (h 16 &&& 3)).set 0 (h 0 + (t &&& 255).toUInt8)) 1
    (if h 0 + (t &&& 255).toUInt8 < (t &&& 255).toUInt8 then 1 else 0) = g at hfold
  obtain ⟨carry, hle, hvalue⟩ := polyAdd_carry g minusp
  rw [limbs_minusp] at hvalue
  generalize hv : polyAdd g minusp = v at hvalue
  have hnegative : (v 16 >>> 7).toNat = (v 16).toNat / 128 := by
    rw [UInt8.toNat_shiftRight]
    exact Nat.shiftRight_eq_div_pow _ 7
  have hbyte := (v 16).toNat_lt
  have hcell : ∀ j < 17, polyFreeze h j = if (v 16 >>> 7).toNat = 1 then g j else v j := by
    intro j hj
    rw [← select_eq (v j) (g j) (by omega)]
    have hh₀ : (h.set 16 (h 16 &&& 3)) 0 = h 0 := Arr.set_of_ne _ (by omega) _
    simp only [polyFreeze, ht, hh₀, Arr.set_self, if_pos hj, hg, hv]
  have hvtop : limbs v 0 17 = limbs v 0 16 + 256 ^ 16 * (v 16).toNat := by
    rw [limbs_succ_back]
  have hvrest := limbs_bounds v 0 16
  have hh := (limbs_bounds h 0 17).1
  have hquotient : ∀ n u : ℤ, 0 ≤ n → n < P1305 → limbs h 0 17 = n + P1305 * u →
      n = limbs h 0 17 % P1305 := by
    intro n u hn hlt hsum
    rw [hsum, Int.add_mul_emod_self_left, Int.emod_eq_of_lt hn hlt]
  by_cases hneg : (v 16 >>> 7).toNat = 1
  · have hsame : limbs (polyFreeze h) 0 17 = limbs g 0 17 :=
      limbs_congr fun j _ hj => by rw [hcell j (by omega), if_pos hneg]
    rw [hsame]
    refine hquotient _ ((h 16).toNat / 4 : Nat) (limbs_bounds g 0 17).1 ?_ ?_
    · unfold P1305 at hfold hvalue ⊢
      rcases Nat.le_one_iff_eq_zero_or_eq_one.mp hle with rfl | rfl
      · omega
      · omega
    · rw [hfold]
      ring
  · have hsame : limbs (polyFreeze h) 0 17 = limbs v 0 17 :=
      limbs_congr fun j _ hj => by rw [hcell j (by omega), if_neg hneg]
    have hone : carry = 1 := by
      unfold P1305 at hfold hvalue
      omega
    rw [hone] at hvalue
    rw [hsame]
    refine hquotient _ ((h 16).toNat / 4 + 1 : Nat) (limbs_bounds v 0 17).1 ?_ ?_
    · unfold P1305 at hfold hvalue ⊢
      omega
    · push_cast at hvalue hfold ⊢
      linear_combination -hfold - hvalue

/-! ## The authenticator -/

/-- The number of a string, the lowest byte first. -/
def littleEndian : Bytes → Nat
  | [] => 0
  | c :: l => c.toNat + 256 * littleEndian l

/-- The blocks of a message, of which only the last may be shorter than 16 bytes. -/
def chunks (m : Bytes) : List Bytes :=
  if m = [] then [] else m.take 16 :: chunks (m.drop 16)
termination_by m.length
decreasing_by
  rw [List.length_drop]
  have := List.length_pos_iff.mpr (by assumption)
  omega

/-- A block as a coefficient, and the next power of `r`. -/
def evaluate (r : Nat) (a : Nat) (b : Bytes) : Nat := (a + (littleEndian b + 256 ^ b.length)) * r

/-- Poly1305 with the key `r`, `s`. -/
def authenticator (r s : Nat) (m : Bytes) : Nat :=
  ((chunks m).foldl (evaluate r) 0 % (2 ^ 130 - 5) + s) % 2 ^ 128

theorem littleEndian_lt (l : Bytes) : littleEndian l < 256 ^ l.length := by
  induction l with
  | nil => exact one_pos
  | cons c l ih =>
    have hc := c.toNat_lt
    rw [littleEndian, List.length_cons, Nat.pow_succ]
    omega

theorem littleEndian_limbs {r : Cells} {s : Nat} {l : Bytes}
    (h : ∀ i < l.length, r (s + i) = l.getD i 0) : limbs r s l.length = littleEndian l := by
  induction l generalizing s with
  | nil => rfl
  | cons c l ih =>
    have hfirst := h 0 (by rw [List.length_cons]; omega)
    have hrest := ih (s := s + 1) fun i hi => by
      have hi' := h (i + 1) (by rw [List.length_cons]; omega)
      rwa [Nat.add_comm i, ← Nat.add_assoc, Nat.add_comm 1, List.getD_cons_succ] at hi'
    rw [Nat.add_zero, List.getD_cons_zero] at hfirst
    rw [List.length_cons, limbs, weigh, hfirst, littleEndian]
    push_cast
    rw [← hrest]
    rfl

theorem limbs_range (r : Cells) (s n : Nat) :
    limbs r s n = littleEndian ((List.range n).map fun i => r (s + i)) := by
  have hlen : ((List.range n).map fun i => r (s + i)).length = n := by
    rw [List.length_map, List.length_range]
  have hcells := littleEndian_limbs (r := r) (s := s) (l := (List.range n).map fun i => r (s + i))
    fun i hi => by
      have hlt : i < n := by omega
      rw [List.getD_eq_getElem?_getD, List.getElem?_map, List.getElem?_range hlt]
      rfl
  rwa [hlen] at hcells

theorem polyBlock_value (m : Bytes) :
    limbs (polyBlock m) 0 17 =
      (littleEndian (m.take 16) + 256 ^ (m.take 16).length : Nat) := by
  have hlen : (m.take 16).length = min 16 m.length := List.length_take
  have hbytes : limbs (polyBlock m) 0 (m.take 16).length = littleEndian (m.take 16) := by
    refine littleEndian_limbs fun i hi => ?_
    have hin : i < 16 ∧ i < m.length := by omega
    rw [Nat.zero_add, List.getD_eq_getElem?_getD, List.getElem?_take_of_lt hin.1,
      ← List.getD_eq_getElem?_getD]
    exact if_pos hin
  have hone : limbs (polyBlock m) (m.take 16).length 1 = 1 := by
    have hcell : polyBlock m (m.take 16).length = 1 := by
      rw [hlen]
      refine (if_neg (by omega)).trans (if_pos rfl)
    rw [limbs, weigh, weigh, hcell]
    rfl
  have hrest : limbs (polyBlock m) ((m.take 16).length + 1) (16 - (m.take 16).length) = 0 := by
    refine weigh_zero fun i hi _ => ?_
    have hcell : polyBlock m i = 0 := (if_neg (by omega)).trans (if_neg (by omega))
    rw [hcell]
    rfl
  have hsplit := limbs_split (polyBlock m) 0 (m.take 16).length (1 + (16 - (m.take 16).length))
  rw [limbs_split _ _ 1, Nat.zero_add, hbytes, hone, hrest,
    show (m.take 16).length + (1 + (16 - (m.take 16).length)) = 17 by omega] at hsplit
  rw [hsplit]
  push_cast
  ring

/-- Masks are taken byte by byte. -/
theorem littleEndian_and (a b : Bytes) (h : a.length = b.length) :
    littleEndian a &&& littleEndian b = littleEndian (List.zipWith (· &&& ·) a b) := by
  induction a generalizing b with
  | nil => exact Nat.zero_and _
  | cons x a ih =>
    match b with
    | [] => exact absurd h (by simp)
    | y :: b =>
      have hx := x.toNat_lt
      have hy := y.toNat_lt
      have hrest := ih b (by simpa using h)
      rw [List.zipWith_cons_cons, littleEndian, littleEndian, littleEndian, ← hrest,
        UInt8.toNat_and]
      have hmod := @Nat.and_mod_two_pow (x.toNat + 256 * littleEndian a)
        (y.toNat + 256 * littleEndian b) 8
      have hdiv := @Nat.and_div_two_pow (x.toNat + 256 * littleEndian a)
        (y.toNat + 256 * littleEndian b) 8
      have hpow : 2 ^ 8 = 256 := rfl
      rw [hpow] at hmod hdiv
      have hmod' : ∀ (c : UInt8) (n : Nat), (c.toNat + 256 * n) % 256 = c.toNat := fun c n => by
        have := c.toNat_lt
        omega
      have hdiv' : ∀ (c : UInt8) (n : Nat), (c.toNat + 256 * n) / 256 = n := fun c n => by
        have := c.toNat_lt
        omega
      rw [hmod', hmod'] at hmod
      rw [hdiv', hdiv'] at hdiv
      rw [← hmod, ← hdiv]
      exact (Nat.mod_add_div _ _).symm

def clampMask : Bytes :=
  [255, 255, 255, 15, 252, 255, 255, 15, 252, 255, 255, 15, 252, 255, 255, 15]

theorem clamped_value (k : Cells) :
    limbs (clamped k) 0 17 = (littleEndian ((List.range 16).map k.get) &&&
      0x0ffffffc0ffffffc0ffffffc0fffffff : Nat) := by
  have hmask : littleEndian clampMask = 0x0ffffffc0ffffffc0ffffffc0fffffff := by decide
  have hbytes : (List.range 16).map (clamped k).get =
      List.zipWith (· &&& ·) ((List.range 16).map k.get) clampMask := by
    have hall : ∀ x : UInt8, x &&& 255 = x := fun x => UInt8.and_neg_one
    simp [List.range, List.range.loop, clamped, clampMask, hall]
  have hlow := limbs_range (clamped k) 0 16
  simp only [Nat.zero_add] at hlow
  have htop : clamped k 16 = 0 := rfl
  rw [limbs_succ_back, Nat.zero_add, htop, hlow, hbytes, ← hmask,
    littleEndian_and ((List.range 16).map k.get) clampMask rfl]
  exact add_zero _

section Absorb

variable {r : Cells}

/-- A number that stays below the bound of `freeze`, and what it is modulo the prime. -/
structure Accumulates (h : Cells) (a : Nat) : Prop where
  bound : limbs h 0 17 < 5 * 256 ^ 16
  value : limbs h 0 17 ≡ a [ZMOD P1305]

theorem Accumulates.step {h : Cells} {a : Nat} (ha : Accumulates h a)
    (hr : limbs r 0 17 < 16 * 256 ^ 15) (m : Bytes) :
    Accumulates (mulmod (polyAdd h (polyBlock m)) r)
      (evaluate (limbs r 0 17).toNat a (m.take 16)) := by
  have hblock : limbs (polyBlock m) 0 17 < 2 * 256 ^ 16 := by
    have hlt := littleEndian_lt (m.take 16)
    have hpow : 256 ^ (m.take 16).length ≤ 256 ^ 16 :=
      Nat.pow_le_pow_right (by decide) (List.length_take_le 16 m)
    rw [polyBlock_value]
    omega
  have hh := limbs_bounds h 0 17
  have hblock' := (limbs_bounds (polyBlock m) 0 17).1
  have hr' := (limbs_bounds r 0 17).1
  have hbound := ha.bound
  have hsum : limbs (polyAdd h (polyBlock m)) 0 17 = limbs h 0 17 + limbs (polyBlock m) 0 17 :=
    polyAdd_value (by omega)
  have hproduct : limbs (polyAdd h (polyBlock m)) 0 17 * limbs r 0 17 <
      7 * 256 ^ 16 * (16 * 256 ^ 15) :=
    mul_lt_mul'' (by omega) hr (by omega) hr'
  obtain ⟨high, hpos, hle, hvalue, hlt⟩ := mulmod_value (lt_trans hproduct (by decide))
  refine ⟨by omega, ?_⟩
  have hcast : ((evaluate (limbs r 0 17).toNat a (m.take 16) : Nat) : ℤ) =
      (a + limbs (polyBlock m) 0 17) * limbs r 0 17 := by
    rw [polyBlock_value, evaluate]
    push_cast
    rw [Int.toNat_of_nonneg hr']
  have hmultiple : limbs (polyAdd h (polyBlock m)) 0 17 * limbs r 0 17 - P1305 * high ≡
      limbs (polyAdd h (polyBlock m)) 0 17 * limbs r 0 17 [ZMOD P1305] :=
    Int.sub_modulus_mul_modEq_iff.mpr rfl
  rw [hcast, hvalue]
  refine hmultiple.trans ?_
  rw [hsum]
  exact (ha.value.add_right _).mul_right _

theorem absorb_accumulates {h : Cells} {a : Nat} (ha : Accumulates h a)
    (hr : limbs r 0 17 < 16 * 256 ^ 15) (m : Bytes) :
    Accumulates (absorb r m h) ((chunks m).foldl (evaluate (limbs r 0 17).toNat) a) := by
  induction m using chunks.induct generalizing h a with
  | case1 =>
    rw [absorb, chunks, if_pos rfl, if_pos rfl, List.foldl_nil]
    exact ha
  | case2 m hm ih =>
    have hrest := ih (ha.step hr m)
    rw [absorb, chunks, if_neg hm, if_neg hm, List.foldl_cons]
    exact hrest

end Absorb

/-- What is written is the authenticator of the message. -/
theorem poly1305_value (m : Bytes) (k : Cells) :
    littleEndian (poly1305 m k) =
      authenticator (littleEndian ((List.range 16).map k.get) &&&
          0x0ffffffc0ffffffc0ffffffc0fffffff)
        (littleEndian ((List.range 16).map fun i => k (16 + i))) m := by
  have hr : limbs (clamped k) 0 17 < 16 * 256 ^ 15 := by
    have hle := @Nat.and_le_right (littleEndian ((List.range 16).map k.get))
      0x0ffffffc0ffffffc0ffffffc0fffffff
    rw [clamped_value]
    omega
  have hzero : limbs ⟨fun _ => 0⟩ 0 17 = 0 := weigh_zero fun _ _ _ => rfl
  have hstart : Accumulates ⟨fun _ => 0⟩ 0 := by
    refine ⟨?_, ?_⟩
    · rw [hzero]
      decide
    · rw [hzero]
      rfl
  have hall := absorb_accumulates hstart hr m
  rw [clamped_value, Int.toNat_natCast] at hall
  unfold poly1305 authenticator
  generalize absorb (clamped k) m ⟨fun _ => 0⟩ = h at hall ⊢
  generalize (chunks m).foldl (evaluate _) 0 = a at hall ⊢
  have hfrozen := polyFreeze_value hall.bound
  rw [hall.value] at hfrozen
  generalize hc : (⟨fun j => if j < 16 then k (j + 16) else 0⟩ : Cells) = c
  have hsecond : limbs c 0 17 = littleEndian ((List.range 16).map fun i => k (16 + i)) := by
    have hlow : limbs c 0 16 = limbs k 16 16 := by
      have hcells : limbs c 0 16 = weigh 256 (fun i => ((k (i + 16)).toNat : ℤ)) 0 16 :=
        weigh_congr fun i _ hi => by
          have hlt : i < 16 := by omega
          simp only [← hc, if_pos hlt]
      rw [hcells, @weigh_shift 256 (fun i => ((k i).toNat : ℤ)), Nat.zero_add, limbs]
    have htop : c 16 = 0 := by rw [← hc]; rfl
    rw [limbs_succ_back, hlow, Nat.zero_add, htop, limbs_range]
    exact add_zero _
  have hs := littleEndian_lt ((List.range 16).map fun i => k (16 + i))
  rw [List.length_map, List.length_range] at hs
  generalize littleEndian ((List.range 16).map fun i => k (16 + i)) = s at hs hsecond ⊢
  have hprime : P1305 = ((2 ^ 130 - 5 : Nat) : ℤ) := by decide
  have hsum : limbs (polyAdd (polyFreeze h) c) 0 17 = (a % (2 ^ 130 - 5) + s : Nat) := by
    rw [polyAdd_value, hfrozen, hsecond, hprime]
    · push_cast
      rfl
    · rw [hfrozen, hsecond, hprime]
      omega
  have hout := limbs_range (polyAdd (polyFreeze h) c) 0 16
  simp only [Nat.zero_add] at hout
  have hsplit := limbs_succ_back (polyAdd (polyFreeze h) c) 0 16
  have hbounds := limbs_bounds (polyAdd (polyFreeze h) c) 0 16
  have hwhole : limbs (polyAdd (polyFreeze h) c) 0 (16 + 1) = (a % (2 ^ 130 - 5) + s : Nat) := hsum
  change littleEndian ((List.range 16).map fun i => polyAdd (polyFreeze h) c i) = _
  generalize littleEndian ((List.range 16).map fun i => polyAdd (polyFreeze h) c i) = x at hout ⊢
  generalize a % (2 ^ 130 - 5) + s = total at hwhole ⊢
  omega

end Crypto
end EspMisc
