/-
`newcrypto/bigint.c`.

An array of bytes is a function of the index, and its number has the first byte as its
lowest digit.  The routines are loops that carry, and their specifications say what the
number in the result is.
-/
import Mathlib.Data.List.Basic
import EspMisc.Lib.Limbs

namespace EspMisc
namespace Crypto

/-- An array, of which only the cells that the code declares are used. -/
structure Arr (α : Type) where
  get : Nat → α

namespace Arr

variable {α : Type}

instance : CoeFun (Arr α) fun _ => Nat → α := ⟨Arr.get⟩

def set (r : Arr α) (k : Nat) (v : α) : Arr α := ⟨Function.update r k v⟩

@[simp] theorem set_self (r : Arr α) (k : Nat) (v : α) : r.set k v k = v :=
  Function.update_self ..

theorem set_of_ne (r : Arr α) {i k : Nat} (h : i ≠ k) (v : α) : r.set k v i = r i :=
  Function.update_of_ne h ..

end Arr

/-- A pointer into an array. -/
def Arr.from {α : Type} (r : Arr α) (n : Nat) : Arr α := ⟨fun i => r (n + i)⟩

abbrev Cells := Arr UInt8

/-- The number in the `n` cells from `s` on. -/
def limbs (r : Cells) (s n : Nat) : ℤ := weigh 256 (fun i => ((r i).toNat : ℤ)) s n

def bigintAdd (r a b : Cells) (len : Nat) : Cells × UInt8 :=
  let sum := chain (fun i (tmp : UInt16) =>
    let tmp := (a i).toUInt16 + (b i).toUInt16 + tmp
    ((tmp &&& 255).toUInt8, tmp >>> 8)) 0 len 0 r.get
  (⟨sum.1⟩, sum.2.toUInt8)

def bigintSub (r a b : Cells) (len : Nat) : Cells × UInt8 :=
  let difference := chain (fun i (tmp : UInt16) =>
    let tmp := (a i).toUInt16 - (b i).toUInt16 - tmp
    ((tmp &&& 255).toUInt8, tmp >>> 15)) 0 len 0 r.get
  (⟨difference.1⟩, difference.2.toUInt8)

/-- The inner loop of `bigint_mul` for the byte `i` of `a`, and the byte behind it. -/
def mulRow (a b : Cells) (len : Nat) (r : Cells) (i : Nat) : Cells :=
  let row := chain (fun k (t : UInt16) =>
    let t := (r k).toUInt16 + (a i).toUInt16 * (b (k - i)).toUInt16 + (t >>> 8)
    ((t &&& 255).toUInt8, t)) i len 0 r.get
  Arr.set ⟨row.1⟩ (i + len) (row.2 >>> 8).toUInt8

def bigintMul (r a b : Cells) (len : Nat) : Cells :=
  (List.range len).foldl (mulRow a b len) ⟨fun i => if i < 2 * len then 0 else r i⟩

def bigintCmov (r x : Cells) (b : UInt8) (len : Nat) : Cells :=
  ⟨fun i => if i < len then r i ^^^ (-b &&& (x i ^^^ r i)) else r i⟩

/-! ## Bytes -/

theorem toNat_low (t : UInt16) : ((t &&& 255).toUInt8).toNat = t.toNat % 256 := by
  rw [UInt16.toNat_toUInt8, UInt16.toNat_and]
  have h : t.toNat &&& 255 = t.toNat % 256 := Nat.and_two_pow_sub_one_eq_mod t.toNat 8
  change (t.toNat &&& 255) % 256 = _
  rw [h, Nat.mod_mod]

theorem toNat_shift (t : UInt16) : (t >>> 8).toNat = t.toNat / 256 := by
  rw [UInt16.toNat_shiftRight]
  exact Nat.shiftRight_eq_div_pow t.toNat 8

theorem toNat_top (t : UInt16) : (t >>> 15).toNat = t.toNat / 32768 := by
  rw [UInt16.toNat_shiftRight]
  exact Nat.shiftRight_eq_div_pow t.toNat 15

theorem byte_zero_or_one {c : UInt8} (hc : c.toNat ≤ 1) : c = 0 ∨ c = 1 := by
  rcases Nat.le_one_iff_eq_zero_or_eq_one.mp hc with h | h
  · exact .inl (UInt8.toNat_inj.mp h)
  · exact .inr (UInt8.toNat_inj.mp h)

/-- A choice without a branch, by a mask that is 0 or -1. -/
theorem select_eq (a b : UInt8) {c : UInt8} (hc : c.toNat ≤ 1) :
    a ^^^ (-c &&& (b ^^^ a)) = if c.toNat = 1 then b else a := by
  rcases byte_zero_or_one hc with rfl | rfl
  · rw [if_neg (by decide), UInt8.neg_zero, UInt8.zero_and, UInt8.xor_zero]
  · rw [if_pos (by decide), UInt8.neg_one_and, UInt8.xor_comm b, ← UInt8.xor_assoc, UInt8.xor_self,
      UInt8.zero_xor]

theorem limbs_bounds (r : Cells) (s n : Nat) : 0 ≤ limbs r s n ∧ limbs r s n < 256 ^ n :=
  weigh_bounds (fun i _ _ => ⟨by omega, by have := (r i).toNat_lt; omega⟩) (by decide)

theorem limbs_inj {r q : Cells} {s n : Nat} (h : limbs r s n = limbs q s n) :
    ∀ i, s ≤ i → i < s + n → r i = q i := by
  intro i hs hi
  have hbyte : ∀ q : Cells, ∀ i, s ≤ i → i < s + n →
      (0 : ℤ) ≤ (q i).toNat ∧ ((q i).toNat : ℤ) < 256 :=
    fun q i _ _ => ⟨by omega, by have := (q i).toNat_lt; omega⟩
  have hdigit := weigh_inj (hbyte r) (hbyte q) h i hs hi
  exact UInt8.toNat_inj.mp (by omega)

theorem limbs_congr {r q : Cells} {s n : Nat} (h : ∀ i, s ≤ i → i < s + n → r i = q i) :
    limbs r s n = limbs q s n :=
  weigh_congr fun i hs hi => by rw [h i hs hi]

theorem limbs_update {r : Cells} {s n k : Nat} (hs : s ≤ k) (hk : k < s + n) (v : UInt8) :
    limbs (r.set k v) s n =
      limbs r s n + 256 ^ (k - s) * ((v.toNat : ℤ) - (r k).toNat) := by
  rw [limbs, limbs, ← weigh_update hs hk]
  refine weigh_congr fun i _ _ => ?_
  by_cases hi : i = k
  · rw [hi, Function.update_self, Arr.set_self]
  · rw [Function.update_of_ne hi, Arr.set_of_ne r hi]

theorem limbs_update_outside {r : Cells} {s n k : Nat} (h : k < s ∨ s + n ≤ k) (v : UInt8) :
    limbs (r.set k v) s n = limbs r s n :=
  limbs_congr fun i hs hi => r.set_of_ne (by omega) v

/-! ## Sums and differences -/

theorem bigintAdd_value (r a b : Cells) (len : Nat) :
    limbs (bigintAdd r a b len).1 0 len + 256 ^ len * (bigintAdd r a b len).2.toNat =
        limbs a 0 len + limbs b 0 len ∧
      (bigintAdd r a b len).2.toNat ≤ 1 := by
  let f : Nat → UInt16 → UInt8 × UInt16 := fun i tmp =>
    let tmp := (a i).toUInt16 + (b i).toUInt16 + tmp
    ((tmp &&& 255).toUInt8, tmp >>> 8)
  have hstep : ∀ i (c : UInt16), 0 ≤ i → i < 0 + len → c.toNat ≤ 1 →
      ((f i c).1.toNat : ℤ) + 256 * ((f i c).2.toNat : ℤ) =
        ((a i).toNat + (b i).toNat : ℤ) + c.toNat ∧ (f i c).2.toNat ≤ 1 := by
    intro i c _ _ hc
    have ha := (a i).toNat_lt
    have hb := (b i).toNat_lt
    have hsum : ((a i).toUInt16 + (b i).toUInt16 + c).toNat =
        (a i).toNat + (b i).toNat + c.toNat := by
      rw [UInt16.toNat_add, UInt16.toNat_add, UInt8.toNat_toUInt16, UInt8.toNat_toUInt16]
      omega
    change (((((a i).toUInt16 + (b i).toUInt16 + c) &&& 255).toUInt8.toNat : ℤ) +
      256 * (((a i).toUInt16 + (b i).toUInt16 + c) >>> 8).toNat = _) ∧
      (((a i).toUInt16 + (b i).toUInt16 + c) >>> 8).toNat ≤ 1
    rw [toNat_low, toNat_shift, hsum]
    omega
  obtain ⟨hvalue, hcarry⟩ := @chain_value _ _ f 0 len 0 r.get 256 (fun v => (v.toNat : ℤ))
    (fun c => (c.toNat : ℤ)) (fun _ c => c.toNat ≤ 1) _ hstep (Nat.zero_le 1)
  rw [weigh_add] at hvalue
  have hlow : (bigintAdd r a b len).2.toNat = (chain f 0 len 0 r.get).2.toNat := by
    change (chain f 0 len 0 r.get).2.toUInt8.toNat = _
    rw [UInt16.toNat_toUInt8]
    omega
  rw [hlow]
  exact ⟨hvalue.trans (add_zero _), hcarry⟩

theorem bigintSub_value (r a b : Cells) (len : Nat) :
    limbs (bigintSub r a b len).1 0 len - 256 ^ len * (bigintSub r a b len).2.toNat =
        limbs a 0 len - limbs b 0 len ∧
      (bigintSub r a b len).2.toNat ≤ 1 := by
  let f : Nat → UInt16 → UInt8 × UInt16 := fun i tmp =>
    let tmp := (a i).toUInt16 - (b i).toUInt16 - tmp
    ((tmp &&& 255).toUInt8, tmp >>> 15)
  have hstep : ∀ i (c : UInt16), 0 ≤ i → i < 0 + len → c.toNat ≤ 1 →
      ((f i c).1.toNat : ℤ) + 256 * (-((f i c).2.toNat : ℤ)) =
        ((a i).toNat - (b i).toNat : ℤ) + -(c.toNat : ℤ) ∧ (f i c).2.toNat ≤ 1 := by
    intro i c _ _ hc
    have ha := (a i).toNat_lt
    have hb := (b i).toNat_lt
    have hdiff : ((a i).toUInt16 - (b i).toUInt16 - c).toNat =
        (65536 + (a i).toNat - (b i).toNat - c.toNat) % 65536 := by
      rw [UInt16.toNat_sub, UInt16.toNat_sub, UInt8.toNat_toUInt16, UInt8.toNat_toUInt16]
      omega
    change (((((a i).toUInt16 - (b i).toUInt16 - c) &&& 255).toUInt8.toNat : ℤ) +
      256 * (-((((a i).toUInt16 - (b i).toUInt16 - c) >>> 15).toNat : ℤ)) = _) ∧
      (((a i).toUInt16 - (b i).toUInt16 - c) >>> 15).toNat ≤ 1
    rw [toNat_low, toNat_top, hdiff]
    omega
  obtain ⟨hvalue, hborrow⟩ := @chain_value _ _ f 0 len 0 r.get 256 (fun v => (v.toNat : ℤ))
    (fun c => -(c.toNat : ℤ)) (fun _ c => c.toNat ≤ 1) _ hstep (Nat.zero_le 1)
  rw [weigh_sub] at hvalue
  have hlow : (bigintSub r a b len).2.toNat = (chain f 0 len 0 r.get).2.toNat := by
    change (chain f 0 len 0 r.get).2.toUInt8.toNat = _
    rw [UInt16.toNat_toUInt8]
    omega
  rw [hlow]
  refine ⟨?_, hborrow⟩
  have hend : limbs (bigintSub r a b len).1 0 len - 256 ^ len * (chain f 0 len 0 r.get).2.toNat =
      limbs (bigintSub r a b len).1 0 len + 256 ^ len * -((chain f 0 len 0 r.get).2.toNat : ℤ) := by
    ring
  rw [hend]
  exact hvalue.trans (add_zero _)

theorem bigintAdd_outside (r a b : Cells) {len i : Nat} (h : len ≤ i) :
    (bigintAdd r a b len).1 i = r i :=
  chain_outside (.inr (by omega))

theorem bigintSub_outside (r a b : Cells) {len i : Nat} (h : len ≤ i) :
    (bigintSub r a b len).1 i = r i :=
  chain_outside (.inr (by omega))

/-! ## Products -/

theorem limbs_split (r : Cells) (s m n : Nat) :
    limbs r s (m + n) = limbs r s m + 256 ^ m * limbs r (s + m) n :=
  weigh_split m

theorem limbs_succ_back (r : Cells) (s n : Nat) :
    limbs r s (n + 1) = limbs r s n + 256 ^ n * (r (s + n)).toNat :=
  weigh_succ_back

/-- A row adds a multiple of `b`. -/
theorem mulRow_value (a b : Cells) {len i : Nat} {r : Cells} (hr : r (i + len) = 0) :
    limbs (mulRow a b len r i) i (len + 1) =
        limbs r i (len + 1) + (a i).toNat * limbs b 0 len ∧
      ∀ k, k < i ∨ i + len < k → mulRow a b len r i k = r k := by
  let f : Nat → UInt16 → UInt8 × UInt16 := fun k t =>
    let t := (r k).toUInt16 + (a i).toUInt16 * (b (k - i)).toUInt16 + (t >>> 8)
    ((t &&& 255).toUInt8, t)
  have hstep : ∀ k (c : UInt16), i ≤ k → k < i + len → True →
      ((f k c).1.toNat : ℤ) + 256 * (((f k c).2.toNat / 256 : Nat) : ℤ) =
        ((r k).toNat + (a i).toNat * (b (k - i)).toNat : ℤ) + ((c.toNat / 256 : Nat) : ℤ) ∧
      True := by
    intro k c _ _ _
    have hrk := (r k).toNat_lt
    have hc := c.toNat_lt
    have hproduct : (a i).toNat * (b (k - i)).toNat ≤ 255 * 255 :=
      Nat.mul_le_mul (Nat.lt_succ_iff.mp (a i).toNat_lt) (Nat.lt_succ_iff.mp (b (k - i)).toNat_lt)
    have hsum : ((r k).toUInt16 + (a i).toUInt16 * (b (k - i)).toUInt16 + (c >>> 8)).toNat =
        (r k).toNat + (a i).toNat * (b (k - i)).toNat + c.toNat / 256 := by
      rw [UInt16.toNat_add, UInt16.toNat_add, UInt16.toNat_mul, UInt8.toNat_toUInt16,
        UInt8.toNat_toUInt16, UInt8.toNat_toUInt16, toNat_shift]
      omega
    refine ⟨?_, trivial⟩
    change ((((r k).toUInt16 + (a i).toUInt16 * (b (k - i)).toUInt16 + (c >>> 8)) &&&
      255).toUInt8.toNat : ℤ) + 256 * ((((r k).toUInt16 + (a i).toUInt16 * (b (k - i)).toUInt16 +
        (c >>> 8)).toNat / 256 : Nat) : ℤ) = _
    rw [toNat_low, hsum]
    push_cast
    omega
  obtain ⟨hvalue, -⟩ := @chain_value _ _ f i len 0 r.get 256 (fun v => (v.toNat : ℤ))
    (fun c => ((c.toNat / 256 : Nat) : ℤ)) (fun _ _ => True) _ hstep trivial
  have hshift : weigh 256 (fun k => ((b (k - i)).toNat : ℤ)) i len = limbs b 0 len := by
    have h := @weigh_shift 256 (fun k => ((b (k - i)).toNat : ℤ)) 0 len i
    simp only [Nat.add_sub_cancel, Nat.zero_add] at h
    exact h.symm
  rw [weigh_add, weigh_mul, hshift] at hvalue
  have hcarry : ((chain f i len 0 r.get).2 >>> 8).toUInt8.toNat =
      (chain f i len 0 r.get).2.toNat / 256 := by
    have hlt := (chain f i len 0 r.get).2.toNat_lt
    rw [UInt16.toNat_toUInt8, toNat_shift]
    omega
  constructor
  · change limbs (Arr.set ⟨(chain f i len 0 r.get).1⟩ (i + len)
      ((chain f i len 0 r.get).2 >>> 8).toUInt8) i (len + 1) = _
    rw [limbs_succ_back, limbs_update_outside (.inr (le_refl _)), Arr.set_self, hcarry,
      limbs_succ_back, hr]
    have hstart : ((((0 : UInt16).toNat / 256 : Nat) : ℤ)) = 0 := rfl
    have hcell : ((0 : UInt8).toNat : ℤ) = 0 := rfl
    rw [hstart] at hvalue
    rw [hcell]
    unfold limbs at hvalue ⊢
    linear_combination hvalue
  · intro k hk
    change Arr.set ⟨(chain f i len 0 r.get).1⟩ (i + len) _ k = r k
    rw [Arr.set_of_ne _ (by omega)]
    exact chain_outside (by omega)

theorem bigintMul_rows (r a b : Cells) {len : Nat} {m : Nat} (hm : m ≤ len) :
    limbs ((List.range m).foldl (mulRow a b len) ⟨fun i => if i < 2 * len then 0 else r i⟩) 0
        (2 * len) = limbs a 0 m * limbs b 0 len ∧
      ∀ k, m + len ≤ k → (List.range m).foldl (mulRow a b len)
        ⟨fun i => if i < 2 * len then 0 else r i⟩ k = if k < 2 * len then 0 else r k := by
  induction m with
  | zero =>
    refine ⟨?_, fun k _ => rfl⟩
    rw [show limbs a 0 0 = 0 from rfl, zero_mul]
    refine weigh_zero fun i _ hi => ?_
    have hlt : i < 2 * len := by omega
    rw [List.range_zero, List.foldl_nil]
    simp only [if_pos hlt]
    rfl
  | succ m ih =>
    obtain ⟨hvalue, hrest⟩ := ih (by omega)
    rw [List.range_succ, List.foldl_append, List.foldl_cons, List.foldl_nil]
    generalize hr : (List.range m).foldl (mulRow a b len)
      ⟨fun i => if i < 2 * len then 0 else r i⟩ = q at hvalue hrest ⊢
    have hzero : q (m + len) = 0 := by rw [hrest _ (le_refl _), if_pos (by omega)]
    obtain ⟨hrow, hsame⟩ := mulRow_value a b hzero
    constructor
    · have hsplit : ∀ p : Cells, limbs p 0 (2 * len) = limbs p 0 m +
          256 ^ m * (limbs p m (len + 1) +
            256 ^ (len + 1) * limbs p (m + (len + 1)) (2 * len - m - (len + 1))) := by
        intro p
        have hlen : 2 * len = m + ((len + 1) + (2 * len - m - (len + 1))) := by omega
        have h := limbs_split p 0 m ((len + 1) + (2 * len - m - (len + 1)))
        rw [limbs_split p (0 + m), ← hlen, Nat.zero_add] at h
        exact h
      have hbefore : limbs (mulRow a b len q m) 0 m = limbs q 0 m :=
        limbs_congr fun k _ hk => hsame k (.inl (by omega))
      have hbehind : limbs (mulRow a b len q m) (m + (len + 1)) (2 * len - m - (len + 1)) =
          limbs q (m + (len + 1)) (2 * len - m - (len + 1)) :=
        limbs_congr fun k hk _ => hsame k (.inr (by omega))
      rw [hsplit q] at hvalue
      rw [hsplit, hbefore, hbehind, hrow, limbs_succ_back a, Nat.zero_add]
      linear_combination hvalue
    · intro k hk
      rw [hsame k (.inr (by omega)), hrest k (by omega)]

/-- The product, and nothing else is written. -/
theorem bigintMul_value (r a b : Cells) (len : Nat) :
    limbs (bigintMul r a b len) 0 (2 * len) = limbs a 0 len * limbs b 0 len ∧
      ∀ k, 2 * len ≤ k → bigintMul r a b len k = r k := by
  obtain ⟨hvalue, hrest⟩ := bigintMul_rows r a b (le_refl len)
  refine ⟨hvalue, fun k hk => ?_⟩
  have h := hrest k (by omega)
  rwa [if_neg (by omega)] at h

end Crypto
end EspMisc
