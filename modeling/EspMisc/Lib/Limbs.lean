/-
Numbers in an array of digits.

`weigh B d s n` is the number whose digits to the base `B` are `d s` up to `d (s + n - 1)`,
the lowest first.  The digits are integers of any size, so that it is linear in them.

Multiple-precision routines go up through the array and carry something from one cell to
the next.  `chain` is such a loop, and `chain_value` its rule: when each step keeps the
digit, the cell and the carry in balance, then so does the loop.  The carry has a weight,
so a borrow is a carry as well.
-/
import Mathlib.Algebra.Order.Ring.Int
import Mathlib.Tactic.LinearCombination
import Mathlib.Tactic.Linarith
import Mathlib.Tactic.Ring

namespace EspMisc

section Weigh

variable (B : ℤ)

def weigh (d : Nat → ℤ) : Nat → Nat → ℤ
  | _, 0 => 0
  | s, n + 1 => d s + B * weigh d (s + 1) n

variable {B} {d e : Nat → ℤ} {s n : Nat}

theorem weigh_split (m : Nat) :
    weigh B d s (m + n) = weigh B d s m + B ^ m * weigh B d (s + m) n := by
  induction m generalizing s with
  | zero => rw [Nat.zero_add, weigh, pow_zero, one_mul, zero_add, Nat.add_zero]
  | succ m ih =>
    rw [Nat.add_right_comm, weigh, weigh, ih, Nat.add_right_comm, Nat.add_assoc]
    ring

theorem weigh_succ_back : weigh B d s (n + 1) = weigh B d s n + B ^ n * d (s + n) := by
  rw [weigh_split n, weigh, weigh, mul_zero, add_zero]

theorem weigh_congr (h : ∀ i, s ≤ i → i < s + n → d i = e i) : weigh B d s n = weigh B e s n := by
  induction n generalizing s with
  | zero => rfl
  | succ n ih =>
    rw [weigh, weigh, h s (le_refl s) (by omega), ih fun i hs hi => h i (by omega) (by omega)]

theorem weigh_add : weigh B (fun i => d i + e i) s n = weigh B d s n + weigh B e s n := by
  induction n generalizing s with
  | zero => rfl
  | succ n ih =>
    rw [weigh, weigh, weigh, ih]
    ring

theorem weigh_mul (k : ℤ) : weigh B (fun i => k * d i) s n = k * weigh B d s n := by
  induction n generalizing s with
  | zero => exact (mul_zero k).symm
  | succ n ih =>
    rw [weigh, weigh, ih]
    ring

theorem weigh_sub : weigh B (fun i => d i - e i) s n = weigh B d s n - weigh B e s n := by
  induction n generalizing s with
  | zero => rfl
  | succ n ih =>
    rw [weigh, weigh, weigh, ih]
    ring

theorem weigh_shift (k : Nat) : weigh B (fun i => d (i + k)) s n = weigh B d (s + k) n := by
  induction n generalizing s with
  | zero => rfl
  | succ n ih => rw [weigh, weigh, ih, Nat.add_right_comm]

theorem weigh_zero (h : ∀ i, s ≤ i → i < s + n → d i = 0) : weigh B d s n = 0 := by
  have hzero : weigh B (fun i => 0 * d i) s n = 0 := by rw [weigh_mul, zero_mul]
  rw [← hzero]
  exact weigh_congr fun i hs hi => by rw [h i hs hi, mul_zero]

/-- What a write of one digit does to the number. -/
theorem weigh_update {k : Nat} (hs : s ≤ k) (hk : k < s + n) (v : ℤ) :
    weigh B (Function.update d k v) s n = weigh B d s n + B ^ (k - s) * (v - d k) := by
  induction n generalizing s with
  | zero => omega
  | succ n ih =>
    rw [weigh, weigh]
    rcases Nat.eq_or_lt_of_le hs with rfl | hlt
    · have hrest : weigh B (Function.update d s v) (s + 1) n = weigh B d (s + 1) n :=
        weigh_congr fun i hi _ => Function.update_of_ne (by omega) _ _
      rw [Function.update_self, hrest, Nat.sub_self]
      ring
    · obtain ⟨j, hj⟩ : ∃ j, k - s = j + 1 := ⟨k - s - 1, by omega⟩
      rw [Function.update_of_ne (by omega), ih hlt (by omega), hj, show k - (s + 1) = j by omega]
      ring

/-- Digits of the base. -/
theorem weigh_bounds (h : ∀ i, s ≤ i → i < s + n → 0 ≤ d i ∧ d i < B) (hB : 0 < B) :
    0 ≤ weigh B d s n ∧ weigh B d s n < B ^ n := by
  induction n generalizing s with
  | zero => exact ⟨le_refl 0, by rw [weigh, pow_zero]; exact one_pos⟩
  | succ n ih =>
    obtain ⟨hlow, hhigh⟩ := @ih (s + 1) fun i hs hi => h i (by omega) (by omega)
    obtain ⟨hd, hlt⟩ := h s (le_refl s) (by omega)
    rw [weigh, pow_succ']
    refine ⟨add_nonneg hd (mul_nonneg hB.le hlow), ?_⟩
    have hstep : B * (weigh B d (s + 1) n + 1) ≤ B * B ^ n :=
      mul_le_mul_of_nonneg_left (Int.add_one_le_iff.mpr hhigh) hB.le
    linarith

/-- The digits of a number are unique. -/
theorem weigh_inj (hd : ∀ i, s ≤ i → i < s + n → 0 ≤ d i ∧ d i < B)
    (he : ∀ i, s ≤ i → i < s + n → 0 ≤ e i ∧ e i < B) (h : weigh B d s n = weigh B e s n) :
    ∀ i, s ≤ i → i < s + n → d i = e i := by
  induction n generalizing s with
  | zero =>
    intro i hs hi
    omega
  | succ n ih =>
    rw [weigh, weigh] at h
    obtain ⟨hd₀, hd₁⟩ := hd s (le_refl s) (by omega)
    obtain ⟨he₀, he₁⟩ := he s (le_refl s) (by omega)
    have hlow : d s = e s := by
      have hmod := congrArg (· % B) h
      simpa only [Int.add_mul_emod_self_left, Int.emod_eq_of_lt hd₀ hd₁,
        Int.emod_eq_of_lt he₀ he₁] using hmod
    have hhigh : weigh B d (s + 1) n = weigh B e (s + 1) n := by
      rw [hlow] at h
      exact mul_left_cancel₀ (by omega) (add_left_cancel h)
    intro i hs hi
    rcases Nat.eq_or_lt_of_le hs with rfl | hlt
    · exact hlow
    · exact ih (fun i hs hi => hd i (by omega) (by omega))
        (fun i hs hi => he i (by omega) (by omega)) hhigh i hlt (by omega)

end Weigh

section Chain

variable {α γ : Type}

/-- The loop from the cell `s` on.  `f i c` is what the step at the cell `i` writes there, and
the next carry; it may look at the cell itself, which no step before it has written. -/
def chain (f : Nat → γ → α × γ) : Nat → Nat → γ → (Nat → α) → (Nat → α) × γ
  | _, 0, c, r => (r, c)
  | s, n + 1, c, r => chain f (s + 1) n (f s c).2 (Function.update r s (f s c).1)

variable {f : Nat → γ → α × γ} {s n : Nat} {c : γ} {r : Nat → α}

theorem chain_outside {i : Nat} (h : i < s ∨ s + n ≤ i) : (chain f s n c r).1 i = r i := by
  induction n generalizing s c r with
  | zero => rfl
  | succ n ih =>
    rw [chain, ih (by omega)]
    exact Function.update_of_ne (by omega) _ _

variable {B : ℤ} {val : α → ℤ} {w : γ → ℤ} {ok : Nat → γ → Prop} {d : Nat → ℤ}

theorem chain_value
    (hstep : ∀ i c, s ≤ i → i < s + n → ok i c →
      val (f i c).1 + B * w (f i c).2 = d i + w c ∧ ok (i + 1) (f i c).2) (hc : ok s c) :
    weigh B (fun i => val ((chain f s n c r).1 i)) s n + B ^ n * w (chain f s n c r).2 =
        weigh B d s n + w c ∧
      ok (s + n) (chain f s n c r).2 := by
  induction n generalizing s c r with
  | zero => exact ⟨by rw [weigh, weigh, chain, pow_zero, one_mul], hc⟩
  | succ n ih =>
    obtain ⟨hval, hnext⟩ := hstep s c (le_refl s) (by omega) hc
    obtain ⟨hrest, hlast⟩ := @ih (s + 1) (f s c).2 (Function.update r s (f s c).1)
      (fun i c hs hi => hstep i c (by omega) (by omega)) hnext
    have hcell : (chain f (s + 1) n (f s c).2 (Function.update r s (f s c).1)).1 s =
        (f s c).1 := by
      rw [chain_outside (.inl (Nat.lt_succ_self s)), Function.update_self]
    refine ⟨?_, by rw [chain, Nat.add_comm n, ← Nat.add_assoc]; exact hlast⟩
    rw [weigh, weigh, chain, hcell]
    linear_combination hval + B * hrest

end Chain

end EspMisc
