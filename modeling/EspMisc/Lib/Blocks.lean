/-
Going through a range in blocks.

A routine with a small buffer works through a range of a given length in blocks: each is
as long as the buffer, and the last one has what is left.  `blocks_invariant` says what
holds at the end if every block that succeeds keeps it, and `blocks_total` that the end is
reached if every block succeeds.  Both count the bytes that are done, so nothing else of
the loop is looked at again.

The exclusive or of a range is such a sum: it does not depend on the blocks, bytes that
are zero do not count, and two ranges that differ in one byte have different sums.
-/
import Mathlib.Data.List.Basic

namespace EspMisc

section Loop

variable {σ : Type}

/-- The loop: `step` is given the length of a block.  The bound is on the number of
blocks; it is enough that it is not below `remaining`. -/
def blocks (size : Nat) (step : Nat → σ → Option σ) : Nat → Nat → σ → Option σ
  | _, 0, s => some s
  | 0, _ + 1, _ => none
  | fuel + 1, remaining + 1, s =>
    (step (min (remaining + 1) size) s).bind
      (blocks size step fuel (remaining + 1 - min (remaining + 1) size))

variable {size : Nat} {step : Nat → σ → Option σ} {P : Nat → σ → Prop}

/-- What every block keeps holds at the end. -/
theorem blocks_invariant
    (hstep : ∀ {n len : Nat} {s t : σ}, P n s → step len s = some t → P (n + len) t)
    {fuel : Nat} : ∀ {remaining n : Nat} {s t : σ}, P n s →
      blocks size step fuel remaining s = some t → P (n + remaining) t := by
  induction fuel with
  | zero =>
    intro remaining n s t hs ht
    cases remaining with
    | zero =>
      obtain rfl := Option.some.inj ht
      exact hs
    | succ remaining => exact absurd ht (by simp [blocks])
  | succ fuel ih =>
    intro remaining n s t hs ht
    cases remaining with
    | zero =>
      obtain rfl := Option.some.inj ht
      exact hs
    | succ remaining =>
      obtain ⟨u, hu, hrest⟩ := Option.bind_eq_some_iff.mp ht
      have hend := ih (hstep hs hu) hrest
      rwa [show n + min (remaining + 1) size + (remaining + 1 - min (remaining + 1) size) =
        n + (remaining + 1) by omega] at hend

/-- The loop gets to its end if every block does, and keeps what every block keeps. -/
theorem blocks_total (hsize : 0 < size) {total : Nat}
    (hstep : ∀ {n len : Nat} {s : σ}, P n s → n + len ≤ total →
      ∃ t, step len s = some t ∧ P (n + len) t)
    {fuel : Nat} : ∀ {remaining n : Nat} {s : σ}, P n s → n + remaining = total →
      remaining ≤ fuel → ∃ t, blocks size step fuel remaining s = some t ∧ P total t := by
  induction fuel with
  | zero =>
    intro remaining n s hs hn hle
    obtain rfl := Nat.le_zero.mp hle
    obtain rfl := hn
    exact ⟨s, by rw [blocks], hs⟩
  | succ fuel ih =>
    intro remaining n s hs hn hle
    cases remaining with
    | zero =>
      obtain rfl := hn
      exact ⟨s, by rw [blocks], hs⟩
    | succ remaining =>
      have hfits : n + min (remaining + 1) size ≤ total := by omega
      obtain ⟨u, hu, hkept⟩ := hstep hs hfits
      have hrest : n + min (remaining + 1) size + (remaining + 1 - min (remaining + 1) size) =
          total := by omega
      obtain ⟨t, ht, hend⟩ := ih hkept hrest (by omega)
      refine ⟨t, ?_, hend⟩
      rw [blocks, hu, Option.bind_some]
      exact ht

end Loop

/-! ## The exclusive or of a range -/

/-- The sum goes on from `c`. -/
def xorSum (c : UInt8) (l : List UInt8) : UInt8 := l.foldl (· ^^^ ·) c

theorem xorSum_append (c : UInt8) (l r : List UInt8) :
    xorSum c (l ++ r) = xorSum (xorSum c l) r := List.foldl_append

theorem xorSum_xor (c d : UInt8) (l : List UInt8) : xorSum (c ^^^ d) l = c ^^^ xorSum d l := by
  induction l generalizing d with
  | nil => rfl
  | cons b l ih =>
    rw [xorSum, xorSum, List.foldl_cons, List.foldl_cons, UInt8.xor_assoc]
    exact ih (d ^^^ b)

theorem xorSum_inj {c d : UInt8} {l : List UInt8} : xorSum c l = xorSum d l ↔ c = d := by
  constructor
  · intro h
    rw [← UInt8.xor_zero (a := c), ← UInt8.xor_zero (a := d), xorSum_xor, xorSum_xor] at h
    exact (UInt8.xor_left_inj _).mp h
  · rintro rfl
    rfl

theorem xorSum_zeros (c : UInt8) (n : Nat) : xorSum c (List.replicate n 0) = c := by
  induction n with
  | zero => rfl
  | succ n ih =>
    rw [xorSum, List.replicate_succ, List.foldl_cons, UInt8.xor_zero]
    exact ih

/-- One byte that is another gives another sum. -/
theorem xorSum_ne {c : UInt8} {l r : List UInt8} {b b' : UInt8} (h : b ≠ b') :
    xorSum c (l ++ b :: r) ≠ xorSum c (l ++ b' :: r) := by
  intro heq
  rw [xorSum_append, xorSum_append] at heq
  exact h ((UInt8.xor_right_inj _).mp (xorSum_inj.mp heq))

end EspMisc
