/-
Windows into a cyclic buffer.

A cyclic buffer stores a queue in an array whose two ends are joined.  `window
buf r n` reads the `n` cells that start at position `r`, wrapping past the last
cell, and so names the queue the buffer stores.  The two lemmas a queue needs
are `window_push`, which writes the cell just past the window, and
`window_succ`, which drops the cell at its front.
-/
import Mathlib.Data.List.Basic

namespace EspMisc
namespace Cyclic

variable {α : Type} [Inhabited α]

def cell (buf : List α) (i : Nat) : α := buf.getD (i % buf.length) default

/-- The `n` cells of `buf` from position `r` on. -/
def window (buf : List α) : Nat → Nat → List α
  | _, 0 => []
  | r, n + 1 => cell buf r :: window buf (r + 1) n

theorem window_succ (buf : List α) (r n : Nat) :
    window buf r (n + 1) = cell buf r :: window buf (r + 1) n := rfl

@[simp] theorem window_length (buf : List α) (r n : Nat) : (window buf r n).length = n := by
  induction n generalizing r with
  | zero => rfl
  | succ n ih => rw [window_succ, List.length_cons, ih]

theorem window_snoc (buf : List α) (r n : Nat) :
    window buf r (n + 1) = window buf r n ++ [cell buf (r + n)] := by
  induction n generalizing r with
  | zero => rfl
  | succ n ih =>
    rw [window_succ, ih (r + 1), window_succ buf r n, List.cons_append,
      show r + 1 + n = r + (n + 1) by omega]

theorem window_add (buf : List α) (r m n : Nat) :
    window buf r (m + n) = window buf r m ++ window buf (r + m) n := by
  induction m generalizing r with
  | zero => rw [Nat.zero_add, Nat.add_zero]; rfl
  | succ m ih =>
    rw [show m + 1 + n = m + n + 1 by omega, window_succ, ih, window_succ,
      show r + 1 + m = r + (m + 1) by omega, List.cons_append]

theorem window_getElem (buf : List α) (r n i : Nat) (h : i < (window buf r n).length) :
    (window buf r n)[i] = cell buf (r + i) := by
  induction n generalizing r i with
  | zero => exact absurd h (Nat.not_lt_zero i)
  | succ n ih =>
    cases i with
    | zero => rfl
    | succ i =>
      simp only [window_succ, List.getElem_cons_succ]
      rw [ih, show r + 1 + i = r + (i + 1) by omega]

theorem window_tail (buf : List α) (r n : Nat) :
    (window buf r n).tail = window buf (r + 1) (n - 1) := by
  cases n with
  | zero => rfl
  | succ n => rw [window_succ, List.tail_cons, Nat.add_sub_cancel]

theorem window_dropLast (buf : List α) (r n : Nat) :
    (window buf r n).dropLast = window buf r (n - 1) := by
  cases n with
  | zero => rfl
  | succ n => rw [window_snoc, List.dropLast_concat, Nat.add_sub_cancel]

theorem window_head? (buf : List α) (r : Nat) {n : Nat} (h : 0 < n) :
    (window buf r n).head? = some (cell buf r) := by
  obtain ⟨n, rfl⟩ := Nat.exists_eq_succ_of_ne_zero (Nat.ne_of_gt h)
  rfl

theorem window_getLast? (buf : List α) (r : Nat) {n : Nat} (h : 0 < n) :
    (window buf r n).getLast? = some (cell buf (r + (n - 1))) := by
  obtain ⟨n, rfl⟩ := Nat.exists_eq_succ_of_ne_zero (Nat.ne_of_gt h)
  rw [Nat.succ_eq_add_one, window_snoc, List.getLast?_concat, Nat.add_sub_cancel]

theorem cell_mod (buf : List α) (i : Nat) : cell buf (i % buf.length) = cell buf i := by
  simp only [cell, Nat.mod_mod]

/-- A window depends on its start only up to a whole turn. -/
theorem window_congr {buf : List α} {r r' : Nat} (h : r % buf.length = r' % buf.length)
    (n : Nat) : window buf r n = window buf r' n := by
  induction n generalizing r r' with
  | zero => rfl
  | succ n ih =>
    have hc : cell buf r = cell buf r' := by rw [← cell_mod buf r, h, cell_mod]
    have hs : (r + 1) % buf.length = (r' + 1) % buf.length := by
      rw [Nat.add_mod, h, ← Nat.add_mod]
    rw [window_succ, window_succ, hc, ih hs]

theorem cell_set_self {buf : List α} {i : Nat} (h : 0 < buf.length) (x : α) :
    cell (buf.set (i % buf.length) x) i = x := by
  have hi : i % buf.length < buf.length := Nat.mod_lt i h
  simp [cell, List.getD_eq_getElem?_getD, hi]

theorem cell_set_ne {buf : List α} {i j : Nat} (h : i % buf.length ≠ j % buf.length) (x : α) :
    cell (buf.set (j % buf.length) x) i = cell buf i := by
  simp [cell, List.getD_eq_getElem?_getD, List.getElem?_set_ne (Ne.symm h)]

/-- Two positions less than one turn apart are different cells. -/
theorem add_mod_ne {r i j len : Nat} (hij : i < j) (hj : j < len + i) :
    (r + i) % len ≠ (r + j) % len := by
  intro h
  have hd := Nat.sub_mod_eq_zero_of_mod_eq h.symm
  rw [show r + j - (r + i) = j - i by omega, Nat.mod_eq_of_lt (by omega)] at hd
  omega

/-- Writing a cell that a window does not reach does not change the window. -/
theorem window_set_ne {buf : List α} {r j n : Nat}
    (h : ∀ i < n, (r + i) % buf.length ≠ j % buf.length) (x : α) :
    window (buf.set (j % buf.length) x) r n = window buf r n := by
  induction n generalizing r with
  | zero => rfl
  | succ n ih =>
    have hrest := ih (r := r + 1) fun i hi => by
      rw [show r + 1 + i = r + (i + 1) by omega]
      exact h (i + 1) (by omega)
    have hhere := cell_set_ne (h 0 n.succ_pos) x
    rw [Nat.add_zero] at hhere
    rw [window_succ, window_succ, hhere, hrest]

/-- Writing the first free cell appends to the queue. -/
theorem window_push {buf : List α} {r n : Nat} (hn : n < buf.length) (x : α) :
    window (buf.set ((r + n) % buf.length) x) r (n + 1) = window buf r n ++ [x] := by
  have hfree : ∀ i < n, (r + i) % buf.length ≠ (r + n) % buf.length := by
    intro i hi
    exact add_mod_ne hi (by omega)
  have hc : cell (buf.set ((r + n) % buf.length) x) (r + n) = x := cell_set_self (by omega) x
  rw [window_snoc, window_set_ne hfree, hc]

end Cyclic
end EspMisc
