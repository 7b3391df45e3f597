/-
A bounded deque over a cyclic array.

The array, read once around from the cell of the oldest item, is the items held and
then the free cells.  A free cell keeps what was last in it, and an item can be given
back at either end: `unpush` frees the cell of the newest item, and `unpop` counts the
cell before the oldest one in again, with whatever it holds.  `origin` is where the
oldest item stands, which only `clear` asks for.

`Stored buf d` says that the array `buf` holds the deque `d`, and has one lemma for
each operation.
-/
import Mathlib.Data.List.Rotate
import EspMisc.Lib.Cyclic

namespace EspMisc

structure Deque (α : Type) (size : Nat) where
  origin : Nat
  items : List α
  spare : List α
  whole : items.length + spare.length = size

namespace Deque

variable {α : Type} {size : Nat}

/-- The deque that holds nothing of an array. -/
def ofArray (buf : List α) (h : buf.length = size) : Deque α size :=
  ⟨0, [], buf, by rw [List.length_nil, Nat.zero_add, h]⟩

/-- One more item behind the newest; fails when no cell is free. -/
def push (d : Deque α size) (x : α) : Option (Deque α size) :=
  if h : d.spare = [] then none
  else some
    { d with
      items := d.items ++ [x]
      spare := d.spare.tail
      whole := by
        have hpos := List.length_pos_iff.mpr h
        have hwhole := d.whole
        rw [List.length_append, List.length_singleton, List.length_tail]
        omega }

/-- The oldest item, and the deque without it; fails when there is none. -/
def pop (d : Deque α size) : Option (α × Deque α size) :=
  if h : d.items = [] then none
  else some (d.items.head h,
    { origin := (d.origin + 1) % size
      items := d.items.tail
      spare := d.spare ++ [d.items.head h]
      whole := by
        have hpos := List.length_pos_iff.mpr h
        have hwhole := d.whole
        rw [List.length_append, List.length_singleton, List.length_tail]
        omega })

/-- The deque without the newest item, whose cell is then the first free one. -/
def unpush (d : Deque α size) : Option (Deque α size) :=
  if h : d.items = [] then none
  else some
    { d with
      items := d.items.dropLast
      spare := d.items.getLast h :: d.spare
      whole := by
        have hpos := List.length_pos_iff.mpr h
        have hwhole := d.whole
        rw [List.length_cons, List.length_dropLast]
        omega }

/-- The cell before the oldest item holds the oldest item. -/
def unpop (d : Deque α size) : Option (Deque α size) :=
  if h : d.spare = [] then none
  else some
    { origin := (d.origin + (size - 1)) % size
      items := d.spare.getLast h :: d.items
      spare := d.spare.dropLast
      whole := by
        have hpos := List.length_pos_iff.mpr h
        have hwhole := d.whole
        rw [List.length_cons, List.length_dropLast]
        omega }

/-- Nothing is held, and the array is read from its first cell again. -/
def clear (d : Deque α size) : Deque α size where
  origin := 0
  items := []
  spare := (d.items ++ d.spare).rotate (size - d.origin)
  whole := by
    rw [List.length_rotate, List.length_append, d.whole]
    exact Nat.zero_add size

def newest (d : Deque α size) : Option α := d.items.getLast?

def oldest (d : Deque α size) : Option α := d.items.head?

section Fields

variable {d d' : Deque α size}

theorem push_some {x : α} (h : d.push x = some d') :
    d.spare ≠ [] ∧ d'.origin = d.origin ∧ d'.items = d.items ++ [x] ∧ d'.spare = d.spare.tail := by
  by_cases hfull : d.spare = []
  · rw [push, dif_pos hfull] at h
    exact absurd h (by simp)
  · rw [push, dif_neg hfull] at h
    obtain rfl := Option.some.inj h
    exact ⟨hfull, rfl, rfl, rfl⟩

theorem pop_some {x : α} (h : d.pop = some (x, d')) :
    d.items ≠ [] ∧ d.oldest = some x ∧ d'.origin = (d.origin + 1) % size ∧
      d'.items = d.items.tail ∧ d'.spare = d.spare ++ [x] := by
  by_cases hempty : d.items = []
  · rw [pop, dif_pos hempty] at h
    exact absurd h (by simp)
  · rw [pop, dif_neg hempty] at h
    obtain ⟨rfl, rfl⟩ := Prod.mk.inj (Option.some.inj h)
    exact ⟨hempty, List.head?_eq_some_head hempty, rfl, rfl, rfl⟩

theorem unpush_some (h : d.unpush = some d') :
    d.items ≠ [] ∧ d'.origin = d.origin ∧ d'.items = d.items.dropLast ∧
      ∃ x, d.newest = some x ∧ d'.spare = x :: d.spare := by
  by_cases hempty : d.items = []
  · rw [unpush, dif_pos hempty] at h
    exact absurd h (by simp)
  · rw [unpush, dif_neg hempty] at h
    obtain rfl := Option.some.inj h
    exact ⟨hempty, rfl, rfl, _, List.getLast?_eq_some_getLast hempty, rfl⟩

theorem unpop_some (h : d.unpop = some d') :
    d.spare ≠ [] ∧ d'.origin = (d.origin + (size - 1)) % size ∧ d'.spare = d.spare.dropLast ∧
      ∃ x, d.spare.getLast? = some x ∧ d'.items = x :: d.items := by
  by_cases hfull : d.spare = []
  · rw [unpop, dif_pos hfull] at h
    exact absurd h (by simp)
  · rw [unpop, dif_neg hfull] at h
    obtain rfl := Option.some.inj h
    exact ⟨hfull, rfl, rfl, _, List.getLast?_eq_some_getLast hfull, rfl⟩

end Fields

variable [Inhabited α]

open Cyclic

/-- The array, read once around from one of its cells. -/
theorem window_eq_rotate (buf : List α) (r : Nat) :
    window buf r buf.length = buf.rotate r := by
  refine List.ext_getElem (by simp) fun i hi hi' => ?_
  rw [window_getElem, List.getElem_rotate, cell, Nat.add_comm r i]
  simp [List.getD_eq_getElem?_getD, Nat.mod_lt _ (Nat.zero_lt_of_lt (by simpa using hi))]

/-- The array holds the deque: its items from `origin` on, and behind them the free
cells. -/
structure Stored (buf : List α) (d : Deque α size) : Prop where
  length : buf.length = size
  origin : d.origin < size
  items : d.items = window buf d.origin d.items.length
  spare : d.spare = window buf (d.origin + d.items.length) d.spare.length

namespace Stored

variable {buf : List α} {d d' : Deque α size}

theorem ofArray (hpos : 0 < size) (h : buf.length = size) :
    Stored buf (Deque.ofArray buf h) where
  length := h
  origin := hpos
  items := rfl
  spare := by
    show buf = window buf (0 + 0) buf.length
    rw [window_eq_rotate, List.rotate_zero]

theorem positive (h : Stored buf d) : 0 < size := Nat.zero_lt_of_lt h.origin

theorem around (h : Stored buf d) : d.items ++ d.spare = window buf d.origin size := by
  have hsplit := window_add buf d.origin d.items.length d.spare.length
  rw [d.whole, ← h.items, ← h.spare] at hsplit
  exact hsplit.symm

theorem oldest (h : Stored buf d) (hne : d.items ≠ []) :
    d.oldest = some (cell buf d.origin) := by
  rw [Deque.oldest, h.items, window_head? _ _ (List.length_pos_iff.mpr hne)]

theorem newest (h : Stored buf d) (hne : d.items ≠ []) :
    d.newest = some (cell buf (d.origin + (d.items.length - 1))) := by
  rw [Deque.newest, h.items, window_getLast? _ _ (List.length_pos_iff.mpr hne), window_length]

theorem push (h : Stored buf d) {x : α} (hpush : d.push x = some d') :
    Stored (buf.set ((d.origin + d.items.length) % buf.length) x) d' := by
  obtain ⟨hfree, horigin, hitems, hspare⟩ := push_some hpush
  have hlen := h.length
  have hwhole := d.whole
  have hpos := List.length_pos_iff.mpr hfree
  refine ⟨by rw [List.length_set, hlen], by rw [horigin]; exact h.origin, ?_, ?_⟩
  · rw [horigin, hitems, List.length_append, List.length_singleton, window_push (by omega),
      ← h.items]
  · have hne : ∀ i < d.spare.length - 1, (d.origin + (d.items.length + 1) + i) % buf.length ≠
        (d.origin + d.items.length) % buf.length := by
      intro i hi
      have hfar := add_mod_ne (r := d.origin + d.items.length) (i := 0) (j := 1 + i)
        (by omega) (show 1 + i < buf.length + 0 by omega)
      rw [Nat.add_zero] at hfar
      rw [show d.origin + (d.items.length + 1) + i = d.origin + d.items.length + (1 + i) by omega]
      exact hfar.symm
    rw [horigin, hitems, hspare, List.length_append, List.length_singleton, List.length_tail,
      window_set_ne hne, ← Nat.add_assoc, ← window_tail, ← h.spare]

theorem pop (h : Stored buf d) {x : α} (hpop : d.pop = some (x, d')) : Stored buf d' := by
  obtain ⟨hheld, hold, horigin, hitems, hspare⟩ := pop_some hpop
  have hlen := h.length
  have hwhole := d.whole
  have hpos := List.length_pos_iff.mpr hheld
  rw [h.oldest hheld] at hold
  refine ⟨hlen, by rw [horigin]; exact Nat.mod_lt _ h.positive, ?_, ?_⟩
  · have hturn : (d.origin + 1) % size % buf.length = (d.origin + 1) % buf.length := by
      rw [hlen, Nat.mod_mod]
    rw [horigin, hitems, window_congr hturn, List.length_tail, ← window_tail, ← h.items]
  · have hturn : ((d.origin + 1) % size + (d.items.length - 1)) % buf.length =
        (d.origin + d.items.length) % buf.length := by
      rw [hlen, Nat.mod_add_mod]
      congr 1
      omega
    have hcell : cell buf (d.origin + d.items.length + d.spare.length) = x := by
      rw [← cell_mod, show d.origin + d.items.length + d.spare.length = d.origin + buf.length by
        omega, Nat.add_mod_right, cell_mod]
      exact Option.some.inj hold
    rw [horigin, hitems, hspare, List.length_tail, window_congr hturn, List.length_append,
      List.length_singleton, window_snoc, ← h.spare, hcell]

theorem unpush (h : Stored buf d) (hunpush : d.unpush = some d') : Stored buf d' := by
  obtain ⟨hheld, horigin, hitems, x, hnew, hspare⟩ := unpush_some hunpush
  have hpos := List.length_pos_iff.mpr hheld
  rw [h.newest hheld] at hnew
  refine ⟨h.length, by rw [horigin]; exact h.origin, ?_, ?_⟩
  · rw [horigin, hitems, List.length_dropLast, ← window_dropLast, ← h.items]
  · rw [horigin, hitems, hspare, List.length_dropLast, List.length_cons, window_succ,
      Option.some.inj hnew,
      show d.origin + (d.items.length - 1) + 1 = d.origin + d.items.length by omega, ← h.spare]

theorem unpop (h : Stored buf d) (hunpop : d.unpop = some d') : Stored buf d' := by
  obtain ⟨hfree, horigin, hspare, x, hlast, hitems⟩ := unpop_some hunpop
  have hlen := h.length
  have hwhole := d.whole
  have hpos := List.length_pos_iff.mpr hfree
  have hcell : cell buf (d.origin + (size - 1)) = x := by
    rw [h.spare, window_getLast? _ _ hpos,
      show d.origin + d.items.length + (d.spare.length - 1) = d.origin + (size - 1) by omega]
      at hlast
    exact Option.some.inj hlast
  have hback : (d.origin + (size - 1)) % size % buf.length =
      (d.origin + (size - 1)) % buf.length := by
    rw [hlen, Nat.mod_mod]
  have hnext : (d.origin + (size - 1) + 1) % buf.length = d.origin % buf.length := by
    rw [show d.origin + (size - 1) + 1 = d.origin + buf.length by omega, Nat.add_mod_right]
  have hturn : ((d.origin + (size - 1)) % size + (d.items.length + 1)) % buf.length =
      (d.origin + d.items.length) % buf.length := by
    rw [hlen, Nat.mod_add_mod, show d.origin + (size - 1) + (d.items.length + 1) =
      d.origin + d.items.length + size by omega, Nat.add_mod_right]
  refine ⟨hlen, by rw [horigin]; exact Nat.mod_lt _ h.positive, ?_, ?_⟩
  · rw [horigin, hitems, List.length_cons, window_congr hback, window_succ, window_congr hnext,
      ← h.items, hcell]
  · rw [horigin, hitems, hspare, List.length_cons, window_congr hturn, List.length_dropLast,
      ← window_dropLast, ← h.spare]

theorem clear (h : Stored buf d) : Stored buf d.clear := by
  have hlen := h.length
  have hback : (d.items ++ d.spare).rotate (size - d.origin) = buf := by
    have hturn := window_eq_rotate buf d.origin
    rw [hlen] at hturn
    rw [h.around, hturn, List.rotate_rotate, Nat.add_sub_cancel' h.origin.le, ← hlen,
      List.rotate_length]
  refine ⟨hlen, h.positive, rfl, ?_⟩
  show (d.items ++ d.spare).rotate (size - d.origin) =
    window buf (0 + 0) ((d.items ++ d.spare).rotate (size - d.origin)).length
  rw [hback, window_eq_rotate, List.rotate_zero]

end Stored
end Deque
end EspMisc
