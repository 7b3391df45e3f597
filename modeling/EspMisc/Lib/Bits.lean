/-
Words that number things by one bit each.

A word stands for the set of its bits.  `Numbering limit l active` says that the words
of `l` have one bit each, below `limit`, that no two share it, and that together they
are the bits of `active`.  Numbers are added and dropped with `Numbering.cons` and
`Numbering.erase`, and `Numbering.length_of_all` counts them when every bit is taken.
-/
import Mathlib.Data.List.Nodup

namespace EspMisc
namespace Bits

variable {w : Nat}

/-- All the bits of the words of a list. -/
def union (l : List (BitVec w)) : BitVec w := l.foldr (· ||| ·) 0

theorem union_cons (n : BitVec w) (l : List (BitVec w)) : union (n :: l) = n ||| union l := rfl

theorem getLsbD_union (l : List (BitVec w)) (j : Nat) :
    (union l).getLsbD j = l.any (·.getLsbD j) := by
  induction l with
  | nil => simp [union]
  | cons n l ih => rw [union_cons, BitVec.getLsbD_or, ih, List.any_cons]

structure Numbering (limit : Nat) (l : List (BitVec w)) (active : BitVec w) : Prop where
  single : ∀ n ∈ l, ∃ i < limit, n = BitVec.twoPow w i
  distinct : l.Nodup
  union : union l = active

namespace Numbering

variable {limit : Nat} {l : List (BitVec w)} {active : BitVec w}

theorem nil : Numbering limit [] (0 : BitVec w) where
  single _ hn := absurd hn List.not_mem_nil
  distinct := List.nodup_nil
  union := rfl

theorem mem_iff (h : Numbering limit l active) {j : Nat} (hj : j < w) :
    BitVec.twoPow w j ∈ l ↔ active.getLsbD j = true := by
  rw [← h.union, getLsbD_union, List.any_eq_true]
  constructor
  · intro hmem
    exact ⟨_, hmem, by simp [hj]⟩
  · rintro ⟨n, hn, hbit⟩
    obtain ⟨i, _, rfl⟩ := h.single n hn
    simp only [BitVec.getLsbD_twoPow, Bool.and_eq_true, decide_eq_true_eq] at hbit
    rwa [← hbit.2]

theorem lt_of_bit (h : Numbering limit l active) {j : Nat} (hj : active.getLsbD j = true) :
    j < limit := by
  rw [← h.union, getLsbD_union, List.any_eq_true] at hj
  obtain ⟨n, hn, hbit⟩ := hj
  obtain ⟨i, hi, rfl⟩ := h.single n hn
  simp only [BitVec.getLsbD_twoPow, Bool.and_eq_true, decide_eq_true_eq] at hbit
  omega

/-- A bit that is free becomes one more number. -/
theorem cons (h : Numbering limit l active) {i : Nat} (hi : i < limit) (hw : i < w)
    (hfree : active.getLsbD i = false) :
    Numbering limit (BitVec.twoPow w i :: l) (active ||| BitVec.twoPow w i) where
  single n hn := by
    rcases List.mem_cons.mp hn with rfl | hn
    · exact ⟨i, hi, rfl⟩
    · exact h.single n hn
  distinct := by
    refine List.nodup_cons.mpr ⟨fun hmem => ?_, h.distinct⟩
    rw [h.mem_iff hw, hfree] at hmem
    exact absurd hmem Bool.false_ne_true
  union := by rw [union_cons, h.union, BitVec.or_comm]

/-- A number that is dropped frees its bit and no other. -/
theorem erase (h : Numbering limit l active) {n : BitVec w} (hn : n ∈ l) :
    Numbering limit (l.erase n) (active &&& ~~~n) where
  single m hm := h.single m (List.mem_of_mem_erase hm)
  distinct := h.distinct.erase n
  union := by
    obtain ⟨i, _, rfl⟩ := h.single n hn
    refine BitVec.eq_of_getLsbD_eq fun j hj => ?_
    have hrest : (∃ m ∈ l.erase (BitVec.twoPow w i), m.getLsbD j = true) ↔
        active.getLsbD j = true ∧ i ≠ j := by
      rw [← h.mem_iff hj]
      constructor
      · rintro ⟨m, hm, hbit⟩
        obtain ⟨hne, hml⟩ := (h.distinct.mem_erase_iff).mp hm
        obtain ⟨k, _, rfl⟩ := h.single m hml
        simp only [BitVec.getLsbD_twoPow, Bool.and_eq_true, decide_eq_true_eq] at hbit
        obtain ⟨_, rfl⟩ := hbit
        exact ⟨hml, fun hik => hne (by rw [hik])⟩
      · rintro ⟨hml, hne⟩
        refine ⟨_, (h.distinct.mem_erase_iff).mpr ⟨fun he => hne ?_, hml⟩, by simp [hj]⟩
        have hbit := congrArg (·.getLsbD j) he
        simpa [hj, eq_comm] using hbit
    rw [getLsbD_union, Bool.eq_iff_iff, List.any_eq_true, hrest]
    simp [hj]
    omega

/-- When every bit is taken there is a number for each. -/
theorem length_of_all (h : Numbering limit l active) (hw : limit ≤ w)
    (hall : ∀ j < limit, active.getLsbD j = true) : limit ≤ l.length := by
  have hnodup : ((List.range limit).map (BitVec.twoPow w)).Nodup := by
    refine List.nodup_range.map_on fun i hi j hj he => ?_
    rw [List.mem_range] at hi hj
    have hbit := congrArg (·.getLsbD i) he
    simp only [BitVec.getLsbD_twoPow] at hbit
    simpa [show i < w by omega, show j < w by omega, eq_comm] using hbit
  have hsub : (List.range limit).map (BitVec.twoPow w) ⊆ l := by
    intro n hn
    obtain ⟨j, hj, rfl⟩ := List.mem_map.mp hn
    rw [List.mem_range] at hj
    exact (h.mem_iff (by omega)).mpr (hall j hj)
  have hle := hnodup.length_le_of_subset hsub
  rwa [List.length_map, List.length_range] at hle

end Numbering
end Bits
end EspMisc
