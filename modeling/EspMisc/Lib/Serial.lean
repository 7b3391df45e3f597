/-
Identifiers from a counter that comes round.

The identifiers are 1 to `M`.  The counter holds the last one given out, or 0 before
the first, and after `M` it starts again at 1.  `lead M c id` is how many identifiers
the counter has given out since `id`, as long as these are fewer than `M`.  `Issued`
is the invariant of those still in use: in the order they were given out, their leads
go down, so no two of them are equal.
-/
import Mathlib.Data.List.Nodup
import Mathlib.Data.Nat.ModEq

namespace EspMisc
namespace Serial

def next (M c : Nat) : Nat := if c < M then c + 1 else 1

def lead (M c id : Nat) : Nat := (c + M - id) % M

variable {M c id n : Nat} {ids : List Nat}

theorem next_pos (M c : Nat) : 0 < next M c := by
  unfold next
  split <;> omega

theorem next_le (hM : 0 < M) : next M c ≤ M := by
  unfold next
  split <;> omega

theorem lead_next (hc : c ≤ M) (hid : id ≤ M) : lead M (next M c) id = (lead M c id + 1) % M := by
  unfold lead next
  rw [Nat.mod_add_mod]
  split
  · congr 1
    omega
  · -- the counter is at `M`, so the two sides differ by one turn
    rw [show c + M - id + 1 = 1 + M - id + M by omega, Nat.add_mod_right]

theorem iterate_next_le (hM : 0 < M) (hc : c ≤ M) : (next M)^[n] c ≤ M := by
  induction n with
  | zero => exact hc
  | succ n ih =>
    rw [Function.iterate_succ_apply']
    exact next_le hM

theorem lead_iterate (hM : 0 < M) (hc : c ≤ M) (hid : id ≤ M) :
    lead M ((next M)^[n] c) id = (lead M c id + n) % M := by
  induction n with
  | zero =>
    rw [Function.iterate_zero_apply, Nat.add_zero, lead, Nat.mod_mod]
  | succ n ih =>
    rw [Function.iterate_succ_apply', lead_next (iterate_next_le hM hc) hid, ih, Nat.mod_add_mod,
      Nat.add_assoc]

/-- The identifiers of the list were given out in its order and not come round to since. -/
structure Issued (M c : Nat) (ids : List Nat) : Prop where
  counter : c ≤ M
  valid : ∀ id ∈ ids, 0 < id ∧ id ≤ M
  order : ids.Pairwise fun a b => lead M c b < lead M c a

/-- The counter does not come round to the oldest identifier within `n` turns. -/
def Spared (M c : Nat) (ids : List Nat) (n : Nat) : Prop := ∀ id ∈ ids.head?, lead M c id + n < M

instance (M c : Nat) (ids : List Nat) (n : Nat) : Decidable (Spared M c ids n) :=
  inferInstanceAs (Decidable (∀ id ∈ ids.head?, lead M c id + n < M))

namespace Issued

theorem nil (hc : c ≤ M) : Issued M c [] := ⟨hc, by simp, List.Pairwise.nil⟩

theorem nodup (h : Issued M c ids) : ids.Nodup := by
  refine h.order.imp ?_
  rintro a b hlt rfl
  exact Nat.lt_irrefl _ hlt

theorem sublist {ids' : List Nat} (h : Issued M c ids) (hs : ids'.Sublist ids) :
    Issued M c ids' :=
  ⟨h.counter, fun id hid => h.valid id (hs.subset hid), h.order.sublist hs⟩

theorem lead_add_lt (h : Issued M c ids) (hn : Spared M c ids n) :
    ∀ id ∈ ids, lead M c id + n < M := by
  cases ids with
  | nil => simp
  | cons a ids =>
    have ha := hn a rfl
    refine List.forall_mem_cons.mpr ⟨ha, fun b hb => ?_⟩
    have hlt := (List.pairwise_cons.mp h.order).1 b hb
    omega

/-- The counter moves on without coming round. -/
theorem advance (h : Issued M c ids) (hM : 0 < M) (hn : Spared M c ids n) :
    Issued M ((next M)^[n] c) ids := by
  have hlead : ∀ id ∈ ids, lead M ((next M)^[n] c) id = lead M c id + n := by
    intro id hid
    rw [lead_iterate hM h.counter (h.valid id hid).2]
    exact Nat.mod_eq_of_lt (h.lead_add_lt hn id hid)
  refine ⟨iterate_next_le hM h.counter, h.valid, ?_⟩
  refine h.order.imp_of_mem ?_
  intro a b ha hb hlt
  rw [hlead a ha, hlead b hb]
  omega

/-- The next identifier is given out. -/
theorem issue (h : Issued M c ids) (hM : 0 < M) (hn : Spared M c ids 1) :
    Issued M (next M c) (ids ++ [next M c]) := by
  have hadv : Issued M (next M c) ids := h.advance hM hn
  have hself : lead M (next M c) (next M c) = 0 := by
    unfold lead
    rw [Nat.add_sub_cancel_left, Nat.mod_self]
  refine ⟨next_le hM, ?_, ?_⟩
  · rw [List.forall_mem_append, List.forall_mem_singleton]
    exact ⟨hadv.valid, next_pos M c, next_le hM⟩
  · rw [List.pairwise_append]
    refine ⟨hadv.order, List.pairwise_singleton _ _, fun a ha b hb => ?_⟩
    rw [List.mem_singleton.mp hb, hself,
      lead_next h.counter (h.valid a ha).2, Nat.mod_eq_of_lt (h.lead_add_lt hn a ha)]
    exact Nat.succ_pos _

end Issued

end Serial
end EspMisc
