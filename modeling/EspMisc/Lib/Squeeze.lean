/-
Texts with one separator where there were several.

`squeeze sep l` leaves out a separator after a separator, and those at the end.  `pending`
does it in one pass: it counts the separators since the last other element, and puts one
down when another element comes.
-/
import Mathlib.Data.List.Destutter
import Mathlib.Data.List.DropRight
import Mathlib.Data.List.Induction

namespace EspMisc
namespace Squeeze

variable {α : Type} {sep c : α}

theorem rdropWhile_append_cons {p : α → Bool} (hc : p c = false) (a m : List α) :
    (a ++ c :: m).rdropWhile p = a ++ c :: m.rdropWhile p := by
  have hneg : ¬p c = true := by simp [hc]
  induction m using List.reverseRecOn with
  | nil => rw [List.rdropWhile_concat_neg p a c hneg, List.rdropWhile_nil]
  | append_singleton m d ih =>
    rw [← List.cons_append, ← List.append_assoc]
    by_cases hd : p d = true
    · rw [List.rdropWhile_concat_pos _ _ _ hd, List.rdropWhile_concat_pos _ _ _ hd, ih]
    · rw [List.rdropWhile_concat_neg _ _ _ hd, List.rdropWhile_concat_neg _ _ _ hd,
        List.append_assoc, List.cons_append]

theorem run_append_eq {m n : Nat} {t l : List α} (hc : c ≠ sep)
    (h : List.replicate m sep ++ t = List.replicate n sep ++ c :: l) :
    m ≤ n ∧ t = List.replicate (n - m) sep ++ c :: l := by
  induction m generalizing n with
  | zero => exact ⟨n.zero_le, h⟩
  | succ m ih =>
    cases n with
    | zero => exact absurd (List.cons.inj h).1.symm hc
    | succ n =>
      obtain ⟨hle, ht⟩ := ih (List.cons.inj h).2
      exact ⟨Nat.succ_le_succ hle, by rwa [Nat.add_sub_add_right]⟩

/-- A run of separators, and all that follows it, is part of the first run or comes after it. -/
theorem run_suffix_iff {m n : Nat} {t l : List α} (hc : c ≠ sep) :
    List.replicate (m + 1) sep ++ t <:+ List.replicate n sep ++ c :: l ↔
      (∃ j, m + 1 + j ≤ n ∧ t = List.replicate j sep ++ c :: l) ∨
        List.replicate (m + 1) sep ++ t <:+ l := by
  constructor
  · intro h
    induction n with
    | zero =>
      rcases List.suffix_cons_iff.mp h with heq | hl
      · exact absurd (List.cons.inj heq).1.symm hc
      · exact .inr hl
    | succ n ih =>
      rcases List.suffix_cons_iff.mp h with heq | hn
      · obtain ⟨hle, ht⟩ := run_append_eq hc (List.cons.inj heq).2
        exact .inl ⟨n - m, by omega, ht⟩
      · rcases ih hn with ⟨j, hj, ht⟩ | hl
        · exact .inl ⟨j, by omega, ht⟩
        · exact .inr hl
  · rintro (⟨j, hj, rfl⟩ | hl)
    · refine ⟨List.replicate (n - (m + 1 + j)) sep, ?_⟩
      rw [← List.append_assoc (List.replicate (m + 1) sep), List.replicate_append_replicate,
        ← List.append_assoc, List.replicate_append_replicate, Nat.sub_add_cancel hj]
    · exact hl.trans ((List.suffix_cons c l).trans (List.suffix_append _ _))

variable [DecidableEq α]

def squeeze (sep : α) (l : List α) : List α :=
  (l.destutter fun a b => ¬(a = sep ∧ b = sep)).rdropWhile (· == sep)

/-- With `n` separators before `l`. -/
def pending (sep : α) : Nat → List α → List α
  | _, [] => []
  | n, c :: l =>
    if c = sep then pending sep (n + 1) l
    else (if n = 0 then [] else [sep]) ++ c :: pending sep 0 l

theorem destutter'_other (hc : c ≠ sep) (l : List α) :
    l.destutter' (fun a b => ¬(a = sep ∧ b = sep)) c =
      c :: l.destutter fun a b => ¬(a = sep ∧ b = sep) := by
  cases l with
  | nil => rfl
  | cons b l =>
    have hrel : ¬(c = sep ∧ b = sep) := fun h => hc h.1
    rw [List.destutter'_cons_pos _ hrel, List.destutter_cons']

theorem destutter'_run (hc : c ≠ sep) (n : Nat) (l : List α) :
    (List.replicate n sep ++ c :: l).destutter' (fun a b => ¬(a = sep ∧ b = sep)) sep =
      sep :: c :: l.destutter fun a b => ¬(a = sep ∧ b = sep) := by
  induction n with
  | zero =>
    have hrel : ¬(sep = sep ∧ c = sep) := fun h => hc h.2
    rw [List.replicate_zero, List.nil_append, List.destutter'_cons_pos _ hrel,
      destutter'_other hc]
  | succ n ih =>
    have hrel : ¬¬(sep = sep ∧ sep = sep) := not_not_intro ⟨rfl, rfl⟩
    rw [List.replicate_succ, List.cons_append, List.destutter'_cons_neg _ hrel, ih]

theorem squeeze_run_cons (hc : c ≠ sep) (n : Nat) (l : List α) :
    squeeze sep (List.replicate n sep ++ c :: l) =
      (if n = 0 then [] else [sep]) ++ c :: squeeze sep l := by
  have hother : (· == sep) c = false := beq_false_of_ne hc
  cases n with
  | zero =>
    rw [squeeze, List.replicate_zero, List.nil_append, List.destutter_cons', destutter'_other hc]
    exact rdropWhile_append_cons (p := (· == sep)) hother [] _
  | succ n =>
    rw [squeeze, List.replicate_succ, List.cons_append, List.destutter_cons', destutter'_run hc]
    exact rdropWhile_append_cons (p := (· == sep)) hother [sep] _

theorem squeeze_run (n : Nat) : squeeze sep (List.replicate n sep) = [] := by
  rw [squeeze, List.rdropWhile_eq_nil_iff]
  intro x hx
  have hmem := (List.destutter_sublist _ _).mem hx
  rw [List.eq_of_mem_replicate hmem, beq_self_eq_true]

theorem mem_of_mem_squeeze {l : List α} (h : c ∈ squeeze sep l) : c ∈ l :=
  (List.destutter_sublist _ _).mem ((List.rdropWhile_prefix _ _).mem h)

theorem pending_eq (n : Nat) (l : List α) :
    pending sep n l = squeeze sep (List.replicate n sep ++ l) := by
  induction l generalizing n with
  | nil => rw [pending, List.append_nil, squeeze_run]
  | cons c l ih =>
    rw [pending]
    by_cases hc : c = sep
    · rw [if_pos hc, ih, hc, List.replicate_succ', List.append_assoc, List.singleton_append]
    · rw [if_neg hc, squeeze_run_cons hc, ih, List.replicate_zero, List.nil_append]

end Squeeze
end EspMisc
