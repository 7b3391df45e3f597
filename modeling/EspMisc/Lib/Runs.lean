/-
Runs of elements between separators.

`split p sep n s` reads `n + 1` runs of elements with the property `p`, each as long as
it can be and any of them empty, with one separator between two of them, and returns the
runs and what is left.  `split_eq_some_iff` says what was read without the reader: the
text is the runs with the separator between them, followed by something that does not go
on with the last run.
-/
import Mathlib.Data.List.Basic
import Mathlib.Data.List.TakeWhile

namespace EspMisc
namespace Runs

variable {α : Type} {p : α → Bool} {sep : α} {n : Nat} {s rest : List α} {gs : List (List α)}

theorem head_dropWhile (p : α → Bool) (s : List α) : ∀ c ∈ (s.dropWhile p).head?, p c = false := by
  intro c hc
  have hnot := List.head?_dropWhile_not p s
  rw [Option.mem_def.mp hc] at hnot
  exact hnot

theorem takeWhile_run {g : List α} (hg : ∀ c ∈ g, p c = true)
    (hrest : ∀ c ∈ rest.head?, p c = false) :
    (g ++ rest).takeWhile p = g ∧ (g ++ rest).dropWhile p = rest := by
  rw [List.takeWhile_append_of_pos hg, List.dropWhile_append_of_pos hg]
  cases rest with
  | nil => exact ⟨List.append_nil g, rfl⟩
  | cons c rest =>
    have hc := hrest c rfl
    rw [List.takeWhile_cons_of_neg (by simp [hc]), List.dropWhile_cons_of_neg (by simp [hc])]
    exact ⟨List.append_nil g, rfl⟩

variable [DecidableEq α]

def split (p : α → Bool) (sep : α) : Nat → List α → Option (List (List α) × List α)
  | 0, s => some ([s.takeWhile p], s.dropWhile p)
  | n + 1, s =>
    match s.dropWhile p with
    | [] => none
    | c :: t =>
      if c = sep then (split p sep n t).map fun r => (s.takeWhile p :: r.1, r.2) else none

/-- `s` is the `n` runs `gs` with separators between them, and then `rest`. -/
structure Splits (p : α → Bool) (sep : α) (n : Nat) (s : List α) (gs : List (List α))
    (rest : List α) : Prop where
  length : gs.length = n
  runs : ∀ g ∈ gs, ∀ c ∈ g, p c = true
  stop : ∀ c ∈ rest.head?, p c = false
  text : s = [sep].intercalate gs ++ rest

theorem split_succ_eq_some_iff :
    split p sep (n + 1) s = some (gs, rest) ↔
      ∃ t gs', s.dropWhile p = sep :: t ∧ split p sep n t = some (gs', rest) ∧
        gs = s.takeWhile p :: gs' := by
  rw [split]
  cases s.dropWhile p with
  | nil => simp
  | cons c t =>
    dsimp only
    rw [Option.ite_none_right_eq_some, Option.map_eq_some_iff]
    constructor
    · rintro ⟨rfl, ⟨gs', rest'⟩, hsplit, heq⟩
      obtain ⟨rfl, rfl⟩ := Prod.mk.inj heq
      exact ⟨t, gs', rfl, hsplit, rfl⟩
    · rintro ⟨t', gs', heq, hsplit, rfl⟩
      obtain ⟨rfl, rfl⟩ := List.cons.inj heq
      exact ⟨rfl, (gs', rest), hsplit, rfl⟩

theorem splits_of_split (h : split p sep n s = some (gs, rest)) :
    Splits p sep (n + 1) s gs rest := by
  induction n generalizing s gs with
  | zero =>
    obtain ⟨rfl, rfl⟩ := Prod.mk.inj (Option.some.inj h)
    refine ⟨rfl, ?_, head_dropWhile p s, ?_⟩
    · rw [List.forall_mem_singleton]
      intro c hc
      exact List.mem_takeWhile_imp hc
    · rw [List.intercalate_singleton, List.takeWhile_append_dropWhile]
  | succ n ih =>
    obtain ⟨t, gs', hdrop, hsplit, rfl⟩ := split_succ_eq_some_iff.mp h
    obtain ⟨hlen, hruns, hrest, htext⟩ := ih hsplit
    have hne : gs' ≠ [] := by
      rintro rfl
      exact absurd hlen nofun
    refine ⟨congrArg (· + 1) hlen, ?_, hrest, ?_⟩
    · rw [List.forall_mem_cons]
      exact ⟨fun c hc => List.mem_takeWhile_imp hc, hruns⟩
    · rw [List.intercalate_cons_of_ne_nil hne, List.append_assoc, List.append_assoc, ← htext,
        List.singleton_append, ← hdrop, List.takeWhile_append_dropWhile]

theorem split_of_splits (hsep : p sep = false) (h : Splits p sep (n + 1) s gs rest) :
    split p sep n s = some (gs, rest) := by
  obtain ⟨hlen, hruns, hrest, rfl⟩ := h
  induction n generalizing gs with
  | zero =>
    obtain ⟨g, rfl⟩ := List.length_eq_one_iff.mp hlen
    obtain ⟨htake, hdrop⟩ := takeWhile_run (hruns g (List.mem_singleton_self g)) hrest
    rw [List.intercalate_singleton, split, htake, hdrop]
  | succ n ih =>
    obtain ⟨g, gs, rfl⟩ := List.exists_cons_of_length_eq_add_one hlen
    obtain ⟨hg, hruns⟩ := List.forall_mem_cons.mp hruns
    have hlen : gs.length = n + 1 := Nat.succ.inj hlen
    have hne : gs ≠ [] := by
      rintro rfl
      exact absurd hlen nofun
    have hstop : ∀ c ∈ (sep :: ([sep].intercalate gs ++ rest)).head?, p c = false := by
      rintro c ⟨⟩
      exact hsep
    obtain ⟨htake, hdrop⟩ := takeWhile_run hg hstop
    rw [List.intercalate_cons_of_ne_nil hne, List.append_assoc, List.append_assoc,
      List.singleton_append, split, hdrop]
    dsimp only
    rw [if_pos rfl, ih hlen hruns, htake]
    rfl

theorem split_eq_some_iff (hsep : p sep = false) :
    split p sep n s = some (gs, rest) ↔ Splits p sep (n + 1) s gs rest :=
  ⟨splits_of_split, split_of_splits hsep⟩

end Runs
end EspMisc
