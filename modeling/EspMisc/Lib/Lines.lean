/-
Lines.

A line is a text that ends in the mark `nl` and has no other.  A text is cut into lines in
at most one way, and what has no mark is no part of a text made of lines.
-/
import Mathlib.Data.List.Basic

namespace EspMisc
namespace Lines

variable {α : Type} {nl : α} {l t : List α} {ls ms : List (List α)}

def IsLine (nl : α) (l : List α) : Prop := ∃ body, nl ∉ body ∧ l = body ++ [nl]

theorem not_isLine_nil : ¬IsLine nl [] := by
  rintro ⟨body, -, h⟩
  exact absurd h (by simp)

theorem isLine_concat_iff : IsLine nl (l ++ [nl]) ↔ nl ∉ l := by
  constructor
  · rintro ⟨body, hbody, h⟩
    rwa [(List.append_inj' h rfl).1]
  · intro h
    exact ⟨l, h, rfl⟩

/-- The first mark is in one place. -/
theorem body_unique {body body' rest rest' : List α} (hbody : nl ∉ body) (hbody' : nl ∉ body')
    (h : body ++ nl :: rest = body' ++ nl :: rest') : body = body' ∧ rest = rest' := by
  rcases List.append_eq_append_iff.mp h with ⟨as, rfl, has⟩ | ⟨as, rfl, has⟩
  · cases as with
    | nil => exact ⟨(List.append_nil body).symm, (List.cons.inj has).2⟩
    | cons c as =>
      obtain rfl := (List.cons.inj has).1
      exact absurd (by simp) hbody'
  · cases as with
    | nil => exact ⟨List.append_nil body', (List.cons.inj has).2.symm⟩
    | cons c as =>
      obtain rfl := (List.cons.inj has).1
      exact absurd (by simp) hbody

theorem flatten_unique (hms : ∀ m ∈ ms, IsLine nl m) (hls : ∀ l ∈ ls, IsLine nl l) (ht : nl ∉ t)
    (h : ms.flatten ++ t = ls.flatten) : ms = ls ∧ t = [] := by
  induction ms generalizing ls with
  | nil =>
    cases ls with
    | nil => exact ⟨rfl, h⟩
    | cons l ls =>
      -- the mark of the line `l` would be in `t`
      obtain ⟨body, -, rfl⟩ := hls l List.mem_cons_self
      rw [List.flatten_nil, List.nil_append] at h
      exact absurd (by simp [h]) ht
  | cons m ms ih =>
    obtain ⟨⟨body, hbody, rfl⟩, hms'⟩ := List.forall_mem_cons.mp hms
    cases ls with
    | nil => exact absurd h (by simp)
    | cons l ls =>
      obtain ⟨⟨body', hbody', rfl⟩, hls'⟩ := List.forall_mem_cons.mp hls
      simp only [List.flatten_cons, List.append_assoc, List.cons_append, List.nil_append] at h
      obtain ⟨rfl, hrest⟩ := body_unique hbody hbody' h
      obtain ⟨rfl, rfl⟩ := ih hms' hls' hrest
      exact ⟨rfl, rfl⟩

end Lines
end EspMisc
