/-
A list of entries that mirrors a map.

Each entry has a key and a value.  The list mirrors a partial map when no two entries
have the same key and the entries are those that the map holds.  The lemmas say how the
map changes with the list: an entry is added, taken out, or put in the place of another.
-/
import Mathlib.Data.List.Basic
import Mathlib.Logic.Function.Basic

namespace EspMisc
namespace Catalogue

variable {ε κ ν : Type}

structure Mirrors (key : ε → κ) (val : ε → ν) (l : List ε) (m : κ → Option ν) : Prop where
  nodup : (l.map key).Nodup
  mem : ∀ k v, (∃ e ∈ l, key e = k ∧ val e = v) ↔ m k = some v

namespace Mirrors

variable {key : ε → κ} {val : ε → ν} {l l' a b : List ε} {m m' : κ → Option ν} {e e' : ε}

theorem get (h : Mirrors key val l m) (he : e ∈ l) : m (key e) = some (val e) :=
  (h.mem _ _).mp ⟨e, he, rfl, rfl⟩

theorem exists_of_isSome (h : Mirrors key val l m) {k : κ} (hk : (m k).isSome = true) :
    ∃ e ∈ l, key e = k := by
  obtain ⟨v, hv⟩ := Option.isSome_iff_exists.mp hk
  obtain ⟨e, he, hkey, -⟩ := (h.mem k v).mpr hv
  exact ⟨e, he, hkey⟩

theorem perm (h : Mirrors key val l m) (hl : l.Perm l') : Mirrors key val l' m where
  nodup := (hl.map key).nodup_iff.mp h.nodup
  mem := by
    intro k v
    rw [← h.mem]
    simp only [hl.mem_iff]

/-- Two lists about different keys. -/
theorem append (h : Mirrors key val l m) (h' : Mirrors key val l' m')
    (hdisjoint : ∀ k, m k = none ∨ m' k = none) :
    Mirrors key val (l ++ l') fun k => (m k).or (m' k) where
  nodup := by
    rw [List.map_append, List.nodup_append]
    refine ⟨h.nodup, h'.nodup, ?_⟩
    intro k hk k' hk' heq
    obtain ⟨e, he, rfl⟩ := List.mem_map.mp hk
    obtain ⟨e', he', rfl⟩ := List.mem_map.mp hk'
    have hget := h.get he
    have hget' := h'.get he'
    rcases hdisjoint (key e) with hnone | hnone
    · exact absurd (hget.symm.trans hnone) nofun
    · rw [heq] at hnone
      exact absurd (hget'.symm.trans hnone) nofun
  mem := by
    intro k v
    simp only [List.mem_append, or_and_right, exists_or, h.mem, h'.mem]
    rcases hdisjoint k with hnone | hnone <;> simp [hnone]

variable [DecidableEq κ]

theorem cons (h : Mirrors key val l m) (hnew : m (key e) = none) :
    Mirrors key val (e :: l) (Function.update m (key e) (some (val e))) where
  nodup := by
    rw [List.map_cons, List.nodup_cons]
    refine ⟨?_, h.nodup⟩
    intro hmem
    obtain ⟨x, hx, hkey⟩ := List.mem_map.mp hmem
    have hget := h.get hx
    rw [hkey, hnew] at hget
    exact absurd hget nofun
  mem := by
    intro k v
    simp only [List.mem_cons, or_and_right, exists_or, exists_eq_left, h.mem]
    by_cases hk : k = key e
    · subst hk
      simp [hnew]
    · rw [Function.update_of_ne hk]
      simp [Ne.symm hk]

theorem tail (h : Mirrors key val (e :: l) m) :
    Mirrors key val l (Function.update m (key e) none) where
  nodup := (List.nodup_cons.mp h.nodup).2
  mem := by
    intro k v
    have hnotin := (List.nodup_cons.mp h.nodup).1
    by_cases hk : k = key e
    · subst hk
      rw [Function.update_self]
      constructor
      · rintro ⟨x, hx, hkey, -⟩
        exact absurd (List.mem_map.mpr ⟨x, hx, hkey⟩) hnotin
      · exact nofun
    · rw [Function.update_of_ne hk, ← h.mem]
      simp only [List.mem_cons, or_and_right, exists_or, exists_eq_left]
      simp [Ne.symm hk]

theorem erase (h : Mirrors key val (a ++ e :: b) m) :
    Mirrors key val (a ++ b) (Function.update m (key e) none) :=
  (h.perm List.perm_middle).tail

/-- An entry in the place of another one. -/
theorem replace (h : Mirrors key val (a ++ e :: b) m)
    (hnew : key e' ≠ key e → m (key e') = none) :
    Mirrors key val (a ++ e' :: b)
      (Function.update (Function.update m (key e) none) (key e') (some (val e'))) := by
  refine (h.erase.cons ?_).perm List.perm_middle.symm
  by_cases hk : key e' = key e
  · rw [hk, Function.update_self]
  · rw [Function.update_of_ne hk]
    exact hnew hk

end Mirrors
end Catalogue
end EspMisc
