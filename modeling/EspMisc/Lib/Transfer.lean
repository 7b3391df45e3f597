/-
Loops that move something until it is enough.

A transfer takes turns until it can go no further or until it has taken as many as it was
asked for, and it asks after a turn and not before the first one.  `times` is what it is
compared with: a fixed number of calls.  `transfer_eq` says how many calls a transfer
amounts to, whatever the turns are, as long as there is a count of what is left.
-/
import Mathlib.Data.List.Basic

namespace EspMisc
namespace Transfer

variable {σ τ α : Type}

/-- `while (!stop) { turn; if (++done == enough) break; }`: where it ends, the count, and
what was moved.  It is `none` when `turns` do not suffice. -/
def transfer (stop : σ → Bool) (turn : Nat → σ → σ × List α) (enough : Nat) :
    Nat → Nat → σ → Option (σ × Nat × List α)
  | 0, _, _ => none
  | turns + 1, done, s =>
    if stop s then some (s, done, [])
    else if done + 1 = enough then some ((turn done s).1, done + 1, (turn done s).2)
    else
      (transfer stop turn enough turns (done + 1) (turn done s).1).map fun r =>
        (r.1, r.2.1, (turn done s).2 ++ r.2.2)

/-- The same thing `count` times, and what was moved. -/
def times (call : Nat → τ → τ × List α) : Nat → Nat → τ → τ × List α
  | 0, _, t => (t, [])
  | count + 1, i, t =>
    ((times call count (i + 1) (call i t).1).1,
      (call i t).2 ++ (times call count (i + 1) (call i t).1).2)

/-- How much a loop moves that could move `left`: it stops at `enough` only if it gets
there. -/
def moved (enough done left : Nat) : Nat := if done < enough then min (enough - done) left else left

theorem moved_start (enough left : Nat) :
    moved enough 0 left = if enough = 0 then left else min enough left := by
  unfold moved
  split <;> split <;> omega

theorem moved_none (enough : Nat) : moved enough 0 0 = 0 := by
  rw [moved_start]
  split
  · rfl
  · exact Nat.min_zero enough

theorem moved_pos (enough : Nat) {left : Nat} (h : 0 < left) : 0 < moved enough 0 left := by
  rw [moved_start]
  split
  · exact h
  · omega

theorem moved_succ {enough done left : Nat} (h : done + 1 ≠ enough) :
    moved enough done (left + 1) = moved enough (done + 1) left + 1 := by
  unfold moved
  split <;> split <;> omega

/-- What every turn keeps, the loop keeps. -/
theorem transfer_keeps {p : σ → Prop} {stop : σ → Bool} {turn : Nat → σ → σ × List α}
    (hturn : ∀ i s, p s → p (turn i s).1) {enough turns done : Nat} {s : σ} (h : p s)
    {r : σ × Nat × List α} (hr : transfer stop turn enough turns done s = some r) : p r.1 := by
  induction turns generalizing done s r with
  | zero => exact absurd hr (by simp [transfer])
  | succ turns ih =>
    rw [transfer] at hr
    by_cases hstop : stop s = true
    · rw [if_pos hstop] at hr
      obtain rfl := Option.some.inj hr
      exact h
    · rw [if_neg hstop] at hr
      by_cases henough : done + 1 = enough
      · rw [if_pos henough] at hr
        obtain rfl := Option.some.inj hr
        exact hturn done s h
      · rw [if_neg henough] at hr
        obtain ⟨r', hr', rfl⟩ := Option.map_eq_some_iff.mp hr
        have hrest := ih (hturn done s h) hr'
        exact hrest

/-- A loop whose turns do what the calls do, as long as something is left. -/
theorem transfer_eq (rel : Nat → σ → τ → Prop) {stop : σ → Bool} {turn : Nat → σ → σ × List α}
    {call : Nat → τ → τ × List α}
    (hstop : ∀ {left s t}, rel left s t → (stop s = true ↔ left = 0))
    (hturn : ∀ {left s t} (i : Nat), rel (left + 1) s t →
      rel left (turn i s).1 (call i t).1 ∧ (turn i s).2 = (call i t).2)
    (enough done : Nat) {turns left : Nat} {s : σ} {t : τ} (h : rel left s t)
    (hturns : left < turns) :
    ∃ s', transfer stop turn enough turns done s =
        some (s', done + moved enough done left, (times call (moved enough done left) done t).2) ∧
      rel (left - moved enough done left) s' (times call (moved enough done left) done t).1 := by
  induction turns generalizing done left s t with
  | zero => exact absurd hturns (Nat.not_lt_zero left)
  | succ turns ih =>
    rw [transfer]
    cases left with
    | zero =>
      have hnone : moved enough done 0 = 0 := by
        unfold moved
        split <;> omega
      rw [if_pos ((hstop h).mpr rfl), hnone]
      exact ⟨s, rfl, h⟩
    | succ left =>
      have hgo : ¬stop s = true := fun hs => absurd ((hstop h).mp hs) (Nat.succ_ne_zero left)
      obtain ⟨hnext, hsame⟩ := hturn done h
      rw [if_neg hgo]
      by_cases henough : done + 1 = enough
      · have hone : moved enough done (left + 1) = 1 := by
          unfold moved
          rw [if_pos (by omega)]
          omega
        rw [if_pos henough, hone, hsame]
        exact ⟨_, by rw [times, times, List.append_nil], hnext⟩
      · obtain ⟨s', hrest, hlast⟩ := ih (done + 1) hnext (Nat.lt_of_succ_lt_succ hturns)
        rw [if_neg henough, moved_succ henough, hrest, Option.map_some, hsame, times]
        refine ⟨s', by rw [show done + 1 + moved enough (done + 1) left =
          done + (moved enough (done + 1) left + 1) by omega], ?_⟩
        rwa [Nat.add_sub_add_right]

end Transfer
end EspMisc
