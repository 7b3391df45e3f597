/-
Runs of a labelled step function.

`step s i` is what the input `i` does in the state `s`: the next state and the
outputs, or `none` when the input is not possible there.  A run is recorded step by
step, so a property of a run can look at the state before a step, at its input and
at its outputs.  `Run.invariant` and `Run.history` are the rules for an invariant of
the state and for one of the state together with the steps that led to it, and
`Run.always_iff` and `Run.law_iff` are the rules for a condition on the steps that is
exact, for a property of the states and for one of the steps.

A component whose calls are always possible is a function from the state and the call to
the next state and the reply; `Simulates.replies` compares two of them.
-/
import Mathlib.Data.List.Basic

namespace EspMisc
namespace Machine

variable {σ ι ο : Type}

/-- A step that was taken. -/
structure Taken (σ ι ο : Type) where
  before : σ
  input : ι
  output : List ο
  after : σ

/-- The steps from `s₀` on, and the state they lead to. -/
inductive Run (step : σ → ι → Option (σ × List ο)) (s₀ : σ) : List (Taken σ ι ο) → σ → Prop
  | nil : Run step s₀ [] s₀
  | snoc {tr : List (Taken σ ι ο)} {s t : σ} {i : ι} {out : List ο} :
      Run step s₀ tr s → step s i = some (t, out) → Run step s₀ (tr ++ [⟨s, i, out, t⟩]) t

/-- The run on a list of inputs. -/
def exec (step : σ → ι → Option (σ × List ο)) : σ → List ι → Option (List (Taken σ ι ο) × σ)
  | s, [] => some ([], s)
  | s, i :: is =>
    (step s i).bind fun r =>
      (exec step r.1 is).map fun e => (⟨s, i, r.2, r.1⟩ :: e.1, e.2)

/-- How many steps that `tick` counts were taken since the last one that `reset` picks. -/
def since (tick reset : Taken σ ι ο → Bool) (tr : List (Taken σ ι ο)) : Nat :=
  tr.foldl (fun n k => if reset k then 0 else if tick k then n + 1 else n) 0

theorem since_snoc (tick reset : Taken σ ι ο → Bool) (tr : List (Taken σ ι ο)) (k : Taken σ ι ο) :
    since tick reset (tr ++ [k]) =
      if reset k then 0 else if tick k then since tick reset tr + 1 else since tick reset tr :=
  List.foldl_concat ..

/-- The steps after the last one that `p` picks, if it picks any. -/
def sinceLast (p : Taken σ ι ο → Bool) (tr : List (Taken σ ι ο)) :
    Option (List (Taken σ ι ο)) :=
  tr.foldl (fun last k => if p k then some [] else last.map (· ++ [k])) none

theorem sinceLast_snoc (p : Taken σ ι ο → Bool) (tr : List (Taken σ ι ο)) (k : Taken σ ι ο) :
    sinceLast p (tr ++ [k]) =
      if p k then some [] else (sinceLast p tr).map (· ++ [k]) :=
  List.foldl_concat ..

/-- The step that `p` picks after it has picked `n` others. -/
theorem exists_nth {p : Taken σ ι ο → Bool} {n : Nat} {tr : List (Taken σ ι ο)}
    (h : n < tr.countP p) : ∃ a k b, tr = a ++ k :: b ∧ p k = true ∧ a.countP p = n := by
  induction tr generalizing n with
  | nil => exact absurd h (Nat.not_lt_zero n)
  | cons k tr ih =>
    by_cases hk : p k = true
    · rw [List.countP_cons_of_pos hk] at h
      cases n with
      | zero => exact ⟨[], k, tr, rfl, hk, rfl⟩
      | succ n =>
        obtain ⟨a, k', b, rfl, hk', hcount⟩ := ih (Nat.lt_of_succ_lt_succ h)
        exact ⟨k :: a, k', b, rfl, hk', (List.countP_cons_of_pos hk).trans (congrArg _ hcount)⟩
    · rw [List.countP_cons_of_neg hk] at h
      obtain ⟨a, k', b, rfl, hk', hcount⟩ := ih h
      exact ⟨k :: a, k', b, rfl, hk', (List.countP_cons_of_neg hk).trans hcount⟩

variable {step : σ → ι → Option (σ × List ο)} {s₀ s t : σ} {tr : List (Taken σ ι ο)}

namespace Run

theorem single {i : ι} {out : List ο} (h : step s i = some (t, out)) :
    Run step s [⟨s, i, out, t⟩] t := .snoc .nil h

/-- A run goes on with an input that is possible in its last state. -/
theorem snoc_get (h : Run step s₀ tr s) {i : ι} (hi : (step s i).isSome) :
    Run step s₀ (tr ++ [⟨s, i, ((step s i).get hi).2, ((step s i).get hi).1⟩])
      ((step s i).get hi).1 :=
  .snoc h (Option.some_get hi).symm

theorem append {tr' : List (Taken σ ι ο)} (h : Run step s₀ tr s) (h' : Run step s tr' t) :
    Run step s₀ (tr ++ tr') t := by
  induction h' with
  | nil => rwa [List.append_nil]
  | snoc _ hstep ih =>
    rw [← List.append_assoc]
    exact .snoc ih hstep

/-- A step of a run was possible in a state that a shorter run leads to. -/
theorem taken (h : Run step s₀ tr s) :
    ∀ a b, ∀ k : Taken σ ι ο, tr = a ++ k :: b →
      Run step s₀ a k.before ∧ step k.before k.input = some (k.after, k.output) := by
  induction h with
  | nil =>
    intro a b k he
    exact absurd he.symm (by simp)
  | @snoc tr s t i out hrun hstep ih =>
    intro a b k he
    rcases List.eq_nil_or_concat b with rfl | ⟨b, k', rfl⟩
    · obtain ⟨rfl, hk⟩ := List.append_inj' he rfl
      obtain rfl := (List.cons.inj hk).1
      exact ⟨hrun, hstep⟩
    · rw [List.concat_eq_append, ← List.cons_append, ← List.append_assoc] at he
      exact ih a b k (List.append_inj' he rfl).1

/-- The first step was possible at the start. -/
theorem first {k : Taken σ ι ο} (h : Run step s₀ (k :: tr) s) :
    step s₀ k.input = some (k.after, k.output) := by
  have hnil : ∀ {tr : List (Taken σ ι ο)} {t : σ}, Run step s₀ tr t → tr = [] → t = s₀ := by
    intro tr t hrun htr
    cases hrun with
    | nil => rfl
    | snoc => exact absurd htr (by simp)
  obtain ⟨hrun, hstep⟩ := h.taken [] tr k rfl
  rwa [hnil hrun rfl] at hstep

theorem taken_of_mem (h : Run step s₀ tr s) {k : Taken σ ι ο} (hk : k ∈ tr) :
    ∃ tr', Run step s₀ tr' k.before ∧ (∀ k' ∈ tr', k' ∈ tr) ∧
      step k.before k.input = some (k.after, k.output) := by
  obtain ⟨a, b, rfl⟩ := List.append_of_mem hk
  obtain ⟨hrun, hstep⟩ := h.taken a b k rfl
  exact ⟨a, hrun, fun k' hk' => List.mem_append_left _ hk', hstep⟩

/-- A run ends where it starts or where one of its steps leads to. -/
theorem ends (h : Run step s₀ tr s) : s = s₀ ∨ ∃ k ∈ tr, k.after = s := by
  cases h with
  | nil => exact .inl rfl
  | snoc _ _ => exact .inr ⟨_, List.mem_append_right _ (List.mem_singleton_self _), rfl⟩

/-- An invariant of the state and of the steps that led to it, kept by every allowed
step. -/
theorem history {allowed : Taken σ ι ο → Prop} (inv : σ → List (Taken σ ι ο) → Prop)
    (init : inv s₀ [])
    (keep : ∀ {s tr i t out}, inv s tr → step s i = some (t, out) → allowed ⟨s, i, out, t⟩ →
      inv t (tr ++ [⟨s, i, out, t⟩]))
    (h : Run step s₀ tr s) (hok : ∀ k ∈ tr, allowed k) : inv s tr := by
  induction h with
  | nil => exact init
  | snoc _ hstep ih =>
    exact keep (ih fun k hk => hok k (List.mem_append_left _ hk)) hstep
      (hok _ (List.mem_append_right _ (List.mem_singleton_self _)))

/-- An invariant of the state that every allowed step keeps. -/
theorem invariant {allowed : Taken σ ι ο → Prop} (inv : σ → Prop) (init : inv s₀)
    (keep : ∀ {s i t out}, inv s → step s i = some (t, out) → allowed ⟨s, i, out, t⟩ → inv t)
    (h : Run step s₀ tr s) (hok : ∀ k ∈ tr, allowed k) : inv s :=
  h.history (fun s _ => inv s) init keep hok

/-- An invariant of the state and of the steps that led to it, kept by every step. -/
theorem always_history (inv : σ → List (Taken σ ι ο) → Prop) (init : inv s₀ [])
    (keep : ∀ {s tr i t out}, inv s tr → step s i = some (t, out) →
      inv t (tr ++ [⟨s, i, out, t⟩]))
    (h : Run step s₀ tr s) : inv s tr := by
  induction h with
  | nil => exact init
  | snoc _ hstep ih => exact keep ih hstep

/-- An invariant that every step keeps. -/
theorem always (inv : σ → Prop) (init : inv s₀)
    (keep : ∀ {s i t out}, inv s → step s i = some (t, out) → inv t)
    (h : Run step s₀ tr s) : inv s :=
  h.always_history (fun s _ => inv s) init keep

/-- A property that a run starts with, and that a step keeps exactly when it is
allowed, holds all along the run exactly when every step is allowed. -/
theorem always_iff {allowed : Taken σ ι ο → Prop} (inv good : σ → Prop)
    (init : inv s₀) (start : good s₀)
    (keep : ∀ {s i t out}, inv s → step s i = some (t, out) → inv t)
    (iff : ∀ {s i t out}, inv s → good s → step s i = some (t, out) →
      (good t ↔ allowed ⟨s, i, out, t⟩))
    (h : Run step s₀ tr s) : (∀ k ∈ tr, good k.after) ↔ ∀ k ∈ tr, allowed k := by
  suffices hall : inv s ∧ ((∀ k ∈ tr, good k.after) → good s) ∧
      ((∀ k ∈ tr, good k.after) ↔ ∀ k ∈ tr, allowed k) from hall.2.2
  induction h with
  | nil => exact ⟨init, fun _ => start, by simp⟩
  | snoc _ hstep ih =>
    obtain ⟨hinv, hgood, hiff⟩ := ih
    simp only [List.forall_mem_append, List.forall_mem_singleton]
    refine ⟨keep hinv hstep, fun hall => hall.2, ?_⟩
    constructor
    · intro hall
      exact ⟨hiff.mp hall.1, (iff hinv (hgood hall.1) hstep).mp hall.2⟩
    · intro hall
      have hbefore := hiff.mpr hall.1
      exact ⟨hbefore, (iff hinv (hgood hbefore) hstep).mpr hall.2⟩

/-- A law of the steps that, under an invariant the allowed steps keep, a step obeys
exactly when it is allowed: all of a run obeys it exactly when every step is allowed. -/
theorem law_iff {allowed law : Taken σ ι ο → Prop} (inv : σ → Prop) (init : inv s₀)
    (keep : ∀ {s i t out}, inv s → step s i = some (t, out) → allowed ⟨s, i, out, t⟩ → inv t)
    (iff : ∀ {s i t out}, inv s → step s i = some (t, out) →
      (law ⟨s, i, out, t⟩ ↔ allowed ⟨s, i, out, t⟩))
    (h : Run step s₀ tr s) : (∀ k ∈ tr, law k) ↔ ∀ k ∈ tr, allowed k := by
  suffices hall : ((∀ k ∈ tr, allowed k) → inv s) ∧
      ((∀ k ∈ tr, law k) ↔ ∀ k ∈ tr, allowed k) from hall.2
  induction h with
  | nil => exact ⟨fun _ => init, by simp⟩
  | snoc _ hstep ih =>
    obtain ⟨hinv, hiff⟩ := ih
    simp only [List.forall_mem_append, List.forall_mem_singleton]
    refine ⟨fun hall => keep (hinv hall.1) hstep hall.2, ?_⟩
    constructor
    · intro hall
      have hbefore := hiff.mp hall.1
      exact ⟨hbefore, (iff (hinv hbefore) hstep).mp hall.2⟩
    · intro hall
      exact ⟨hiff.mpr hall.1, (iff (hinv hall.1) hstep).mpr hall.2⟩

/-- What holds of every step after the steps before it, for one step more. -/
theorem forall_splits_snoc (p : List (Taken σ ι ο) → Taken σ ι ο → Prop)
    {tr : List (Taken σ ι ο)} {k : Taken σ ι ο} :
    (∀ a k' b, tr ++ [k] = a ++ k' :: b → p a k') ↔
      (∀ a k' b, tr = a ++ k' :: b → p a k') ∧ p tr k := by
  constructor
  · intro hall
    refine ⟨fun a k' b he => hall a k' (b ++ [k]) ?_, hall tr k [] rfl⟩
    rw [he, List.append_assoc, List.cons_append]
  · rintro ⟨hall, hlast⟩ a k' b he
    rcases List.eq_nil_or_concat b with rfl | ⟨b, k'', rfl⟩
    · obtain ⟨rfl, hk⟩ := List.append_inj' he rfl
      obtain rfl := (List.cons.inj hk).1
      exact hlast
    · rw [List.concat_eq_append, ← List.cons_append, ← List.append_assoc] at he
      exact hall a k' b (List.append_inj' he rfl).1

/-- The same rule for a law that looks at the steps before, too. -/
theorem law_history_iff {allowed law : List (Taken σ ι ο) → Taken σ ι ο → Prop}
    (inv : σ → List (Taken σ ι ο) → Prop) (init : inv s₀ [])
    (keep : ∀ {s tr i t out}, inv s tr → step s i = some (t, out) → allowed tr ⟨s, i, out, t⟩ →
      inv t (tr ++ [⟨s, i, out, t⟩]))
    (iff : ∀ {s tr i t out}, inv s tr → step s i = some (t, out) →
      (law tr ⟨s, i, out, t⟩ ↔ allowed tr ⟨s, i, out, t⟩))
    (h : Run step s₀ tr s) :
    (∀ a k b, tr = a ++ k :: b → law a k) ↔ ∀ a k b, tr = a ++ k :: b → allowed a k := by
  suffices hall : ((∀ a k b, tr = a ++ k :: b → allowed a k) → inv s tr) ∧
      ((∀ a k b, tr = a ++ k :: b → law a k) ↔ ∀ a k b, tr = a ++ k :: b → allowed a k) from hall.2
  induction h with
  | nil => exact ⟨fun _ => init, by simp⟩
  | snoc _ hstep ih =>
    obtain ⟨hinv, hiff⟩ := ih
    rw [forall_splits_snoc law, forall_splits_snoc allowed]
    refine ⟨fun hall => keep (hinv hall.1) hstep hall.2, ?_⟩
    constructor
    · intro hall
      have hbefore := hiff.mp hall.1
      exact ⟨hbefore, (iff (hinv hbefore) hstep).mp hall.2⟩
    · intro hall
      exact ⟨hiff.mpr hall.1, (iff (hinv hall.1) hstep).mpr hall.2⟩

end Run

theorem exec_run {is : List ι} : ∀ {s : σ} {tr : List (Taken σ ι ο)} {t : σ},
    exec step s is = some (tr, t) → Run step s tr t := by
  induction is with
  | nil =>
    intro s tr t h
    obtain ⟨rfl, rfl⟩ := Prod.mk.inj (Option.some.inj h)
    exact .nil
  | cons i is ih =>
    intro s tr t h
    obtain ⟨r, hr, h⟩ := Option.bind_eq_some_iff.mp h
    obtain ⟨e, he, h⟩ := Option.map_eq_some_iff.mp h
    obtain ⟨rfl, rfl⟩ := Prod.mk.inj h
    exact (Run.single hr).append (ih he)

/-- The steps are those of the inputs. -/
theorem exec_inputs {is : List ι} : ∀ {s : σ} {tr : List (Taken σ ι ο)} {t : σ},
    exec step s is = some (tr, t) → tr.map Taken.input = is := by
  induction is with
  | nil =>
    intro s tr t h
    obtain ⟨rfl, rfl⟩ := Prod.mk.inj (Option.some.inj h)
    rfl
  | cons i is ih =>
    intro s tr t h
    obtain ⟨r, hr, h⟩ := Option.bind_eq_some_iff.mp h
    obtain ⟨e, he, h⟩ := Option.map_eq_some_iff.mp h
    obtain ⟨rfl, rfl⟩ := Prod.mk.inj h
    rw [List.map_cons, ih he]

theorem exec_get {is : List ι} (h : (exec step s is).isSome) :
    Run step s ((exec step s is).get h).1 ((exec step s is).get h).2 :=
  exec_run (Option.some_get h).symm

theorem input_mem_of_exec {is : List ι} (h : (exec step s is).isSome) {k : Taken σ ι ο}
    (hk : k ∈ ((exec step s is).get h).1) : k.input ∈ is := by
  rw [← exec_inputs (Option.some_get h).symm]
  exact List.mem_map_of_mem hk

/-! ## Calls and replies -/

variable {τ ρ : Type}

/-- One call after another, and what each of them replied. -/
def replies (call : σ → ι → σ × ρ) : σ → List ι → σ × List ρ
  | s, [] => (s, [])
  | s, i :: is =>
    ((replies call (call s i).1 is).1, (call s i).2 :: (replies call (call s i).1 is).2)

/-- The calls of one component reply as those of another do on related states, and lead to
related states. -/
def Simulates (rel : σ → τ → Prop) (call : σ → ι → σ × ρ) (spec : τ → ι → τ × ρ) : Prop :=
  ∀ s t i, rel s t → (call s i).2 = (spec t i).2 ∧ rel (call s i).1 (spec t i).1

theorem Simulates.replies {rel : σ → τ → Prop} {call : σ → ι → σ × ρ} {spec : τ → ι → τ × ρ}
    (h : Simulates rel call spec) {s : σ} {t : τ} (hrel : rel s t) (is : List ι) :
    (replies call s is).2 = (replies spec t is).2 ∧
      rel (replies call s is).1 (replies spec t is).1 := by
  induction is generalizing s t with
  | nil => exact ⟨rfl, hrel⟩
  | cons i is ih =>
    obtain ⟨hreply, hnext⟩ := h s t i hrel
    obtain ⟨hreplies, hlast⟩ := ih hnext
    exact ⟨by rw [Machine.replies, Machine.replies, hreply, hreplies], hlast⟩

end Machine
end EspMisc
