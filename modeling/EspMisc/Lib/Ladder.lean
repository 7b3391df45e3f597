/-
A ladder over the bits of a number: two values, of which one is doubled and the other is the
sum of the two, and the bit says which.

A loop without branches exchanges the two values before each step and not after it, so that
what it has to undo for one bit is joined with what the next one asks for.  `lazy_foldl` says
that this is the ladder, up to the exchange that is still due at the end.
-/
import Mathlib.Data.List.Basic
import Mathlib.Data.Prod.Basic

namespace EspMisc
namespace Ladder

variable {α : Type} (dbl : α → α) (add : α → α → α)

def step (s : α × α) (b : Bool) : α × α :=
  if b then (add s.1 s.2, dbl s.2) else (dbl s.1, add s.1 s.2)

def swapIf (b : Bool) (s : α × α) : α × α := if b then s.swap else s

/-- The state of the loop is the pair and the bit before. -/
def lazyStep (s : (α × α) × Bool) (b : Bool) : (α × α) × Bool :=
  let p := swapIf (xor b s.2) s.1
  ((dbl p.1, add p.1 p.2), b)

variable {dbl add}

theorem swapIf_swapIf (b c : Bool) (s : α × α) : swapIf b (swapIf c s) = swapIf (xor b c) s := by
  cases b with
  | false =>
    rw [Bool.false_xor]
    rfl
  | true =>
    cases c with
    | false => rfl
    | true => exact Prod.swap_swap s

theorem lazyStep_eq (hadd : ∀ a b, add a b = add b a) (s : α × α) (c b : Bool) :
    lazyStep dbl add (swapIf c s, c) b = (swapIf b (step dbl add s b), b) := by
  have hswap : swapIf (xor b c) (swapIf c s) = swapIf b s := by
    rw [swapIf_swapIf, Bool.xor_assoc, Bool.xor_self, Bool.xor_false]
  rw [lazyStep]
  simp only [hswap]
  cases b with
  | false => rfl
  | true => exact congrArg (fun a => ((dbl s.2, a), true)) (hadd s.2 s.1)

theorem lazy_foldl (hadd : ∀ a b, add a b = add b a) (bits : List Bool) (s : α × α) (c : Bool) :
    bits.foldl (lazyStep dbl add) (swapIf c s, c) =
      (swapIf (bits.getLastD c) (bits.foldl (step dbl add) s), bits.getLastD c) := by
  induction bits generalizing s c with
  | nil => rfl
  | cons b bits ih =>
    rw [List.foldl_cons, lazyStep_eq hadd, ih, List.foldl_cons, List.getLastD_cons]

end Ladder
end EspMisc
