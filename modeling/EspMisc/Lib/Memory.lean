/-
Copying between memories.

A memory has a byte at every address.  `copy` puts a range of one memory over a range of
another, and `copyLoop` does it byte by byte, up to a bound.  Two copies of ranges that
follow each other are one copy (`copy_add`), so what a routine copies in parts is said
once, for the whole range.

`Ram` is a memory whose addresses have 32 bits.  What is stored there in parts is said once
as well (`store_append`), also of a range that goes past the last address and on from 0.
-/
import Mathlib.Data.List.GetD
import EspMisc.Lib.Flash

namespace EspMisc

abbrev Memory := Nat → UInt8

namespace Memory

/-- The `n` bytes of `src` from `s` on, over those of `dst` from `d` on. -/
def copy (src dst : Memory) (s d n : Nat) : Memory :=
  fun a => if d ≤ a ∧ a < d + n then src (s + (a - d)) else dst a

/-- Byte by byte, while there are any left and `i` is below `stop`.  The result is the
number of bytes left, the two addresses and the memory. -/
def copyLoop (src : Memory) (stop : Nat) :
    Nat → Nat → Nat → Nat → Memory → Nat × Nat × Nat × Memory
  | 0, _, s, d, dst => (0, s, d, dst)
  | size + 1, i, s, d, dst =>
    if i < stop then
      copyLoop src stop size (i + 1) (s + 1) (d + 1) fun a => if a = d then src s else dst a
    else (size + 1, s, d, dst)

variable {src dst : Memory} {s d n a : Nat}

theorem copy_inside (h : d ≤ a) (hlt : a < d + n) : copy src dst s d n a = src (s + (a - d)) :=
  if_pos ⟨h, hlt⟩

theorem copy_outside (h : a < d ∨ d + n ≤ a) : copy src dst s d n a = dst a := by
  apply if_neg
  omega

theorem copy_zero (src dst : Memory) (s d : Nat) : copy src dst s d 0 = dst := by
  funext a
  exact copy_outside (by omega)

/-- A copy, and another of what follows. -/
theorem copy_add (src dst : Memory) (s d n m : Nat) :
    copy src (copy src dst s d n) (s + n) (d + n) m = copy src dst s d (n + m) := by
  funext a
  by_cases hsecond : d + n ≤ a ∧ a < d + n + m
  · rw [copy_inside hsecond.1 hsecond.2, copy_inside (by omega) (by omega),
      show s + n + (a - (d + n)) = s + (a - d) by omega]
  · rw [copy_outside (by omega)]
    by_cases hfirst : d ≤ a ∧ a < d + n
    · rw [copy_inside hfirst.1 hfirst.2, copy_inside (by omega) (by omega)]
    · rw [copy_outside (by omega), copy_outside (by omega)]

/-- What was copied to another place can be copied on from there. -/
theorem copy_through (src tmp dst : Memory) (s t d : Nat) {n o k : Nat} (h : o + k ≤ n) :
    copy (copy src tmp s t n) dst (t + o) d k = copy src dst (s + o) d k := by
  funext a
  by_cases hin : d ≤ a ∧ a < d + k
  · rw [copy_inside hin.1 hin.2, copy_inside (by omega) (by omega), copy_inside hin.1 hin.2,
      show s + (t + o + (a - d) - t) = s + o + (a - d) by omega]
  · have hout : a < d ∨ d + k ≤ a := by omega
    rw [copy_outside hout, copy_outside hout]

/-- What a copy covers need not have been copied before. -/
theorem copy_covers (src dst dst' : Memory) (s d n : Nat)
    (h : ∀ a, a < d ∨ d + n ≤ a → dst a = dst' a) : copy src dst s d n = copy src dst' s d n := by
  funext a
  by_cases hin : d ≤ a ∧ a < d + n
  · rw [copy_inside hin.1 hin.2, copy_inside hin.1 hin.2]
  · rw [copy_outside (by omega), copy_outside (by omega)]
    exact h a (by omega)

theorem copyLoop_eq (src : Memory) (stop : Nat) (size : Nat) :
    ∀ i s d dst, copyLoop src stop size i s d dst =
      (size - min size (stop - i), s + min size (stop - i), d + min size (stop - i),
        copy src dst s d (min size (stop - i))) := by
  induction size with
  | zero =>
    intro i s d dst
    rw [Nat.zero_min, copy_zero]
    rfl
  | succ size ih =>
    intro i s d dst
    rw [copyLoop]
    by_cases hi : i < stop
    · have hone : (fun a => if a = d then src s else dst a) = copy src dst s d 1 := by
        funext a
        by_cases ha : a = d
        · rw [if_pos ha, copy_inside (by omega) (by omega), ha, Nat.sub_self, Nat.add_zero]
        · rw [if_neg ha, copy_outside (by omega)]
      rw [if_pos hi, ih, hone, copy_add,
        show min (size + 1) (stop - i) = 1 + min size (stop - (i + 1)) by omega]
      simp only [Prod.mk.injEq, and_true]
      omega
    · rw [if_neg hi, show min (size + 1) (stop - i) = 0 by omega, copy_zero]
      rfl

/-! ## Programming what is in memory -/

theorem program_read_apply (f : Flash) (mem : Memory) (addr src len a : Nat) :
    Flash.program f addr (Flash.read mem src len) a =
      if addr ≤ a ∧ a < addr + len then f a &&& mem (src + (a - addr)) else f a := by
  unfold Flash.program
  rw [Flash.length_read]
  by_cases hin : addr ≤ a ∧ a < addr + len
  · rw [if_pos hin, if_pos hin, List.getD_eq_getElem?_getD, Flash.read,
      List.getElem?_map, List.getElem?_range (by omega)]
    rfl
  · rw [if_neg hin, if_neg hin]

/-- Programming a range, and then the one that follows. -/
theorem program_add (f : Flash) (mem : Memory) (addr src n m : Nat) :
    Flash.program (Flash.program f addr (Flash.read mem src n)) (addr + n)
      (Flash.read mem (src + n) m) = Flash.program f addr (Flash.read mem src (n + m)) := by
  funext a
  simp only [program_read_apply]
  by_cases hsecond : addr + n ≤ a ∧ a < addr + n + m
  · rw [if_pos hsecond, if_neg (by omega), if_pos (by omega),
      show src + n + (a - (addr + n)) = src + (a - addr) by omega]
  · rw [if_neg hsecond]
    by_cases hfirst : addr ≤ a ∧ a < addr + n
    · rw [if_pos hfirst, if_pos (by omega)]
    · rw [if_neg hfirst, if_neg (by omega)]

/-- A part of a word is programmed with the whole word, the rest of which is as it was
read: a bit of a byte is cleared by none of its own. -/
theorem program_merged (f : Flash) (mem tmp : Memory) {base size rest n src dst : Nat}
    (hfits : rest + n ≤ size) :
    Flash.program f base
        (Flash.read (copy mem (copy f tmp base dst size) src (dst + rest) n) dst size) =
      Flash.program f (base + rest) (Flash.read mem src n) := by
  funext a
  simp only [program_read_apply]
  by_cases hin : base + rest ≤ a ∧ a < base + rest + n
  · rw [if_pos (by omega), if_pos hin, copy_inside (by omega) (by omega),
      show src + (dst + (a - base) - (dst + rest)) = src + (a - (base + rest)) by omega]
  · rw [if_neg hin]
    by_cases hword : base ≤ a ∧ a < base + size
    · rw [if_pos hword, copy_outside (by omega), copy_inside (by omega) (by omega),
        show base + (dst + (a - base) - dst) = a by omega]
      exact UInt8.and_self
    · rw [if_neg hword]

end Memory

/-! ## Storing bytes -/

abbrev Ram := UInt32 → UInt8

namespace Ram

/-- The bytes over those of the memory from `d` on. -/
def store (mem : Ram) (d : UInt32) (bytes : List UInt8) : Ram :=
  fun a => bytes.getD (a - d).toNat (mem a)

theorem store_nil (mem : Ram) (d : UInt32) : store mem d [] = mem := rfl

/-- A range, and then the one that follows. -/
theorem store_append (mem : Ram) (d : UInt32) {l r : List UInt8}
    (h : l.length + r.length < 4294967296) :
    store (store mem d l) (d + UInt32.ofNat l.length) r = store mem d (l ++ r) := by
  funext a
  have hoffset : a - (d + UInt32.ofNat l.length) = a - d - UInt32.ofNat l.length := by grind
  have hsmall : l.length < UInt32.size := Nat.lt_of_le_of_lt (Nat.le_add_right _ _) h
  unfold store
  rw [hoffset]
  generalize a - d = offset
  have hlt : offset.toNat < 4294967296 := offset.toNat_lt
  rw [UInt32.toNat_sub, UInt32.toNat_ofNat_of_lt' hsmall]
  by_cases hfirst : offset.toNat < l.length
  · rw [List.getD_append _ _ _ _ hfirst, List.getD_eq_default]
    omega
  · rw [List.getD_append_right _ _ _ _ (by omega), List.getD_eq_default l _ (by omega),
      show (2 ^ 32 - l.length + offset.toNat) % 2 ^ 32 = offset.toNat - l.length by omega]

/-- Several ranges, one after the other. -/
def storeAll (mem : Ram) (l : List (UInt32 × List UInt8)) : Ram :=
  l.foldl (fun mem s => store mem s.1 s.2) mem

end Ram
end EspMisc
