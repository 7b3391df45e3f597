/-
The arithmetic of the loop over the remaining length.

`mqtt_get_total_length`, `mqtt_get_publish_topic` and `mqtt_get_publish_data` begin with
the same loop.  It ends at a byte without the continuation bit or at the end of the
segment, and takes no notice of how many bytes it has summed up: MQTT allows four.
`lengthLoop` computes what the target computes.  Here the loop also writes down its
operations on `int`, so that it can be said which of them C defines.

`decoding_within_iff` is the exact condition: the segment ends before a fifth byte, or one
of the first four ends the length.
-/
import EspMisc.Mqtt.Located

namespace EspMisc
namespace Mqtt

/-- An operation on `int`, with its operands. -/
inductive IntOp
  | shl (x : Int) (amount : Nat)
  | add (x y : Int)
deriving DecidableEq, Repr

def InInt (x : Int) : Prop := -2147483648 ≤ x ∧ x < 2147483648

instance (x : Int) : Decidable (InInt x) := inferInstanceAs (Decidable (_ ∧ _))

/-- C gives the operation a value: the amount is below the width, and the result fits. -/
def IntOp.Defined : IntOp → Prop
  | .shl x amount => amount < 32 ∧ InInt (x * 2 ^ amount)
  | .add x y => InInt (x + y)

instance : DecidablePred IntOp.Defined
  | .shl _ _ => inferInstanceAs (Decidable (_ ∧ _))
  | .add x y => inferInstanceAs (Decidable (InInt (x + y)))

/-- `lengthLoop`, with the operations it makes on the way. -/
def lengthOps (buffer : Bytes) : Nat → Nat → Int → List IntOp × Nat × Int
  | 0, i, totlen => ([], i, totlen)
  | n + 1, i, totlen =>
    let low : Int := (byteAt buffer i &&& 0x7f).toNat
    let term := shl32 low (7 * (i - 1))
    let ops := [.shl low (7 * (i - 1)), .add totlen term]
    let totlen := i32 (totlen + term)
    if byteAt buffer i &&& 0x80 = 0 then (ops, i + 1, totlen)
    else
      let rest := lengthOps buffer n (i + 1) totlen
      (ops ++ rest.1, rest.2)

theorem lengthOps_eq (buffer : Bytes) (n i : Nat) (totlen : Int) :
    (lengthOps buffer n i totlen).2 = lengthLoop buffer n i totlen := by
  induction n generalizing i totlen with
  | zero => rfl
  | succ n ih =>
    simp only [lengthOps, lengthLoop]
    split
    · rfl
    · exact ih ..

/-- What a reader does before it looks at the rest of the packet: the loop, and the length
of the header added to the sum. -/
structure Decoding where
  ops : List IntOp
  i : Nat
  totlen : Int

def decoding (buffer : Bytes) (length : Nat) : Decoding :=
  let (ops, i, totlen) := lengthOps buffer (length - 1) 1 0
  ⟨ops ++ [.add totlen i], i, i32 (totlen + i)⟩

/-- The readers go on from there. -/
theorem decoding_eq (buffer : Bytes) (length : Nat) :
    (decoding buffer length).i = (lengthLoop buffer (length - 1) 1 0).1 ∧
      (decoding buffer length).totlen = mqttGetTotalLength buffer length := by
  have hscan := lengthOps_eq buffer (length - 1) 1 0
  simp only [decoding, mqttGetTotalLength, ← hscan, and_self]

/-- Every operation is defined, and at most four bytes were taken for the length. -/
structure Decoding.Within (d : Decoding) : Prop where
  defined : ∀ op ∈ d.ops, op.Defined
  four : d.i - 1 ≤ 4

/-! ## One byte more -/

theorem low_lt (b : UInt8) : (b &&& 0x7f).toNat < 128 := by
  rw [UInt8.toNat_and]
  exact Nat.lt_succ_of_le Nat.and_le_right

/-- The bytes before the fourth one, and the fourth one, keep the sum below `128 ^ 4`. -/
theorem term_within {i : Nat} (hi : i < 4) {low : Nat} (hlow : low < 128) {totlen : Int}
    (hpos : 0 ≤ totlen) (hlt : totlen < 128 ^ i) :
    (IntOp.shl low (7 * i)).Defined ∧ (IntOp.add totlen (shl32 low (7 * i))).Defined ∧
      0 ≤ i32 (totlen + shl32 low (7 * i)) ∧
      i32 (totlen + shl32 low (7 * i)) < 128 ^ (i + 1) := by
  have hplace : (2 : Int) ^ (7 * i) = 128 ^ i ∧ (1 : Int) ≤ 128 ^ i ∧
      (128 : Int) ^ i ≤ 2097152 := by
    rcases (by omega : i = 0 ∨ i = 1 ∨ i = 2 ∨ i = 3) with rfl | rfl | rfl | rfl <;> decide
  obtain ⟨hpow, hone, hle⟩ := hplace
  have hterm : (low : Int) * 2 ^ (7 * i) ≤ 127 * 128 ^ i := by
    rw [hpow]
    exact Int.mul_le_mul_of_nonneg_right (by omega) (by omega)
  have hge : 0 ≤ (low : Int) * 2 ^ (7 * i) :=
    Int.mul_nonneg (Int.natCast_nonneg low) (by omega)
  have hshl : shl32 low (7 * i) = low * 2 ^ (7 * i) := by
    rw [shl32, Nat.mod_eq_of_lt (by omega), i32_eq (by omega) (by omega)]
  have hsum : i32 (totlen + shl32 low (7 * i)) = totlen + low * 2 ^ (7 * i) := by
    rw [hshl, i32_eq (by omega) (by omega)]
  rw [hsum, hshl, Int.pow_succ]
  exact ⟨⟨by omega, by omega, by omega⟩, ⟨by omega, by omega⟩, by omega, by omega⟩

theorem place_le {k : Nat} (hk : k ≤ 4) : (128 : Int) ^ k ≤ 128 ^ 4 := by
  rcases (by omega : k = 0 ∨ k = 1 ∨ k = 2 ∨ k = 3 ∨ k = 4) with
    rfl | rfl | rfl | rfl | rfl <;> decide

/-- The bytes from `i` on end the length before a fifth byte is reached, or the segment
does. -/
def EndsBy (buffer : Bytes) (n i : Nat) : Prop :=
  i + n ≤ 5 ∨ ∃ j, i ≤ j ∧ j ≤ 4 ∧ byteAt buffer j &&& 0x80 = 0

/-- The sum stays below `128` to the number of bytes taken. -/
theorem lengthOps_within {buffer : Bytes} {n i : Nat} {totlen : Int} (hone : 1 ≤ i) (hi : i ≤ 5)
    (hpos : 0 ≤ totlen) (hlt : totlen < 128 ^ (i - 1)) (hends : EndsBy buffer n i) :
    (∀ op ∈ (lengthOps buffer n i totlen).1, op.Defined) ∧
      (lengthOps buffer n i totlen).2.1 ≤ 5 ∧ 0 ≤ (lengthOps buffer n i totlen).2.2 ∧
      (lengthOps buffer n i totlen).2.2 < 128 ^ 4 := by
  induction n generalizing i totlen with
  | zero =>
    have hle := Int.lt_of_lt_of_le hlt (place_le (by omega))
    exact ⟨fun op hop => absurd hop List.not_mem_nil, hi, hpos, hle⟩
  | succ n ih =>
    have hfour : i ≤ 4 := by
      rcases hends with hends | ⟨j, hij, hj, _⟩ <;> omega
    obtain ⟨hshl, hadd, hpos', hlt'⟩ :=
      term_within (show i - 1 < 4 by omega) (low_lt (byteAt buffer i)) hpos hlt
    have hops : ∀ op ∈ [IntOp.shl ((byteAt buffer i &&& 0x7f).toNat : Int) (7 * (i - 1)),
        .add totlen (shl32 (byteAt buffer i &&& 0x7f).toNat (7 * (i - 1)))], op.Defined := by
      simp only [List.forall_mem_cons, List.not_mem_nil, false_imp_iff, implies_true, and_true]
      exact ⟨hshl, hadd⟩
    rw [show i - 1 + 1 = i + 1 - 1 by omega] at hlt'
    simp only [lengthOps]
    by_cases hlast : byteAt buffer i &&& 0x80 = 0
    · rw [if_pos hlast]
      exact ⟨hops, Nat.succ_le_succ hfour, hpos', Int.lt_of_lt_of_le hlt' (place_le hfour)⟩
    · have hend : EndsBy buffer n (i + 1) := by
        rcases hends with hends | ⟨j, hij, hj, hstop⟩
        · exact .inl (by omega)
        · have hne : i ≠ j := fun he => hlast (he ▸ hstop)
          exact .inr ⟨j, by omega, hj, hstop⟩
      obtain ⟨hdefined, hindex, hge, hsum⟩ := ih (by omega) (by omega) hpos' hlt' hend
      rw [if_neg hlast]
      exact ⟨List.forall_mem_append.mpr ⟨hops, hdefined⟩, hindex, hge, hsum⟩

/-- As long as the bytes go on, the loop does. -/
theorem lengthLoop_goes_on {buffer : Bytes} {k n i : Nat} (totlen : Int) (hk : k < n)
    (hmore : ∀ j, i ≤ j → j < i + k → byteAt buffer j &&& 0x80 ≠ 0) :
    i + k < (lengthLoop buffer n i totlen).1 := by
  induction k generalizing n i totlen with
  | zero =>
    obtain ⟨n, rfl⟩ := Nat.exists_eq_succ_of_ne_zero (Nat.ne_of_gt hk)
    simp only [lengthLoop]
    split
    · exact Nat.lt_succ_self i
    · exact le_lengthLoop ..
  | succ k ih =>
    obtain ⟨n, rfl⟩ := Nat.exists_eq_succ_of_ne_zero (Nat.ne_of_gt (Nat.zero_lt_of_lt hk))
    simp only [lengthLoop]
    rw [if_neg (hmore i (Nat.le_refl i) (by omega)), show i + (k + 1) = i + 1 + k by omega]
    exact ih _ (by omega) fun j hij hj => hmore j (by omega) (by omega)

/-- The decoding stays within `int` and the four bytes exactly when the segment ends before
a fifth byte of the length, or one of the first four has no continuation bit. -/
theorem decoding_within_iff (buffer : Bytes) (length : Nat) :
    (decoding buffer length).Within ↔
      length ≤ 5 ∨ ∃ j, 1 ≤ j ∧ j ≤ 4 ∧ byteAt buffer j &&& 0x80 = 0 := by
  constructor
  · intro hwithin
    by_contra hlong
    rw [not_or] at hlong
    have hmore : ∀ j, 1 ≤ j → j < 1 + 4 → byteAt buffer j &&& 0x80 ≠ 0 := fun j hone hj hlast =>
      hlong.2 ⟨j, hone, by omega, hlast⟩
    have hindex := lengthLoop_goes_on 0 (show 4 < length - 1 by omega) hmore
    have hfour := hwithin.four
    rw [(decoding_eq buffer length).1] at hfour
    omega
  · intro hends
    have hstart : EndsBy buffer (length - 1) 1 := hends.imp (fun hle => by omega) id
    obtain ⟨hdefined, hindex, hpos, hlt⟩ :=
      lengthOps_within (Nat.le_refl 1) (by decide) (Int.le_refl 0) (by decide) hstart
    refine ⟨List.forall_mem_append.mpr ⟨hdefined, List.forall_mem_singleton.mpr ?_⟩, ?_⟩
    · show InInt ((lengthOps buffer (length - 1) 1 0).2.2 + (lengthOps buffer (length - 1) 1 0).2.1)
      rw [show (128 : Int) ^ 4 = 268435456 by decide] at hlt
      exact ⟨by omega, by omega⟩
    · show (lengthOps buffer (length - 1) 1 0).2.1 - 1 ≤ 4
      omega

/-- Six bytes in a row with the continuation bit: the sixth is shifted by 35. -/
theorem decoding_run_of_continuations :
    ¬∀ (buffer : Bytes) (length : Nat), length < mqttBufSize → (decoding buffer length).Within := by
  intro h
  have hwithin := h (0x30 :: List.replicate 6 0x80) 7 (by decide)
  have hshift := hwithin.defined (.shl 0 35) (by decide)
  exact absurd hshift.1 (by decide)

end Mqtt
end EspMisc
