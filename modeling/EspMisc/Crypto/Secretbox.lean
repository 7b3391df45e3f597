/-
`newcrypto/stream_salsa20.c`, `stream_xsalsa20.c`, `verify.c` and
`secretbox_xsalsa20poly1305.c`.

A box is the message under a keystream, and in front of it the authenticator of what stands
behind it.  The first 32 bytes of the keystream are the key of the authenticator, so a
message is given with 32 zeros in front.
-/
import EspMisc.Crypto.Poly1305
import EspMisc.Crypto.Salsa20

namespace EspMisc
namespace Crypto

/-! ## Streams -/

/-- What a pointer to a message is: a buffer of its own, or the one that is written. -/
inductive Source where
  | buffer (m : Cells)
  | output

def Source.read (c : Cells) : Source → Nat → UInt8
  | .buffer m, i => m i
  | .output, i => c i

def sigma : Cells :=
  ⟨fun i => ("expand 32-byte k".toList.map fun ch => UInt8.ofNat ch.toNat).getD i 0⟩

/-- One of the loops over the bytes of a block, `n` of them from `p` on. -/
def streamWrite (m : Option Source) (c x : Cells) (p n : Nat) : Cells :=
  ⟨fun q =>
    if p ≤ q ∧ q < p + n then
      match m with
      | some m => m.read c q ^^^ x (q - p)
      | none => x (q - p)
    else c q⟩

/-- `bigint_add(z+8,z+8,u,8)`. -/
def counted (z : Cells) : Cells :=
  let u : Cells := ⟨fun i => if i = 0 then 1 else 0⟩
  let sum := (bigintAdd (z.from 8) (z.from 8) u 8).1
  ⟨fun i => if i < 8 then z i else sum (i - 8)⟩

/-- The loop of `crypto_stream_salsa20_xor` and what follows it, at the place `p` of `c`. -/
def streamBlocks (k : Cells) (m : Option Source) (mlen p : Nat) (z c : Cells) : Cells :=
  if 64 ≤ mlen then
    streamBlocks k m (mlen - 64) (p + 64) (counted z)
      (streamWrite m c (coreSalsa20 z k sigma) p 64)
  else if 0 < mlen then
    streamWrite m c (coreSalsa20 z k sigma) p mlen
  else c
termination_by mlen

def streamSalsa20Xor (c : Cells) (m : Option Source) (mlen : Nat) (n k : Cells) : Cells :=
  streamBlocks k m mlen 0 ⟨fun i => if i < 8 then n i else 0⟩ c

def streamSalsa20 (c : Cells) (clen : Nat) (n k : Cells) : Cells :=
  streamSalsa20Xor c none clen n k

def streamXsalsa20Xor (c : Cells) (m : Option Source) (mlen : Nat) (n k : Cells) : Cells :=
  let s := coreHsalsa20 n k sigma
  streamSalsa20Xor c m mlen (n.from 16) s

def streamXsalsa20 (c : Cells) (clen : Nat) (n k : Cells) : Cells :=
  let s := coreHsalsa20 n k sigma
  streamSalsa20 c clen (n.from 16) s

/-! ## Boxes -/

/-- The `int` that is returned: the shift of a negative number keeps its sign. -/
def vn (x y : Cells) (n : Nat) : Int :=
  let d : UInt16 := (List.range n).foldl (fun d i => d ||| (x i ^^^ y i).toUInt16) 0
  ((d.toNat : Int) - 1) >>> (8 : Nat) % 2 - 1

def verify16 (x y : Cells) : Int := vn x y 16

def poly1305Verify (h : Cells) (m : Bytes) (k : Cells) : Int :=
  let correct : Cells := ⟨fun i => (poly1305 m k).getD i 0⟩
  verify16 h correct

/-- The `n` bytes from `s` on. -/
def Arr.bytes (c : Cells) (s n : Nat) : Bytes := (List.range n).map fun i => c (s + i)

/-- `crypto_secretbox_xsalsa20poly1305`, with `c` as it leaves it. -/
def secretbox (c : Cells) (m : Source) (mlen : Nat) (n k : Cells) : Int × Cells :=
  if mlen < 32 then (-1, c) else
    let c := streamXsalsa20Xor c (some m) mlen n k
    let tag := poly1305 (c.bytes 32 (mlen - 32)) c
    let c : Cells := ⟨fun i => if 16 ≤ i ∧ i < 32 then tag.getD (i - 16) 0 else c i⟩
    (0, ⟨fun i => if i < 16 then 0 else c i⟩)

/-- `crypto_secretbox_xsalsa20poly1305_open`, with `m` as it leaves it. -/
def secretboxOpen (m : Cells) (c : Source) (clen : Nat) (n k : Cells) : Int × Cells :=
  if clen < 32 then (-1, m) else
    let cells : Cells := ⟨c.read m⟩
    let x := streamXsalsa20 ⟨fun _ => 0⟩ 32 n k
    if poly1305Verify (cells.from 16) (cells.bytes 32 (clen - 32)) x ≠ 0 then (-1, m)
    else
      let m := streamXsalsa20Xor m (some c) clen n k
      (0, ⟨fun i => if i < 32 then 0 else m i⟩)

/-! ## The counter -/

/-- The input of the block `b`: eight bytes of the nonce and the number of the block. -/
def counterBlock (n : Cells) (b : Nat) : Cells :=
  ⟨fun i =>
    if i < 8 then n i
    else if i < 16 then (b / 256 ^ (i - 8)).toUInt8
    else 0⟩

theorem limbs_digits (b n : Nat) :
    limbs ⟨fun i => (b / 256 ^ i).toUInt8⟩ 0 n = (b % 256 ^ n : Nat) := by
  induction n with
  | zero => rw [Nat.pow_zero, Nat.mod_one]; rfl
  | succ n ih =>
    rw [limbs_succ_back, ih, Nat.zero_add, Nat.mod_pow_succ]
    have hdigit : (b / 256 ^ n).toUInt8.toNat = b / 256 ^ n % 256 := rfl
    simp only [hdigit]
    push_cast
    rfl

theorem counterBlock_limbs (n : Cells) (b : Nat) :
    limbs ((counterBlock n b).from 8) 0 8 = (b % 256 ^ 8 : Nat) := by
  rw [← limbs_digits]
  refine limbs_congr fun i _ hi => ?_
  have hge : ¬ 8 + i < 8 := by omega
  have hlt : 8 + i < 16 := by omega
  simp only [Arr.from, counterBlock, if_neg hge, if_pos hlt, Nat.add_sub_cancel_left]

/-- Counting goes from one block to the next, in all 64 bits. -/
theorem counted_counterBlock (n : Cells) (b : Nat) :
    counted (counterBlock n b) = counterBlock n (b + 1) := by
  let z := (counterBlock n b).from 8
  let u : Cells := ⟨fun i => if i = 0 then 1 else 0⟩
  obtain ⟨hvalue, hcarry⟩ := bigintAdd_value z z u 8
  have hone : limbs u 0 8 = 1 := rfl
  have hsum : limbs (bigintAdd z z u 8).1 0 8 =
      limbs ((counterBlock n (b + 1)).from 8) 0 8 := by
    have hbounds := limbs_bounds (bigintAdd z z u 8).1 0 8
    have hz : limbs z 0 8 = (b % 256 ^ 8 : Nat) := counterBlock_limbs n b
    rw [hone, hz] at hvalue
    rw [counterBlock_limbs]
    generalize limbs (bigintAdd z z u 8).1 0 8 = x at hvalue hbounds ⊢
    omega
  have hcells : ∀ i, counted (counterBlock n b) i = counterBlock n (b + 1) i := by
    intro i
    by_cases hlow : i < 8
    · simp only [counted, counterBlock, if_pos hlow]
    · have hi : 8 + (i - 8) = i := by omega
      have hdef : counted (counterBlock n b) i = (bigintAdd z z u 8).1 (i - 8) := if_neg hlow
      rw [hdef]
      by_cases hhigh : i < 16
      · have hdigit := limbs_inj hsum (i - 8) (Nat.zero_le _) (by omega)
        rw [hdigit]
        simp only [Arr.from, hi]
      · rw [bigintAdd_outside _ _ _ (by omega)]
        simp only [z, Arr.from, hi, counterBlock, if_neg hlow, if_neg hhigh]
  exact congrArg Arr.mk (funext hcells)

/-! ## The bytes of a stream -/

def keystream (n k : Cells) (q : Nat) : UInt8 :=
  coreSalsa20 (counterBlock n (q / 64)) k sigma (q % 64)

/-- What is under the keystream: the message, or zeros where there is none. -/
def plain (m : Option Source) (c : Cells) (q : Nat) : UInt8 :=
  match m with
  | some m => m.read c q
  | none => 0

theorem streamWrite_apply (m : Option Source) (c x : Cells) (p n q : Nat) :
    streamWrite m c x p n q =
      if p ≤ q ∧ q < p + n then plain m c q ^^^ x (q - p) else c q := by
  cases m with
  | some m => rfl
  | none => simp only [streamWrite, plain, UInt8.zero_xor]

theorem plain_congr {m : Option Source} {c d : Cells} {q : Nat} (h : c q = d q) :
    plain m c q = plain m d q := by
  cases m with
  | none => rfl
  | some m =>
    cases m with
    | buffer m => rfl
    | output => exact h

/-- The bytes before `p` are done; those that are written in place are read before. -/
theorem streamBlocks_apply (n k : Cells) (m : Option Source) (mlen b : Nat) (c : Cells) (q : Nat) :
    streamBlocks k m mlen (64 * b) (counterBlock n b) c q =
      if 64 * b ≤ q ∧ q < 64 * b + mlen then plain m c q ^^^ keystream n k q else c q := by
  induction mlen using Nat.strong_induction_on generalizing b c with
  | _ mlen ih =>
    rw [streamBlocks]
    by_cases hfull : 64 ≤ mlen
    · rw [if_pos hfull, counted_counterBlock, show 64 * b + 64 = 64 * (b + 1) by omega,
        ih (mlen - 64) (by omega), streamWrite_apply]
      by_cases hblock : 64 * b ≤ q ∧ q < 64 * b + 64
      · have hnext : ¬ (64 * (b + 1) ≤ q ∧ q < 64 * (b + 1) + (mlen - 64)) := by omega
        have hnow : 64 * b ≤ q ∧ q < 64 * b + mlen := by omega
        have hdiv : q / 64 = b := by omega
        have hmod : q % 64 = q - 64 * b := by omega
        rw [if_neg hnext, if_pos hblock, if_pos hnow, keystream, hdiv, hmod]
      · let x := coreSalsa20 (counterBlock n b) k sigma
        have hplain : plain m (streamWrite m c x (64 * b) 64) q = plain m c q := by
          apply plain_congr
          rw [streamWrite_apply, if_neg hblock]
        rw [if_neg hblock, hplain]
        refine if_congr ?_ rfl rfl
        omega
    · rw [if_neg hfull]
      by_cases hrest : 0 < mlen
      · rw [if_pos hrest, streamWrite_apply]
        by_cases hnow : 64 * b ≤ q ∧ q < 64 * b + mlen
        · have hdiv : q / 64 = b := by omega
          have hmod : q % 64 = q - 64 * b := by omega
          rw [if_pos hnow, if_pos hnow, keystream, hdiv, hmod]
        · rw [if_neg hnow, if_neg hnow]
      · rw [if_neg hrest, if_neg (by omega)]

/-- The byte `q` of the message meets the byte `q % 64` of the block `q / 64`, whether the
message has a buffer of its own, is replaced in place, or is missing. -/
theorem streamSalsa20Xor_apply (c : Cells) (m : Option Source) (mlen : Nat) (n k : Cells)
    (q : Nat) :
    streamSalsa20Xor c m mlen n k q =
      if q < mlen then plain m c q ^^^ keystream n k q else c q := by
  have hstart : (⟨fun i => if i < 8 then n i else 0⟩ : Cells) = counterBlock n 0 := by
    refine congrArg Arr.mk (funext fun i => ?_)
    have hzero : Nat.toUInt8 0 = 0 := rfl
    rw [Nat.zero_div, hzero, ite_self]
  have hblocks := streamBlocks_apply n k m mlen 0 c q
  rw [streamSalsa20Xor, hstart]
  refine hblocks.trans (if_congr ?_ rfl rfl)
  omega

/-- The stream as whole blocks, one behind the other. -/
def keyBlocks (n k : Cells) (count : Nat) : Bytes :=
  (List.range count).flatMap fun b => (coreSalsa20 (counterBlock n b) k sigma).bytes 0 64

theorem keyBlocks_eq (n k : Cells) (count : Nat) :
    keyBlocks n k count = (List.range (64 * count)).map (keystream n k) := by
  induction count with
  | zero => rfl
  | succ count ih =>
    have hblock : (coreSalsa20 (counterBlock n count) k sigma).bytes 0 64 =
        ((List.range 64).map (64 * count + ·)).map (keystream n k) := by
      rw [List.map_map]
      refine List.map_congr_left fun i hi => ?_
      have hlt := List.mem_range.mp hi
      have hdiv : (64 * count + i) / 64 = count := by omega
      have hmod : (64 * count + i) % 64 = i := by omega
      rw [Nat.zero_add, Function.comp, keystream, hdiv, hmod]
    rw [keyBlocks, List.range_succ, List.flatMap_append, ← keyBlocks, ih, List.flatMap_singleton,
      hblock, Nat.mul_succ, List.range_add, List.map_append]

/-- The message meets the blocks, and what is behind it stays. -/
theorem streamSalsa20Xor_blocks (c : Cells) (m : Option Source) (mlen : Nat) (n k : Cells) :
    (streamSalsa20Xor c m mlen n k).bytes 0 mlen =
        List.zipWith (· ^^^ ·) ((List.range mlen).map (plain m c))
          (keyBlocks n k ((mlen + 63) / 64)) ∧
      ∀ q, mlen ≤ q → streamSalsa20Xor c m mlen n k q = c q := by
  refine ⟨List.ext_getElem ?_ fun i hi _ => ?_, fun q hq => ?_⟩
  · rw [keyBlocks_eq, Arr.bytes, List.length_zipWith, List.length_map, List.length_map,
      List.length_map, List.length_range, List.length_range]
    omega
  · rw [Arr.bytes, List.length_map, List.length_range] at hi
    have hbyte := streamSalsa20Xor_apply c m mlen n k i
    rw [if_pos hi] at hbyte
    simp only [keyBlocks_eq, Arr.bytes, List.getElem_zipWith, List.getElem_map,
      List.getElem_range, Nat.zero_add]
    exact hbyte
  · rw [streamSalsa20Xor_apply, if_neg (by omega)]

/-! ## Comparisons -/

/-- The bits in which two arrays differ are collected. -/
theorem differences_eq_zero (x y : Cells) (n : Nat) :
    ((List.range n).foldl (fun d i => d ||| (x i ^^^ y i).toUInt16) (0 : UInt16)).toNat < 256 ∧
      ((List.range n).foldl (fun d i => d ||| (x i ^^^ y i).toUInt16) (0 : UInt16) = 0 ↔
        ∀ i, i < n → x i = y i) := by
  induction n with
  | zero => exact ⟨Nat.zero_lt_succ 255, fun _ i h => absurd h (Nat.not_lt_zero i), fun _ => rfl⟩
  | succ n ih =>
    rw [List.range_succ, List.foldl_append, List.foldl, List.foldl]
    generalize (List.range n).foldl (fun d i => d ||| (x i ^^^ y i).toUInt16) (0 : UInt16) = d
      at ih ⊢
    obtain ⟨hlt, hzero⟩ := ih
    have hbyte := (x n ^^^ y n).toNat_lt
    constructor
    · rw [UInt16.toNat_or, UInt8.toNat_toUInt16]
      exact Nat.or_lt_two_pow (n := 8) hlt hbyte
    · rw [UInt16.or_eq_zero_iff, hzero, Nat.forall_lt_succ_right]
      refine and_congr_right fun _ => ?_
      rw [← UInt8.xor_eq_zero_iff, ← UInt8.toNat_inj, ← UInt16.toNat_inj, UInt8.toNat_toUInt16]
      rfl

theorem vn_eq (x y : Cells) (n : Nat) :
    vn x y n = if (∀ i, i < n → x i = y i) then 0 else -1 := by
  obtain ⟨hlt, hzero⟩ := differences_eq_zero x y n
  rw [vn]
  generalize (List.range n).foldl (fun d i => d ||| (x i ^^^ y i).toUInt16) (0 : UInt16) = d
    at hlt hzero ⊢
  rw [Int.shiftRight_eq_div_pow]
  by_cases hd : d = 0
  · rw [if_pos (hzero.mp hd), hd]
    rfl
  · have hpos : d.toNat ≠ 0 := fun h => hd (UInt16.toNat_inj.mp h)
    rw [if_neg (fun h => hd (hzero.mpr h))]
    omega

theorem length_poly1305 (m : Bytes) (k : Cells) : (poly1305 m k).length = 16 := by
  rw [poly1305, List.length_map, List.length_range]

theorem bytes_eq_iff (c : Cells) (s : Nat) (l : Bytes) :
    c.bytes s l.length = l ↔ ∀ i, i < l.length → c (s + i) = l.getD i 0 := by
  constructor
  · intro h i hi
    rw [← h, Arr.bytes, List.getD_eq_getElem?_getD, List.getElem?_map, List.getElem?_range hi]
    rfl
  · intro h
    refine List.ext_getElem (by rw [Arr.bytes, List.length_map, List.length_range]) ?_
    intro i hi hl
    have hbyte := h i hl
    rw [List.getD_eq_getElem?_getD, List.getElem?_eq_getElem hl, Option.getD_some] at hbyte
    simp only [Arr.bytes, List.getElem_map, List.getElem_range]
    exact hbyte

theorem poly1305Verify_eq (h : Cells) (s : Nat) (m : Bytes) (k : Cells) :
    poly1305Verify (h.from s) m k = if h.bytes s 16 = poly1305 m k then 0 else -1 := by
  have hbytes := bytes_eq_iff h s (poly1305 m k)
  rw [length_poly1305] at hbytes
  rw [poly1305Verify, verify16, vn_eq]
  exact if_congr hbytes.symm rfl rfl

/-- Only the 32 bytes of a key are read. -/
theorem poly1305_congr (m : Bytes) {k l : Cells} (h : ∀ i, i < 32 → k i = l i) :
    poly1305 m k = poly1305 m l := by
  have hclamped : clamped k = clamped l := by
    refine congrArg Arr.mk (funext fun i => ?_)
    by_cases hi : i < 16
    · rw [h i (by omega)]
    · have hne : ¬ (i = 3 ∨ i = 7 ∨ i = 11 ∨ i = 15) ∧ ¬ (i = 4 ∨ i = 8 ∨ i = 12) := by omega
      rw [if_neg hne.1, if_neg hne.2, if_neg hi, if_neg hne.1, if_neg hne.2, if_neg hi]
  have hsecond : (⟨fun j => if j < 16 then k (j + 16) else 0⟩ : Cells) =
      ⟨fun j => if j < 16 then l (j + 16) else 0⟩ := by
    refine congrArg Arr.mk (funext fun j => ?_)
    by_cases hj : j < 16
    · rw [if_pos hj, if_pos hj, h _ (by omega)]
    · rw [if_neg hj, if_neg hj]
  rw [poly1305, poly1305, hclamped, hsecond]

/-! ## Boxes -/

/-- The keystream of a box, from a nonce of 24 bytes. -/
def boxStream (n k : Cells) (q : Nat) : UInt8 :=
  keystream (n.from 16) (coreHsalsa20 n k sigma) q

/-- The authenticator of a box of `clen` bytes. -/
def boxTag (n k c : Cells) (clen : Nat) : Bytes :=
  poly1305 (c.bytes 32 (clen - 32)) ⟨boxStream n k⟩

theorem streamXsalsa20Xor_apply (c : Cells) (m : Option Source) (mlen : Nat) (n k : Cells)
    (q : Nat) :
    streamXsalsa20Xor c m mlen n k q =
      if q < mlen then plain m c q ^^^ boxStream n k q else c q :=
  streamSalsa20Xor_apply c m mlen (n.from 16) (coreHsalsa20 n k sigma) q

theorem secretboxOpen_eq (m : Cells) (c : Source) (clen : Nat) (n k : Cells) :
    secretboxOpen m c clen n k =
      if 32 ≤ clen ∧ Arr.bytes ⟨c.read m⟩ 16 16 = boxTag n k ⟨c.read m⟩ clen then
        (0, ⟨fun i =>
          if i < 32 then 0
          else if i < clen then c.read m i ^^^ boxStream n k i
          else m i⟩)
      else (-1, m) := by
  by_cases hshort : clen < 32
  · rw [secretboxOpen, if_pos hshort, if_neg (by omega)]
  · have hkey : ∀ i, i < 32 → streamXsalsa20 ⟨fun _ => 0⟩ 32 n k i = boxStream n k i := by
      intro i hi
      refine (streamXsalsa20Xor_apply ⟨fun _ => 0⟩ none 32 n k i).trans ?_
      rw [if_pos hi, plain, UInt8.zero_xor]
    have htag : poly1305 (Arr.bytes ⟨c.read m⟩ 32 (clen - 32))
          (streamXsalsa20 ⟨fun _ => 0⟩ 32 n k) =
        boxTag n k ⟨c.read m⟩ clen := poly1305_congr _ hkey
    rw [secretboxOpen, if_neg hshort]
    simp only [poly1305Verify_eq, htag]
    by_cases hequal : Arr.bytes ⟨c.read m⟩ 16 16 = boxTag n k ⟨c.read m⟩ clen
    · rw [if_pos hequal, if_neg (fun h => h rfl), if_pos ⟨by omega, hequal⟩]
      refine congrArg (Prod.mk 0) (congrArg Arr.mk (funext fun i => ?_))
      rw [streamXsalsa20Xor_apply]
      rfl
    · rw [if_neg hequal, if_pos (by decide), if_neg (fun h => hequal h.2)]

/-- What stands in front of a box does not reach its authenticator. -/
theorem boxTag_congr (n k : Cells) {c d : Cells} {clen : Nat}
    (h : ∀ i, 32 ≤ i → i < clen → c i = d i) : boxTag n k c clen = boxTag n k d clen := by
  have hbody : c.bytes 32 (clen - 32) = d.bytes 32 (clen - 32) :=
    List.map_congr_left fun i hi => by
      have hlt := List.mem_range.mp hi
      exact h _ (by omega) (by omega)
  rw [boxTag, boxTag, hbody]

/-- A box of a message with 32 zeros in front. -/
theorem secretbox_eq (c : Cells) (m : Source) {mlen : Nat} (n k : Cells) (hlen : 32 ≤ mlen)
    (hzeros : ∀ i, i < 32 → m.read c i = 0) :
    (secretbox c m mlen n k).1 = 0 ∧
      (∀ i, i < 16 → (secretbox c m mlen n k).2 i = 0) ∧
      (secretbox c m mlen n k).2.bytes 16 16 = boxTag n k (secretbox c m mlen n k).2 mlen ∧
      (∀ i, 32 ≤ i → (secretbox c m mlen n k).2 i =
        if i < mlen then m.read c i ^^^ boxStream n k i else c i) := by
  let d := streamXsalsa20Xor c (some m) mlen n k
  have hd : ∀ i, d i = if i < mlen then m.read c i ^^^ boxStream n k i else c i :=
    streamXsalsa20Xor_apply c (some m) mlen n k
  have hkey : ∀ i, i < 32 → d i = boxStream n k i := by
    intro i hi
    rw [hd, if_pos (by omega), hzeros i hi, UInt8.zero_xor]
  let tag := poly1305 (d.bytes 32 (mlen - 32)) d
  have hbox : secretbox c m mlen n k = (0, ⟨fun i => if i < 16 then 0
      else if 16 ≤ i ∧ i < 32 then tag.getD (i - 16) 0 else d i⟩) := if_neg (by omega)
  have hbehind : ∀ i, 32 ≤ i → (secretbox c m mlen n k).2 i = d i := by
    intro i hi
    rw [hbox]
    exact (if_neg (by omega)).trans (if_neg (by omega))
  refine ⟨by rw [hbox], fun i hi => ?_, ?_, fun i hi => (hbehind i hi).trans (hd i)⟩
  · rw [hbox]
    exact if_pos hi
  · have htag : boxTag n k (secretbox c m mlen n k).2 mlen = tag := by
      rw [boxTag_congr n k fun i hi _ => hbehind i hi]
      exact (poly1305_congr _ hkey).symm
    have hbytes := bytes_eq_iff (secretbox c m mlen n k).2 16 tag
    rw [length_poly1305] at hbytes
    rw [htag]
    refine hbytes.mpr fun i hi => ?_
    have hi' : 16 + i - 16 = i := by omega
    rw [hbox]
    refine (if_neg (by omega)).trans ((if_pos (by omega)).trans ?_)
    rw [hi']

/-- A box opens to the message that was put into it, whether one of the two is done in place
or not. -/
theorem secretboxOpen_secretbox (c p : Cells) (m b : Source) {mlen : Nat} (n k : Cells)
    (hlen : 32 ≤ mlen) (hzeros : ∀ i, i < 32 → m.read c i = 0)
    (hbox : ∀ i, i < mlen → b.read p i = (secretbox c m mlen n k).2 i) :
    (secretbox c m mlen n k).1 = 0 ∧ (secretboxOpen p b mlen n k).1 = 0 ∧
      ∀ i, (secretboxOpen p b mlen n k).2 i = if i < mlen then m.read c i else p i := by
  obtain ⟨hresult, hfront, htag, hbody⟩ := secretbox_eq c m n k hlen hzeros
  have hopened : Arr.bytes ⟨b.read p⟩ 16 16 = boxTag n k ⟨b.read p⟩ mlen := by
    have hfirst : Arr.bytes ⟨b.read p⟩ 16 16 = (secretbox c m mlen n k).2.bytes 16 16 :=
      List.map_congr_left fun i hi => by
        have hlt := List.mem_range.mp hi
        exact hbox _ (by omega)
    rw [hfirst, htag]
    exact boxTag_congr n k fun i _ hi => (hbox i hi).symm
  have hopen := secretboxOpen_eq p b mlen n k
  rw [if_pos ⟨hlen, hopened⟩] at hopen
  refine ⟨hresult, by rw [hopen], fun i => ?_⟩
  rw [hopen]
  change (if i < 32 then 0 else if i < mlen then b.read p i ^^^ boxStream n k i else p i) = _
  by_cases hfirst : i < 32
  · rw [if_pos hfirst, if_pos (by omega), hzeros i hfirst]
  · rw [if_neg hfirst]
    by_cases hi : i < mlen
    · rw [if_pos hi, if_pos hi, hbox i hi, hbody i (by omega), if_pos hi, UInt8.xor_assoc,
        UInt8.xor_self, UInt8.xor_zero]
    · rw [if_neg hi, if_neg hi]

def sampleMessage : Cells := ⟨fun i => if i < 32 then 0 else 7⟩

theorem secretboxOpen_sample :
    (secretbox ⟨fun _ => 1⟩ (.buffer sampleMessage) 40 ⟨fun _ => 2⟩ ⟨fun _ => 3⟩).1 = 0 ∧
      (secretboxOpen (secretbox ⟨fun _ => 1⟩ (.buffer sampleMessage) 40 ⟨fun _ => 2⟩
        ⟨fun _ => 3⟩).2 .output 40 ⟨fun _ => 2⟩ ⟨fun _ => 3⟩).2 35 = 7 := by
  have hzeros : ∀ i, i < 32 → (Source.buffer sampleMessage).read ⟨fun _ => 1⟩ i = 0 :=
    fun i hi => if_pos hi
  obtain ⟨hboxed, _, hcells⟩ := @secretboxOpen_secretbox ⟨fun _ => 1⟩ _
    (.buffer sampleMessage) .output 40 ⟨fun _ => 2⟩ ⟨fun _ => 3⟩ (by decide) hzeros fun i _ => rfl
  exact ⟨hboxed, (hcells 35).trans (if_pos (by decide))⟩

end Crypto
end EspMisc
