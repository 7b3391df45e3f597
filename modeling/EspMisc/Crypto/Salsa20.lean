/-
`newcrypto/core_salsa20.c` and `newcrypto/core_hsalsa20.c`.

Both files have the rounds of Salsa20.  The first keeps its words as arrays of four bytes and
names each quarter round.  The second works on `uint32_t` and has one loop, which writes the
columns of the state as its rows, so that two of its rounds are one double round.
`coreHsalsa20_eq` says that they agree: what the second writes are words of the first,
without the sum at its end.
-/
import Mathlib.Tactic.IntervalCases
import EspMisc.Crypto.Bigint

namespace EspMisc
namespace Crypto

/-! ## Words of four bytes -/

def myu32Xor (x y : Cells) : Cells := ⟨fun i => x i ^^^ y i⟩

def myu32Add (x y : Cells) : Cells := (bigintAdd x x y 4).1

def myu32Rol (x : Cells) (n : Nat) : Cells :=
  let u := (32 - n) / 8
  let l := (32 - n) % 8
  ⟨fun i => ((x ((i + u + 1) % 4)).toUInt32 <<< (8 - l).toUInt32 |||
    (x ((i + u) % 4)).toUInt32 >>> l.toUInt32).toUInt8⟩

def quarterround (x : Arr Cells) (a b c d : Nat) : Arr Cells :=
  let t := myu32Rol (myu32Add (x a) (x b)) 7
  let x := x.set c (myu32Xor (x c) t)
  let t := myu32Rol (myu32Add (x c) (x a)) 9
  let x := x.set d (myu32Xor (x d) t)
  let t := myu32Rol (myu32Add (x d) (x c)) 13
  let x := x.set b (myu32Xor (x b) t)
  let t := myu32Rol (myu32Add (x b) (x d)) 18
  x.set a (myu32Xor (x a) t)

/-- The body of the loop of `crypto_core_salsa20`. -/
def doubleround (x : Arr Cells) : Arr Cells :=
  let x := quarterround x 0 12 4 8
  let x := quarterround x 5 1 9 13
  let x := quarterround x 10 6 14 2
  let x := quarterround x 15 11 3 7
  let x := quarterround x 0 3 1 2
  let x := quarterround x 5 4 6 7
  let x := quarterround x 10 9 11 8
  quarterround x 15 14 12 13

/-- `j0` up to `j15`. -/
def salsaInput (inp k c : Cells) : Arr Cells :=
  ⟨fun i =>
    if i % 5 = 0 then c.from (4 * (i / 5))
    else if i ≤ 4 then k.from (4 * (i - 1))
    else if i ≤ 9 then inp.from (4 * (i - 6))
    else k.from (16 + 4 * (i - 11))⟩

/-- The 64 bytes of `out`. -/
def coreSalsa20 (inp k c : Cells) : Cells :=
  let j := salsaInput inp k c
  let x := doubleround^[10] j
  let sum : Arr Cells := ⟨fun i => myu32Add (x i) (j i)⟩
  ⟨fun i => sum (i / 4) (i % 4)⟩

/-! ## Words of 32 bits -/

def L32 (x : UInt32) (c : UInt32) : UInt32 := x <<< c ||| x >>> (32 - c)

def ld32 (x : Cells) : UInt32 :=
  let u := (x 3).toUInt32
  let u := u <<< 8 ||| (x 2).toUInt32
  let u := u <<< 8 ||| (x 1).toUInt32
  u <<< 8 ||| (x 0).toUInt32

/-- The four bytes that `st32` writes. -/
def st32 (u : UInt32) : Cells := ⟨fun i => (u >>> (8 * i).toUInt32).toUInt8⟩

/-- The first loop of `core`. -/
def hsalsaInput (inp k c : Cells) : Arr UInt32 :=
  (List.range 4).foldl (fun x i =>
    let x := x.set (5 * i) (ld32 (c.from (4 * i)))
    let x := x.set (1 + i) (ld32 (k.from (4 * i)))
    let x := x.set (6 + i) (ld32 (inp.from (4 * i)))
    x.set (11 + i) (ld32 (k.from (16 + 4 * i)))) ⟨fun _ => 0⟩

def hsalsaColumn (x w : Arr UInt32) (j : Nat) : Arr UInt32 :=
  let t : Arr UInt32 := ⟨fun m => x ((5 * j + 4 * m) % 16)⟩
  let t := t.set 1 (t 1 ^^^ L32 (t 0 + t 3) 7)
  let t := t.set 2 (t 2 ^^^ L32 (t 1 + t 0) 9)
  let t := t.set 3 (t 3 ^^^ L32 (t 2 + t 1) 13)
  let t := t.set 0 (t 0 ^^^ L32 (t 3 + t 2) 18)
  (List.range 4).foldl (fun w m => w.set (4 * j + (j + m) % 4) (t m)) w

/-- All cells of `w` are written. -/
def hsalsaRound (x : Arr UInt32) : Arr UInt32 := (List.range 4).foldl (hsalsaColumn x) x

/-- `core` of `core_hsalsa20.c`, with the 32 bytes of `out`. -/
def coreHsalsa20 (inp k c : Cells) : Cells :=
  let y := hsalsaInput inp k c
  let x := hsalsaRound^[20] y
  let x : Arr UInt32 := ⟨fun i => x i + y i⟩
  let x := (List.range 4).foldl (fun x i =>
    let x := x.set (5 * i) (x (5 * i) - ld32 (c.from (4 * i)))
    x.set (6 + i) (x (6 + i) - ld32 (inp.from (4 * i)))) x
  ⟨fun i => if i < 16 then st32 (x (5 * (i / 4))) (i % 4) else st32 (x (6 + (i / 4 - 4))) (i % 4)⟩

/-! ## Bytes and words -/

theorem toNat_append (u : UInt32) (b : UInt8) (h : u.toNat < 16777216) :
    (u <<< 8 ||| b.toUInt32).toNat = 256 * u.toNat + b.toNat := by
  have hb := b.toNat_lt
  rw [UInt32.toNat_or, UInt32.toNat_shiftLeft, UInt8.toNat_toUInt32]
  change u.toNat <<< 8 % 4294967296 ||| b.toNat = _
  have hshift : u.toNat <<< 8 % 4294967296 = u.toNat <<< 8 := by
    rw [Nat.shiftLeft_eq]
    omega
  rw [hshift, ← Nat.shiftLeft_add_eq_or_of_lt hb, Nat.shiftLeft_eq]
  omega

theorem toNat_ld32 (x : Cells) :
    (ld32 x).toNat =
      (x 0).toNat + 256 * ((x 1).toNat + 256 * ((x 2).toNat + 256 * (x 3).toNat)) := by
  have h₁ := (x 1).toNat_lt
  have h₂ := (x 2).toNat_lt
  have h₃ := (x 3).toNat_lt
  have hthree : (x 3).toUInt32.toNat = (x 3).toNat := UInt8.toNat_toUInt32 _
  have htwo := toNat_append (x 3).toUInt32 (x 2) (by omega)
  have hone := toNat_append ((x 3).toUInt32 <<< 8 ||| (x 2).toUInt32) (x 1) (by omega)
  have hzero := toNat_append (((x 3).toUInt32 <<< 8 ||| (x 2).toUInt32) <<< 8 |||
    (x 1).toUInt32) (x 0) (by omega)
  change (((((x 3).toUInt32 <<< 8 ||| (x 2).toUInt32) <<< 8 ||| (x 1).toUInt32) <<< 8 |||
    (x 0).toUInt32)).toNat = _
  omega

theorem toNat_ld32_limbs (x : Cells) : ((ld32 x).toNat : ℤ) = limbs x 0 4 := by
  rw [toNat_ld32]
  simp only [limbs, weigh]
  push_cast
  ring

theorem ld32_add (x y : Cells) : ld32 (myu32Add x y) = ld32 x + ld32 y := by
  obtain ⟨hvalue, hcarry⟩ := bigintAdd_value x x y 4
  have hsum : ((ld32 (myu32Add x y)).toNat : ℤ) + 256 ^ 4 * (bigintAdd x x y 4).2.toNat =
      (ld32 x).toNat + (ld32 y).toNat := by
    rw [toNat_ld32_limbs, toNat_ld32_limbs, toNat_ld32_limbs]
    exact hvalue
  have hlt : (ld32 (myu32Add x y)).toNat < 4294967296 := UInt32.toNat_lt _
  apply UInt32.toNat_inj.mp
  rw [UInt32.toNat_add]
  omega

/-- An exclusive or of numbers, one byte and the rest. -/
theorem xor_append (a b : UInt8) (u v : Nat) :
    (a.toNat + 256 * u) ^^^ (b.toNat + 256 * v) = (a ^^^ b).toNat + 256 * (u ^^^ v) := by
  have hmod := @Nat.xor_mod_two_pow (a.toNat + 256 * u) (b.toNat + 256 * v) 8
  have hdiv := @Nat.xor_div_two_pow (a.toNat + 256 * u) (b.toNat + 256 * v) 8
  have hpow : 2 ^ 8 = 256 := rfl
  have ha := a.toNat_lt
  have hb := b.toNat_lt
  rw [hpow, show (a.toNat + 256 * u) % 256 = a.toNat by omega,
    show (b.toNat + 256 * v) % 256 = b.toNat by omega] at hmod
  rw [hpow, show (a.toNat + 256 * u) / 256 = u by omega,
    show (b.toNat + 256 * v) / 256 = v by omega] at hdiv
  rw [UInt8.toNat_xor, ← hmod, ← hdiv]
  exact (Nat.mod_add_div _ _).symm

theorem ld32_xor (x y : Cells) : ld32 (myu32Xor x y) = ld32 x ^^^ ld32 y := by
  apply UInt32.toNat_inj.mp
  rw [UInt32.toNat_xor, toNat_ld32, toNat_ld32, toNat_ld32, xor_append, xor_append, xor_append,
    ← UInt8.toNat_xor]
  rfl

/-- Two shifts that meet: the low digit of the product and the high digit of the quotient. -/
theorem or_shifts {a b k l : Nat} (hb : b < 2 ^ (k + l)) :
    a * 2 ^ k % 2 ^ (k + l) ||| b / 2 ^ l = a * 2 ^ k % 2 ^ (k + l) + b / 2 ^ l := by
  have hlow : b / 2 ^ l < 2 ^ k := by
    rw [Nat.div_lt_iff_lt_mul (Nat.two_pow_pos l), ← Nat.pow_add]
    exact hb
  have hhigh : a * 2 ^ k % 2 ^ (k + l) = (a % 2 ^ l) <<< k := by
    rw [Nat.shiftLeft_eq, Nat.add_comm, Nat.pow_add, Nat.mul_mod_mul_right]
  rw [hhigh, Nat.shiftLeft_add_eq_or_of_lt hlow]

theorem toNat_toUInt32_small {n : Nat} (h : n < 32) : n.toUInt32.toNat % 32 = n := by
  have hn : n.toUInt32.toNat = n := Nat.mod_eq_of_lt (Nat.lt_trans h (by decide))
  rw [hn, Nat.mod_eq_of_lt h]

/-- A byte of a rotated word, from two bytes next to each other. -/
theorem toNat_rol_byte (a b : UInt8) {l : Nat} (hl : l ≤ 8) :
    ((a.toUInt32 <<< (8 - l).toUInt32 ||| b.toUInt32 >>> l.toUInt32).toUInt8).toNat =
      a.toNat * 2 ^ (8 - l) % 256 + b.toNat / 2 ^ l := by
  have ha := a.toNat_lt
  have hb : b.toNat < 2 ^ (8 - l + l) := by
    rw [Nat.sub_add_cancel hl]
    exact b.toNat_lt
  have hpow : 2 ^ (8 - l) ≤ 2 ^ 8 := Nat.pow_le_pow_right (by decide) (Nat.sub_le 8 l)
  have hproduct : a.toNat * 2 ^ (8 - l) < 4294967296 := by
    have := Nat.mul_le_mul (Nat.le_of_lt ha) hpow
    omega
  have hmeet := @or_shifts a.toNat b.toNat (8 - l) l hb
  have hquotient : b.toNat / 2 ^ l ≤ b.toNat := Nat.div_le_self _ _
  have hbyte := b.toNat_lt
  rw [Nat.sub_add_cancel hl] at hmeet
  rw [UInt32.toNat_toUInt8, UInt32.toNat_or, UInt32.toNat_shiftLeft, UInt32.toNat_shiftRight,
    UInt8.toNat_toUInt32, UInt8.toNat_toUInt32, toNat_toUInt32_small (by omega),
    toNat_toUInt32_small (by omega), Nat.shiftLeft_eq, Nat.shiftRight_eq_div_pow,
    Nat.mod_eq_of_lt hproduct, Nat.or_mod_two_pow,
    Nat.mod_eq_of_lt (a := b.toNat / 2 ^ l) (by omega)]
  exact hmeet

theorem toNat_L32 (w : UInt32) {n : Nat} (hn : 0 < n ∧ n < 32) :
    (L32 w n.toUInt32).toNat = w.toNat * 2 ^ n % 4294967296 + w.toNat / 2 ^ (32 - n) := by
  have hw : w.toNat < 2 ^ (n + (32 - n)) := by
    rw [show n + (32 - n) = 32 by omega]
    exact w.toNat_lt
  have hmeet := @or_shifts w.toNat w.toNat n (32 - n) hw
  rw [show n + (32 - n) = 32 by omega] at hmeet
  have hdiff : (32 - n.toUInt32).toNat % 32 = 32 - n := by
    have htoNat : n.toUInt32.toNat = n := Nat.mod_eq_of_lt (Nat.lt_trans hn.2 (by decide))
    have hthirty : (32 : UInt32).toNat = 32 := rfl
    rw [UInt32.toNat_sub, htoNat, hthirty]
    omega
  rw [L32, UInt32.toNat_or, UInt32.toNat_shiftLeft, UInt32.toNat_shiftRight, hdiff,
    toNat_toUInt32_small hn.2, Nat.shiftLeft_eq, Nat.shiftRight_eq_div_pow]
  exact hmeet

theorem ld32_rol (x : Cells) {n : Nat} (hn : n = 7 ∨ n = 9 ∨ n = 13 ∨ n = 18) :
    ld32 (myu32Rol x n) = L32 (ld32 x) n.toUInt32 := by
  have h₀ := (x 0).toNat_lt
  have h₁ := (x 1).toNat_lt
  have h₂ := (x 2).toNat_lt
  have h₃ := (x 3).toNat_lt
  have hl : (32 - n) % 8 ≤ 8 := by omega
  apply UInt32.toNat_inj.mp
  rw [toNat_L32 _ (by omega), toNat_ld32, toNat_ld32]
  simp only [myu32Rol, toNat_rol_byte _ _ hl]
  rcases hn with rfl | rfl | rfl | rfl
  · norm_num
    omega
  · norm_num
    omega
  · norm_num
    omega
  · norm_num
    omega

/-! ## Rounds -/

def toWords (x : Arr Cells) : Arr UInt32 := ⟨fun i => ld32 (x i)⟩

theorem toWords_set (x : Arr Cells) (k : Nat) (v : Cells) :
    toWords (x.set k v) = (toWords x).set k (ld32 v) := by
  have hget : ∀ i, toWords (x.set k v) i = (toWords x).set k (ld32 v) i := by
    intro i
    by_cases hi : i = k
    · rw [hi, Arr.set_self]
      exact congrArg ld32 (x.set_self k v)
    · rw [Arr.set_of_ne _ hi]
      exact congrArg ld32 (x.set_of_ne hi v)
  exact congrArg Arr.mk (funext hget)

/-- A quarter of a quarter round, on bytes and on words. -/
def stepBytes (x : Arr Cells) (a b c n : Nat) : Arr Cells :=
  x.set c (myu32Xor (x c) (myu32Rol (myu32Add (x a) (x b)) n))

def stepWords (x : Arr UInt32) (a b c n : Nat) : Arr UInt32 :=
  x.set c (x c ^^^ L32 (x a + x b) n.toUInt32)

def quarterWords (x : Arr UInt32) (a b c d : Nat) : Arr UInt32 :=
  stepWords (stepWords (stepWords (stepWords x a b c 7) c a d 9) d c b 13) b d a 18

def doubleWords (x : Arr UInt32) : Arr UInt32 :=
  let x := quarterWords x 0 12 4 8
  let x := quarterWords x 5 1 9 13
  let x := quarterWords x 10 6 14 2
  let x := quarterWords x 15 11 3 7
  let x := quarterWords x 0 3 1 2
  let x := quarterWords x 5 4 6 7
  let x := quarterWords x 10 9 11 8
  quarterWords x 15 14 12 13

theorem toWords_step (x : Arr Cells) (a b c : Nat) {n : Nat}
    (hn : n = 7 ∨ n = 9 ∨ n = 13 ∨ n = 18) :
    toWords (stepBytes x a b c n) = stepWords (toWords x) a b c n := by
  rw [stepBytes, toWords_set, ld32_xor, ld32_rol _ hn, ld32_add]
  rfl

theorem toWords_quarterround (x : Arr Cells) (a b c d : Nat) :
    toWords (quarterround x a b c d) = quarterWords (toWords x) a b c d := by
  have hsteps : quarterround x a b c d =
      stepBytes (stepBytes (stepBytes (stepBytes x a b c 7) c a d 9) d c b 13) b d a 18 := rfl
  rw [hsteps, toWords_step _ _ _ _ (by decide), toWords_step _ _ _ _ (by decide),
    toWords_step _ _ _ _ (by decide), toWords_step _ _ _ _ (by decide)]
  rfl

theorem toWords_doubleround (x : Arr Cells) :
    toWords (doubleround x) = doubleWords (toWords x) := by
  simp only [doubleround, doubleWords, toWords_quarterround]

/-! ## Relabelled cells

A step uses cells by their index only, so it commutes with an injective renaming of them. -/

/-- The cells of `y` below `n` are cells of `x`. -/
def Relabels (f : Nat → Nat) (n : Nat) (y x : Arr UInt32) : Prop := ∀ i, i < n → y i = x (f i)

namespace Relabels

variable {f : Nat → Nat} {n : Nat} {x y : Arr UInt32}

theorem step (hinj : ∀ i k, i < n → k < n → f i = f k → i = k) (h : Relabels f n y x)
    {a b c : Nat} (ha : a < n) (hb : b < n) (hc : c < n) (l : Nat) :
    Relabels f n (stepWords y a b c l) (stepWords x (f a) (f b) (f c) l) := by
  intro i hi
  by_cases hic : i = c
  · rw [hic, stepWords, stepWords, Arr.set_self, Arr.set_self, h a ha, h b hb, h c hc]
  · have hne : f i ≠ f c := fun he => hic (hinj i c hi hc he)
    rw [stepWords, stepWords, Arr.set_of_ne _ hic, Arr.set_of_ne _ hne, h i hi]

theorem quarter (hinj : ∀ i k, i < n → k < n → f i = f k → i = k) (h : Relabels f n y x)
    (a b c d : Nat) (hlt : a < n ∧ b < n ∧ c < n ∧ d < n) :
    Relabels f n (quarterWords y a b c d) (quarterWords x (f a) (f b) (f c) (f d)) := by
  obtain ⟨ha, hb, hc, hd⟩ := hlt
  have hfirst := h.step hinj ha hb hc 7
  have hsecond := hfirst.step hinj hc ha hd 9
  have hthird := hsecond.step hinj hd hc hb 13
  exact hthird.step hinj hb hd ha 18

end Relabels

theorem quarterWords_of_ne (x : Arr UInt32) {a b c d i : Nat} (ha : i ≠ a) (hb : i ≠ b)
    (hc : i ≠ c) (hd : i ≠ d) : quarterWords x a b c d i = x i := by
  rw [quarterWords, stepWords, Arr.set_of_ne _ ha, stepWords, Arr.set_of_ne _ hb, stepWords,
    Arr.set_of_ne _ hd, stepWords, Arr.set_of_ne _ hc]

/-! ## A round -/

/-- The cell `m` of the column `j`, counted from the diagonal. -/
def columnCell (j m : Nat) : Nat := (5 * j + 4 * m) % 16

theorem columnCell_inj {j : Nat} :
    ∀ m k, m < 4 → k < 4 → columnCell j m = columnCell j k → m = k := by
  simp only [columnCell]
  omega

/-- Rows and columns exchanged. -/
def transpose (i : Nat) : Nat := i % 4 * 4 + i / 4

theorem transpose_inj : ∀ i k, i < 16 → k < 16 → transpose i = transpose k → i = k := by
  simp only [transpose]
  omega

def quarterColumn (x : Arr UInt32) (j : Nat) : Arr UInt32 :=
  quarterWords x (columnCell j 0) (columnCell j 3) (columnCell j 1) (columnCell j 2)

def columnWords (x : Arr UInt32) : Arr UInt32 := (List.range 4).foldl quarterColumn x

def rowWords (x : Arr UInt32) : Arr UInt32 :=
  quarterWords (quarterWords (quarterWords (quarterWords x 0 3 1 2) 5 4 6 7) 10 9 11 8) 15 14 12 13

theorem quarterColumn_of_ne (x : Arr UInt32) {j i : Nat} (h : i % 4 ≠ j % 4) :
    quarterColumn x j i = x i := by
  have hne : ∀ m, i ≠ columnCell j m := by
    intro m
    simp only [columnCell]
    omega
  exact quarterWords_of_ne x (hne 0) (hne 3) (hne 1) (hne 2)

theorem hsalsaColumn_of_ne (x w : Arr UInt32) {j i : Nat} (h : i / 4 ≠ j) :
    hsalsaColumn x w j i = w i := by
  have hne : ∀ m, i ≠ 4 * j + (j + m) % 4 := by omega
  simp only [hsalsaColumn, List.range, List.range.loop, List.foldl]
  rw [Arr.set_of_ne _ (hne 3), Arr.set_of_ne _ (hne 2), Arr.set_of_ne _ (hne 1),
    Arr.set_of_ne _ (hne 0)]

/-- The four words that one pass of the loop writes. -/
theorem hsalsaColumn_cell (x w : Arr UInt32) (j : Nat) {m : Nat} (hm : m < 4) :
    hsalsaColumn x w j (4 * j + (j + m) % 4) =
      quarterWords ⟨fun m => x (columnCell j m)⟩ 0 3 1 2 m := by
  have hcells : hsalsaColumn x w j = (List.range 4).foldl (fun w m => w.set (4 * j + (j + m) % 4)
      (quarterWords ⟨fun m => x (columnCell j m)⟩ 0 3 1 2 m)) w := rfl
  rw [hcells]
  simp only [List.range, List.range.loop, List.foldl]
  obtain rfl | rfl | rfl | rfl : m = 0 ∨ m = 1 ∨ m = 2 ∨ m = 3 := by omega
  · rw [Arr.set_of_ne _ (by omega), Arr.set_of_ne _ (by omega), Arr.set_of_ne _ (by omega),
      Arr.set_self]
  · rw [Arr.set_of_ne _ (by omega), Arr.set_of_ne _ (by omega), Arr.set_self]
  · rw [Arr.set_of_ne _ (by omega), Arr.set_self]
  · rw [Arr.set_self]

/-- After `n` columns, those behind are untouched and those before are written as rows. -/
theorem columns_done (x : Arr UInt32) (n : Nat) :
    n ≤ 4 →
    (∀ i, n ≤ i % 4 → (List.range n).foldl quarterColumn x i = x i) ∧
      ∀ i, i < 16 → i / 4 < n → (List.range n).foldl (hsalsaColumn x) x i =
        (List.range n).foldl quarterColumn x (transpose i) := by
  induction n with
  | zero => exact fun _ => ⟨fun i _ => rfl, fun i _ h => absurd h (Nat.not_lt_zero _)⟩
  | succ n ih =>
    intro hn
    obtain ⟨hbehind, hdone⟩ := ih (Nat.le_of_succ_le hn)
    rw [List.range_succ, List.foldl_append, List.foldl_append, List.foldl, List.foldl,
      List.foldl, List.foldl]
    refine ⟨fun i hi => ?_, fun i hi hrow => ?_⟩
    · rw [quarterColumn_of_ne _ (by omega)]
      exact hbehind i (by omega)
    · by_cases hlast : i / 4 = n
      · -- the cell `m` of the column, counted from the diagonal
        let m := (i % 4 + 4 - n) % 4
        have hm : m < 4 := Nat.mod_lt _ (by decide)
        have hcell : i = 4 * n + (n + m) % 4 := by omega
        have htranspose : transpose i = columnCell n m := by
          simp only [transpose, columnCell]
          omega
        have hcolumn : Relabels (columnCell n) 4 ⟨fun m => x (columnCell n m)⟩
            ((List.range n).foldl quarterColumn x) := by
          intro k _
          refine (hbehind _ ?_).symm
          simp only [columnCell]
          omega
        rw [htranspose]
        conv_lhs => rw [hcell]
        rw [hsalsaColumn_cell x _ n hm]
        exact hcolumn.quarter columnCell_inj 0 3 1 2 (by decide) m hm
      · have hne : transpose i % 4 ≠ n % 4 := by
          simp only [transpose]
          omega
        rw [hsalsaColumn_of_ne _ _ hlast, quarterColumn_of_ne _ hne]
        exact hdone i hi (by omega)

theorem hsalsaRound_transpose (x : Arr UInt32) :
    Relabels transpose 16 (hsalsaRound x) (columnWords x) :=
  fun i hi => (columns_done x 4 (Nat.le_refl 4)).2 i hi (by omega)

theorem columnWords_eq (x : Arr UInt32) : columnWords x = quarterWords (quarterWords
    (quarterWords (quarterWords x 0 12 4 8) 5 1 9 13) 10 6 14 2) 15 11 3 7 := by
  simp only [columnWords, List.range, List.range.loop, List.foldl, quarterColumn, columnCell,
    Nat.reduceMul, Nat.reduceAdd, Nat.reduceMod]

theorem doubleWords_eq (x : Arr UInt32) : doubleWords x = rowWords (columnWords x) := by
  rw [columnWords_eq, doubleWords, rowWords]

theorem Relabels.rows {x y : Arr UInt32} (h : Relabels transpose 16 y x) :
    Relabels transpose 16 (columnWords y) (rowWords x) := by
  have hzero : Relabels transpose 16 (quarterWords y 0 12 4 8) (quarterWords x 0 3 1 2) :=
    h.quarter transpose_inj 0 12 4 8 (by decide)
  have hone := hzero.quarter transpose_inj 5 1 9 13 (by decide)
  have htwo := hone.quarter transpose_inj 10 6 14 2 (by decide)
  have hthree := htwo.quarter transpose_inj 15 11 3 7 (by decide)
  rw [columnWords_eq, rowWords]
  simp only [transpose, Nat.reduceMod, Nat.reduceDiv, Nat.reduceMul, Nat.reduceAdd] at hthree
  exact hthree

theorem Relabels.columns {x y : Arr UInt32} (h : Relabels id 16 y x) :
    Relabels id 16 (columnWords y) (columnWords x) := by
  have hinj : ∀ i k : Nat, i < 16 → k < 16 → id i = id k → i = k := fun _ _ _ _ h => h
  have hzero := h.quarter hinj 0 12 4 8 (by decide)
  have hone := hzero.quarter hinj 5 1 9 13 (by decide)
  have htwo := hone.quarter hinj 10 6 14 2 (by decide)
  have hthree := htwo.quarter hinj 15 11 3 7 (by decide)
  rw [columnWords_eq, columnWords_eq]
  exact hthree

/-- Two rounds of the one file are a double round of the other. -/
theorem Relabels.double {x y : Arr UInt32} (h : Relabels id 16 y x) :
    Relabels id 16 (hsalsaRound (hsalsaRound y)) (doubleWords x) := by
  have hfirst : Relabels transpose 16 (hsalsaRound y) (columnWords x) := by
    intro i hi
    rw [hsalsaRound_transpose y i hi]
    exact h.columns (transpose i) (by simp only [transpose]; omega)
  intro i hi
  have htranspose : transpose i < 16 ∧ transpose (transpose i) = i := by
    simp only [transpose]
    omega
  rw [hsalsaRound_transpose _ i hi, hfirst.rows _ htranspose.1, htranspose.2, doubleWords_eq]
  rfl

theorem Relabels.doubles {x y : Arr UInt32} (h : Relabels id 16 y x) (n : Nat) :
    Relabels id 16 (hsalsaRound^[2 * n] y) (doubleWords^[n] x) := by
  induction n with
  | zero => exact h
  | succ n ih =>
    rw [Function.iterate_succ_apply', show 2 * (n + 1) = 2 * n + 1 + 1 by omega,
      Function.iterate_succ_apply', Function.iterate_succ_apply']
    exact ih.double

/-! ## The two files -/

theorem toWords_doublerounds (x : Arr Cells) (n : Nat) :
    toWords (doubleround^[n] x) = doubleWords^[n] (toWords x) := by
  have hsemiconj : Function.Semiconj toWords doubleround doubleWords := toWords_doubleround
  exact hsemiconj.iterate_right n x

theorem ld32_st32 (u : UInt32) : ld32 (st32 u) = u := by
  have hbyte : ∀ i, i < 4 → (st32 u i).toNat = u.toNat / 256 ^ i % 256 := by
    intro i hi
    have hshift : (8 * i).toUInt32.toNat % 32 = 8 * i := toNat_toUInt32_small (by omega)
    have hpow : (256 : Nat) ^ i = 2 ^ (8 * i) := by rw [Nat.pow_mul]
    change ((u >>> (8 * i).toUInt32).toUInt8).toNat = _
    rw [UInt32.toNat_toUInt8, UInt32.toNat_shiftRight, hshift, Nat.shiftRight_eq_div_pow, hpow]
  have hlt := u.toNat_lt
  apply UInt32.toNat_inj.mp
  rw [toNat_ld32, hbyte 0 (by decide), hbyte 1 (by decide), hbyte 2 (by decide),
    hbyte 3 (by decide)]
  omega

theorem hsalsaInput_relabels (inp k c : Cells) :
    Relabels id 16 (hsalsaInput inp k c) (toWords (salsaInput inp k c)) := by
  intro i hi
  interval_cases i
  all_goals rfl

/-- The words of the two files after the rounds, before anything is added to them. -/
theorem rounds_relabel (inp k c : Cells) :
    Relabels id 16 (hsalsaRound^[20] (hsalsaInput inp k c))
      (toWords (doubleround^[10] (salsaInput inp k c))) := by
  have hrounds := (hsalsaInput_relabels inp k c).doubles 10
  rw [toWords_doublerounds]
  exact hrounds


theorem ld32_congr {x y : Cells} (h : ∀ i, i < 4 → x i = y i) : ld32 x = ld32 y := by
  rw [ld32, ld32, h 0 (by decide), h 1 (by decide), h 2 (by decide), h 3 (by decide)]

/-- A word of `out`: a word after the rounds and the word of `salsaInput` at its place. -/
theorem coreSalsa20_word (inp k c : Cells) (i : Nat) :
    ld32 ((coreSalsa20 inp k c).from (4 * i)) =
      toWords (doubleround^[10] (salsaInput inp k c)) i + toWords (salsaInput inp k c) i := by
  have hcells : ld32 ((coreSalsa20 inp k c).from (4 * i)) =
      ld32 (myu32Add (doubleround^[10] (salsaInput inp k c) i) (salsaInput inp k c i)) := by
    apply ld32_congr
    intro m hm
    have hdiv : (4 * i + m) / 4 = i := by omega
    have hmod : (4 * i + m) % 4 = m := by omega
    simp only [Arr.from, coreSalsa20, hdiv, hmod]
  rw [hcells, ld32_add]
  rfl

/-- The last loop over the words: the places are all different. -/
theorem subtractions (x : Arr UInt32) (a b : Nat → UInt32) {i : Nat} (hi : i < 4) :
    (List.range 4).foldl (fun x i =>
        let x := x.set (5 * i) (x (5 * i) - a i)
        x.set (6 + i) (x (6 + i) - b i)) x (5 * i) = x (5 * i) - a i ∧
      (List.range 4).foldl (fun x i =>
        let x := x.set (5 * i) (x (5 * i) - a i)
        x.set (6 + i) (x (6 + i) - b i)) x (6 + i) = x (6 + i) - b i := by
  interval_cases i
  all_goals exact ⟨rfl, rfl⟩

theorem hsalsaInput_word (inp k c : Cells) {i : Nat} (hi : i < 4) :
    hsalsaInput inp k c (5 * i) = ld32 (c.from (4 * i)) ∧
      hsalsaInput inp k c (6 + i) = ld32 (inp.from (4 * i)) := by
  interval_cases i
  all_goals exact ⟨rfl, rfl⟩

theorem ld32_stored (x : Arr UInt32) {i : Nat} (hi : i < 4) :
    ld32 (Arr.from ⟨fun i => if i < 16 then st32 (x (5 * (i / 4))) (i % 4)
        else st32 (x (6 + (i / 4 - 4))) (i % 4)⟩ (4 * i)) = x (5 * i) ∧
      ld32 (Arr.from ⟨fun i => if i < 16 then st32 (x (5 * (i / 4))) (i % 4)
        else st32 (x (6 + (i / 4 - 4))) (i % 4)⟩ (16 + 4 * i)) = x (6 + i) := by
  rw [← ld32_st32 (x (5 * i)), ← ld32_st32 (x (6 + i))]
  refine ⟨ld32_congr fun m hm => ?_, ld32_congr fun m hm => ?_⟩
  · have hlt : 4 * i + m < 16 := by omega
    have hdiv : (4 * i + m) / 4 = i := by omega
    have hmod : (4 * i + m) % 4 = m := by omega
    simp only [Arr.from, hdiv, hmod, if_pos hlt]
  · have hge : ¬ 16 + 4 * i + m < 16 := by omega
    have hdiv : (16 + 4 * i + m) / 4 - 4 = i := by omega
    have hmod : (16 + 4 * i + m) % 4 = m := by omega
    simp only [Arr.from, hdiv, hmod, if_neg hge]

/-- What is added to a word that `coreHsalsa20` writes is subtracted from it again. -/
theorem coreHsalsa20_word (inp k c : Cells) {i : Nat} (hi : i < 4) :
    ld32 ((coreHsalsa20 inp k c).from (4 * i)) = hsalsaRound^[20] (hsalsaInput inp k c) (5 * i) ∧
      ld32 ((coreHsalsa20 inp k c).from (16 + 4 * i)) =
        hsalsaRound^[20] (hsalsaInput inp k c) (6 + i) := by
  obtain ⟨hyc, hyi⟩ := hsalsaInput_word inp k c hi
  rw [coreHsalsa20, (ld32_stored _ hi).1, (ld32_stored _ hi).2]
  generalize hsalsaRound^[20] (hsalsaInput inp k c) = x
  obtain ⟨hconstant, hinput⟩ := subtractions ⟨fun i => x i + hsalsaInput inp k c i⟩
    (fun i => ld32 (c.from (4 * i))) (fun i => ld32 (inp.from (4 * i))) hi
  refine ⟨hconstant.trans ?_, hinput.trans ?_⟩
  · rw [← hyc]
    exact UInt32.add_sub_cancel _ _
  · rw [← hyi]
    exact UInt32.add_sub_cancel _ _

/-- The words of HSalsa20 are those of the block of Salsa20 at the places of the constants and
of the input, less what was there at the start. -/
theorem coreHsalsa20_eq (inp k c : Cells) {i : Nat} (hi : i < 4) :
    ld32 ((coreHsalsa20 inp k c).from (4 * i)) + ld32 (c.from (4 * i)) =
        ld32 ((coreSalsa20 inp k c).from (4 * (5 * i))) ∧
      ld32 ((coreHsalsa20 inp k c).from (16 + 4 * i)) + ld32 (inp.from (4 * i)) =
        ld32 ((coreSalsa20 inp k c).from (4 * (6 + i))) := by
  obtain ⟨hconstant, hinput⟩ := coreHsalsa20_word inp k c hi
  have hrounds := rounds_relabel inp k c
  have hfirst : toWords (salsaInput inp k c) (5 * i) = ld32 (c.from (4 * i)) := by
    interval_cases i
    all_goals rfl
  have hsecond : toWords (salsaInput inp k c) (6 + i) = ld32 (inp.from (4 * i)) := by
    interval_cases i
    all_goals rfl
  rw [hconstant, hinput, coreSalsa20_word, coreSalsa20_word, hfirst, hsecond,
    hrounds (5 * i) (by omega), hrounds (6 + i) (by omega)]
  exact ⟨rfl, rfl⟩

theorem coreHsalsa20_second :
    ld32 ((coreHsalsa20 ⟨fun _ => 3⟩ ⟨fun _ => 5⟩ ⟨fun _ => 7⟩).from (4 * 1)) +
        ld32 ((⟨fun _ => 7⟩ : Cells).from (4 * 1)) =
      ld32 ((coreSalsa20 ⟨fun _ => 3⟩ ⟨fun _ => 5⟩ ⟨fun _ => 7⟩).from (4 * (5 * 1))) :=
  (coreHsalsa20_eq ⟨fun _ => 3⟩ ⟨fun _ => 5⟩ ⟨fun _ => 7⟩ (i := 1) (by decide)).1

end Crypto
end EspMisc
