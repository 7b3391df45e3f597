/-
What the two address parsers accept.

Both read runs of digits between dots.  `strToIPBytes_eq` says what `UTILS_StrToIP` makes
of the runs, and `isIPV4Loop_iff` which runs `UTILS_IsIPV4` is content with.  The first
allows any character after the last number, so it also takes a string that only begins
with an address.
-/
import EspMisc.Lib.Runs
import EspMisc.Mqtt.Layout
import EspMisc.Mqtt.Utils

namespace EspMisc
namespace Mqtt

def isDigit (c : UInt8) : Bool := 48 ≤ c && c ≤ 57

/-- The number that the digits of `g` make of `n`. -/
def valueFrom (n : Nat) (g : Bytes) : Nat := g.foldl (fun n c => n * 10 + (c.toNat - 48)) n

/-- The number a run of digits stands for. -/
def value (g : Bytes) : Nat := valueFrom 0 g

theorem isDigit_eq_true {c : UInt8} : isDigit c = true ↔ 48 ≤ c ∧ c ≤ 57 := by
  rw [isDigit, Bool.and_eq_true, decide_eq_true_iff, decide_eq_true_iff]

theorem isDigit_eq_false {c : UInt8} : isDigit c = false ↔ ¬(48 ≤ c ∧ c ≤ 57) := by
  rw [← isDigit_eq_true, Bool.not_eq_true]

/-! ### `UTILS_StrToIP` -/

/-- What the loop has in `n` after the digits of `g`. -/
def scan (n : Int) (g : Bytes) : Int :=
  g.foldl (fun n c => i32 (i32 (n * 10) + (c.toNat - 48))) n

theorem i32_step (m d : Int) : i32 (i32 (i32 m * 10) + d) = i32 (m * 10 + d) := by
  unfold i32
  omega

theorem scan_cons (n : Int) (c : UInt8) (g : Bytes) :
    scan n (c :: g) = scan (i32 (i32 (n * 10) + (c.toNat - 48))) g := List.foldl_cons ..

theorem scan_i32 {g : Bytes} (hg : ∀ c ∈ g, isDigit c = true) (m : Nat) :
    scan (i32 m) g = i32 (valueFrom m g) := by
  induction g generalizing m with
  | nil => rw [scan, List.foldl_nil, valueFrom, List.foldl_nil]
  | cons c g ih =>
    obtain ⟨hc, hg⟩ := List.forall_mem_cons.mp hg
    have hle : 48 ≤ c.toNat := UInt8.le_iff_toNat_le.mp (isDigit_eq_true.mp hc).1
    have hcast : (m : Int) * 10 + (c.toNat - 48) = (m * 10 + (c.toNat - 48) : Nat) := by omega
    rw [scan_cons, i32_step, hcast, ih hg, valueFrom, valueFrom, List.foldl_cons]

theorem scan_zero {g : Bytes} (hg : ∀ c ∈ g, isDigit c = true) : scan 0 g = i32 (value g) := by
  have hzero : i32 (0 : Nat) = 0 := by decide
  rw [value, ← scan_i32 hg, hzero]

/-- The inner loop stops at the first character that is no digit, which has to be a dot
unless the number is the last one. -/
theorem strToIPNumber_eq (last : Bool) (s : Bytes) (n : Int) :
    strToIPNumber last s n =
      match s.dropWhile isDigit with
      | [] => if last then some (scan n (s.takeWhile isDigit), []) else none
      | c :: t =>
        if last = true ∨ c = 46 then some (scan n (s.takeWhile isDigit), t) else none := by
  induction s generalizing n with
  | nil => rfl
  | cons c s ih =>
    rw [strToIPNumber]
    by_cases hc : 48 ≤ c ∧ c ≤ 57
    · have hd := isDigit_eq_true.mpr hc
      rw [if_pos hc, ih, List.takeWhile_cons_of_pos hd, List.dropWhile_cons_of_pos hd, scan_cons]
    · have hd : ¬isDigit c = true := fun h => hc (isDigit_eq_true.mp h)
      rw [if_neg hc, List.takeWhile_cons_of_neg hd, List.dropWhile_cons_of_neg hd]
      have hstop : (last = false ∧ c = 46) ∨ last = true ↔ last = true ∨ c = 46 := by
        cases last <;> simp
      rw [if_congr hstop rfl rfl]
      rfl

theorem strToIPNumber_last (s : Bytes) (n : Int) :
    strToIPNumber true s n = some (scan n (s.takeWhile isDigit), (s.dropWhile isDigit).tail) := by
  rw [strToIPNumber_eq]
  cases s.dropWhile isDigit with
  | nil => rfl
  | cons c t => exact if_pos (.inl rfl)

/-- The byte stored for the digits of `g`. -/
def stored (g : Bytes) : UInt8 := UInt8.ofNat (i32 (value g) % 256).toNat

/-- The bytes stored for the runs `gs`, when none is found too large. -/
def storedAll (gs : List Bytes) : Option Bytes :=
  if ∀ g ∈ gs, i32 (value g) < 256 then some (gs.map stored) else none

theorem storedAll_cons (g : Bytes) (gs : List Bytes) :
    storedAll (g :: gs) =
      if i32 (value g) ≥ 256 then none else (storedAll gs).map (stored g :: ·) := by
  unfold storedAll
  by_cases hg : i32 (value g) ≥ 256
  · rw [if_pos hg, if_neg fun h => absurd (h g List.mem_cons_self) (by omega)]
  · rw [if_neg hg]
    by_cases hgs : ∀ g ∈ gs, i32 (value g) < 256
    · rw [if_pos hgs, if_pos (List.forall_mem_cons.mpr ⟨by omega, hgs⟩)]
      rfl
    · rw [if_neg hgs, if_neg fun h => hgs (List.forall_mem_cons.mp h).2]
      rfl

theorem strToIPBytes_eq (n : Nat) (s : Bytes) :
    strToIPBytes (n + 1) s = (Runs.split isDigit 46 n s).bind fun r => storedAll r.1 := by
  have htake : ∀ s : Bytes, scan 0 (s.takeWhile isDigit) = i32 (value (s.takeWhile isDigit)) :=
    fun s => scan_zero fun _ => List.mem_takeWhile_imp
  induction n generalizing s with
  | zero =>
    rw [strToIPBytes, beq_self_eq_true, strToIPNumber_last, htake, Runs.split, Option.bind_some,
      storedAll_cons]
    rfl
  | succ n ih =>
    rw [strToIPBytes, beq_false_of_ne n.succ_ne_zero, strToIPNumber_eq, Runs.split]
    cases s.dropWhile isDigit with
    | nil => rfl
    | cons c t =>
      dsimp only
      by_cases hdot : c = 46
      · rw [if_pos (.inr hdot), if_pos hdot, htake]
        dsimp only
        rw [ih]
        cases Runs.split isDigit 46 n t with
        | none => exact ite_self none
        | some r => rw [Option.bind_some, Option.map_some, Option.bind_some, storedAll_cons, stored]
      · rw [if_neg (by simp [hdot]), if_neg hdot]
        rfl

/-! ### `UTILS_IsIPV4` -/

theorem isIPV4Loop_nil (segs chcnt accum : UInt8) :
    isIPV4Loop [] segs chcnt accum = true ↔ segs = 3 ∧ chcnt ≠ 0 := by
  rw [isIPV4Loop]
  by_cases hsegs : segs = 3
  · rw [if_neg (not_not_intro hsegs)]
    by_cases hch : chcnt = 0 <;> simp [hsegs, hch]
  · rw [if_pos hsegs]
    simp [hsegs]

theorem isIPV4Loop_dot (str : Bytes) (segs chcnt accum : UInt8) :
    isIPV4Loop (46 :: str) segs chcnt accum = true ↔
      chcnt ≠ 0 ∧ segs ≠ 3 ∧ isIPV4Loop str (segs + 1) 0 0 = true := by
  have hsegs : segs + 1 = 4 ↔ segs = 3 := by
    constructor
    · intro h
      exact (UInt8.add_left_inj 1).mp (h : segs + 1 = 3 + 1)
    · rintro rfl
      rfl
  rw [isIPV4Loop, if_pos rfl, if_congr hsegs rfl rfl]
  by_cases hch : chcnt = 0
  · simp [hch]
  · by_cases h3 : segs = 3 <;> simp [hch, h3]

theorem isIPV4Loop_digit {c : UInt8} (hc : isDigit c = true) (str : Bytes)
    (segs chcnt accum : UInt8) :
    isIPV4Loop (c :: str) segs chcnt accum =
      isIPV4Loop str segs (chcnt + 1) (accum * 10 + c - 48) := by
  obtain ⟨hlow, hhigh⟩ := isDigit_eq_true.mp hc
  have hdot : c ≠ 46 := by
    rintro rfl
    exact absurd hc (by decide)
  have hlow : ¬c < 48 := UInt8.not_lt.mpr hlow
  have hhigh : ¬c > 57 := UInt8.not_lt.mpr hhigh
  have hsum := (accum * 10 + c - 48).toNat_lt
  rw [isIPV4Loop, if_neg hdot, if_neg (not_or.mpr ⟨hlow, hhigh⟩), if_neg (by omega)]

theorem isIPV4Loop_other {c : UInt8} (hc : isDigit c = false) (hdot : c ≠ 46) (str : Bytes)
    (segs chcnt accum : UInt8) : isIPV4Loop (c :: str) segs chcnt accum = false := by
  have hout : c < 48 ∨ c > 57 := by
    rw [isDigit_eq_false, not_and_or, UInt8.not_le, UInt8.not_le] at hc
    exact hc
  rw [isIPV4Loop, if_neg hdot, if_pos hout]

/-- The accumulator holds a byte, so comparing it with 255 decides nothing. -/
theorem isIPV4Loop_accum (str : Bytes) (segs chcnt accum accum' : UInt8) :
    isIPV4Loop str segs chcnt accum = isIPV4Loop str segs chcnt accum' := by
  induction str generalizing segs chcnt accum accum' with
  | nil => rfl
  | cons c str ih =>
    by_cases hc : isDigit c = true
    · rw [isIPV4Loop_digit hc, isIPV4Loop_digit hc, ih]
    · rw [Bool.not_eq_true] at hc
      by_cases hdot : c = 46
      · rw [hdot, Bool.eq_iff_iff, isIPV4Loop_dot, isIPV4Loop_dot]
      · rw [isIPV4Loop_other hc hdot, isIPV4Loop_other hc hdot]

theorem isIPV4Loop_run {g : Bytes} (hg : ∀ c ∈ g, isDigit c = true) (str : Bytes)
    (segs chcnt accum : UInt8) :
    isIPV4Loop (g ++ str) segs chcnt accum =
      isIPV4Loop str segs (chcnt + UInt8.ofNat g.length) 0 := by
  induction g generalizing chcnt accum with
  | nil =>
    rw [List.nil_append, isIPV4Loop_accum str segs chcnt accum 0]
    exact congrArg (isIPV4Loop str segs · 0) (UInt8.add_zero chcnt).symm
  | cons c g ih =>
    obtain ⟨hc, hg⟩ := List.forall_mem_cons.mp hg
    rw [List.cons_append, isIPV4Loop_digit hc, ih hg, List.length_cons, Nat.add_comm,
      UInt8.ofNat_add, UInt8.add_assoc]
    rfl

/-- A group of digits ends the string, as the fourth one, or ends in a dot, as one of the
first three. -/
theorem isIPV4Loop_segment (s : Bytes) (segs : UInt8) :
    isIPV4Loop s segs 0 0 = true ↔
      UInt8.ofNat (s.takeWhile isDigit).length ≠ 0 ∧
        (s.dropWhile isDigit = [] ∧ segs = 3 ∨
          ∃ t, s.dropWhile isDigit = 46 :: t ∧ segs ≠ 3 ∧
            isIPV4Loop t (segs + 1) 0 0 = true) := by
  have hdigits : ∀ c ∈ s.takeWhile isDigit, isDigit c = true := fun _ => List.mem_takeWhile_imp
  have hrun := isIPV4Loop_run hdigits (s.dropWhile isDigit) segs 0 0
  rw [List.takeWhile_append_dropWhile, UInt8.zero_add] at hrun
  have hstop := Runs.head_dropWhile isDigit s
  rw [hrun]
  cases hdrop : s.dropWhile isDigit with
  | nil => simp [isIPV4Loop_nil, and_comm]
  | cons c t =>
    rw [hdrop] at hstop
    by_cases hdot : c = 46
    · rw [hdot, isIPV4Loop_dot]
      simp
    · rw [isIPV4Loop_other (hstop c rfl) hdot]
      simp [hdot]

theorem segs_eq_three_iff {n : Nat} {segs : UInt8} (hsegs : segs.toNat + n = 3) :
    segs = 3 ↔ n = 0 := by
  rw [← UInt8.toNat_inj]
  change segs.toNat = 3 ↔ n = 0
  omega

theorem segs_next {n : Nat} {segs : UInt8} (hsegs : segs.toNat + (n + 1) = 3) :
    (segs + 1).toNat + n = 3 := by
  rw [UInt8.toNat_add]
  change (segs.toNat + 1) % 256 + n = 3
  omega

/-- With `n` dots to come, the rest of the string is `n + 1` runs of digits, none of a length
that the byte counts as nothing. -/
theorem isIPV4Loop_iff {n : Nat} {segs : UInt8} (hsegs : segs.toNat + n = 3) (s : Bytes) :
    isIPV4Loop s segs 0 0 = true ↔
      ∃ gs, Runs.split isDigit 46 n s = some (gs, []) ∧
        ∀ g ∈ gs, UInt8.ofNat g.length ≠ 0 := by
  induction n generalizing segs s with
  | zero =>
    obtain rfl := (segs_eq_three_iff hsegs).mpr rfl
    rw [isIPV4Loop_segment, Runs.split]
    simp [and_comm]
  | succ n ih =>
    have hne : segs ≠ 3 := fun h => absurd ((segs_eq_three_iff hsegs).mp h) n.succ_ne_zero
    have hnext := segs_next hsegs
    rw [isIPV4Loop_segment]
    simp only [Runs.split_succ_eq_some_iff]
    constructor
    · rintro ⟨hlen, ⟨-, hthree⟩ | ⟨t, hdrop, -, htrue⟩⟩
      · exact absurd hthree hne
      · obtain ⟨gs, hsplit, hgs⟩ := (ih hnext t).mp htrue
        exact ⟨_, ⟨t, gs, hdrop, hsplit, rfl⟩, List.forall_mem_cons.mpr ⟨hlen, hgs⟩⟩
    · rintro ⟨_, ⟨t, gs, hdrop, hsplit, rfl⟩, hgs⟩
      obtain ⟨hlen, hgs⟩ := List.forall_mem_cons.mp hgs
      exact ⟨hlen, .inr ⟨t, hdrop, hne, (ih hnext t).mpr ⟨gs, hsplit, hgs⟩⟩⟩

/-! ### Addresses -/

/-- `gs` are four groups of digits, none of them empty. -/
structure Groups (gs : List Bytes) : Prop where
  four : gs.length = 4
  digits : ∀ g ∈ gs, ∀ c ∈ g, isDigit c = true
  nonempty : ∀ g ∈ gs, g ≠ []

/-- The text with a dot between two groups. -/
def dotted (gs : List Bytes) : Bytes := [46].intercalate gs

/-- `gs` are the groups of a dotted-decimal address. -/
structure Address (gs : List Bytes) : Prop extends Groups gs where
  small : ∀ g ∈ gs, value g ≤ 255

/-- The four bytes of an address. -/
def octets (gs : List Bytes) : Bytes := gs.map fun g => UInt8.ofNat (value g)

/-- What the parsers do with the string `s`. -/
structure Parsed (s : Bytes) : Prop where
  accepted : ∀ gs rest, Address gs → (∀ c ∈ rest.head?, isDigit c = false) →
    s = dotted gs ++ rest → utilsStrToIP s = some (octets gs)
  unshaped : (¬∃ gs rest, Runs.Splits isDigit 46 4 s gs rest) → utilsStrToIP s = none
  large : ∀ gs rest, Runs.Splits isDigit 46 4 s gs rest →
    (∃ g ∈ gs, 256 ≤ value g ∧ value g < 2147483648) → utilsStrToIP s = none
  recognised : ∀ gs, Address gs → (∀ g ∈ gs, g.length < 256) → s = dotted gs →
    utilsIsIPV4 (some s) = true
  shaped : utilsIsIPV4 (some s) = true → ∃ gs, Groups gs ∧ s = dotted gs

theorem isDigit_dot : isDigit 46 = false := by decide

theorem utilsStrToIP_eq (s : Bytes) :
    utilsStrToIP s = (Runs.split isDigit 46 3 s).bind fun r => storedAll r.1 :=
  strToIPBytes_eq 3 s

theorem utilsStrToIP_of_splits {s rest : Bytes} {gs : List Bytes}
    (h : Runs.Splits isDigit 46 4 s gs rest) : utilsStrToIP s = storedAll gs := by
  rw [utilsStrToIP_eq, (Runs.split_eq_some_iff isDigit_dot).mpr h, Option.bind_some]

theorem i32_value {g : Bytes} (h : value g < 2147483648) : i32 (value g) = value g :=
  i32_eq (by omega) (by omega)

theorem storedAll_address {gs : List Bytes} (h : Address gs) : storedAll gs = some (octets gs) := by
  have hvalue : ∀ g ∈ gs, i32 (value g) = value g := fun g hg =>
    i32_value (Nat.lt_of_le_of_lt (h.small g hg) (by decide))
  have hlt : ∀ g ∈ gs, i32 (value g) < 256 := by
    intro g hg
    have hsmall := h.small g hg
    rw [hvalue g hg]
    omega
  rw [storedAll, if_pos hlt]
  refine congrArg some (List.map_congr_left fun g hg => ?_)
  have hsmall := h.small g hg
  rw [stored, hvalue g hg]
  congr 1
  omega

theorem splits_dotted {gs : List Bytes} {rest : Bytes} (h : Groups gs)
    (hrest : ∀ c ∈ rest.head?, isDigit c = false) :
    Runs.Splits isDigit 46 4 (dotted gs ++ rest) gs rest :=
  ⟨h.four, h.digits, hrest, rfl⟩

theorem splits_alone {gs : List Bytes} (h : Groups gs) :
    Runs.Splits isDigit 46 4 (dotted gs) gs [] := by
  have hsplits : Runs.Splits isDigit 46 4 (dotted gs ++ []) gs [] := splits_dotted h nofun
  rwa [List.append_nil] at hsplits

theorem utilsIsIPV4_iff (s : Bytes) :
    utilsIsIPV4 (some s) = true ↔
      ∃ gs, Runs.Splits isDigit 46 4 s gs [] ∧ ∀ g ∈ gs, UInt8.ofNat g.length ≠ 0 := by
  simp only [← Runs.split_eq_some_iff isDigit_dot]
  exact isIPV4Loop_iff rfl s

/-- `UTILS_StrToIP` reads the address a string begins with, and `UTILS_IsIPV4` wants nothing
after it. -/
theorem utils_parsed (s : Bytes) : Parsed s where
  accepted gs rest haddr hrest hs := by
    rw [hs, utilsStrToIP_of_splits (splits_dotted haddr.toGroups hrest), storedAll_address haddr]
  unshaped hno := by
    rw [utilsStrToIP_eq]
    cases hsplit : Runs.split isDigit 46 3 s with
    | none => rfl
    | some r => exact absurd ⟨r.1, r.2, Runs.splits_of_split hsplit⟩ hno
  large gs rest hsplits hlarge := by
    obtain ⟨g, hg, hlow, hhigh⟩ := hlarge
    rw [utilsStrToIP_of_splits hsplits, storedAll, if_neg]
    intro hall
    have hlt := hall g hg
    rw [i32_value hhigh] at hlt
    omega
  recognised gs haddr hlen hs := by
    rw [utilsIsIPV4_iff]
    refine ⟨gs, hs ▸ splits_alone haddr.toGroups, fun g hg hzero => ?_⟩
    have hpos := List.length_pos_of_ne_nil (haddr.nonempty g hg)
    have hnat : g.length % 256 = 0 := congrArg UInt8.toNat hzero
    have hlt := hlen g hg
    omega
  shaped htrue := by
    obtain ⟨gs, hsplits, hlen⟩ := (utilsIsIPV4_iff s).mp htrue
    refine ⟨gs, ⟨hsplits.length, hsplits.runs, ?_⟩, ?_⟩
    · rintro g hg rfl
      exact hlen [] hg rfl
    · rw [hsplits.text, List.append_nil, dotted]

/-- `"1.2.3.4a"` is no address, and is taken for one. -/
theorem address_then_letter :
    utilsStrToIP [49, 46, 50, 46, 51, 46, 52, 97] = some [1, 2, 3, 4] ∧
      ¬∃ gs, Address gs ∧ [49, 46, 50, 46, 51, 46, 52, 97] = dotted gs := by
  refine ⟨by decide, ?_⟩
  rintro ⟨gs, haddr, hs⟩
  have hsplit := (Runs.split_eq_some_iff isDigit_dot).mpr (splits_alone haddr.toGroups)
  have hread : Runs.split isDigit 46 3 [49, 46, 50, 46, 51, 46, 52, 97] =
      some ([[49], [50], [51], [52]], [97]) := by decide
  rw [← hs, hread] at hsplit
  exact absurd (congrArg Prod.snd (Option.some.inj hsplit)) nofun

end Mqtt
end EspMisc
