/-
The search for a rom to boot.

When the image of the selected rom is bad, `find_image` goes down through the slots, from
the first one on to the last, until it finds a good one or is back at the selected one.
`findImage_search` says that no slot is left out: the rom it boots is the first good one
in that order, the configuration says so afterwards, and nothing is booted only if every
slot is bad.
-/
import EspMisc.Rboot.Boot

namespace EspMisc
namespace Rboot

/-- The slot after `k` steps down from the selected one. -/
def slotAfter (c : RbootConfig) (k : Nat) : Int :=
  ((c.currentRom.toNat + c.count.toNat - k) % c.count.toNat : Nat)

/-- What the search can end with: the first good slot, or none. -/
inductive Searched (c : RbootConfig) (checkRom : Int → UInt32) : Int × UInt32 → Prop
  | found {k : Nat} (hk : k < c.count.toNat) (hgood : checkRom (slotAfter c k) ≠ 0)
      (hbad : ∀ j < k, checkRom (slotAfter c j) = 0) :
      Searched c checkRom (slotAfter c k, checkRom (slotAfter c k))
  | none {romToBoot : Int} (hbad : ∀ j < c.count.toNat, checkRom (slotAfter c j) = 0) :
      Searched c checkRom (romToBoot, 0)

section Search

variable {c : RbootConfig} {checkRom : Int → UInt32} (h : c.currentRom < c.count)
include h

theorem slotAfter_zero : slotAfter c 0 = c.currentRom.toNat := by
  have hlt := UInt8.lt_iff_toNat_lt.mp h
  rw [slotAfter, Nat.sub_zero, Nat.add_mod_right, Nat.mod_eq_of_lt hlt]

/-- A step of the loop. -/
theorem slotAfter_succ {k : Nat} (hk : k < c.count.toNat) :
    (if slotAfter c k - 1 < 0 then (c.count.toNat : Int) - 1 else slotAfter c k - 1) =
      slotAfter c (k + 1) := by
  have hlt := UInt8.lt_iff_toNat_lt.mp h
  unfold slotAfter
  generalize c.count.toNat = n at hk hlt ⊢
  generalize c.currentRom.toNat = s at hlt ⊢
  have hmod (m : Nat) (hm : m ≤ n) : (s + n - m) % n = if m ≤ s then s - m else s + n - m := by
    by_cases hle : m ≤ s
    · rw [if_pos hle, show s + n - m = s - m + n by omega, Nat.add_mod_right,
        Nat.mod_eq_of_lt (by omega)]
    · rw [if_neg hle, Nat.mod_eq_of_lt (by omega)]
  rw [hmod k (by omega), hmod (k + 1) (by omega)]
  by_cases hle : k ≤ s
  · rw [if_pos hle]
    by_cases hlt : k + 1 ≤ s
    · rw [if_pos hlt, if_neg (by omega)]
      omega
    · rw [if_neg hlt, if_pos (by omega)]
      omega
  · rw [if_neg hle, if_neg (show ¬ k + 1 ≤ s by omega), if_neg (by omega)]
    omega

/-- The search is back at the selected slot after as many steps as there are slots. -/
theorem slotAfter_eq_selected {k : Nat} (hk : 0 < k) (hle : k ≤ c.count.toNat) :
    slotAfter c k = c.currentRom.toNat ↔ k = c.count.toNat := by
  have hlt := UInt8.lt_iff_toNat_lt.mp h
  unfold slotAfter
  generalize c.count.toNat = n at hle hlt ⊢
  generalize c.currentRom.toNat = s at hlt ⊢
  rw [Int.natCast_inj]
  constructor
  · intro heq
    by_contra hne
    by_cases hks : k ≤ s
    · rw [show s + n - k = s - k + n by omega, Nat.add_mod_right,
        Nat.mod_eq_of_lt (by omega)] at heq
      omega
    · rw [Nat.mod_eq_of_lt (by omega)] at heq
      omega
  · rintro rfl
    rw [Nat.add_sub_cancel, Nat.mod_eq_of_lt hlt]

theorem tryRoms_searched {fuel : Nat} : ∀ {k : Nat}, k < c.count.toNat →
    c.count.toNat - k ≤ fuel → (∀ j < k, checkRom (slotAfter c j) = 0) →
    ∃ r, tryRoms c checkRom fuel (slotAfter c k) (checkRom (slotAfter c k)) = some r ∧
      Searched c checkRom r := by
  induction fuel with
  | zero =>
    intro k hk hfuel
    omega
  | succ fuel ih =>
    intro k hk hfuel hbad
    by_cases hgood : checkRom (slotAfter c k) = 0
    · have hbad' : ∀ j < k + 1, checkRom (slotAfter c j) = 0 := by
        intro j hj
        rcases Nat.lt_succ_iff_lt_or_eq.mp hj with hj | rfl
        · exact hbad j hj
        · exact hgood
      rw [tryRoms, if_neg (not_not_intro hgood)]
      simp only [slotAfter_succ h hk]
      by_cases hlast : k + 1 = c.count.toNat
      · rw [if_pos ((slotAfter_eq_selected h (Nat.succ_pos k) (by omega)).mpr hlast)]
        exact ⟨_, rfl, .none (hlast ▸ hbad')⟩
      · rw [if_neg fun heq =>
          hlast ((slotAfter_eq_selected h (Nat.succ_pos k) (by omega)).mp heq)]
        exact ih (by omega) (by omega) hbad'
    · rw [tryRoms_good hgood]
      exact ⟨_, rfl, .found hk hgood hbad⟩

end Search

/-- The record that the loader goes by. -/
def romconf (f : Flash) : RbootConfig := checkSelected (bootConfig f)

/-- The address of a slot, as the loader reads it. -/
def slotAddr (f : Flash) (i : Int) : UInt32 := romAt (storeConfig (romconf f) (loadConfig f).2) i

theorem romAt_storeConfig (c : RbootConfig) (buffer : Bytes) (i : Fin 4) :
    romAt (storeConfig c buffer) (i.val : Int) = c.roms i := by
  match i with
  | 0 | 1 | 2 | 3 => exact word_byte _

theorem checkSelected_roms (c : RbootConfig) : (checkSelected c).roms = c.roms := by
  unfold checkSelected
  split <;> rfl

/-- A slot that the record has room for. -/
theorem slotAddr_eq (f : Flash) (i : Fin 4) : slotAddr f (i.val : Int) = (bootConfig f).roms i := by
  rw [slotAddr, romAt_storeConfig, romconf, checkSelected_roms]

theorem romNumber_slotAfter {c : RbootConfig} (h : c.currentRom < c.count) (k : Nat) :
    (romNumber (slotAfter c k)).toNat = slotAfter c k := by
  have hlt := UInt8.lt_iff_toNat_lt.mp h
  have hcount := c.count.toNat_lt
  have hslot := Nat.mod_lt (c.currentRom.toNat + c.count.toNat - k) (show 0 < c.count.toNat by omega)
  unfold slotAfter
  rw [romNumber, UInt8.toNat_ofNat']
  omega

theorem findImage_searched (f : Flash) (checkImage : UInt32 → UInt32)
    (h : 0 < (bootConfig f).count) :
    ∃ b, findImage f checkImage = some b ∧
      Searched (romconf f) (fun i => checkImage (slotAddr f i)) (b.romToBoot, b.runAddr) ∧
      (b.runAddr ≠ 0 → ((rbootGetConfig b.flash).currentRom.toNat : Int) = b.romToBoot) := by
  obtain ⟨hsector, hacc, hget⟩ := loadConfig_spec f
  have hlen : (loadConfig f).2.length = sectorSize := by rw [← hsector, length_configSector]
  have hlt : (romconf f).currentRom < (romconf f).count := checkSelected_lt h
  have hpos := UInt8.lt_iff_toNat_lt.mp hlt
  have hcount := (romconf f).count.toNat_lt
  have hfirst := slotAfter_zero hlt
  obtain ⟨⟨romToBoot, runAddr⟩, hr, hsearched⟩ :=
    @tryRoms_searched _ (fun i => checkImage (slotAddr f i)) hlt 256 0 (by omega) (by omega)
      fun j hj => absurd hj (Nat.not_lt_zero j)
  rw [hfirst] at hr
  have hboot : findImage f checkImage = some (finishBoot (loadConfig f).1 (loadConfig f).2
      (romconf f) (decide ((bootConfig f).currentRom ≥ (bootConfig f).count) ||
        checkImage (slotAddr f (romconf f).currentRom.toNat) == 0) romToBoot runAddr) := by
    rw [findImage, bootRom, loadConfig_buffer f]
    exact congrArg (Option.map _) hr
  refine ⟨_, hboot, ?_⟩
  generalize hupdate : (decide ((bootConfig f).currentRom ≥ (bootConfig f).count) ||
    checkImage (slotAddr f (romconf f).currentRom.toNat) == 0) = updateConfig
  unfold finishBoot
  by_cases hrun : runAddr = 0
  · rw [if_pos hrun]
    exact ⟨hrun ▸ hsearched, fun hne => absurd rfl hne⟩
  rw [if_neg hrun]
  cases hsearched with
  | none hbad => exact absurd rfl hrun
  | @found k hk hgood hbad =>
    cases updateConfig with
    | true =>
      rw [if_pos rfl]
      refine ⟨.found hk hgood hbad, fun _ => ?_⟩
      rw [rbootGetConfig_write _ _ hlen]
      exact romNumber_slotAfter hlt k
    | false =>
      rw [if_neg Bool.false_ne_true]
      obtain ⟨hvalid, himage⟩ := Bool.or_eq_false_iff.mp hupdate
      rw [← hfirst] at himage
      -- the selected slot is good, so it is the one found
      have hzero : k = 0 := by
        by_contra hne
        exact absurd (hbad 0 (Nat.pos_of_ne_zero hne)) (by simpa using himage)
      subst hzero
      refine ⟨.found hk hgood hbad, fun _ => ?_⟩
      rw [hget, hfirst, romconf, checkSelected, if_neg (of_decide_eq_false hvalid)]

/-- Every slot is tried. -/
theorem Searched.runs {c : RbootConfig} {checkRom : Int → UInt32} {r : Int × UInt32}
    (h : Searched c checkRom r) (hlt : c.currentRom < c.count) {i : Nat} (hi : i < c.count.toNat)
    (hgood : checkRom i ≠ 0) : r.2 ≠ 0 := by
  have hnat := UInt8.lt_iff_toNat_lt.mp hlt
  cases h with
  | found _ hgood _ => exact hgood
  | none hbad =>
    -- the slot comes after as many steps as it is below the selected one
    have hslot : ∃ k < c.count.toNat, slotAfter c k = i := by
      unfold slotAfter
      by_cases hle : i ≤ c.currentRom.toNat
      · refine ⟨c.currentRom.toNat - i, by omega, ?_⟩
        rw [show c.currentRom.toNat + c.count.toNat - (c.currentRom.toNat - i) =
          i + c.count.toNat by omega, Nat.add_mod_right, Nat.mod_eq_of_lt hi]
      · refine ⟨c.currentRom.toNat + c.count.toNat - i, by omega, ?_⟩
        rw [show c.currentRom.toNat + c.count.toNat - (c.currentRom.toNat + c.count.toNat - i) = i by
          omega, Nat.mod_eq_of_lt hi]
    obtain ⟨k, hk, hslot⟩ := hslot
    exact absurd (hslot ▸ hbad k hk) hgood

/-- The loader boots the first good slot, going down from the selected one, and selects
it; it boots nothing if and only if no slot is good. -/
theorem findImage_search (f : Flash) (checkImage : UInt32 → UInt32)
    (h : 0 < (bootConfig f).count) :
    ∃ b, findImage f checkImage = some b ∧
      Searched (romconf f) (fun i => checkImage (slotAddr f i)) (b.romToBoot, b.runAddr) ∧
      (b.runAddr ≠ 0 → ((rbootGetConfig b.flash).currentRom.toNat : Int) = b.romToBoot) ∧
      (b.runAddr ≠ 0 ↔ ∃ i < (bootConfig f).count.toNat, checkImage (slotAddr f i) ≠ 0) := by
  obtain ⟨b, hb, hsearched, hselected⟩ := findImage_searched f checkImage h
  have hlt : (romconf f).currentRom < (romconf f).count := checkSelected_lt h
  have hcount : (romconf f).count = (bootConfig f).count := (checkSelected_spec _).2.2.1
  refine ⟨b, hb, hsearched, hselected, ?_, ?_⟩
  · intro hrun
    obtain ⟨flash, runAddr, romToBoot⟩ := b
    cases hsearched with
    | @found k hk hgood hbad =>
      rw [hcount] at hk
      refine ⟨_, Nat.mod_lt ((romconf f).currentRom.toNat + (bootConfig f).count.toNat - k)
        (by omega), ?_⟩
      rw [slotAfter, hcount] at hgood
      exact hgood
    | none hbad => exact absurd rfl hrun
  · rintro ⟨i, hi, hgood⟩
    exact hsearched.runs hlt (by rw [hcount]; exact hi) hgood

def emptyFlash : Flash := fun _ => 0xFF

/-- Only one address has a good image. -/
def oneGood (addr : UInt32) : UInt32 := if addr = 0x12000 then 0x12000 else 0

/-- A blank flash: the default configuration has four slots. -/
theorem findImage_search_empty :
    ∃ b, findImage emptyFlash oneGood = some b ∧
      (b.runAddr ≠ 0 → ((rbootGetConfig b.flash).currentRom.toNat : Int) = b.romToBoot) := by
  have hcount : 0 < (bootConfig emptyFlash).count := by
    unfold bootConfig
    split <;> decide
  obtain ⟨b, hb, -, hselected, -⟩ := findImage_search emptyFlash oneGood hcount
  exact ⟨b, hb, hselected⟩

/-- The selected slot, if it is good. -/
theorem findImage_good {f : Flash} {checkImage : UInt32 → UInt32}
    (hacc : accepted (configSector f) = true)
    (hlt : (rbootGetConfig f).currentRom < (rbootGetConfig f).count) {i : Fin 4}
    (hi : (rbootGetConfig f).currentRom.toNat = i.val)
    (hgood : checkImage ((rbootGetConfig f).roms i) ≠ 0) :
    findImage f checkImage = some ⟨f, checkImage ((rbootGetConfig f).roms i), i.val⟩ := by
  have hvalid : ¬ (rbootGetConfig f).currentRom ≥ (rbootGetConfig f).count :=
    UInt8.not_le.mpr hlt
  have hcheck : checkSelected (rbootGetConfig f) = rbootGetConfig f := if_neg hvalid
  rw [findImage, loadConfig_accepted hacc, bootRom, ← rbootGetConfig_eq, hcheck]
  simp only [hi, romAt_storeConfig, tryRoms_good hgood, Option.map_some, finishBoot,
    if_neg hgood]
  rw [if_neg]
  simp [hvalid, hgood]

end Rboot
end EspMisc
