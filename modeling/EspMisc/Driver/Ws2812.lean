/-
The fade animation of `driver/ws2812.c`.

A timer calls `ws2812_fade_cb`, which counts a level up to 255 and down again, moves on to
the next pattern when the level is back at zero, and reads the colour of the pattern from
a table.  The table holds floats, but all of them are multiples of 1/256 and a product
with the level is exact, so a colour here is a number of 256ths.

The callback brings the pattern back into the table before it moves on to the next one,
not after.  `accesses_eq` is what the calls read, however many there are: every time
around the table, one call reads behind its end.
-/
import Mathlib.Data.List.Basic

namespace EspMisc
namespace Driver

def WS2812_ANIM_INVALID : Nat := 0
def WS2812_ANIM_FADE_INOUT : Nat := 1

/-- `patterns`, in 256ths: red, green and blue. -/
def patterns : List (Nat × Nat × Nat) :=
  [(256, 0, 0), (0, 256, 0), (0, 0, 256), (256, 256, 0), (256, 0, 256), (0, 256, 256),
    (256, 256, 256), (160, 82, 45), (46, 139, 87)]

/-- The fields of `ws2812_fade_inout_t` that the callback counts with. -/
structure Fade where
  curM : UInt8
  curPattern : UInt8
  inOut : Bool
deriving DecidableEq, Repr

/-- The colour is `none` after a read behind the table. -/
structure Ws2812 where
  fade : Fade
  rgb : Option (Nat × Nat × Nat)
  brightness : Nat
  curAnim : Nat
  timerArg : Nat
deriving DecidableEq, Repr

/-- A read of `patterns[cur_pattern]`, the level it is used with, and the level the callback
leaves. -/
structure Access where
  pattern : Nat
  level : Nat
  next : Nat
deriving DecidableEq, Repr

/-- `UPDATE_BRIGHTNESS` for one colour. -/
def modBrightness (brightness pixel : Nat) : Nat :=
  if brightness ≠ 0 then (pixel * brightness) >>> 8 else pixel

def colour (brightness level : Nat) (pattern : Nat × Nat × Nat) : Nat × Nat × Nat :=
  (modBrightness brightness (pattern.1 * level / 256),
    modBrightness brightness (pattern.2.1 * level / 256),
    modBrightness brightness (pattern.2.2 * level / 256))

namespace Fade

/-- A pattern behind the table is the first one again. -/
def back (f : Fade) : Fade :=
  if f.curPattern.toNat ≥ patterns.length then { f with curPattern := 0 } else f

/-- The end of a rise. -/
def turn (f : Fade) : Fade :=
  if f.inOut ∧ f.curM ≥ 255 then { f with inOut := false } else f

/-- The end of a fall. -/
def move (f : Fade) : Fade :=
  if ¬f.inOut ∧ f.curM = 0 then { f with curPattern := f.curPattern + 1, inOut := true } else f

def count (f : Fade) : Fade :=
  { f with curM := if f.inOut then f.curM + 1 else f.curM - 1 }

end Fade

def ws2812FadeCb (s : Ws2812) : Ws2812 × Access :=
  let shown := s.fade.back.turn.move
  let fade := shown.count
  let pattern := shown.curPattern.toNat
  let level := shown.curM.toNat
  ({ s with fade := fade, rgb := patterns[pattern]?.map (colour s.brightness level) },
    ⟨pattern, level, fade.curM.toNat⟩)

/-- `ws2812_timer_cb`, with the reads of the table. -/
def ws2812TimerCb (s : Ws2812) : Ws2812 × List Access :=
  if s.timerArg = WS2812_ANIM_FADE_INOUT then
    let (s', access) := ws2812FadeCb s
    (s', [access])
  else (s, [])

/-- `ws2812_anim_init`; `ws2812_clear` sets the colour to zero in any case. -/
def ws2812AnimInit (s : Ws2812) (animType : Nat) : Ws2812 :=
  if animType = WS2812_ANIM_FADE_INOUT then
    { s with
      curAnim := WS2812_ANIM_FADE_INOUT
      fade := ⟨0, 0, true⟩
      timerArg := WS2812_ANIM_FADE_INOUT
      rgb := some (0, 0, 0) }
  else { s with rgb := some (0, 0, 0) }

/-- The reads of `n` calls of the timer callback, in order. -/
def timerCbs : Nat → Ws2812 → Ws2812 × List Access
  | 0, s => (s, [])
  | n + 1, s =>
    let (s, before) := timerCbs n s
    let (s, access) := ws2812TimerCb s
    (s, before ++ access)

/-! ## The level and the pattern of a call -/

/-- The level of call `k`: up to 255, and down to 1 again. -/
def levelOf (k : Nat) : Nat := if k % 510 ≤ 255 then k % 510 else 510 - k % 510

/-- The pattern that call `k` reads.  The first call of every round of the table but the
first one reads behind its end. -/
def patternOf (k : Nat) : Nat :=
  if k ≠ 0 ∧ k % 4590 = 0 then 9 else k / 510 % 9

/-- The counters before call `k`. -/
structure Fade.At (k : Nat) (f : Fade) : Prop where
  level : f.curM.toNat = levelOf k
  pattern : f.curPattern.toNat = patternOf (k - 1)
  rising : f.inOut = true ↔ k = 0 ∨ 0 < k % 510 ∧ k % 510 ≤ 255

/-- The counters of call `k` when it reads the table. -/
structure Fade.Showing (k : Nat) (f : Fade) : Prop where
  level : f.curM.toNat = levelOf k
  pattern : f.curPattern.toNat = patternOf k
  rising : f.inOut = true ↔ k % 510 < 255

theorem levelOf_eq_zero {k : Nat} : levelOf k = 0 ↔ k % 510 = 0 := by
  unfold levelOf
  split <;> omega

theorem levelOf_lt {k : Nat} : levelOf k < 255 ↔ k % 510 ≠ 255 := by
  unfold levelOf
  split <;> omega

theorem levelOf_le (k : Nat) : levelOf k ≤ 255 := by
  unfold levelOf
  split <;> omega

theorem levelOf_up {k : Nat} (h : k % 510 < 255) : levelOf (k + 1) = levelOf k + 1 := by
  unfold levelOf
  rw [if_pos (by omega), if_pos (by omega)]
  omega

theorem levelOf_down {k : Nat} (h : ¬k % 510 < 255) : levelOf (k + 1) + 1 = levelOf k := by
  unfold levelOf
  split <;> split <;> omega

/-- The pattern of the call before, brought back into the table. -/
theorem patternOf_back (k : Nat) :
    (if patternOf k ≥ 9 then 0 else patternOf k) = k / 510 % 9 := by
  unfold patternOf
  by_cases hround : k ≠ 0 ∧ k % 4590 = 0
  · rw [if_pos hround, if_pos (Nat.le_refl 9)]
    omega
  · rw [if_neg hround, if_neg (by omega)]

theorem patternOf_moved {k : Nat} (hk : k ≠ 0) (h : k % 510 = 0) :
    patternOf k = (k - 1) / 510 % 9 + 1 := by
  unfold patternOf
  split <;> omega

theorem patternOf_same {k : Nat} (h : k = 0 ∨ k % 510 ≠ 0) : patternOf k = (k - 1) / 510 % 9 := by
  unfold patternOf
  rw [if_neg (by omega)]
  omega

/-! ## One call -/

theorem Fade.At.back {k : Nat} {f : Fade} (h : f.At k) :
    f.back.curPattern.toNat = (k - 1) / 510 % 9 ∧ f.back.curM = f.curM ∧
      f.back.inOut = f.inOut := by
  have hpattern : f.back.curPattern.toNat =
      if f.curPattern.toNat ≥ 9 then 0 else f.curPattern.toNat := by
    unfold Fade.back
    rw [show patterns.length = 9 from rfl]
    split <;> rfl
  refine ⟨by rw [hpattern, h.pattern, patternOf_back], ?_, ?_⟩ <;> unfold Fade.back <;>
    split <;> rfl

theorem Fade.turn_spec (f : Fade) :
    f.turn.curPattern = f.curPattern ∧ f.turn.curM = f.curM ∧
      (f.turn.inOut = true ↔ f.inOut = true ∧ f.curM.toNat < 255) := by
  have hlevel : f.curM ≥ 255 ↔ 255 ≤ f.curM.toNat := UInt8.le_iff_toNat_le
  unfold Fade.turn
  by_cases htop : f.inOut = true ∧ f.curM ≥ 255
  · rw [if_pos htop]
    have hge := hlevel.mp htop.2
    exact ⟨rfl, rfl, iff_of_false Bool.false_ne_true fun hin => Nat.not_lt.mpr hge hin.2⟩
  · rw [if_neg htop]
    refine ⟨rfl, rfl, fun hin => ⟨hin, ?_⟩, fun hin => hin.1⟩
    by_contra hge
    exact htop ⟨hin, hlevel.mpr (by omega)⟩

/-- What the callback has made of its counters when it reads the table. -/
theorem Fade.At.showing {k : Nat} {f : Fade} (h : f.At k) : f.back.turn.move.Showing k := by
  obtain ⟨hback, hbackM, hbackIn⟩ := h.back
  obtain ⟨hturn, hturnM, hturnIn⟩ := Fade.turn_spec f.back
  rw [hbackM] at hturnM hturnIn
  rw [hbackIn, h.rising, h.level, levelOf_lt] at hturnIn
  have hlevel : f.back.turn.curM.toNat = levelOf k := by rw [hturnM, h.level]
  have hzero : f.back.turn.curM = 0 ↔ k % 510 = 0 := by
    rw [← levelOf_eq_zero, ← hlevel, ← UInt8.toNat_inj]
    rfl
  unfold Fade.move
  by_cases hend : ¬f.back.turn.inOut = true ∧ f.back.turn.curM = 0
  · have hround : k ≠ 0 ∧ k % 510 = 0 := by
      rw [hturnIn, hzero] at hend
      omega
    have hpattern : (f.back.turn.curPattern + 1).toNat = (k - 1) / 510 % 9 + 1 := by
      rw [UInt8.toNat_add, hturn, hback]
      exact Nat.mod_eq_of_lt (show (k - 1) / 510 % 9 + 1 < 256 by omega)
    rw [if_pos hend]
    exact ⟨hlevel, hpattern.trans (patternOf_moved hround.1 hround.2).symm,
      iff_of_true rfl (by omega)⟩
  · rw [if_neg hend]
    rw [hturnIn, hzero] at hend
    refine ⟨hlevel, ?_, ?_⟩
    · rw [hturn, hback, patternOf_same (by omega)]
    · rw [hturnIn]
      omega

theorem Fade.Showing.count {k : Nat} {f : Fade} (h : f.Showing k) : f.count.At (k + 1) := by
  have hlevel : f.count.curM.toNat = levelOf (k + 1) := by
    have hle := levelOf_le (k + 1)
    show (if f.inOut then f.curM + 1 else f.curM - 1).toNat = levelOf (k + 1)
    by_cases hup : f.inOut = true
    · have hnext := levelOf_up (h.rising.mp hup)
      rw [if_pos hup, UInt8.toNat_add, h.level, hnext]
      exact Nat.mod_eq_of_lt (show levelOf k + 1 < 256 by omega)
    · have hnext := levelOf_down (mt h.rising.mpr hup)
      have hone : (1 : UInt8) ≤ f.curM := by
        rw [UInt8.le_iff_toNat_le, h.level, ← hnext]
        exact Nat.le_add_left 1 _
      rw [if_neg hup, UInt8.toNat_sub_of_le _ _ hone, h.level, ← hnext]
      rfl
  refine ⟨hlevel, h.pattern, ?_⟩
  show f.inOut = true ↔ _
  rw [h.rising]
  omega

/-! ## Any number of calls -/

/-- What call `k` reads. -/
def accessOf (k : Nat) : Access := ⟨patternOf k, levelOf k, levelOf (k + 1)⟩

theorem ws2812TimerCb_at {k : Nat} {s : Ws2812} (harg : s.timerArg = WS2812_ANIM_FADE_INOUT)
    (hat : s.fade.At k) :
    (ws2812TimerCb s).1.fade.At (k + 1) ∧
      (ws2812TimerCb s).1.timerArg = WS2812_ANIM_FADE_INOUT ∧
      (ws2812TimerCb s).2 = [accessOf k] := by
  have hshowing := hat.showing
  have hnext := hshowing.count
  unfold ws2812TimerCb
  rw [if_pos harg]
  refine ⟨hnext, harg, ?_⟩
  show [Access.mk s.fade.back.turn.move.curPattern.toNat s.fade.back.turn.move.curM.toNat
    s.fade.back.turn.move.count.curM.toNat] = [accessOf k]
  rw [hshowing.pattern, hshowing.level, hnext.level]
  rfl

/-- The reads of the first `n` calls. -/
theorem accesses_eq (s : Ws2812) (n : Nat) :
    (timerCbs n (ws2812AnimInit s WS2812_ANIM_FADE_INOUT)).2 = (List.range n).map accessOf := by
  suffices h : (timerCbs n (ws2812AnimInit s WS2812_ANIM_FADE_INOUT)).1.fade.At n ∧
      (timerCbs n (ws2812AnimInit s WS2812_ANIM_FADE_INOUT)).1.timerArg =
        WS2812_ANIM_FADE_INOUT ∧
      (timerCbs n (ws2812AnimInit s WS2812_ANIM_FADE_INOUT)).2 = (List.range n).map accessOf from
    h.2.2
  induction n with
  | zero => exact ⟨⟨rfl, rfl, iff_of_true rfl (.inl rfl)⟩, rfl, rfl⟩
  | succ n ih =>
    obtain ⟨hat, harg, hbefore⟩ := ih
    obtain ⟨hnext, harg', haccess⟩ := ws2812TimerCb_at harg hat
    refine ⟨hnext, harg', ?_⟩
    simp only [timerCbs, hbefore, haccess, List.range_succ, List.map_append, List.map_singleton]

/-- What the animation should do: the table is read inside of its bounds, the level goes up
or down by one, and the patterns take turns of one rise and fall each. -/
structure FadeLaw (shown : List Access) : Prop where
  inside : ∀ a ∈ shown, a.pattern < patterns.length
  steady : ∀ a ∈ shown, a.next = a.level + 1 ∨ a.next + 1 = a.level
  turns : ∀ k a, shown[k]? = some a → a.pattern = k / 510 % patterns.length ∧ a.level = levelOf k

/-- The level never wraps around, however many calls there are. -/
theorem accesses_steady (n : Nat) :
    ∀ a ∈ (List.range n).map accessOf, a.next = a.level + 1 ∨ a.next + 1 = a.level := by
  intro a ha
  obtain ⟨k, _, rfl⟩ := List.mem_map.mp ha
  by_cases hup : k % 510 < 255
  · exact .inl (levelOf_up hup)
  · exact .inr (levelOf_down hup)

/-- The first call after the last pattern has faded out reads behind the table. -/
theorem not_law_of_long {n : Nat} (h : 4590 < n) : ¬FadeLaw ((List.range n).map accessOf) := by
  intro hlaw
  have hread : accessOf 4590 ∈ (List.range n).map accessOf :=
    List.mem_map_of_mem (List.mem_range.mpr h)
  exact absurd (hlaw.inside _ hread) (by decide)

/-- The calls obey the law exactly as long as they go around the table once. -/
theorem fade_law_iff (s : Ws2812) (n : Nat) :
    FadeLaw (timerCbs n (ws2812AnimInit s WS2812_ANIM_FADE_INOUT)).2 ↔ n ≤ 4590 := by
  rw [accesses_eq]
  constructor
  · intro hlaw
    by_contra hlong
    exact not_law_of_long (by omega) hlaw
  · intro hn
    have hpattern : ∀ k < n, patternOf k = k / 510 % 9 := by
      intro k hk
      rw [patternOf, if_neg (by omega)]
    refine ⟨?_, accesses_steady n, ?_⟩
    · intro a ha
      obtain ⟨k, hk, rfl⟩ := List.mem_map.mp ha
      show patternOf k < 9
      rw [hpattern k (List.mem_range.mp hk)]
      exact Nat.mod_lt _ (by decide)
    · intro k a ha
      rw [List.getElem?_map, Option.map_eq_some_iff] at ha
      obtain ⟨j, hj, rfl⟩ := ha
      obtain ⟨hlt, rfl⟩ := List.getElem?_eq_some_iff.mp hj
      rw [List.getElem_range]
      rw [List.length_range] at hlt
      exact ⟨hpattern k hlt, rfl⟩

theorem fade_reads_behind_table :
    ¬∀ (s : Ws2812) (n : Nat),
      FadeLaw (timerCbs n (ws2812AnimInit s WS2812_ANIM_FADE_INOUT)).2 := by
  intro h
  have hlaw := h ⟨⟨0, 0, false⟩, none, 128, WS2812_ANIM_INVALID, 0⟩ 4591
  rw [accesses_eq] at hlaw
  exact not_law_of_long (by decide) hlaw

end Driver
end EspMisc
