/-
The boot slot from the command line.

`setup_cli_rboot_cmd` looks for its command in the line that `setup_cli_parse` has left, and
then goes over the memory from a fixed place on, as far as the line went when it came.  On
its way it also meets what stands before the command, what follows the slot, and what
`setup_cli_parse` has left behind the end of the string.  `one_switch_iff` is the exact
condition on the line under which the only switch is the one that the command asks for.
-/
import EspMisc.Rboot.Slots
import EspMisc.Setup.Remains

namespace EspMisc
namespace Setup

open Squeeze Rboot

/-! ### The C library -/

/-- Where `needle` stands first in `text`. -/
def strstr (text needle : List UInt8) : Option Nat :=
  (List.range (text.length + 1)).find? fun i => needle.isPrefixOf (text.drop i)

theorem strstr_split {text needle : List UInt8} {p : Nat} (h : strstr text needle = some p) :
    text = text.take p ++ (needle ++ text.drop (p + needle.length)) := by
  have hhere : needle.isPrefixOf (text.drop p) = true :=
    List.find?_some (p := fun i => needle.isPrefixOf (text.drop i)) h
  obtain ⟨r, hr⟩ := List.isPrefixOf_iff_prefix.mp hhere
  have hdrop : text.drop (p + needle.length) = r := by
    rw [← List.drop_drop, ← hr, List.drop_left]
  rw [hdrop, hr, List.take_append_drop]

/-! ### `setup_cli.c` -/

/-- `"rboot switch"`. -/
def rbootSwitchText : List UInt8 := [114, 98, 111, 111, 116, 32, 115, 119, 105, 116, 99, 104]

/-- A digit from 0 to 3. -/
def isSlot (c : UInt8) : Bool := 48 ≤ c && c ≤ 51

/-- A call of `rboot_switch`. -/
structure SwitchCall where
  slotNo : UInt8
  output : List Output
  deriving DecidableEq

/-- The loop of `setup_cli_rboot_cmd` from `i` on.  `system_restart` only asks for a restart,
so the loop goes on after it. -/
def switchLoop (malloc : Nat → Bool) (cmd : List UInt8) :
    Nat → Nat → Rboot.Device → Option (Rboot.Device × List SwitchCall)
  | 0, _, d => some (d, [])
  | turns + 1, i, d => do
    let c ← cmd[i]?
    if isSlot c then
      let switched := rbootSwitch d (c - 48) true (malloc i)
      let (d, calls) ← switchLoop malloc cmd turns (i + 1) switched.1
      some (d, ⟨c - 48, switched.2⟩ :: calls)
    else switchLoop malloc cmd turns (i + 1) d

def setupCliRbootCmd (malloc : Nat → Bool) (d : Rboot.Device) (cmd : List UInt8) (len : Nat) :
    Option (Rboot.Device × List SwitchCall) := do
  let text ← cstring cmd
  match strstr text rbootSwitchText with
  | none => some (d, [])
  | some _ => switchLoop malloc cmd (len - 11) 11 d

/-! ### The calls of the loop -/

/-- The slots that the digits stand for. -/
def slots (l : List UInt8) : List UInt8 := (l.filter isSlot).map (· - 48)

theorem slots_append (l l' : List UInt8) : slots (l ++ l') = slots l ++ slots l' := by
  rw [slots, List.filter_append, List.map_append]
  rfl

theorem slots_eq_nil {l : List UInt8} : slots l = [] ↔ ∀ c ∈ l, isSlot c = false := by
  rw [slots, List.map_eq_nil_iff, List.filter_eq_nil_iff]
  simp only [Bool.not_eq_true]

theorem switchLoop_spec (malloc : Nat → Bool) {cmd : List UInt8} {turns i : Nat}
    (h : i + turns ≤ cmd.length) (d : Rboot.Device) :
    ∃ d' calls, switchLoop malloc cmd turns i d = some (d', calls) ∧
      calls.map SwitchCall.slotNo = slots ((cmd.drop i).take turns) := by
  induction turns generalizing i d with
  | zero => exact ⟨d, [], rfl, rfl⟩
  | succ turns ih =>
    have hi : i < cmd.length := by omega
    have hload : cmd[i]? = some cmd[i] := List.getElem?_eq_getElem hi
    have hnext : i + 1 + turns ≤ cmd.length := by omega
    have hbytes : (cmd.drop i).take (turns + 1) = cmd[i] :: (cmd.drop (i + 1)).take turns := by
      rw [List.drop_eq_getElem_cons hi, List.take_succ_cons]
    rw [switchLoop, hload, Option.bind_eq_bind, Option.bind_some, hbytes, slots]
    by_cases hslot : isSlot cmd[i] = true
    · obtain ⟨d', calls, hloop, hcalls⟩ :=
        ih hnext (rbootSwitch d (cmd[i] - 48) true (malloc i)).1
      rw [if_pos hslot, List.filter_cons_of_pos hslot, List.map_cons]
      dsimp only
      rw [hloop]
      refine ⟨d', _, rfl, ?_⟩
      rw [List.map_cons, hcalls]
      rfl
    · obtain ⟨d', calls, hloop, hcalls⟩ := ih hnext d
      rw [if_neg hslot, List.filter_cons_of_neg hslot]
      exact ⟨d', calls, hloop, hcalls⟩

/-! ### The digits that are left behind -/

theorem slots_spaces (n : Nat) : slots (List.replicate n 32) = [] := by
  refine slots_eq_nil.mpr fun c hc => ?_
  rw [List.eq_of_mem_replicate hc]
  rfl

theorem slots_of_subset {l l' : List UInt8} (h : l ⊆ l') (hl' : slots l' = []) : slots l = [] :=
  slots_eq_nil.mpr fun c hc => slots_eq_nil.mp hl' c (h hc)

theorem slots_rtake_of_le {m n : Nat} (hmn : m ≤ n) {t : List UInt8}
    (h : slots (t.rtake n) = []) : slots (t.rtake m) = [] := by
  refine slots_of_subset ?_ h
  rw [List.rtake, List.rtake]
  exact List.drop_subset_drop_left t (by omega)

/-- Spaces before the end do not matter. -/
theorem slots_rtake_spaces (j m : Nat) (t : List UInt8) :
    slots ((List.replicate j 32 ++ t).rtake m) = slots (t.rtake m) := by
  have hlength : j + t.length - m - j = t.length - m := by omega
  rw [List.rtake, List.length_append, List.length_replicate, List.drop_append, slots_append,
    List.drop_replicate, slots_spaces, List.nil_append, List.length_replicate, hlength, List.rtake]

/-- A move leaves the last characters of what it moves. -/
theorem slots_shifted (n : Nat) (rest junk : List UInt8) :
    slots (shifted n rest junk) = slots (rest.rtake (n - 2)) ++ slots junk := by
  rw [shifted]
  by_cases hmany : n > 1
  · have hshort : rest.length + 1 ≤ (List.replicate (n - 1) (32 : UInt8) ++ rest).length := by
      rw [List.length_append, List.length_replicate]
      omega
    have hleft : (List.replicate (n - 1) 32 ++ rest).drop (rest.length + 1) =
        (List.replicate (n - 1) 32 ++ rest).rtake (n - 2) := by
      rw [List.rtake, List.length_append, List.length_replicate]
      congr 1
      omega
    rw [if_pos hmany, ← List.append_assoc, List.drop_append_of_le_length hshort, hleft,
      slots_append, slots_rtake_spaces]
    rfl
  · have hnone : n - 2 = 0 := by omega
    rw [if_neg hmany, hnone, List.rtake_zero]
    rfl

/-- No digit is among the last `m` characters behind `m + 2` spaces. -/
def RunsQuiet (text : List UInt8) : Prop :=
  ∀ m t, List.replicate (m + 2) 32 ++ t <:+ text → slots (t.rtake m) = []

theorem runsQuiet_spaces (n : Nat) : RunsQuiet (List.replicate n 32) := by
  intro m t h
  have hspaces : t ⊆ List.replicate n 32 := fun c hc => h.subset (List.mem_append_right _ hc)
  exact slots_of_subset (List.Subset.trans (List.drop_subset _ _) hspaces) (slots_spaces n)

theorem runsQuiet_cons {c : UInt8} (hc : c ≠ 32) (n : Nat) (rest : List UInt8) :
    RunsQuiet (List.replicate n 32 ++ c :: rest) ↔
      slots ((c :: rest).rtake (n - 2)) = [] ∧ RunsQuiet rest := by
  constructor
  · intro h
    refine ⟨?_, fun m t ht => h m t ((run_suffix_iff hc).mpr (.inr ht))⟩
    by_cases hmany : n > 1
    · exact h (n - 2) (c :: rest) ((run_suffix_iff hc).mpr (.inl ⟨0, by omega, rfl⟩))
    · have hnone : n - 2 = 0 := by omega
      rw [hnone, List.rtake_zero]
      rfl
  · rintro ⟨hrun, hrest⟩ m t ht
    rcases (run_suffix_iff hc).mp ht with ⟨j, hj, rfl⟩ | hsuffix
    · rw [slots_rtake_spaces]
      exact slots_rtake_of_le (by omega) hrun
    · exact hrest m t hsuffix

theorem slots_stale (n : Nat) (rest junk : List UInt8) :
    slots (stale n rest junk) = [] ↔
      RunsQuiet (List.replicate n 32 ++ rest) ∧ slots junk = [] := by
  induction rest generalizing n junk with
  | nil =>
    have hstale : slots (stale n [] junk) = slots junk := by
      cases n with
      | zero => rfl
      | succ n =>
        rw [stale, slots_append, slots_spaces]
        rfl
    rw [hstale, List.append_nil]
    exact (and_iff_right (runsQuiet_spaces n)).symm
  | cons c rest ih =>
    rw [stale_cons]
    by_cases hc : c = 32
    · rw [if_pos hc, ih, hc, List.replicate_succ', List.append_assoc, List.singleton_append]
    · rw [if_neg hc, ih, List.replicate_zero, List.nil_append, slots_shifted,
        List.append_eq_nil_iff, runsQuiet_cons hc]
      constructor
      · rintro ⟨hrest, hrun, hjunk⟩
        exact ⟨⟨hrun, hrest⟩, hjunk⟩
      · rintro ⟨⟨hrun, hrest⟩, hjunk⟩
        exact ⟨hrest, hrun, hjunk⟩

theorem slots_stale_congr (n : Nat) (rest : List UInt8) {junk junk' : List UInt8}
    (h : slots junk = slots junk') : slots (stale n rest junk) = slots (stale n rest junk') := by
  rw [← List.nil_append junk, ← List.nil_append junk', stale_append, stale_append, slots_append,
    slots_append, h]

/-! ### The switch that the command asks for -/

def isDigit (c : UInt8) : Bool := 48 ≤ c && c ≤ 57

/-- The slot that the first digit of the text gives. -/
def firstSlot (text : List UInt8) : Option UInt8 := (text.find? isDigit).map (· - 48)

/-- What follows the first digit of the text. -/
def afterDigit (text : List UInt8) : List UInt8 := (text.dropWhile (!isDigit ·)).tail

/-- There is at most one call, and it has the slot that the text gives. -/
structure OneSwitch (text : List UInt8) (calls : List SwitchCall) : Prop where
  once : calls.length ≤ 1
  slot : ∀ k ∈ calls, firstSlot text = some k.slotNo

theorem isDigit_of_isSlot {c : UInt8} (h : isSlot c = true) : isDigit c = true := by
  simp only [isSlot, isDigit, Bool.and_eq_true, decide_eq_true_eq] at h ⊢
  exact ⟨h.1, UInt8.le_trans h.2 (by decide)⟩

theorem slots_of_no_digit {l : List UInt8} (h : ∀ c ∈ l, isDigit c = false) : slots l = [] := by
  refine slots_eq_nil.mpr fun c hc => Bool.eq_false_iff.mpr fun hslot => ?_
  exact absurd (isDigit_of_isSlot hslot) (by simp [h c hc])

/-- The digits of the text are its first one and those that follow it. -/
theorem slots_text (text : List UInt8) :
    (text.find? isDigit = none ∧ slots text = [] ∧ slots (afterDigit text) = []) ∨
      ∃ d, text.find? isDigit = some d ∧ slots text = slots [d] ++ slots (afterDigit text) := by
  cases hfind : text.find? isDigit with
  | none =>
    have hnone : ∀ c ∈ text, isDigit c = false := by simpa using hfind
    refine .inl ⟨rfl, slots_of_no_digit hnone, slots_of_no_digit fun c hc => hnone c ?_⟩
    exact (List.dropWhile_sublist _).mem (List.mem_of_mem_tail hc)
  | some d =>
    obtain ⟨hd, mid, r, rfl, hmid⟩ := List.find?_eq_some_iff_append.mp hfind
    have hafter : afterDigit (mid ++ d :: r) = r := by
      rw [afterDigit, List.dropWhile_append_of_pos hmid, List.dropWhile_cons_of_neg (by simp [hd])]
      rfl
    have hnone : slots mid = [] := slots_of_no_digit fun c hc => by simpa using hmid c hc
    refine .inr ⟨d, rfl, ?_⟩
    rw [hafter, slots_append, hnone, List.nil_append, ← List.singleton_append, slots_append]

theorem mem_slots {n : UInt8} {l : List UInt8} (h : n ∈ slots l) :
    ∃ c, isSlot c = true ∧ n = c - 48 := by
  obtain ⟨c, hc, rfl⟩ := List.mem_map.mp h
  exact ⟨c, (List.mem_filter.mp hc).2, rfl⟩

/-- Where the text gives no slot from 0 to 3, only no call at all will do. -/
theorem slots_eq_nil_of_first {text l : List UInt8} (hfirst : ∀ d, text.find? isDigit = some d →
    isSlot d = false) (h : ∀ n ∈ slots l, firstSlot text = some n) : slots l = [] := by
  refine List.eq_nil_iff_forall_not_mem.mpr fun n hn => ?_
  obtain ⟨c, hc, rfl⟩ := mem_slots hn
  obtain ⟨d, hd, heq⟩ := Option.map_eq_some_iff.mp (h _ hn)
  have hcd : d = c := by simpa using heq
  rw [hcd] at hd
  exact absurd hc (by simp [hfirst c hd])

/-- The digits before, in and after the text: its first one is the only one. -/
theorem one_slot_iff (a text b : List UInt8) :
    ((slots a ++ (slots text ++ slots b)).length ≤ 1 ∧
        ∀ n ∈ slots a ++ (slots text ++ slots b), firstSlot text = some n) ↔
      slots a = [] ∧ slots (afterDigit text) = [] ∧ slots b = [] := by
  by_cases hfirst : ∀ d, text.find? isDigit = some d → isSlot d = false
  · have htext : slots text = slots (afterDigit text) := by
      rcases slots_text text with ⟨_, htext, hafter⟩ | ⟨d, hd, htext⟩
      · rw [htext, hafter]
      · have hslot : slots [d] = [] := slots_eq_nil.mpr (by simpa using hfirst d hd)
        rw [htext, hslot, List.nil_append]
    constructor
    · rintro ⟨_, h⟩
      have hnil : slots (a ++ (text ++ b)) = [] := by
        refine slots_eq_nil_of_first hfirst ?_
        rwa [slots_append, slots_append]
      rw [slots_append, slots_append, List.append_eq_nil_iff, List.append_eq_nil_iff, htext] at hnil
      exact hnil
    · rintro ⟨ha, hafter, hb⟩
      rw [ha, htext, hafter, hb]
      exact ⟨Nat.zero_le 1, by simp⟩
  · push Not at hfirst
    obtain ⟨d, hd, hslot⟩ := hfirst
    have hslot : isSlot d = true := by simpa using hslot
    have hone : slots [d] = [d - 48] := by simp [slots, hslot]
    rcases slots_text text with ⟨hnone, _⟩ | ⟨d', hd', htext⟩
    · exact absurd (hd.symm.trans hnone) (by simp)
    · obtain rfl := Option.some.inj (hd.symm.trans hd')
      rw [htext, hone]
      constructor
      · rintro ⟨hlength, _⟩
        simp only [List.length_append, List.length_singleton] at hlength
        refine ⟨?_, ?_, ?_⟩
        · exact List.eq_nil_of_length_eq_zero (by omega)
        · exact List.eq_nil_of_length_eq_zero (by omega)
        · exact List.eq_nil_of_length_eq_zero (by omega)
      · rintro ⟨ha, hafter, hb⟩
        rw [ha, hafter, hb]
        refine ⟨Nat.le_refl 1, fun n hn => ?_⟩
        obtain rfl : n = d - 48 := by simpa using hn
        rw [firstSlot, hd, Option.map_some]

/-- Where the loop of `setup_cli_rboot_cmd` meets no digit from 0 to 3, for a line whose
command stands at `p`. -/
structure Quiet (line : List UInt8) (p : Nat) : Prop where
  /-- Before the command. -/
  before : slots (((normal (lineText line)).take p).drop 11) = []
  /-- Behind the first digit that follows the command. -/
  after : slots (afterDigit ((normal (lineText line)).drop (p + 12))) = []
  /-- Among the last `m` characters of the line, if a run of `m + 2` spaces comes before
  them. -/
  runs : RunsQuiet (lineText line)
  /-- Behind the end of the string. -/
  rest : slots (lineRest line) = []

theorem length_of_command {text : List UInt8} {p : Nat}
    (h : strstr text rbootSwitchText = some p) : 12 ≤ text.length := by
  rw [strstr_split h]
  simp only [List.length_append, rbootSwitchText, List.length_cons]
  omega

/-- The digits of a text with the command in it. -/
theorem slots_command (pre post : List UInt8) :
    slots ((pre ++ (rbootSwitchText ++ post)).drop 11) = slots (pre.drop 11) ++ slots post := by
  have hcommand : slots (rbootSwitchText.drop (11 - pre.length)) = [] :=
    slots_of_subset (List.drop_subset _ _) (by decide)
  have hlength : rbootSwitchText.length = 12 := rfl
  have hpost : 11 - pre.length - 12 = 0 := by omega
  rw [List.drop_append, List.drop_append, hlength, hpost, List.drop_zero, slots_append,
    slots_append, hcommand, List.nil_append]

/-- What the loop goes over: the end of the string, and what is left behind it. -/
theorem slots_memory {text left : List UInt8} {len : Nat} (htext : 11 ≤ text.length)
    (hlen : text.length + left.length + 1 = len) :
    slots (((text ++ 0 :: (left ++ [0])).drop 11).take (len - 11)) =
      slots (text.drop 11) ++ slots left := by
  have hmem : text ++ 0 :: (left ++ [0]) = (text ++ 0 :: left) ++ [0] := by
    rw [List.append_assoc, List.cons_append]
  have hlength : (text ++ 0 :: left).length = len := by
    rw [List.length_append, List.length_cons]
    omega
  rw [← List.drop_take, hmem, List.take_left' hlength, List.drop_append_of_le_length htext,
    slots_append]
  rfl

/-- The calls of `setup_cli_rboot_cmd`, on a memory with the command. -/
theorem setupCliRbootCmd_slots (malloc : Nat → Bool) (d : Rboot.Device) {text left : List UInt8}
    {len p : Nat} (hlen : text.length + left.length + 1 = len) (htext : ∀ c ∈ text, c ≠ 0)
    (hcommand : strstr text rbootSwitchText = some p) :
    ∃ d' calls,
      setupCliRbootCmd malloc d (text ++ 0 :: (left ++ [0])) len = some (d', calls) ∧
      calls.map SwitchCall.slotNo =
        slots ((text.take p).drop 11) ++ (slots (text.drop (p + 12)) ++ slots left) := by
  have hlong := length_of_command hcommand
  have hinside : 11 + (len - 11) ≤ (text ++ 0 :: (left ++ [0])).length := by
    simp only [List.length_append, List.length_cons]
    omega
  obtain ⟨d', calls, hloop, hcalls⟩ := switchLoop_spec malloc hinside d
  refine ⟨d', calls, ?_, ?_⟩
  · rw [setupCliRbootCmd, cstring_append htext, Option.bind_eq_bind, Option.bind_some, hcommand]
    exact hloop
  · have hsplit : text = text.take p ++ (rbootSwitchText ++ text.drop (p + 12)) :=
      strstr_split hcommand
    have hslots := slots_command (text.take p) (text.drop (p + 12))
    rw [← hsplit] at hslots
    rw [hcalls, slots_memory (by omega) hlen, hslots, List.append_assoc]

theorem oneSwitch_iff {text : List UInt8} {calls : List SwitchCall} :
    OneSwitch text calls ↔ (calls.map SwitchCall.slotNo).length ≤ 1 ∧
      ∀ n ∈ calls.map SwitchCall.slotNo, firstSlot text = some n := by
  rw [List.length_map, List.forall_mem_map]
  exact ⟨fun h => ⟨h.once, h.slot⟩, fun h => ⟨h.1, h.2⟩⟩

/-- The calls that a line with the command leads to. -/
theorem line_slots (malloc : Nat → Bool) (d : Rboot.Device) {line rxBuf : List UInt8} {p : Nat}
    (hshort : line.length ≤ 128) (hlast : line.getLast? = some 10) (hrx : rxBuf.length = 128)
    (hcommand : strstr (normal (lineText line)) rbootSwitchText = some p) :
    ∃ parse d' calls, setupCliParse (line ++ [0]) rxBuf = some parse ∧
      cstring parse.mem = some (normal (lineText line)) ∧
      setupCliRbootCmd malloc d parse.mem line.length = some (d', calls) ∧
      calls.map SwitchCall.slotNo =
        slots (((normal (lineText line)).take p).drop 11) ++
          (slots ((normal (lineText line)).drop (p + 12)) ++
            slots (stale 0 (lineText line) (lineRest line))) := by
  have hnonzero : ∀ c ∈ normal (lineText line), c ≠ 0 :=
    fun _ => normal_ne fun _ => lineText_ne
  have hstring : 2 < (lineString line).length := by
    have hlong := length_of_command hcommand
    have hnormal := length_normal_stale (lineText line) []
    have htext := length_lineText_le line
    rw [List.length_nil] at hnormal
    omega
  obtain ⟨junk, rxBuf', hparse, hjunk, hlength⟩ :=
    setupCliParse_memory hstring hshort hlast hrx
  have hmemory : (normal (lineText line)).length + (stale 0 (lineText line) junk).length + 1 =
      line.length := by
    rw [length_normal_stale, hlength]
  obtain ⟨d', calls, hcmd, hcalls⟩ :=
    setupCliRbootCmd_slots malloc d hmemory hnonzero hcommand
  refine ⟨_, d', calls, hparse, cstring_append hnonzero _, hcmd, ?_⟩
  have hslots : slots junk = slots (lineRest line) := by
    rcases hjunk with hjunk | hjunk
    · rw [hjunk]
    · rw [hjunk]
      rfl
  rw [hcalls, slots_stale_congr 0 (lineText line) hslots]

/-- A line with the command leads to at most one switch, the one that its first digit gives,
exactly when it is quiet elsewhere. -/
theorem one_switch_iff (malloc : Nat → Bool) (d : Rboot.Device) {line rxBuf : List UInt8} {p : Nat}
    (hshort : line.length ≤ 128) (hlast : line.getLast? = some 10) (hrx : rxBuf.length = 128)
    (hcommand : strstr (normal (lineText line)) rbootSwitchText = some p) :
    ∃ parse d' calls, setupCliParse (line ++ [0]) rxBuf = some parse ∧
      cstring parse.mem = some (normal (lineText line)) ∧
      setupCliRbootCmd malloc d parse.mem line.length = some (d', calls) ∧
      (OneSwitch ((normal (lineText line)).drop (p + 12)) calls ↔ Quiet line p) := by
  obtain ⟨parse, d', calls, hparse, htext, hcmd, hcalls⟩ :=
    line_slots malloc d hshort hlast hrx hcommand
  refine ⟨parse, d', calls, hparse, htext, hcmd, ?_⟩
  rw [oneSwitch_iff, hcalls, one_slot_iff, slots_stale, List.replicate_zero, List.nil_append]
  constructor
  · rintro ⟨hbefore, hafter, hruns, hrest⟩
    exact ⟨hbefore, hafter, hruns, hrest⟩
  · intro h
    exact ⟨h.before, h.after, h.runs, h.rest⟩

/-- The first rom runs. -/
def sampleDevice : Rboot.Device := ⟨sampleFlash, false, some 0⟩

/-- `"rboot switch 1\n"`. -/
def plainLine : List UInt8 := [114, 98, 111, 111, 116, 32, 115, 119, 105, 116, 99, 104, 32, 49, 10]

theorem one_switch_plain :
    ∃ parse d' calls, setupCliParse (plainLine ++ [0]) (List.replicate 128 0) = some parse ∧
      setupCliRbootCmd (fun _ => true) sampleDevice parse.mem plainLine.length =
        some (d', calls) ∧
      OneSwitch [32, 49] calls := by
  have hruns : RunsQuiet (lineText plainLine) := ((slots_stale 0 _ []).mp (by decide)).1
  have hquiet : Quiet plainLine 0 := ⟨by decide, by decide, hruns, by decide⟩
  have hrx : (List.replicate 128 (0 : UInt8)).length = 128 := List.length_replicate
  have hcommand : strstr (normal (lineText plainLine)) rbootSwitchText = some 0 := by decide
  obtain ⟨parse, d', calls, hparse, _, hcmd, hone⟩ :=
    one_switch_iff (fun _ => true) sampleDevice (by decide) (by decide) hrx hcommand
  exact ⟨parse, d', calls, hparse, hcmd, hone.mpr hquiet⟩

/-- `"rboot   switch 1\n"`. -/
def spacedLine : List UInt8 :=
  [114, 98, 111, 111, 116, 32, 32, 32, 115, 119, 105, 116, 99, 104, 32, 49, 10]

/-- The spaces before `switch` leave a second digit behind the string. -/
theorem spaced_switches_twice :
    ∃ parse d' calls, setupCliParse (spacedLine ++ [0]) (List.replicate 128 0) = some parse ∧
      setupCliRbootCmd (fun _ => true) sampleDevice parse.mem spacedLine.length =
        some (d', calls) ∧
      calls.map SwitchCall.slotNo = [1, 1] ∧ ¬OneSwitch [32, 49] calls := by
  have hrx : (List.replicate 128 (0 : UInt8)).length = 128 := List.length_replicate
  have hcommand : strstr (normal (lineText spacedLine)) rbootSwitchText = some 0 := by decide
  obtain ⟨parse, d', calls, hparse, _, hcmd, hcalls⟩ :=
    line_slots (fun _ => true) sampleDevice (by decide) (by decide) hrx hcommand
  have htwice : calls.map SwitchCall.slotNo = [1, 1] := hcalls.trans (by decide)
  refine ⟨parse, d', calls, hparse, hcmd, htwice, fun hone => ?_⟩
  have honce := (oneSwitch_iff.mp hone).1
  rw [htwice] at honce
  exact absurd honce (by decide)

end Setup
end EspMisc
