/-
What the command line leaves in memory.

`setup_cli_parse` shortens a string in place, so the memory behind its new end still holds
something.  `stale` says what: each time that the rest of the string is moved over spaces, its
last characters stay where they were, and spaces at the end stay behind the NUL that cuts them
off.  `setupCliParse_memory` is the whole memory after a line, also for a line that has NUL
bytes inside.
-/
import EspMisc.Setup.Cli

namespace EspMisc
namespace Setup

open Squeeze

/-! ### Behind the string -/

/-- What stands behind the NUL in the end, where `junk` stands behind it now, and `n` spaces
and `rest` before it are still to come. -/
def stale : Nat → List UInt8 → List UInt8 → List UInt8
  | 0, [], junk => junk
  | n + 1, [], junk => List.replicate n 32 ++ 0 :: junk
  | n, c :: rest, junk =>
    if c = 32 then stale (n + 1) rest junk else stale 0 rest (shifted n (c :: rest) junk)

theorem stale_cons (n : Nat) (c : UInt8) (rest junk : List UInt8) :
    stale n (c :: rest) junk =
      if c = 32 then stale (n + 1) rest junk else stale 0 rest (shifted n (c :: rest) junk) := by
  cases n <;> rfl

theorem shifted_append (n : Nat) (rest junk r : List UInt8) :
    shifted n rest (junk ++ r) = shifted n rest junk ++ r := by
  rw [shifted, shifted]
  by_cases hmany : n > 1
  · have hshort : rest.length + 1 ≤
        (List.replicate (n - 1) (32 : UInt8) ++ (rest ++ 0 :: junk)).length := by
      simp only [List.length_append, List.length_replicate, List.length_cons]
      omega
    rw [if_pos hmany, if_pos hmany, ← List.drop_append_of_le_length hshort]
    simp only [List.append_assoc, List.cons_append]
  · rw [if_neg hmany, if_neg hmany]

/-- What is far behind the NUL stays. -/
theorem stale_append (n : Nat) (rest junk r : List UInt8) :
    stale n rest (junk ++ r) = stale n rest junk ++ r := by
  induction rest generalizing n junk with
  | nil =>
    cases n with
    | zero => rfl
    | succ n => rw [stale, stale, List.append_assoc, List.cons_append]
  | cons c rest ih =>
    rw [stale_cons, stale_cons]
    by_cases hc : c = 32
    · rw [if_pos hc, if_pos hc, ih]
    · rw [if_neg hc, if_neg hc, shifted_append, ih]

/-- The string gets shorter by as much as more is left behind it. -/
theorem length_stale (n : Nat) (rest junk : List UInt8) :
    (pending 32 n (rest.map tolower)).length + (stale n rest junk).length =
      n + rest.length + junk.length := by
  induction rest generalizing n junk with
  | nil =>
    cases n with
    | zero => simp [pending, stale]
    | succ n =>
      simp only [List.map_nil, pending, stale, List.length_nil, List.length_append,
        List.length_replicate, List.length_cons]
      omega
  | cons c rest ih =>
    rw [stale_cons, List.map_cons, pending]
    by_cases hc : c = 32
    · have hlength := ih (n + 1) junk
      rw [if_pos hc, hc, tolower_space, if_pos rfl, List.length_cons]
      omega
    · have hlength := ih 0 (shifted n (c :: rest) junk)
      rw [length_shifted] at hlength
      rw [if_neg hc, if_neg (tolower_ne hc (by decide)), List.length_append, List.length_cons,
        List.length_cons]
      split
      · rw [List.length_nil]
        omega
      · rw [List.length_singleton]
        omega

theorem pending_normal (text : List UInt8) : pending 32 0 (text.map tolower) = normal text :=
  pending_eq 0 _

theorem length_normal_stale (text junk : List UInt8) :
    (normal text).length + (stale 0 text junk).length = text.length + junk.length := by
  have hlength := length_stale 0 text junk
  rwa [pending_normal, Nat.zero_add] at hlength

/-- The text `done` is in place, `numWS` spaces and `rest` follow, and `junk` is behind the
NUL.  As long as it fits into `rxBuf`, what is in place can be copied there. -/
structure Tracked (done rest junk : List UInt8) (s : Scan) : Prop where
  mem : s.mem = done ++ (List.replicate s.numWS 32 ++ (rest ++ 0 :: junk))
  str : s.str = done.length + s.numWS
  nonzero : ∀ c ∈ rest, c ≠ 0
  rxBuf : s.rxBuf.length = 128
  fits : done.length + s.numWS + rest.length ≤ 128

section Turns

variable {s : Scan} {done rest junk : List UInt8}

theorem memcpy_length {dst src : List UInt8} {n : Nat} (hdst : n ≤ dst.length)
    (hsrc : n ≤ src.length) :
    ∃ dst', memcpy dst src n = some dst' ∧ dst'.length = dst.length := by
  refine ⟨_, if_pos ⟨hdst, hsrc⟩, ?_⟩
  rw [List.length_append, List.length_take, List.length_drop]
  omega

theorem Tracked.str_eq (h : Tracked done rest junk s) :
    s.str = (done ++ List.replicate s.numWS 32).length := by
  rw [h.str, List.length_append, List.length_replicate]

theorem Tracked.str_le (h : Tracked done rest junk s) :
    s.str ≤ s.rxBuf.length ∧ s.str < s.mem.length := by
  have hfits := h.fits
  refine ⟨?_, ?_⟩
  · rw [h.str, h.rxBuf]
    omega
  · rw [h.str, h.mem]
    simp only [List.length_append, List.length_replicate, List.length_cons]
    omega

theorem onSpace_tracked (h : Tracked done rest junk s) :
    ∃ rxBuf first, onSpace s = some { s with rxBuf, numWS := s.numWS + 1, first } ∧
      rxBuf.length = 128 := by
  rw [onSpace]
  by_cases hfirst : s.first = true
  · obtain ⟨rxBuf, hcopy, hlength⟩ := memcpy_length h.str_le.1 h.str_le.2.le
    rw [if_pos hfirst, hcopy]
    exact ⟨rxBuf, false, rfl, hlength.trans h.rxBuf⟩
  · rw [if_neg hfirst]
    exact ⟨s.rxBuf, s.first, rfl, h.rxBuf⟩

theorem tracked_space (h : Tracked done (32 :: rest) junk s) :
    ∃ s', (onSpace s).bind lowerHere = some s' ∧ Tracked done rest junk s' ∧
      s'.numWS = s.numWS + 1 := by
  have hrest := (List.forall_mem_cons.mp h.nonzero).2
  have hfits := h.fits
  have hhere : s.mem = (done ++ List.replicate s.numWS 32) ++ 32 :: (rest ++ 0 :: junk) := by
    rw [h.mem, List.append_assoc, List.cons_append]
  obtain ⟨rxBuf, first, hspace, hlength⟩ := onSpace_tracked h
  rw [hspace, Option.bind_some]
  refine ⟨_, lowerHere_mid hhere h.str_eq, ⟨?_, ?_, hrest, hlength, ?_⟩, rfl⟩
  · rw [List.replicate_succ', tolower_space, List.append_assoc, List.append_assoc,
      List.singleton_append]
  · dsimp only
    rw [← h.str_eq, h.str, Nat.add_assoc]
  · rw [List.length_cons] at hfits
    dsimp only
    omega

theorem tracked_other {c : UInt8} (h : Tracked done (c :: rest) junk s) :
    ∃ s', (onOther s).bind lowerHere = some s' ∧
      Tracked (before done s.numWS ++ [tolower c]) rest (shifted s.numWS (c :: rest) junk) s' ∧
      s'.numWS = 0 := by
  have hrest := (List.forall_mem_cons.mp h.nonzero).2
  have hfits := h.fits
  rw [onOther_spec h.mem h.str h.nonzero, Option.bind_some]
  refine ⟨_, lowerHere_mid (r := rest ++ 0 :: shifted s.numWS (c :: rest) junk) rfl rfl,
    ⟨?_, ?_, hrest, h.rxBuf, ?_⟩, rfl⟩
  · rw [List.replicate_zero, List.nil_append, List.append_assoc, List.singleton_append]
  · rw [List.length_append, List.length_singleton]
    rfl
  · have hbefore := length_before done s.numWS
    rw [List.length_cons] at hfits
    simp only [List.length_append, List.length_singleton]
    omega

theorem Tracked.load (h : Tracked done rest junk s) : s.mem[s.str]? = some (rest.headD 0) := by
  rw [h.mem, h.str]
  exact load_next done rest junk s.numWS

/-- The whole scan. -/
theorem scanLoop_tracked {turns : Nat} (hturns : rest.length < turns)
    (h : Tracked done rest junk s) :
    ∃ s' junk', scanLoop turns s = some s' ∧
      Tracked (done ++ pending 32 s.numWS (rest.map tolower)) [] junk' s' ∧
      stale s'.numWS [] junk' = stale s.numWS rest junk := by
  have hload := h.load
  induction rest generalizing s done junk turns with
  | nil =>
    obtain ⟨turns, rfl⟩ := Nat.exists_eq_succ_of_ne_zero (Nat.ne_of_gt hturns)
    rw [List.map_nil, pending, List.append_nil]
    refine ⟨s, junk, ?_, h, rfl⟩
    rw [scanLoop, hload]
    rfl
  | cons c rest ih =>
    obtain ⟨turns, rfl⟩ := Nat.exists_eq_succ_of_ne_zero (Nat.ne_of_gt (Nat.zero_lt_of_lt hturns))
    have hc := h.nonzero c List.mem_cons_self
    have hleft : rest.length < turns := Nat.lt_of_succ_lt_succ hturns
    rw [scanLoop_succ hc hload, stale_cons, List.map_cons, pending]
    by_cases hspace : c = 32
    · subst hspace
      obtain ⟨s₁, hturn, htracked, hws⟩ := tracked_space h
      obtain ⟨s₂, junk', hloop, hlast, hstale⟩ := ih hleft htracked htracked.load
      rw [hws] at hlast hstale
      refine ⟨s₂, junk', ?_, ?_, ?_⟩
      · rw [if_pos rfl, hturn, Option.bind_some, hloop]
      · rwa [tolower_space, if_pos rfl]
      · rwa [if_pos rfl]
    · obtain ⟨s₁, hturn, htracked, hws⟩ := tracked_other h
      obtain ⟨s₂, junk', hloop, hlast, hstale⟩ := ih hleft htracked htracked.load
      rw [hws] at hlast hstale
      refine ⟨s₂, junk', ?_, ?_, ?_⟩
      · rw [if_neg hspace, hturn, Option.bind_some, hloop]
      · rw [if_neg (tolower_ne hspace (by decide)), ← List.append_assoc, List.append_cons]
        exact hlast
      · rwa [if_neg hspace]

theorem Tracked.cutSpaces (h : Tracked done [] junk s) :
    cutSpaces s = some (done ++ 0 :: stale s.numWS [] junk) := by
  have hmem := h.mem
  have hstr := h.str
  rw [List.nil_append] at hmem
  rw [Setup.cutSpaces]
  cases hws : s.numWS with
  | zero =>
    rw [hws, List.replicate_zero, List.nil_append] at hmem
    rw [if_pos rfl, stale, hmem]
  | succ n =>
    have hstart : s.str - (n + 1) = done.length := by omega
    rw [hws] at hmem
    rw [if_neg n.succ_ne_zero, if_neg (by omega), hstart, hmem, List.replicate_succ,
      List.cons_append, store_mid, stale]

theorem Tracked.copyRest (h : Tracked done [] junk s) {mem : List UInt8}
    (hmem : s.str ≤ mem.length) : ∃ rxBuf, copyRest s mem = some rxBuf := by
  rw [Setup.copyRest]
  by_cases hfirst : s.first = true
  · obtain ⟨rxBuf, hcopy, _⟩ := memcpy_length h.str_le.1 hmem
    exact ⟨rxBuf, (if_pos hfirst).trans hcopy⟩
  · exact ⟨s.rxBuf, if_neg hfirst⟩

end Turns

/-! ### The line -/

/-- The string that a line starts with. -/
def lineString (line : List UInt8) : List UInt8 := line.takeWhile (· != 0)

/-- The string without its newline. -/
def lineText (line : List UInt8) : List UInt8 :=
  if (lineString line).getLast? = some 10 then (lineString line).dropLast else lineString line

/-- What follows the string. -/
def lineRest (line : List UInt8) : List UInt8 := line.dropWhile (· != 0)

section Line

variable {line rxBuf : List UInt8}

theorem line_eq (line : List UInt8) : lineString line ++ lineRest line = line :=
  List.takeWhile_append_dropWhile

theorem lineString_ne {c : UInt8} (hc : c ∈ lineString line) : c ≠ 0 := by
  simpa using List.mem_takeWhile_imp hc

theorem lineText_ne {c : UInt8} (hc : c ∈ lineText line) : c ≠ 0 := by
  rw [lineText] at hc
  split at hc
  · exact lineString_ne (List.dropLast_subset _ hc)
  · exact lineString_ne hc

theorem length_lineText_le (line : List UInt8) :
    (lineText line).length ≤ (lineString line).length := by
  rw [lineText]
  split
  · rw [List.length_dropLast]
    exact Nat.sub_le _ _
  · exact Nat.le_refl _

/-- The string ends with a NUL of the line, or with the one behind it. -/
theorem lineRest_cases (line : List UInt8) :
    lineRest line = [] ∨ ∃ r, lineRest line = 0 :: r := by
  cases hrest : lineRest line with
  | nil => exact .inl rfl
  | cons c r =>
    have hc := List.head?_dropWhile_not (· != 0) line
    rw [← lineRest, hrest] at hc
    obtain rfl : c = 0 := by simpa using hc
    exact .inr ⟨r, rfl⟩

theorem strlen_line (line : List UInt8) :
    strlen (line ++ [0]) = some (lineString line).length := by
  have hmem : line ++ [0] = lineString line ++ (lineRest line ++ [0]) := by
    rw [← List.append_assoc, line_eq]
  rw [hmem]
  rcases lineRest_cases line with hrest | ⟨r, hrest⟩
  · rw [hrest]
    exact strlen_append (fun _ => lineString_ne) []
  · rw [hrest]
    exact strlen_append (fun _ => lineString_ne) (r ++ [0])

theorem cutNewline_line (hlast : line.getLast? = some 10) (hlong : 0 < (lineString line).length) :
    ∃ junk, cutNewline (line ++ [0]) (lineString line).length =
        some (lineText line ++ 0 :: (junk ++ [0])) ∧
      (lineRest line = junk ∨ lineRest line = 0 :: junk) ∧
      (lineText line).length + junk.length + 1 = line.length := by
  have hline := line_eq line
  rw [lineText]
  by_cases hnewline : (lineString line).getLast? = some 10
  · obtain ⟨raw, hraw⟩ := List.getLast?_eq_some_iff.mp hnewline
    rw [if_pos hnewline]
    rw [hraw] at hline ⊢
    rw [List.dropLast_concat]
    have hmem : line ++ [0] = raw ++ 10 :: (lineRest line ++ [0]) := by
      calc line ++ [0] = raw ++ [10] ++ lineRest line ++ [0] := by rw [hline]
        _ = raw ++ 10 :: (lineRest line ++ [0]) := by simp only [List.append_assoc]; rfl
    refine ⟨lineRest line, ?_, .inl rfl, ?_⟩
    · rw [hmem, List.length_append]
      exact cutNewline_last (lineRest line ++ [0])
    · rw [← congrArg List.length hline]
      simp only [List.length_append, List.length_singleton]
      omega
  · rw [if_neg hnewline]
    rcases lineRest_cases line with hrest | ⟨r, hrest⟩
    · rw [hrest, List.append_nil] at hline
      exact absurd ((congrArg List.getLast? hline).trans hlast) hnewline
    · refine ⟨r, ?_, .inr hrest, ?_⟩
      · have hmem : line ++ [0] = lineString line ++ 0 :: (r ++ [0]) := by
          rw [← List.cons_append, ← hrest, ← List.append_assoc, hline]
        have hload : (line ++ [0])[(lineString line).length - 1]? = (lineString line).getLast? := by
          rw [hmem, List.getElem?_append_left (by omega), List.getLast?_eq_getElem?]
        obtain ⟨c, hc⟩ := Option.ne_none_iff_exists'.mp
          (mt List.getLast?_eq_none_iff.mp (List.ne_nil_of_length_pos hlong))
        have hne : c ≠ 10 := fun heq => hnewline (heq ▸ hc)
        rw [cutNewline, hload, hc, Option.bind_eq_bind, Option.bind_some, if_neg hne, hmem]
      · rw [← congrArg List.length hline, hrest, List.length_append, List.length_cons]
        omega

/-- The memory that `setup_cli_parse` leaves. -/
theorem setupCliParse_memory (hlong : 2 < (lineString line).length) (hshort : line.length ≤ 128)
    (hlast : line.getLast? = some 10) (hrx : rxBuf.length = 128) :
    ∃ junk rxBuf', setupCliParse (line ++ [0]) rxBuf =
        some
          { mem := normal (lineText line) ++ 0 :: (stale 0 (lineText line) junk ++ [0])
            rxBuf := rxBuf'
            ret := none } ∧
      (lineRest line = junk ∨ lineRest line = 0 :: junk) ∧
      (lineText line).length + junk.length + 1 = line.length := by
  obtain ⟨junk, hnewline, hrest, hlength⟩ := cutNewline_line hlast (by omega)
  have hstart : Tracked [] (lineText line) (junk ++ [0])
      { mem := lineText line ++ 0 :: (junk ++ [0]), rxBuf := List.replicate 128 0, str := 0,
        numWS := 0, first := true } :=
    ⟨rfl, rfl, fun _ => lineText_ne, List.length_replicate, by
      simp only [List.length_nil]
      omega⟩
  have hturns : (lineText line).length < (lineText line ++ 0 :: (junk ++ [0])).length + 1 := by
    rw [List.length_append]
    omega
  obtain ⟨s, junk', hscan, htracked, hstale⟩ := scanLoop_tracked hturns hstart
  dsimp only at htracked hstale
  rw [List.nil_append, pending_normal] at htracked
  have hcut := htracked.cutSpaces
  rw [hstale, stale_append] at hcut
  have hstr : s.str ≤ (normal (lineText line) ++
      0 :: (stale 0 (lineText line) junk ++ [0])).length := by
    have hbehind := length_stale s.numWS [] junk'
    rw [hstale, stale_append] at hbehind
    simp only [List.map_nil, pending, List.length_nil, List.length_append, List.length_singleton]
      at hbehind
    rw [htracked.str, List.length_append, List.length_cons, List.length_append,
      List.length_singleton]
    omega
  obtain ⟨rxBuf', hcopy⟩ := htracked.copyRest hstr
  refine ⟨junk, rxBuf', ?_, hrest, hlength⟩
  rw [setupCliParse, strlen_line, Option.bind_eq_bind, Option.bind_some, if_neg (by omega),
    memset_zeros hrx, Option.bind_eq_bind, Option.bind_some, hnewline, Option.bind_eq_bind,
    Option.bind_some, hscan, Option.bind_some, hcut, Option.bind_some, hcopy, Option.bind_some]

end Line

end Setup
end EspMisc
