/-
The command line of `app_setup/setup/setup_cli.c`.

`setup_cli_parse` rewrites a string in its own memory: it scans it from left to right, and
where it meets another character after several spaces it moves the rest of the string to the
left, over all of them but one.  Memory is the list of bytes from the start of the string on,
and an access outside it, or outside `rxBuf`, has no result.
-/
import EspMisc.Lib.Squeeze

namespace EspMisc
namespace Setup

open Squeeze

/-! ### The C library -/

def store (mem : List UInt8) (i : Nat) (c : UInt8) : Option (List UInt8) :=
  if i < mem.length then some (mem.set i c) else none

def strlen (mem : List UInt8) : Option Nat := mem.findIdx? (· == 0)

/-- `memset` with a zero. -/
def memset (dst : List UInt8) (n : Nat) : Option (List UInt8) :=
  if n ≤ dst.length then some (List.replicate n 0 ++ dst.drop n) else none

def memcpy (dst src : List UInt8) (n : Nat) : Option (List UInt8) :=
  if n ≤ dst.length ∧ n ≤ src.length then some (src.take n ++ dst.drop n) else none

def isupper (c : UInt8) : Bool := 65 ≤ c && c ≤ 90

def tolower (c : UInt8) : UInt8 := if isupper c then c + 32 else c

/-! ### `setup_cli.c` -/

/-- The loop of `setup_cli_shift`.  Every turn moves `str`, so the length of the memory bounds
their number. -/
def shiftLoop : Nat → List UInt8 → Nat → Nat → Option (List UInt8)
  | 0, _, _, _ => none
  | turns + 1, mem, str, ndx => do
    let c ← mem[str + ndx]?
    if c = 0 then store mem str 0
    else
      let mem ← store mem str c
      shiftLoop turns mem (str + 1) ndx

def setupCliShift (mem : List UInt8) (str ndx : Nat) : Option (List UInt8) :=
  if str < ndx then none else shiftLoop (mem.length + 1) mem (str - ndx) ndx

/-- The variables of `setup_cli_parse`, with `str` counted from `head`. -/
structure Scan where
  mem : List UInt8
  rxBuf : List UInt8
  str : Nat
  numWS : Nat
  first : Bool
  deriving DecidableEq

/-- The branch for a space. -/
def onSpace (s : Scan) : Option Scan :=
  if s.first then do
    let rxBuf ← memcpy s.rxBuf s.mem s.str
    some { s with rxBuf, numWS := s.numWS + 1, first := false }
  else some { s with numWS := s.numWS + 1 }

/-- The branch for another character. -/
def onOther (s : Scan) : Option Scan :=
  if s.numWS > 1 then do
    let mem ← setupCliShift s.mem s.str (s.numWS - 1)
    some { s with mem, str := s.str - (s.numWS - 1), numWS := 0 }
  else some { s with numWS := 0 }

/-- The end of a turn. -/
def lowerHere (s : Scan) : Option Scan := do
  let c ← s.mem[s.str]?
  if isupper c then
    let mem ← store s.mem s.str (tolower c)
    some { s with mem, str := s.str + 1 }
  else some { s with str := s.str + 1 }

def scanLoop : Nat → Scan → Option Scan
  | 0, _ => none
  | turns + 1, s => do
    let c ← s.mem[s.str]?
    if c = 0 then some s
    else
      let s ← if c = 32 then onSpace s else onOther s
      let s ← lowerHere s
      scanLoop turns s

/-- The newline at the end becomes a NUL. -/
def cutNewline (mem : List UInt8) (len : Nat) : Option (List UInt8) := do
  let c ← mem[len - 1]?
  if c = 10 then store mem (len - 1) 0 else some mem

/-- A NUL where the spaces at the end start. -/
def cutSpaces (s : Scan) : Option (List UInt8) :=
  if s.numWS = 0 then some s.mem
  else if s.str < s.numWS then none
  else store s.mem (s.str - s.numWS) 0

/-- A line without a space is copied to `rxBuf` whole. -/
def copyRest (s : Scan) (mem : List UInt8) : Option (List UInt8) :=
  if s.first then memcpy s.rxBuf mem s.str else some s.rxBuf

/-- The string, `rxBuf` and the value returned, where there is a `return`. -/
structure Parse where
  mem : List UInt8
  rxBuf : List UInt8
  ret : Option Int
  deriving DecidableEq

def setupCliParse (mem rxBuf : List UInt8) : Option Parse := do
  let len ← strlen mem
  if len ≤ 2 then
    let rxBuf ← memset rxBuf len
    some { mem, rxBuf, ret := some (-1) }
  else
    let rxBuf ← memset rxBuf 128
    let mem ← cutNewline mem len
    let s ← scanLoop (mem.length + 1) { mem, rxBuf, str := 0, numWS := 0, first := true }
    let mem ← cutSpaces s
    let rxBuf ← copyRest s mem
    some { mem, rxBuf, ret := none }

/-! ### One character -/

variable {p r : List UInt8} {c d : UInt8}

theorem load_mid : (p ++ d :: r)[p.length]? = some d := by
  rw [List.getElem?_append_right (Nat.le_refl _), Nat.sub_self]
  rfl

theorem store_mid : store (p ++ d :: r) p.length c = some (p ++ c :: r) := by
  rw [store, if_pos (by simp), List.set_append_right _ _ (Nat.le_refl _), Nat.sub_self]
  rfl

theorem lowerHere_mid {s : Scan} (hmem : s.mem = p ++ c :: r) (hstr : s.str = p.length) :
    lowerHere s = some { s with mem := p ++ tolower c :: r, str := p.length + 1 } := by
  rw [lowerHere, hmem, hstr, load_mid, Option.bind_eq_bind, Option.bind_some]
  by_cases hup : isupper c = true
  · rw [if_pos hup, store_mid]
    rfl
  · rw [if_neg hup, tolower, if_neg hup, ← hmem]

/-- The loop copies what follows `q`, up to the NUL, to where `q` was. -/
theorem shiftLoop_spec {t q : List UInt8} {turns ndx : Nat} (ht : ∀ c ∈ t, c ≠ 0)
    (hturns : t.length < turns) (hndx : 0 < ndx) (hq : q.length = ndx) (p junk : List UInt8) :
    shiftLoop turns (p ++ (q ++ (t ++ 0 :: junk))) p.length ndx =
      some (p ++ (t ++ 0 :: (q ++ (t ++ 0 :: junk)).drop (t.length + 1))) := by
  induction t generalizing p q turns with
  | nil =>
    obtain ⟨turns, rfl⟩ := Nat.exists_eq_succ_of_ne_zero (Nat.ne_of_gt hturns)
    obtain ⟨c, q, rfl⟩ := List.exists_cons_of_length_pos (hq ▸ hndx)
    have hload : (p ++ (c :: q ++ 0 :: junk))[p.length + ndx]? = some 0 := by
      rw [← List.append_assoc, ← hq, ← List.length_append]
      exact load_mid
    rw [List.nil_append, shiftLoop, hload, Option.bind_eq_bind, Option.bind_some, if_pos rfl]
    exact store_mid
  | cons d t ih =>
    obtain ⟨turns, rfl⟩ := Nat.exists_eq_succ_of_ne_zero (Nat.ne_of_gt (Nat.zero_lt_of_lt hturns))
    obtain ⟨c, q, rfl⟩ := List.exists_cons_of_length_pos (hq ▸ hndx)
    obtain ⟨hd, ht⟩ := List.forall_mem_cons.mp ht
    have hload : (p ++ (c :: q ++ (d :: t ++ 0 :: junk)))[p.length + ndx]? = some d := by
      rw [← List.append_assoc, ← hq, ← List.length_append]
      exact load_mid
    -- the character joins what is in place, and the gap moves on by one
    have hlen : (q ++ [d]).length = ndx := List.length_append.trans hq
    have hturns : t.length < turns := Nat.lt_of_succ_lt_succ hturns
    have hloop := ih ht hturns hlen (p ++ [d])
    rw [shiftLoop, hload, Option.bind_eq_bind, Option.bind_some, if_neg hd, List.cons_append,
      store_mid, Option.bind_eq_bind, Option.bind_some, List.length_cons, List.drop_succ_cons]
    simp only [List.append_assoc, List.length_append, List.cons_append, List.length_singleton,
      List.nil_append] at hloop ⊢
    exact hloop

/-! ### One turn -/

/-- What `setup_cli_parse` leaves of a line: lowered, and squeezed. -/
def normal (raw : List UInt8) : List UInt8 := squeeze 32 (raw.map tolower)

/-- The lowered characters before the first space. -/
def command (raw : List UInt8) : List UInt8 := (raw.map tolower).takeWhile (· != 32)

/-- The text, with zeros up to 128 bytes. -/
def padded (text : List UInt8) : List UInt8 := text ++ List.replicate (128 - text.length) 0

/-- In the scan of `raw`, the text `done` is in place, `numWS` spaces follow, and `rest` is to
come. -/
structure Scanned (raw done rest : List UInt8) (s : Scan) : Prop where
  mem : ∃ junk, s.mem = done ++ (List.replicate s.numWS 32 ++ (rest ++ 0 :: junk))
  size : s.mem.length = raw.length + 2
  str : s.str = done.length + s.numWS
  text : done ++ pending 32 s.numWS (rest.map tolower) = normal raw
  nonzero : ∀ c ∈ rest, c ≠ 0
  first : s.first = true → s.numWS = 0 ∧ s.rxBuf = List.replicate 128 0 ∧
    done ++ (rest.map tolower).takeWhile (· != 32) = command raw
  copied : s.first = false → s.rxBuf = padded (command raw)

theorem memcpy_zeros {text : List UInt8} (h : text.length ≤ 128) (r : List UInt8) :
    memcpy (List.replicate 128 0) (text ++ r) text.length = some (padded text) := by
  have hfits : text.length ≤ (List.replicate 128 (0 : UInt8)).length ∧
      text.length ≤ (text ++ r).length :=
    ⟨by rwa [List.length_replicate], by rw [List.length_append]; omega⟩
  rw [memcpy, if_pos hfits, List.take_left, List.drop_replicate, padded]

theorem tolower_space : tolower 32 = 32 := by decide

/-- The first space ends the command. -/
theorem onSpace_spec {s : Scan} {raw done rest : List UInt8} (hraw : raw.length ≤ 127)
    (h : Scanned raw done (32 :: rest) s) :
    onSpace s =
      some { s with rxBuf := padded (command raw), numWS := s.numWS + 1, first := false } := by
  rw [onSpace]
  by_cases hfirst : s.first = true
  · obtain ⟨hws, hzero, hdone⟩ := h.first hfirst
    obtain ⟨junk, hmem⟩ := h.mem
    have hsize := h.size
    have hstr : s.str = done.length := by rw [h.str, hws, Nat.add_zero]
    rw [List.map_cons, tolower_space, List.takeWhile_cons_of_neg (by decide),
      List.append_nil] at hdone
    rw [hmem] at hsize
    simp only [List.length_append, List.length_cons] at hsize
    rw [if_pos hfirst, hmem, hstr, hzero, memcpy_zeros (by omega), hdone]
    rfl
  · rw [if_neg hfirst, Option.some_inj]
    rw [Bool.not_eq_true] at hfirst
    rw [← h.copied hfirst, ← hfirst]

/-- What is in place before the next character, after `n` spaces. -/
def before (done : List UInt8) (n : Nat) : List UInt8 := done ++ if n = 0 then [] else [32]

/-- What stands behind the NUL once `rest` was moved over all but one of `n` spaces. -/
def shifted (n : Nat) (rest junk : List UInt8) : List UInt8 :=
  if n > 1 then (List.replicate (n - 1) 32 ++ (rest ++ 0 :: junk)).drop (rest.length + 1) else junk

theorem length_shifted (n : Nat) (rest junk : List UInt8) :
    (shifted n rest junk).length = (n - 1) + junk.length := by
  rw [shifted]
  split
  · simp only [List.length_drop, List.length_append, List.length_replicate, List.length_cons]
    omega
  · omega

/-- The rest of the string is moved over all but one of the spaces. -/
theorem setupCliShift_spec {rest : List UInt8} (hrest : ∀ c ∈ rest, c ≠ 0)
    (done junk : List UInt8) (n : Nat) :
    setupCliShift (done ++ (List.replicate (n + 2) 32 ++ (rest ++ 0 :: junk)))
        (done.length + (n + 2)) (n + 1) =
      some ((done ++ [32]) ++ (rest ++ 0 :: shifted (n + 2) rest junk)) := by
  have hmem : done ++ (List.replicate (n + 2) 32 ++ (rest ++ 0 :: junk)) =
      (done ++ [32]) ++ (List.replicate (n + 1) 32 ++ (rest ++ 0 :: junk)) := by
    rw [List.append_assoc, List.singleton_append, ← List.cons_append, ← List.replicate_succ]
  have hstart : done.length + (n + 2) - (n + 1) = (done ++ [32]).length := by
    rw [List.length_append, List.length_singleton]
    omega
  rw [setupCliShift, if_neg (by omega), hstart, hmem, shifted, if_pos (by omega)]
  have hturns : rest.length <
      ((done ++ [32]) ++ (List.replicate (n + 1) 32 ++ (rest ++ 0 :: junk))).length + 1 := by
    simp only [List.length_append]
    omega
  have hspaces : (List.replicate (n + 1) (32 : UInt8)).length = n + 1 := List.length_replicate
  exact shiftLoop_spec hrest hturns n.succ_pos hspaces (done ++ [32]) junk

/-- The spaces before another character become one. -/
theorem onOther_spec {s : Scan} {done rest junk : List UInt8}
    (hmem : s.mem = done ++ (List.replicate s.numWS 32 ++ (rest ++ 0 :: junk)))
    (hstr : s.str = done.length + s.numWS) (hrest : ∀ c ∈ rest, c ≠ 0) :
    onOther s = some
      { s with
        mem := before done s.numWS ++ (rest ++ 0 :: shifted s.numWS rest junk)
        str := (before done s.numWS).length
        numWS := 0 } := by
  obtain ⟨mem, rxBuf, str, numWS, first⟩ := s
  rw [onOther]
  dsimp only at hmem hstr ⊢
  by_cases hmany : numWS > 1
  · obtain ⟨n, rfl⟩ : ∃ n, numWS = n + 2 := ⟨numWS - 2, by omega⟩
    have hshift := setupCliShift_spec hrest done junk n
    rw [← hmem, ← hstr] at hshift
    have hndx : n + 2 - 1 = n + 1 := rfl
    have hplace : str - (n + 1) = (done ++ [32]).length := by
      rw [hstr, List.length_append, List.length_singleton]
      omega
    rw [if_pos hmany, hndx, hshift, hplace]
    rfl
  · rw [if_neg hmany, shifted, if_neg hmany]
    have hplace : List.replicate numWS 32 = if numWS = 0 then [] else [(32 : UInt8)] := by
      obtain rfl | rfl : numWS = 0 ∨ numWS = 1 := by omega
      · rfl
      · rfl
    rw [before, ← hplace, List.append_assoc, ← hmem, List.length_append, List.length_replicate,
      ← hstr]

theorem length_before (done : List UInt8) (n : Nat) :
    (before done n).length + (n - 1) = done.length + n := by
  rw [before, List.length_append]
  split
  · rw [List.length_nil]
    omega
  · rw [List.length_singleton]
    omega

variable {s : Scan} {raw done rest : List UInt8}

theorem Scanned.str_eq (h : Scanned raw done rest s) :
    s.str = (done ++ List.replicate s.numWS 32).length := by
  rw [h.str, List.length_append, List.length_replicate]

theorem turn_space (hraw : raw.length ≤ 127) (h : Scanned raw done (32 :: rest) s) :
    ∃ s', (onSpace s).bind lowerHere = some s' ∧ Scanned raw done rest s' := by
  obtain ⟨junk, hmem⟩ := h.mem
  have hrest := (List.forall_mem_cons.mp h.nonzero).2
  have hhere : s.mem = (done ++ List.replicate s.numWS 32) ++ 32 :: (rest ++ 0 :: junk) := by
    rw [hmem, List.append_assoc, List.cons_append]
  rw [onSpace_spec hraw h, Option.bind_some]
  refine ⟨_, lowerHere_mid hhere h.str_eq, ⟨junk, ?_⟩, ?_, ?_, ?_, hrest, nofun, fun _ => rfl⟩
  · rw [List.replicate_succ', tolower_space, List.append_assoc, List.append_assoc,
      List.singleton_append]
  · rw [tolower_space, ← hhere]
    exact h.size
  · dsimp only
    rw [← h.str_eq, h.str, Nat.add_assoc]
  · have htext := h.text
    rwa [List.map_cons, tolower_space, pending, if_pos rfl] at htext

theorem tolower_eq_or (c : UInt8) : tolower c = c ∨ 97 ≤ (tolower c).toNat := by
  rw [tolower]
  by_cases hup : isupper c = true
  · rw [isupper, Bool.and_eq_true, decide_eq_true_iff, decide_eq_true_iff] at hup
    have hlow : 65 ≤ c.toNat := UInt8.le_iff_toNat_le.mp hup.1
    have hhigh : c.toNat ≤ 90 := UInt8.le_iff_toNat_le.mp hup.2
    right
    rw [if_pos (by simpa [isupper] using hup), UInt8.toNat_add]
    change 97 ≤ (c.toNat + 32) % 256
    omega
  · exact .inl (if_neg hup)

theorem tolower_ne {c d : UInt8} (h : c ≠ d) (hd : d.toNat < 97) : tolower c ≠ d := by
  rintro rfl
  rcases tolower_eq_or c with heq | hlower
  · exact h heq.symm
  · omega

theorem turn_other {c : UInt8} (hc : c ≠ 32) (h : Scanned raw done (c :: rest) s) :
    ∃ s', (onOther s).bind lowerHere = some s' ∧
      Scanned raw (before done s.numWS ++ [tolower c]) rest s' := by
  obtain ⟨junk, hmem⟩ := h.mem
  have hrest := (List.forall_mem_cons.mp h.nonzero).2
  have hlower := tolower_ne hc (by decide)
  have hsize := h.size
  rw [hmem] at hsize
  rw [onOther_spec hmem h.str h.nonzero, Option.bind_some]
  refine ⟨_, lowerHere_mid (r := rest ++ 0 :: shifted s.numWS (c :: rest) junk) rfl rfl,
    ⟨shifted s.numWS (c :: rest) junk, ?_⟩, ?_, ?_, ?_, hrest, ?_, h.copied⟩
  · rw [List.replicate_zero, List.nil_append, List.append_assoc, List.singleton_append]
  · have hbefore := length_before done s.numWS
    simp only [List.length_append, List.length_cons, List.length_replicate,
      length_shifted] at hsize ⊢
    omega
  · simp
  · have htext := h.text
    rw [List.map_cons, pending, if_neg hlower] at htext
    rw [← htext, before]
    simp
  · intro hfirst
    obtain ⟨hws, hzero, hdone⟩ := h.first hfirst
    rw [List.map_cons, List.takeWhile_cons_of_pos (by simpa using hlower)] at hdone
    refine ⟨rfl, hzero, ?_⟩
    rw [before, if_pos hws, List.append_nil, List.append_assoc, List.singleton_append, hdone]

/-! ### The whole line -/

/-- The character that comes next, after the text in place and `n` spaces. -/
theorem load_next (done rest junk : List UInt8) (n : Nat) :
    (done ++ (List.replicate n 32 ++ (rest ++ 0 :: junk)))[done.length + n]? =
      some (rest.headD 0) := by
  have hplace : done.length + n = (done ++ List.replicate n (32 : UInt8)).length := by
    rw [List.length_append, List.length_replicate]
  rw [hplace, ← List.append_assoc]
  cases rest with
  | nil => exact load_mid
  | cons c rest => exact load_mid

theorem Scanned.load (h : Scanned raw done rest s) : s.mem[s.str]? = some (rest.headD 0) := by
  obtain ⟨junk, hmem⟩ := h.mem
  rw [hmem, h.str]
  exact load_next done rest junk s.numWS

theorem turn_spec {c : UInt8} (hraw : raw.length ≤ 127) (h : Scanned raw done (c :: rest) s) :
    ∃ s' done', (if c = 32 then onSpace s else onOther s).bind lowerHere = some s' ∧
      Scanned raw done' rest s' := by
  by_cases hc : c = 32
  · obtain rfl := hc
    obtain ⟨s', hturn, hscan⟩ := turn_space hraw h
    exact ⟨s', done, hturn, hscan⟩
  · obtain ⟨s', hturn, hscan⟩ := turn_other hc h
    exact ⟨s', _, (if_neg hc).symm ▸ hturn, hscan⟩

theorem scanLoop_succ {c : UInt8} (hc : c ≠ 0) (hload : s.mem[s.str]? = some c) (turns : Nat) :
    scanLoop (turns + 1) s =
      ((if c = 32 then onSpace s else onOther s).bind lowerHere).bind (scanLoop turns) := by
  rw [scanLoop, hload, Option.bind_eq_bind, Option.bind_some, if_neg hc, Option.bind_assoc]
  split
  · rfl
  · rfl

theorem scanLoop_spec (hraw : raw.length ≤ 127) {turns : Nat} (hturns : rest.length < turns)
    (h : Scanned raw done rest s) :
    ∃ s' done', scanLoop turns s = some s' ∧ Scanned raw done' [] s' := by
  have hload := h.load
  induction rest generalizing s done turns with
  | nil =>
    obtain ⟨turns, rfl⟩ := Nat.exists_eq_succ_of_ne_zero (Nat.ne_of_gt hturns)
    refine ⟨s, done, ?_, h⟩
    rw [scanLoop, hload]
    rfl
  | cons c rest ih =>
    obtain ⟨turns, rfl⟩ := Nat.exists_eq_succ_of_ne_zero (Nat.ne_of_gt (Nat.zero_lt_of_lt hturns))
    have hc := h.nonzero c List.mem_cons_self
    obtain ⟨s₁, done₁, hturn, hscan₁⟩ := turn_spec hraw h
    obtain ⟨s₂, done₂, hloop, hscan₂⟩ := ih (Nat.lt_of_succ_lt_succ hturns) hscan₁ hscan₁.load
    refine ⟨s₂, done₂, ?_, hscan₂⟩
    rw [scanLoop_succ hc hload, hturn, Option.bind_some, hloop]

theorem strlen_append {t : List UInt8} (ht : ∀ c ∈ t, c ≠ 0) (junk : List UInt8) :
    strlen (t ++ 0 :: junk) = some t.length := by
  have hnone : t.findIdx? (· == 0) = none := by
    rw [List.findIdx?_eq_none_iff]
    intro c hc
    exact beq_false_of_ne (ht c hc)
  rw [strlen, List.findIdx?_append, hnone, List.findIdx?_cons]
  simp

/-- The string in the memory. -/
def cstring (mem : List UInt8) : Option (List UInt8) := (strlen mem).map mem.take

theorem cstring_append {t : List UInt8} (ht : ∀ c ∈ t, c ≠ 0) (junk : List UInt8) :
    cstring (t ++ 0 :: junk) = some t := by
  rw [cstring, strlen_append ht, Option.map_some, List.take_left]

theorem normal_ne {c : UInt8} (hraw : ∀ c ∈ raw, c ≠ 0) (hc : c ∈ normal raw) : c ≠ 0 := by
  obtain ⟨d, hd, rfl⟩ := List.mem_map.mp (mem_of_mem_squeeze hc)
  exact tolower_ne (hraw d hd) (by decide)

theorem scanned_start (hraw : ∀ c ∈ raw, c ≠ 0) :
    Scanned raw [] raw
      { mem := raw ++ [0, 0], rxBuf := List.replicate 128 0, str := 0, numWS := 0,
        first := true } := by
  refine ⟨⟨[0], rfl⟩, List.length_append, rfl, ?_, hraw, fun _ => ⟨rfl, rfl, rfl⟩, nofun⟩
  rw [List.nil_append, pending_eq]
  rfl

theorem memset_zeros {rxBuf : List UInt8} (h : rxBuf.length = 128) :
    memset rxBuf 128 = some (List.replicate 128 0) := by
  rw [memset, if_pos (by omega), List.drop_of_length_le (by omega), List.append_nil]

theorem cutNewline_last (r : List UInt8) :
    cutNewline (p ++ 10 :: r) (p.length + 1) = some (p ++ 0 :: r) := by
  rw [cutNewline, Nat.add_sub_cancel, load_mid, Option.bind_eq_bind, Option.bind_some, if_pos rfl,
    store_mid]

theorem Scanned.done_eq (h : Scanned raw done [] s) : done = normal raw := by
  have htext := h.text
  rwa [List.map_nil, pending, List.append_nil] at htext

theorem Scanned.cutSpaces (h : Scanned raw done [] s) :
    ∃ junk, cutSpaces s = some (done ++ 0 :: junk) := by
  obtain ⟨junk, hmem⟩ := h.mem
  rw [List.nil_append] at hmem
  have hstr := h.str
  rw [Setup.cutSpaces]
  by_cases hws : s.numWS = 0
  · rw [hws, List.replicate_zero, List.nil_append] at hmem
    exact ⟨junk, (if_pos hws).trans (congrArg some hmem)⟩
  · obtain ⟨n, hn⟩ := Nat.exists_eq_succ_of_ne_zero hws
    have hstart : s.str - s.numWS = done.length := by omega
    rw [if_neg hws, if_neg (by omega), hstart, hmem, hn, List.replicate_succ, List.cons_append,
      store_mid]
    exact ⟨_, rfl⟩

theorem Scanned.copyRest (hraw : raw.length ≤ 127) (h : Scanned raw done [] s) (r : List UInt8) :
    copyRest s (done ++ r) = some (padded (command raw)) := by
  rw [Setup.copyRest]
  by_cases hfirst : s.first = true
  · obtain ⟨hws, hzero, hdone⟩ := h.first hfirst
    obtain ⟨junk, hmem⟩ := h.mem
    have hsize := h.size
    rw [hmem] at hsize
    simp only [List.length_append, List.length_cons] at hsize
    rw [List.map_nil, List.takeWhile_nil, List.append_nil] at hdone
    rw [if_pos hfirst, hzero, h.str, hws, Nat.add_zero, memcpy_zeros (by omega), hdone]
  · rw [if_neg hfirst]
    exact congrArg some (h.copied (Bool.not_eq_true _ ▸ hfirst))

/-- A line is parsed inside its memory and `rxBuf`. -/
theorem setupCliParse_line {line rxBuf : List UInt8} (hlong : 3 ≤ line.length)
    (hshort : line.length ≤ 128) (hlast : line.getLast? = some 10) (hnul : 0 ∉ line)
    (hrx : rxBuf.length = 128) :
    ∃ mem, setupCliParse (line ++ [0]) rxBuf =
        some { mem, rxBuf := padded (command line.dropLast), ret := none } ∧
      cstring mem = some (normal line.dropLast) := by
  obtain ⟨raw, rfl⟩ := List.getLast?_eq_some_iff.mp hlast
  rw [List.length_append, List.length_singleton] at hlong hshort
  have hline : ∀ c ∈ raw ++ [10], c ≠ 0 := by
    rintro c hc rfl
    exact hnul hc
  have hraw : ∀ c ∈ raw, c ≠ 0 := fun c hc => hline c (List.mem_append_left _ hc)
  have hlen : strlen (raw ++ [10] ++ [0]) = some (raw.length + 1) := by
    rw [strlen_append hline, List.length_append, List.length_singleton]
  have hturns : raw.length < (raw ++ [0, 0]).length + 1 := by
    rw [List.length_append]
    omega
  have hfits : raw.length ≤ 127 := by omega
  obtain ⟨s, done, hscan, hscanned⟩ := scanLoop_spec hfits hturns (scanned_start hraw)
  obtain ⟨junk, hcut⟩ := hscanned.cutSpaces
  refine ⟨done ++ 0 :: junk, ?_, ?_⟩
  · rw [setupCliParse, hlen, Option.bind_eq_bind, Option.bind_some, if_neg (by omega),
      memset_zeros hrx, Option.bind_eq_bind, Option.bind_some, List.append_assoc,
      List.singleton_append, cutNewline_last, Option.bind_eq_bind, Option.bind_some, hscan,
      Option.bind_some, hcut, Option.bind_some, hscanned.copyRest hfits, List.dropLast_concat,
      Option.bind_some]
  · rw [hscanned.done_eq, List.dropLast_concat]
    exact cstring_append (fun _ => normal_ne hraw) junk

/-- `"  Show   ID \n"`. -/
theorem setupCliParse_sample :
    ∃ mem, setupCliParse ([32, 32, 83, 104, 111, 119, 32, 32, 32, 73, 68, 32, 10] ++ [0])
          (List.replicate 128 7) =
        some { mem, rxBuf := padded (command [32, 32, 83, 104, 111, 119, 32, 32, 32, 73, 68, 32]),
               ret := none } ∧
      cstring mem = some [32, 115, 104, 111, 119, 32, 105, 100] :=
  setupCliParse_line (by decide) (by decide) (by decide) (by decide) List.length_replicate

end Setup
end EspMisc
