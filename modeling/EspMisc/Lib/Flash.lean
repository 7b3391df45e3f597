/-
NOR flash, and a writer that erases as it goes.

A flash has a byte at every address.  Erasing sets a sector to `0xFF`, and programming
can only clear bits, so a byte takes the value it is given only when its sector was
erased before.  A log is what was done to a flash, in order.

A `Writer` appends to what it has written and erases a sector when it first needs it.
`Written` is what holds of it whatever it is given: the flash holds the data from the
start on, what is left of the last sector is blank, and every sector was erased once,
before it was programmed.
-/
import Mathlib.Data.List.Basic

namespace EspMisc

/-- The contents of a flash. -/
abbrev Flash := Nat → UInt8

namespace Flash

def read (f : Flash) (addr len : Nat) : List UInt8 := (List.range len).map fun i => f (addr + i)

/-- `size` is the size of a sector. -/
def eraseSector (size : Nat) (f : Flash) (s : Nat) : Flash :=
  fun a => if a / size = s then 0xFF else f a

def program (f : Flash) (addr : Nat) (bytes : List UInt8) : Flash :=
  fun a => if addr ≤ a ∧ a < addr + bytes.length then f a &&& bytes.getD (a - addr) 0 else f a

/-! ## Reading -/

@[simp] theorem length_read (f : Flash) (addr len : Nat) : (read f addr len).length = len := by
  simp [read]

theorem read_append (f : Flash) (addr m n : Nat) :
    read f addr (m + n) = read f addr m ++ read f (addr + m) n := by
  simp only [read, List.range_add, List.map_append, List.map_map]
  congr 1
  apply List.map_congr_left
  intro i _
  rw [Function.comp_apply, Nat.add_assoc]

theorem read_congr {f g : Flash} {addr len : Nat}
    (h : ∀ a, addr ≤ a → a < addr + len → f a = g a) : read f addr len = read g addr len := by
  apply List.map_congr_left
  intro i hi
  have hlt := List.mem_range.mp hi
  exact h (addr + i) (by omega) (by omega)

theorem eq_of_read_eq {f g : Flash} {addr len : Nat} (h : read f addr len = read g addr len)
    {a : Nat} (hle : addr ≤ a) (hlt : a < addr + len) : f a = g a := by
  have hget := List.map_inj_left.mp h (a - addr) (List.mem_range.mpr (by omega))
  rwa [Nat.add_sub_cancel' hle] at hget

theorem eraseSector_self {size : Nat} (f : Flash) {s a : Nat} (h : a / size = s) :
    eraseSector size f s a = 0xFF := if_pos h

theorem eraseSector_other {size : Nat} (f : Flash) {s a : Nat} (h : a / size ≠ s) :
    eraseSector size f s a = f a := if_neg h

theorem program_other (f : Flash) {addr a : Nat} {bytes : List UInt8}
    (h : a < addr ∨ addr + bytes.length ≤ a) : program f addr bytes a = f a := by
  apply if_neg
  omega

theorem program_apply (f : Flash) (addr : Nat) {bytes : List UInt8} {i : Nat}
    (h : i < bytes.length) : program f addr bytes (addr + i) = f (addr + i) &&& bytes.getD i 0 := by
  rw [program, if_pos (by omega), Nat.add_sub_cancel_left]

/-- Two programs of one range leave the same where they clear the same bits. -/
theorem program_eq_iff (f : Flash) (addr start : Nat) {bytes bytes' : List UInt8}
    (h : bytes.length = bytes'.length) :
    (∀ a, start ≤ a → program f addr bytes a = program f addr bytes' a) ↔
      ∀ i < bytes.length, start ≤ addr + i →
        f (addr + i) &&& bytes.getD i 0 = f (addr + i) &&& bytes'.getD i 0 := by
  constructor
  · intro heq i hi hstart
    have hat := heq (addr + i) hstart
    rwa [program_apply f addr hi, program_apply f addr (h ▸ hi)] at hat
  · intro heq a hstart
    by_cases hin : addr ≤ a ∧ a < addr + bytes.length
    · obtain ⟨i, rfl⟩ := Nat.exists_eq_add_of_le hin.1
      have hi : i < bytes.length := by omega
      rw [program_apply f addr hi, program_apply f addr (h ▸ hi)]
      exact heq i hi hstart
    · rw [program_other f (by omega), program_other f (by omega)]

/-- Programming a blank range gives it its value. -/
theorem read_program {f : Flash} {addr : Nat} {bytes : List UInt8}
    (h : ∀ a, addr ≤ a → a < addr + bytes.length → f a = 0xFF) :
    read (program f addr bytes) addr bytes.length = bytes := by
  apply List.ext_getElem
  · simp
  · intro i hi hib
    have hblank := h (addr + i) (by omega) (by omega)
    simp only [read, List.getElem_map, List.getElem_range, program]
    rw [if_pos (by omega), hblank, Nat.add_sub_cancel_left]
    simp only [List.getD_eq_getElem?_getD, hib, List.getElem?_eq_getElem, Option.getD_some]
    exact UInt8.neg_one_and

/-! ## Logs -/

inductive Op where
  | erase (s : Nat)
  | program (addr : Nat) (bytes : List UInt8)
  deriving Repr, DecidableEq

namespace Op

def apply (size : Nat) (f : Flash) : Op → Flash
  | erase s => eraseSector size f s
  | program addr bytes => Flash.program f addr bytes

/-- The operation programs the byte at `a`. -/
def Programs (a : Nat) : Op → Prop
  | erase _ => False
  | program addr bytes => addr ≤ a ∧ a < addr + bytes.length

/-- The operation works on the sector. -/
def Touches (size s : Nat) : Op → Prop
  | erase t => t = s
  | program addr bytes => ∃ a, (program addr bytes).Programs a ∧ a / size = s

end Op

/-- What a log makes of a flash. -/
def after (size : Nat) (f : Flash) (log : List Op) : Flash := log.foldl (Op.apply size) f

theorem after_append (size : Nat) (f : Flash) (a b : List Op) :
    after size f (a ++ b) = after size (after size f a) b := List.foldl_append

/-- A byte whose sector no operation works on stays. -/
theorem after_untouched {size a : Nat} {log : List Op} : ∀ {f : Flash},
    (∀ op ∈ log, ¬ op.Touches size (a / size)) → after size f log a = f a := by
  induction log with
  | nil => exact fun _ => rfl
  | cons op log ih =>
    intro f h
    obtain ⟨hop, hlog⟩ := List.forall_mem_cons.mp h
    rw [after, List.foldl_cons]
    refine (ih hlog).trans ?_
    cases op with
    | erase s => exact eraseSector_other f fun heq => hop heq.symm
    | program addr bytes =>
      apply program_other
      by_contra hin
      exact hop ⟨a, ⟨by omega, by omega⟩, rfl⟩

/-- The sector was erased once, and no byte of it was programmed before. -/
def ErasedOnce (size s : Nat) (log : List Op) : Prop :=
  ∃ l r, log = l ++ .erase s :: r ∧ .erase s ∉ l ∧ .erase s ∉ r ∧
    ∀ op ∈ l, ∀ a, op.Programs a → a / size ≠ s

theorem ErasedOnce.append {size s : Nat} {log ops : List Op} (h : ErasedOnce size s log)
    (hops : .erase s ∉ ops) : ErasedOnce size s (log ++ ops) := by
  obtain ⟨l, r, rfl, hl, hr, hfirst⟩ := h
  refine ⟨l, r ++ ops, by simp, hl, ?_, hfirst⟩
  rw [List.mem_append]
  rintro (hmem | hmem)
  · exact hr hmem
  · exact hops hmem

/-- The `count` sectors from `s` on are erased. -/
def erases : Nat → Nat → List Op
  | _, 0 => []
  | s, count + 1 => .erase s :: erases (s + 1) count

theorem mem_erases {s count : Nat} {op : Op} :
    op ∈ erases s count ↔ ∃ t, s ≤ t ∧ t < s + count ∧ op = .erase t := by
  induction count generalizing s with
  | zero =>
    simp only [erases, List.not_mem_nil, false_iff]
    rintro ⟨t, hle, hlt, -⟩
    omega
  | succ count ih =>
    rw [erases, List.mem_cons, ih]
    constructor
    · rintro (rfl | ⟨t, hle, hlt, rfl⟩)
      · exact ⟨s, by omega, by omega, rfl⟩
      · exact ⟨t, by omega, by omega, rfl⟩
    · rintro ⟨t, hle, hlt, rfl⟩
      by_cases hst : t = s
      · exact Or.inl (by rw [hst])
      · exact Or.inr ⟨t, by omega, by omega, rfl⟩

theorem erases_split (s j k : Nat) :
    erases s (j + 1 + k) = erases s j ++ .erase (s + j) :: erases (s + j + 1) k := by
  induction j generalizing s with
  | zero => rw [Nat.zero_add, Nat.add_comm 1 k]; rfl
  | succ j ih =>
    rw [show j + 1 + 1 + k = (j + 1 + k) + 1 by omega, erases, ih, erases, List.cons_append,
      show s + 1 + j = s + (j + 1) by omega]

theorem after_erases {size : Nat} (f : Flash) (s count a : Nat) :
    after size f (erases s count) a =
      if s ≤ a / size ∧ a / size < s + count then 0xFF else f a := by
  induction count generalizing f s with
  | zero =>
    rw [if_neg (by omega)]
    rfl
  | succ count ih =>
    rw [erases, after, List.foldl_cons]
    rw [show List.foldl (Op.apply size) (Op.apply size f (.erase s)) (erases (s + 1) count) a =
      after size (eraseSector size f s) (erases (s + 1) count) a from rfl, ih]
    by_cases hs : a / size = s
    · rw [if_neg (by omega), if_pos (by omega)]
      exact eraseSector_self f hs
    · rw [eraseSector_other f hs]
      by_cases hin : s + 1 ≤ a / size ∧ a / size < s + 1 + count
      · rw [if_pos hin, if_pos (by omega)]
      · rw [if_neg hin, if_neg (by omega)]

/-! ## The writer -/

structure Writer where
  /-- The address of the next byte. -/
  pos : Nat
  /-- The next sector to erase. -/
  next : Nat
  log : List Op

namespace Writer

def start (size addr : Nat) : Writer := ⟨addr, addr / size, []⟩

/-- Erases the sectors up to the last new byte that are not erased yet, and programs. -/
def append (size : Nat) (w : Writer) (bytes : List UInt8) : Writer :=
  let stop := (w.pos + bytes.length - 1) / size + 1
  { pos := w.pos + bytes.length
    next := max w.next stop
    log := w.log ++ (erases w.next (stop - w.next) ++ [.program w.pos bytes]) }

end Writer

/-- What a writer has done that started at `addr` and was given `data`. -/
structure Written (size addr : Nat) (data : List UInt8) (w : Writer) : Prop where
  pos : w.pos = addr + data.length
  /-- The sectors from the first one up to `next` were erased, and they hold the data. -/
  lower : addr / size ≤ w.next
  covers : ∀ a, addr ≤ a → a < w.pos → a / size < w.next
  /-- None was erased without need, the first one apart. -/
  need : ∀ s, addr / size < s → s < w.next → s ≤ (w.pos - 1) / size
  once : ∀ s, addr / size ≤ s → s < w.next → ErasedOnce size s w.log
  erased : ∀ s, .erase s ∈ w.log → addr / size ≤ s ∧ s < w.next
  programmed : ∀ op ∈ w.log, ∀ a, op.Programs a → addr ≤ a ∧ a < w.pos
  last : data ≠ [] → ∃ op ∈ w.log, op.Programs (w.pos - 1)
  holds : ∀ f, read (after size f w.log) addr data.length = data
  blank : ∀ f a, w.pos ≤ a → a / size < w.next → after size f w.log a = 0xFF

theorem written_start (size addr : Nat) : Written size addr [] (.start size addr) where
  pos := rfl
  lower := Nat.le_refl _
  covers _ hle hlt := absurd hlt (Nat.not_lt.mpr hle)
  need _ hlt hlt' := absurd hlt' (Nat.lt_asymm hlt)
  once _ hle hlt := absurd hlt (Nat.not_lt.mpr hle)
  erased _ h := absurd h List.not_mem_nil
  programmed _ h := absurd h List.not_mem_nil
  last h := absurd rfl h
  holds _ := rfl
  blank _ _ hle hlt := absurd hlt (Nat.not_lt.mpr (Nat.div_le_div_right hle))

namespace Written

variable {size addr : Nat} {data : List UInt8} {w : Writer}

theorem after_append (f : Flash) (bytes : List UInt8) :
    after size f (w.append size bytes).log =
      program (after size (after size f w.log)
        (erases w.next ((w.pos + bytes.length - 1) / size + 1 - w.next))) w.pos bytes := by
  rw [Writer.append, Flash.after_append, Flash.after_append]
  rfl

/-- The sectors that the new bytes lie in. -/
theorem div_lt_stop (size : Nat) {len a : Nat} (h : a < w.pos + len) :
    a / size < (w.pos + len - 1) / size + 1 :=
  Nat.lt_succ_of_le (Nat.div_le_div_right (by omega))

/-- What was written stays when more sectors are erased. -/
theorem kept (h : Written size addr data w) (f : Flash) (count : Nat) {a : Nat} (hle : addr ≤ a)
    (hlt : a < w.pos) :
    after size (after size f w.log) (erases w.next count) a = after size f w.log a := by
  have hcover := h.covers a hle hlt
  rw [after_erases, if_neg (by omega)]

/-- What is not written yet is blank before it is programmed. -/
theorem cleared (h : Written size addr data w) (f : Flash) {stop a : Nat} (hle : w.pos ≤ a)
    (hlt : a / size < max w.next stop) :
    after size (after size f w.log) (erases w.next (stop - w.next)) a = 0xFF := by
  rw [after_erases]
  by_cases hnew : w.next ≤ a / size
  · rw [if_pos (by omega)]
  · rw [if_neg (by omega)]
    exact h.blank f a hle (by omega)

theorem append_once (h : Written size addr data w) (bytes : List UInt8) {s : Nat}
    (hle : addr / size ≤ s) (hlt : s < (w.append size bytes).next) :
    ErasedOnce size s (w.append size bytes).log := by
  simp only [Writer.append] at hlt ⊢
  generalize (w.pos + bytes.length - 1) / size + 1 = stop at hlt ⊢
  by_cases hold : s < w.next
  · apply (h.once s hle hold).append
    rw [List.mem_append, mem_erases]
    rintro (⟨t, hnext, -, ht⟩ | hmem)
    · obtain rfl := Op.erase.inj ht
      omega
    · exact absurd (List.mem_singleton.mp hmem) (by simp)
  · obtain ⟨j, hj⟩ : ∃ j, s = w.next + j := ⟨s - w.next, by omega⟩
    obtain ⟨k, hk⟩ : ∃ k, stop - w.next = j + 1 + k := ⟨stop - s - 1, by omega⟩
    refine ⟨w.log ++ erases w.next j, erases (s + 1) k ++ [.program w.pos bytes], ?_, ?_, ?_, ?_⟩
    · rw [hk, erases_split, ← hj]
      simp
    · rw [List.mem_append, mem_erases]
      rintro (hmem | ⟨t, -, ht, he⟩)
      · exact hold (h.erased s hmem).2
      · obtain rfl := Op.erase.inj he
        omega
    · rw [List.mem_append, mem_erases]
      rintro (⟨t, ht, -, he⟩ | hmem)
      · obtain rfl := Op.erase.inj he
        omega
      · exact absurd (List.mem_singleton.mp hmem) (by simp)
    · intro op hop a ha
      rcases List.mem_append.mp hop with hop | hop
      · obtain ⟨hfrom, hto⟩ := h.programmed op hop a ha
        have hcover := h.covers a hfrom hto
        omega
      · obtain ⟨t, -, -, rfl⟩ := mem_erases.mp hop
        exact absurd ha id

theorem append_holds (h : Written size addr data w) (bytes : List UInt8) (f : Flash) :
    read (after size f (w.append size bytes).log) addr (data ++ bytes).length = data ++ bytes := by
  rw [after_append, List.length_append, read_append, ← h.pos]
  congr 1
  · refine Eq.trans (read_congr fun a hle hlt => ?_) (h.holds f)
    rw [← h.pos] at hlt
    rw [program_other _ (Or.inl hlt), h.kept f _ hle hlt]
  · apply read_program
    intro a hle hlt
    apply h.cleared f hle
    have := div_lt_stop size hlt
    omega

/-- A writer that is given more has written all of it. -/
theorem append (h : Written size addr data w) (bytes : List UInt8) :
    Written size addr (data ++ bytes) (w.append size bytes) where
  pos := by
    have hpos := h.pos
    simp only [Writer.append, List.length_append]
    omega
  lower := Nat.le_trans h.lower (Nat.le_max_left ..)
  covers a hle hlt := by
    simp only [Writer.append] at hlt ⊢
    by_cases hold : a < w.pos
    · have := h.covers a hle hold
      omega
    · have := div_lt_stop size hlt
      omega
  need s hfirst hlt := by
    simp only [Writer.append] at hlt ⊢
    by_cases hold : s < w.next
    · exact Nat.le_trans (h.need s hfirst hold) (Nat.div_le_div_right (by omega))
    · omega
  once _ hle hlt := h.append_once bytes hle hlt
  erased s hmem := by
    have hlower := h.lower
    simp only [Writer.append, List.mem_append, mem_erases, List.mem_singleton] at hmem ⊢
    rcases hmem with hmem | ⟨t, hle, hlt, he⟩ | hmem
    · have := h.erased s hmem
      omega
    · obtain rfl := Op.erase.inj he
      omega
    · exact absurd hmem (by simp)
  programmed op hop a ha := by
    have hpos := h.pos
    simp only [Writer.append, List.mem_append, mem_erases, List.mem_singleton] at hop ⊢
    rcases hop with hop | ⟨t, -, -, rfl⟩ | rfl
    · have := h.programmed op hop a ha
      omega
    · exact absurd ha id
    · obtain ⟨hle, hlt⟩ := ha
      omega
  last hne := by
    simp only [Writer.append, List.mem_append, List.mem_singleton]
    by_cases hb : bytes.length = 0
    · obtain rfl := List.length_eq_zero_iff.mp hb
      rw [List.append_nil] at hne
      obtain ⟨op, hop, hprog⟩ := h.last hne
      exact ⟨op, Or.inl hop, hprog⟩
    · refine ⟨_, Or.inr (Or.inr rfl), ?_⟩
      constructor <;> omega
  holds f := h.append_holds bytes f
  blank f a hle hlt := by
    rw [after_append, program_other _ (Or.inr hle)]
    exact h.cleared f (Nat.le_trans (Nat.le_add_right ..) hle) hlt

/-- A sector that holds a programmed byte was erased once, before. -/
theorem programmed_once (h : Written size addr data w) {s : Nat}
    (hs : ∃ op ∈ w.log, ∃ a, op.Programs a ∧ a / size = s) : ErasedOnce size s w.log := by
  obtain ⟨op, hop, a, ha, rfl⟩ := hs
  obtain ⟨hfrom, hto⟩ := h.programmed op hop a ha
  exact h.once _ (Nat.div_le_div_right hfrom) (h.covers a hfrom hto)

/-- A sector past the first one was erased for a byte that was programmed. -/
theorem erased_needed (h : Written size addr data w) {s : Nat} (hs : .erase s ∈ w.log) :
    s = addr / size ∨
      addr / size < s ∧ ∃ op ∈ w.log, ∃ a, op.Programs a ∧ s ≤ a / size := by
  obtain ⟨hfirst, hnext⟩ := h.erased s hs
  by_cases heq : s = addr / size
  · exact Or.inl heq
  · have hlt : addr / size < s := by omega
    have hneed := h.need s hlt hnext
    have hne : data ≠ [] := by
      intro hnil
      have hpos := h.pos
      rw [hnil, List.length_nil] at hpos
      have hle : (w.pos - 1) / size ≤ addr / size := Nat.div_le_div_right (by omega)
      omega
    obtain ⟨op, hop, ha⟩ := h.last hne
    exact Or.inr ⟨hlt, op, hop, _, ha, hneed⟩

/-- Nothing is left after the data in a sector that the log has reached. -/
theorem blank_touched (h : Written size addr data w) (f : Flash) {a : Nat} (hle : w.pos ≤ a)
    (ht : ∃ op ∈ w.log, ∃ t, op.Touches size t ∧ a / size ≤ t) :
    after size f w.log a = 0xFF := by
  apply h.blank f a hle
  obtain ⟨op, hop, t, htouch, hat⟩ := ht
  apply Nat.lt_of_le_of_lt hat
  cases op with
  | erase s =>
    obtain rfl : s = t := htouch
    exact (h.erased s hop).2
  | program addr bytes =>
    obtain ⟨b, hb, rfl⟩ := htouch
    obtain ⟨hfrom, hto⟩ := h.programmed _ hop b hb
    exact h.covers b hfrom hto

end Written

end Flash
end EspMisc
