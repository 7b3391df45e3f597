/-
The receiver of `app_setup/driver/uart.c`.

A run of `uart_recvTask` moves what it finds in the FIFO to the end of a static buffer, and
looks at the last byte of the buffer only.  Its state between two runs is what the buffer
holds and what is left in the FIFO, and `uartRecvTask_spec` says what a run makes of the two.
A newline that is not the last byte of a burst ends no message (`lines_posted_iff`), and a
buffer that is full without one at its end stays full (`uart_progress_iff`).
-/
import EspMisc.Lib.Lines
import EspMisc.Lib.Run

namespace EspMisc
namespace Setup

open Lines Machine

/-- The static variables of `uart.c` and the bytes left in the FIFO. -/
structure Uart where
  buf : List UInt8
  length : Nat
  fifo : List UInt8
  deriving DecidableEq

def Uart.start : Uart := { buf := List.replicate 128 0, length := 0, fifo := [] }

/-- What a run meets: the bytes that came since the last one, and the byte in memory in front
of `buf`. -/
structure Burst where
  arrived : List UInt8
  front : UInt8
  deriving DecidableEq

inductive UartEffect where
  | access (index : Int)
  | post (data : List UInt8) (len : Nat)
  deriving DecidableEq

/-- `buf[i]`. -/
def charAt (buf : List UInt8) (front : UInt8) (i : Int) : UInt8 :=
  if i < 0 then front else buf.getD i.toNat 0

/-- The loop over the FIFO. -/
def drain : List UInt8 → List UInt8 → Nat → Uart × List UartEffect
  | [], buf, length => ({ buf, length, fifo := [] }, [])
  | c :: fifo, buf, length =>
    if length < 128 then
      let r := drain fifo (buf.set length c) (length + 1)
      (r.1, .access length :: r.2)
    else ({ buf, length, fifo := c :: fifo }, [])

def uartRecvTask (u : Uart) (b : Burst) : Uart × List UartEffect :=
  let r := drain (u.fifo ++ b.arrived) u.buf u.length
  let i : Int := r.1.length - 1
  if charAt r.1.buf b.front i = 10 then
    let copied := (List.range r.1.length).map fun (j : Nat) => UartEffect.access j
    ({ r.1 with length := 0 },
      r.2 ++ .access i :: copied ++ [.post (r.1.buf.take r.1.length ++ [0]) r.1.length])
  else (r.1, r.2 ++ [.access i])

def uartStep (u : Uart) (b : Burst) : Option (Uart × List UartEffect) := some (uartRecvTask u b)

abbrev UartRecord := Taken Uart Burst UartEffect

abbrev UartRun := Run uartStep .start

/-! ### One run of the task -/

/-- The bytes the buffer holds. -/
def Uart.held (u : Uart) : List UInt8 := u.buf.take u.length

/-- The bytes in the FIFO when a run starts. -/
def waiting (u : Uart) (b : Burst) : List UInt8 := u.fifo ++ b.arrived

/-- The bytes held, and those in the FIFO. -/
def found (u : Uart) (b : Burst) : List UInt8 := u.held ++ waiting u b

structure UartInv (u : Uart) : Prop where
  size : u.buf.length = 128
  length_le : u.length ≤ 128
  last : u.held.getLast? ≠ some 10

/-- The loop took bytes from `fifo` until the buffer, with `n` bytes in it, was full. -/
structure Drained (fifo buf : List UInt8) (n : Nat) (r : Uart × List UartEffect) : Prop where
  size : r.1.buf.length = 128
  length : r.1.length = min 128 (n + fifo.length)
  held : r.1.held = (buf.take n ++ fifo).take 128
  left : r.1.fifo = (buf.take n ++ fifo).drop 128
  inside : ∀ e ∈ r.2, ∃ j : Nat, j < 128 ∧ e = .access j

theorem take_set_succ {buf : List UInt8} {n : Nat} (h : n < buf.length) (c : UInt8) :
    (buf.set n c).take (n + 1) = buf.take n ++ [c] := by
  rw [List.take_succ_eq_append_getElem (by simpa using h), List.take_set_of_le (Nat.le_refl n),
    List.getElem_set_self]

theorem drain_spec {fifo buf : List UInt8} {length : Nat} (hbuf : buf.length = 128)
    (hlen : length ≤ 128) : Drained fifo buf length (drain fifo buf length) := by
  induction fifo generalizing buf length with
  | nil =>
    have htake : (buf.take length).length = length := by simp [hbuf, hlen]
    refine ⟨hbuf, by simp [drain, hlen], ?_, ?_, nofun⟩
    · rw [List.append_nil, List.take_of_length_le (by omega)]
      rfl
    · rw [List.append_nil, List.drop_of_length_le (by omega)]
      rfl
  | cons c fifo ih =>
    rw [drain]
    by_cases hroom : length < 128
    · rw [if_pos hroom]
      have hset : (buf.set length c).length = 128 := (List.length_set ..).trans hbuf
      have hnext : length + 1 ≤ 128 := hroom
      obtain ⟨hsize, hlength, hheld, hfifo, hin⟩ := ih hset hnext
      rw [take_set_succ (by omega), List.append_assoc, List.singleton_append] at hheld hfifo
      refine ⟨hsize, by simp only [hlength, List.length_cons]; omega, hheld, hfifo, ?_⟩
      rw [List.forall_mem_cons]
      exact ⟨⟨length, hroom, rfl⟩, hin⟩
    · rw [if_neg hroom]
      have hfull : length = 128 := by omega
      have htake : (buf.take length).length = 128 := by simp [hbuf, hfull]
      refine ⟨hbuf, by simp [hfull], ?_, ?_, nofun⟩
      · rw [← htake, List.take_left]
        rfl
      · rw [← htake, List.drop_left]

/-- What the buffer holds after the loop. -/
def filled (u : Uart) (b : Burst) : List UInt8 := (found u b).take 128

/-- The byte a run compares with the newline is one. -/
def ended (u : Uart) (b : Burst) : Bool := (filled u b).getLast?.getD b.front == 10

/-- The message for a text: with a NUL after it, and its length. -/
def message (text : List UInt8) : List UInt8 × Nat := (text ++ [0], text.length)

def posted (out : List UartEffect) : List (List UInt8 × Nat) :=
  out.filterMap fun
    | .access _ => none
    | .post data len => some (data, len)

def Inside (out : List UartEffect) : Prop := ∀ i, .access i ∈ out → 0 ≤ i ∧ i ≤ 127

/-- What a run of the task comes to. -/
structure Received (u : Uart) (b : Burst) (r : Uart × List UartEffect) : Prop where
  inv : UartInv r.1
  held : r.1.held = if ended u b then [] else filled u b
  left : r.1.fifo = (found u b).drop 128
  posted : posted r.2 = if ended u b then [message (filled u b)] else []
  inside : Inside r.2 ↔ found u b ≠ []

theorem Uart.length_held {u : Uart} (h : u.buf.length = 128) (hle : u.length ≤ 128) :
    u.held.length = u.length := by
  rw [Uart.held, List.length_take, h]
  omega

theorem charAt_last {u : Uart} (h : u.buf.length = 128) (hle : u.length ≤ 128) (front : UInt8) :
    charAt u.buf front (u.length - 1) = u.held.getLast?.getD front := by
  rw [charAt]
  by_cases hzero : u.length = 0
  · rw [if_pos (by omega), Uart.held, hzero]
    rfl
  · rw [if_neg (by omega), List.getLast?_eq_getElem?, Uart.length_held h hle, Uart.held,
      List.getElem?_take_of_lt (by omega), List.getD_eq_getElem?_getD]
    have hi : ((u.length : Int) - 1).toNat = u.length - 1 := by omega
    rw [hi, List.getElem?_eq_getElem (by omega)]
    rfl

theorem posted_append (out out' : List UartEffect) :
    posted (out ++ out') = posted out ++ posted out' := List.filterMap_append

theorem posted_cons (i : Int) (out : List UartEffect) :
    posted (.access i :: out) = posted out := rfl

theorem posted_eq_nil {out : List UartEffect}
    (h : ∀ e ∈ out, ∃ j : Nat, j < 128 ∧ e = .access j) : posted out = [] := by
  rw [posted, List.filterMap_eq_nil_iff]
  intro e he
  obtain ⟨j, -, rfl⟩ := h e he
  rfl

theorem inside_append (out out' : List UartEffect) :
    Inside (out ++ out') ↔ Inside out ∧ Inside out' := by
  constructor
  · intro h
    exact ⟨fun i hi => h i (List.mem_append_left _ hi),
      fun i hi => h i (List.mem_append_right _ hi)⟩
  · rintro ⟨h, h'⟩ i hi
    exact (List.mem_append.mp hi).elim (h i) (h' i)

theorem inside_cons (i : Int) (out : List UartEffect) :
    Inside (.access i :: out) ↔ (0 ≤ i ∧ i ≤ 127) ∧ Inside out := by
  constructor
  · intro h
    exact ⟨h i List.mem_cons_self, fun j hj => h j (List.mem_cons_of_mem _ hj)⟩
  · rintro ⟨hi, h⟩ j hj
    rcases List.mem_cons.mp hj with heq | hj
    · rwa [UartEffect.access.inj heq]
    · exact h j hj

theorem inside_of_lt {out : List UartEffect} (h : ∀ e ∈ out, ∃ j : Nat, j < 128 ∧ e = .access j) :
    Inside out := by
  intro i hi
  obtain ⟨j, hj, heq⟩ := h _ hi
  obtain rfl := UartEffect.access.inj heq
  omega

variable {u u' : Uart} {b : Burst} {out : List UartEffect} {r : Uart × List UartEffect}

theorem Drained.length_le (h : Drained (waiting u b) u.buf u.length r) : r.1.length ≤ 128 :=
  h.length ▸ Nat.min_le_left ..

theorem Drained.filled_eq (h : Drained (waiting u b) u.buf u.length r) : r.1.held = filled u b :=
  h.held

/-- The byte that a run looks at is in the buffer unless nothing was found. -/
theorem Drained.check (h : Drained (waiting u b) u.buf u.length r) (hinv : UartInv u) :
    (0 ≤ (r.1.length : Int) - 1 ∧ (r.1.length : Int) - 1 ≤ 127) ↔ found u b ≠ [] := by
  have hheld := Uart.length_held hinv.size hinv.length_le
  have hlength := h.length
  rw [← List.length_pos_iff, found, List.length_append]
  omega

/-- A newline at the end: the buffer is copied to a message and emptied. -/
theorem received_post (h : Drained (waiting u b) u.buf u.length r) (hinv : UartInv u)
    (hend : ended u b = true) :
    Received u b
      ({ r.1 with length := 0 },
        r.2 ++ .access (r.1.length - 1) ::
            (List.range r.1.length).map (fun (j : Nat) => UartEffect.access j) ++
          [.post (r.1.held ++ [0]) r.1.length]) := by
  have hcopied : ∀ e ∈ (List.range r.1.length).map fun (j : Nat) => UartEffect.access j,
      ∃ j : Nat, j < 128 ∧ e = .access j := by
    intro e he
    obtain ⟨j, hj, rfl⟩ := List.mem_map.mp he
    exact ⟨j, Nat.lt_of_lt_of_le (List.mem_range.mp hj) h.length_le, rfl⟩
  refine ⟨⟨h.size, Nat.zero_le _, nofun⟩, ?_, h.left, ?_, ?_⟩
  · rw [if_pos hend]
    rfl
  · have hlen := Uart.length_held h.size h.length_le
    rw [h.filled_eq] at hlen ⊢
    rw [if_pos hend, message, hlen, posted_append, posted_append, posted_cons,
      posted_eq_nil h.inside, posted_eq_nil hcopied]
    rfl
  · rw [inside_append, inside_append, inside_cons, h.check hinv]
    constructor
    · exact fun hins => hins.1.2.1
    · intro hne
      refine ⟨⟨inside_of_lt h.inside, hne, inside_of_lt hcopied⟩, ?_⟩
      intro i hi
      exact absurd hi (by simp)

/-- No newline at the end: the buffer is kept. -/
theorem received_keep (h : Drained (waiting u b) u.buf u.length r) (hinv : UartInv u)
    (hend : ¬ended u b = true) : Received u b (r.1, r.2 ++ [.access (r.1.length - 1)]) := by
  refine ⟨⟨h.size, h.length_le, ?_⟩, ?_, h.left, ?_, ?_⟩
  · rw [h.filled_eq]
    intro hlast
    rw [ended, hlast] at hend
    exact hend rfl
  · rw [if_neg hend]
    exact h.filled_eq
  · rw [if_neg hend, posted_append, posted_eq_nil h.inside]
    rfl
  · rw [inside_append, inside_cons, h.check hinv]
    exact ⟨fun hins => hins.2.1, fun hne => ⟨inside_of_lt h.inside, hne, nofun⟩⟩

theorem uartRecvTask_spec (h : UartInv u) (b : Burst) : Received u b (uartRecvTask u b) := by
  have hdrain : Drained (waiting u b) u.buf u.length (drain (waiting u b) u.buf u.length) :=
    drain_spec h.size h.length_le
  rw [uartRecvTask, ← waiting]
  generalize drain (waiting u b) u.buf u.length = r at hdrain
  dsimp only
  rw [charAt_last hdrain.size hdrain.length_le, hdrain.filled_eq]
  by_cases hend : (filled u b).getLast?.getD b.front = 10
  · rw [if_pos hend]
    exact received_post hdrain h (beq_iff_eq.mpr hend)
  · rw [if_neg hend]
    exact received_keep hdrain h fun hb => hend (beq_iff_eq.mp hb)

theorem received_of_step (h : UartInv u) (hstep : uartStep u b = some (u', out)) :
    Received u b (u', out) := by
  have hspec := uartRecvTask_spec h b
  rwa [Option.some.inj hstep] at hspec

/-! ### Lines -/

/-- The bytes that came in during a run of the system. -/
def stream (tr : List UartRecord) : List UInt8 := tr.flatMap (·.input.arrived)

def messages (tr : List UartRecord) : List (List UInt8 × Nat) := tr.flatMap (posted ·.output)

/-- The buffer holds no newline before its last byte when the loop is done, and where it
holds nothing there is none in front of it. -/
def Clean (u : Uart) (b : Burst) : Prop :=
  10 ∉ (filled u b).dropLast ∧ (found u b = [] → b.front ≠ 10)

theorem held_prefix (h : UartInv u) (b : Burst) : u.held <+: filled u b := by
  rw [filled, List.prefix_take_iff, Uart.length_held h.size h.length_le]
  exact ⟨List.prefix_append _ _, h.length_le⟩

theorem filled_eq_nil : filled u b = [] ↔ found u b = [] := by
  simp [filled]

/-- A newline that is not at the end stays in the buffer until it is posted inside a message,
so a run is clean exactly when it posts lines and keeps no newline. -/
theorem clean_iff (h : UartInv u) (b : Burst) :
    10 ∉ u.held ∧ Clean u b ↔
      (∀ t ∈ if ended u b then [filled u b] else [], IsLine 10 t) ∧
        10 ∉ if ended u b then [] else filled u b := by
  have hpre := held_prefix h b
  rw [Clean, ended, ← filled_eq_nil]
  rcases List.eq_nil_or_concat (filled u b) with hfill | ⟨l, c, hfill⟩
  · rw [hfill] at hpre ⊢
    rw [List.prefix_nil.mp hpre]
    by_cases hfront : b.front = 10 <;> simp [hfront, not_isLine_nil]
  · rw [hfill, List.concat_eq_append] at hpre ⊢
    have hne : l ++ [c] ≠ [] := by simp
    by_cases hc : c = 10
    · -- the last byte is new, and what was held is among the bytes before it
      obtain rfl := hc
      have hsub : 10 ∉ l → 10 ∉ u.held := by
        rcases List.prefix_concat_iff.mp hpre with heq | hl
        · exact absurd (by rw [heq]; simp) h.last
        · exact fun hnot hmem => hnot (hl.mem hmem)
      have hended : ((l ++ [10]).getLast?.getD b.front == 10) = true := by simp
      rw [hended, if_pos rfl, if_pos rfl, List.forall_mem_singleton, isLine_concat_iff,
        List.dropLast_concat]
      exact ⟨fun hclean => ⟨hclean.2.1, List.not_mem_nil⟩,
        fun hline => ⟨hsub hline.1, hline.1, fun habs => absurd habs hne⟩⟩
    · have hended : ((l ++ [c]).getLast?.getD b.front == 10) = false := by simp [hc]
      have hmem : 10 ∈ l ++ [c] ↔ 10 ∈ l := by simp [Ne.symm hc]
      rw [hended, if_neg Bool.false_ne_true, if_neg Bool.false_ne_true, List.dropLast_concat, hmem]
      exact ⟨fun hclean => ⟨nofun, hclean.2.1⟩, fun hkept => ⟨fun hheld =>
        hkept.2 (hmem.mp (hpre.mem hheld)), hkept.2, fun habs => absurd habs hne⟩⟩

theorem message_injective : Function.Injective message :=
  fun _ _ h => (List.append_inj' (congrArg Prod.fst h) rfl).1

/-- What the steps of a run have led to: the texts posted so far, with nothing lost, and
lines exactly when every step was clean. -/
structure UartHistory (u : Uart) (tr : List UartRecord) (texts : List (List UInt8)) : Prop where
  inv : UartInv u
  posted : messages tr = texts.map message
  all : texts.flatten ++ (u.held ++ u.fifo) = stream tr
  lines : (∀ k ∈ tr, Clean k.before k.input) ↔ (∀ t ∈ texts, IsLine 10 t) ∧ 10 ∉ u.held

theorem start_inv : UartInv .start := ⟨List.length_replicate, Nat.zero_le _, nofun⟩

theorem UartHistory.snoc {tr : List UartRecord} {texts : List (List UInt8)}
    (h : UartHistory u tr texts) (hstep : uartStep u b = some (u', out)) :
    UartHistory u' (tr ++ [⟨u, b, out, u'⟩])
      (texts ++ if ended u b then [filled u b] else []) := by
  obtain ⟨hinv, hposted, hall, hlines⟩ := h
  obtain ⟨hinv', hheld, hleft, hpost, -⟩ := received_of_step hinv hstep
  refine ⟨hinv', ?_, ?_, ?_⟩
  · rw [messages, List.flatMap_append, ← messages, hposted, List.flatMap_singleton, hpost,
      List.map_append]
    split <;> rfl
  · have hfound : filled u b ++ (found u b).drop 128 = u.held ++ (u.fifo ++ b.arrived) :=
      List.take_append_drop 128 _
    rw [stream, List.flatMap_append, ← stream, ← hall, List.flatMap_singleton, hheld, hleft,
      List.flatten_append, List.append_assoc, List.append_assoc, List.append_assoc, ← hfound]
    split
    · rw [List.flatten_singleton, List.nil_append]
    · rw [List.flatten_nil, List.nil_append]
  · rw [List.forall_mem_append, List.forall_mem_singleton, List.forall_mem_append, hlines, hheld,
      and_assoc, clean_iff hinv b, and_assoc]

variable {tr : List UartRecord}

theorem UartRun.history (h : UartRun tr u) :
    ∃ texts, UartHistory u tr texts := by
  refine h.always_history (fun u tr => ∃ texts, UartHistory u tr texts) ?_ ?_
  · exact ⟨[], start_inv, rfl, rfl, by simp [Uart.held, Uart.start]⟩
  · rintro u tr b u' out ⟨texts, hist⟩ hstep
    exact ⟨_, hist.snoc hstep⟩

theorem UartRun.fifo_eq_nil (h : UartRun tr u) :
    u.fifo = [] ↔ ∀ k ∈ tr.getLast?, (found k.before k.input).length ≤ 128 := by
  cases h with
  | nil => exact ⟨fun _ => nofun, fun _ => rfl⟩
  | @snoc tr u u' b out hrun hstep =>
    obtain ⟨texts, hist⟩ := UartRun.history hrun
    rw [(received_of_step hist.inv hstep).left, List.drop_eq_nil_iff, List.getLast?_concat]
    simp

/-- The messages are the lines of the stream exactly when no run has a newline before the last
byte of the buffer, and the last one leaves nothing in the FIFO. -/
theorem lines_posted_iff {lines : List (List UInt8)} (hrun : UartRun tr u)
    (hlines : ∀ l ∈ lines, IsLine 10 l) (hstream : stream tr = lines.flatten) :
    messages tr = lines.map message ↔
      (∀ k ∈ tr, Clean k.before k.input) ∧
        ∀ k ∈ tr.getLast?, (found k.before k.input).length ≤ 128 := by
  obtain ⟨texts, hist⟩ := hrun.history
  have hall := hist.all.trans hstream
  rw [hist.posted, message_injective.list_map.eq_iff, ← hrun.fifo_eq_nil, hist.lines]
  constructor
  · rintro rfl
    obtain ⟨hheld, hfifo⟩ := List.append_eq_nil_iff.mp (List.append_right_eq_self.mp hall)
    exact ⟨⟨hlines, hheld ▸ List.not_mem_nil⟩, hfifo⟩
  · rintro ⟨⟨htexts, hheld⟩, hfifo⟩
    rw [hfifo, List.append_nil] at hall
    exact (flatten_unique htexts hlines hheld hall).1

instance : Decidable (Clean u b) :=
  inferInstanceAs (Decidable (10 ∉ (filled u b).dropLast ∧ (found u b = [] → b.front ≠ 10)))

def sampleBursts : List Burst := [⟨[97, 98, 10], 0⟩, ⟨[99], 0⟩, ⟨[100, 10], 0⟩]

theorem sampleBursts_isSome : (exec uartStep .start sampleBursts).isSome = true := by decide

/-- `"ab\n"` in one burst, and `"cd\n"` in two. -/
theorem sampleBursts_posted :
    messages ((exec uartStep .start sampleBursts).get sampleBursts_isSome).1 =
      [[97, 98, 10], [99, 100, 10]].map message := by
  have hlines : ∀ l ∈ [[97, 98, 10], [99, 100, 10]], IsLine (10 : UInt8) l := by
    simp only [List.forall_mem_cons]
    exact ⟨⟨[97, 98], by decide, rfl⟩, ⟨[99, 100], by decide, rfl⟩, nofun⟩
  refine (lines_posted_iff (exec_get sampleBursts_isSome) hlines ?_).mpr ?_
  · decide +kernel
  · decide +kernel

def sampleTwoLines : List Burst := [⟨[97, 10, 98, 10], 0⟩]

theorem sampleTwoLines_isSome : (exec uartStep .start sampleTwoLines).isSome = true := by decide

/-- Two lines in one burst make one message. -/
theorem twoLines_posted_together :
    ∃ tr u, ∃ lines : List (List UInt8), UartRun tr u ∧
      (∀ l ∈ lines, IsLine 10 l ∧ l.length ≤ 128) ∧ stream tr = lines.flatten ∧
      messages tr ≠ lines.map message := by
  refine ⟨_, _, [[97, 10], [98, 10]], exec_get sampleTwoLines_isSome, ?_, ?_, ?_⟩
  · simp only [List.forall_mem_cons]
    exact ⟨⟨⟨[97], by decide, rfl⟩, by decide⟩, ⟨⟨[98], by decide, rfl⟩, by decide⟩, nofun⟩
  · decide +kernel
  · decide +kernel

/-! ### Progress -/

/-- A run with bytes in the FIFO takes one of them or empties the buffer, and every access is
inside the buffer. -/
structure Progress (k : UartRecord) : Prop where
  moves : waiting k.before k.input ≠ [] →
    k.after.fifo.length < (waiting k.before k.input).length ∨ k.after.length = 0
  inside : Inside k.output

/-- Every run of the task makes progress. -/
def NeverWedges (tr : List UartRecord) : Prop := ∀ k ∈ tr, Progress k

/-- There is room for a byte that is in the FIFO, and where there is none the buffer is not
empty. -/
def Roomy (u : Uart) (b : Burst) : Prop :=
  if waiting u b = [] then u.length ≠ 0 else u.length < 128

/-- A full buffer without a newline at its end stays as it is. -/
theorem step_full (h : UartInv u) (hfull : u.length = 128)
    (hstep : uartStep u b = some (u', out)) :
    u'.fifo = waiting u b ∧ u'.length = 128 := by
  obtain ⟨hinv', hheld, hleft, -, -⟩ := received_of_step h hstep
  have hlen : u.held.length = 128 := (Uart.length_held h.size h.length_le).trans hfull
  have hfilled : filled u b = u.held := by
    rw [filled, found, ← hlen, List.take_left]
  have hended : ¬ended u b = true := by
    have hne : u.held ≠ [] := List.ne_nil_of_length_pos (by omega)
    obtain ⟨x, hx⟩ := Option.ne_none_iff_exists'.mp (List.getLast?_eq_none_iff.not.mpr hne)
    rw [ended, hfilled, hx, beq_iff_eq]
    rintro rfl
    exact h.last hx
  rw [if_neg hended, hfilled] at hheld
  dsimp only at hheld hleft
  refine ⟨?_, ?_⟩
  · rw [hleft, found, ← hlen, List.drop_left]
  · rw [← Uart.length_held hinv'.size hinv'.length_le]
    exact (congrArg List.length hheld).trans hlen

theorem progress_iff (h : UartInv u) (hstep : uartStep u b = some (u', out)) :
    Progress ⟨u, b, out, u'⟩ ↔ Roomy u b := by
  obtain ⟨-, -, hleft, -, hinside⟩ := received_of_step h hstep
  have hheld := Uart.length_held h.size h.length_le
  dsimp only at hleft hinside
  by_cases hwait : waiting u b = []
  · have hlen : (found u b).length = u.length := by
      rw [found, hwait, List.append_nil, hheld]
    rw [Roomy, if_pos hwait, ← hlen, List.length_eq_zero_iff.ne, ← hinside]
    exact ⟨fun hprogress => hprogress.inside, fun hin => ⟨fun hne => absurd hwait hne, hin⟩⟩
  · have hin : Inside out := hinside.mpr (List.append_ne_nil_of_right_ne_nil _ hwait)
    have hpos := List.length_pos_of_ne_nil hwait
    rw [Roomy, if_neg hwait]
    constructor
    · intro hprogress
      by_contra hfull
      have hle := h.length_le
      obtain ⟨hfifo, hlength⟩ := step_full h (by omega) hstep
      rcases hprogress.moves hwait with hlt | hzero
      · rw [hfifo] at hlt
        exact absurd hlt (Nat.lt_irrefl _)
      · dsimp only at hzero
        omega
    · intro hroom
      refine ⟨fun _ => .inl ?_, hin⟩
      dsimp only
      rw [hleft, List.length_drop, found, List.length_append, hheld]
      omega

/-- Every run of the task makes progress inside the buffer, exactly when it starts with room
for what is in the FIFO or with bytes in the buffer. -/
theorem uart_progress_iff (hrun : UartRun tr u) :
    NeverWedges tr ↔ ∀ k ∈ tr, Roomy k.before k.input :=
  hrun.law_iff UartInv start_inv (fun h hstep _ => (received_of_step h hstep).inv)
    fun h hstep => progress_iff h hstep

instance : Decidable (Roomy u b) :=
  inferInstanceAs (Decidable (if waiting u b = [] then u.length ≠ 0 else u.length < 128))

theorem sampleBursts_progress :
    NeverWedges ((exec uartStep .start sampleBursts).get sampleBursts_isSome).1 :=
  (uart_progress_iff (exec_get sampleBursts_isSome)).mpr (by decide +kernel)

def sampleFull : List Burst := [⟨List.replicate 128 97, 0⟩, ⟨[97], 0⟩]

theorem sampleFull_isSome : (exec uartStep .start sampleFull).isSome = true := by decide +kernel

theorem sampleFull_stuck :
    ∃ k ∈ ((exec uartStep .start sampleFull).get sampleFull_isSome).1,
      waiting k.before k.input ≠ [] ∧
        ¬(k.after.fifo.length < (waiting k.before k.input).length ∨ k.after.length = 0) := by
  decide +kernel

/-- After 128 bytes without a newline nothing is taken from the FIFO any more. -/
theorem full_no_progress : ∃ tr u, UartRun tr u ∧ ¬NeverWedges tr := by
  refine ⟨_, _, exec_get sampleFull_isSome, fun hall => ?_⟩
  obtain ⟨k, hk, hwait, hstuck⟩ := sampleFull_stuck
  exact hstuck ((hall k hk).moves hwait)

end Setup
end EspMisc
