/-
The outgoing message queue of `app_common/mqtt/mqtt_queue.c`.

`Queue.Holds q ms` is the abstract view: the ring of `q` is in order and stores
the messages `ms`, oldest first, among the remains of puts that did not fit.
A put that fits appends its message, a put that does not fit leaves the view
alone, and a get removes the first message.  `queue_fifo` carries this over
every sequence of calls.
-/
import EspMisc.Mqtt.Proto

namespace EspMisc
namespace Mqtt

open Stuffing

/-- `QUEUE`.  Its `buf` is the array of the ring. -/
structure Queue where
  rb : Ringbuf
  deriving Repr, DecidableEq

/-- `os_zalloc`, which is taken to succeed. -/
def osZalloc (size : Nat) : Option Bytes := some (List.replicate size 0)

/-- `QUEUE_Init`, on memory that held `queue`. -/
def queueInit (queue : Queue) (bufferSize : Nat) : Queue :=
  { rb := (ringbufInit queue.rb (osZalloc bufferSize) bufferSize).1 }

def queuePuts (queue : Queue) (buffer : Bytes) : Queue × Int :=
  let added := protoAddRb queue.rb buffer
  ({ rb := added.1 }, added.2)

/-- What `QUEUE_Gets` leaves behind; `len` is written when `ret` is `0`. -/
structure Gets where
  queue : Queue
  buffer : Bytes
  len : Nat
  ret : Int

/-- The message a successful `QUEUE_Gets` hands to its caller. -/
def Gets.message (g : Gets) : Bytes := g.buffer.take g.len

/-- `QUEUE_Gets`, with the stack byte its parser starts from. -/
def queueGets (queue : Queue) (buffer : Bytes) (maxLen : UInt16) (isBegin : UInt8) : Gets :=
  let parsed := protoParseRb queue.rb buffer maxLen isBegin
  { queue := { rb := parsed.rb }, buffer := parsed.bufOut, len := parsed.len, ret := parsed.ret }

def queueIsEmpty (queue : Queue) : Bool := decide (queue.rb.fillCnt ≤ 0)

namespace Queue

/-- The queue stores these messages, oldest first. -/
structure Holds (q : Queue) (ms : List Bytes) : Prop where
  ok : q.rb.Ok
  framed : Framed protoCode q.rb.content ms

/-- The messages that gets will still return. -/
def messages (q : Queue) : List Bytes := unframe protoCode ⟨false, false, []⟩ q.rb.content

/-- The room a message takes in the ring. -/
def cost (m : Bytes) : Nat := (protoCode.frame m).length

theorem Holds.messages_eq {q : Queue} {ms : List Bytes} (h : q.Holds ms) : q.messages = ms :=
  h.framed.unframe_eq _

theorem Holds.length_mem_le {q : Queue} {ms : List Bytes} (h : q.Holds ms) :
    ∀ m ∈ ms, m.length + 2 ≤ q.rb.size := by
  intro m hm
  have h1 := h.framed.length_mem_lt m hm
  have h2 := h.ok.fill_le
  rw [q.rb.length_content] at h1
  omega

end Queue

open Queue

theorem queueInit_holds (queue : Queue) {size : Nat} (h : 2 ≤ size) :
    (queueInit queue size).Holds [] ∧ (queueInit queue size).rb.size = size := by
  obtain ⟨hok, hcon, hsize⟩ := ringbufInit_spec queue.rb h
  refine ⟨⟨hok, ?_⟩, hsize⟩
  show Framed protoCode (ringbufInit queue.rb (some (List.replicate size 0)) size).1.content []
  rw [hcon]
  exact .nil

theorem queuePuts_size {q : Queue} {ms : List Bytes} (h : q.Holds ms) (m : Bytes) :
    (queuePuts q m).1.rb.size = q.rb.size :=
  (protoAddRb_spec h.ok m).2.1

/-- A message that fits is appended. -/
theorem queuePuts_fits {q : Queue} {ms : List Bytes} (h : q.Holds ms) {m : Bytes}
    (hfit : q.rb.fillCnt + cost m ≤ q.rb.size) :
    (queuePuts q m).1.Holds (ms ++ [m]) ∧
      (queuePuts q m).2 = toI16 (cost m % 65536) ∧
      (queuePuts q m).1.rb.fillCnt = q.rb.fillCnt + cost m := by
  unfold cost at hfit ⊢
  obtain ⟨hok, -, hcon, hret⟩ := protoAddRb_spec h.ok m
  have hall : (protoCode.frame m).take (q.rb.size - q.rb.fillCnt) = protoCode.frame m :=
    List.take_of_length_le (by omega)
  rw [hall] at hcon
  rw [if_pos hfit] at hret
  refine ⟨⟨hok, ?_⟩, hret, ?_⟩
  · show Framed protoCode (protoAddRb q.rb m).1.content (ms ++ [m])
    rw [hcon]
    exact h.framed.push m
  · show (protoAddRb q.rb m).1.fillCnt = _
    rw [← Ringbuf.length_content, hcon, List.length_append, q.rb.length_content]

/-- A message that does not fit fills the ring and is not stored. -/
theorem queuePuts_full {q : Queue} {ms : List Bytes} (h : q.Holds ms) {m : Bytes}
    (hfull : ¬ q.rb.fillCnt + cost m ≤ q.rb.size) :
    (queuePuts q m).1.Holds ms ∧ (queuePuts q m).2 = -1 ∧
      (queuePuts q m).1.rb.fillCnt = q.rb.size := by
  unfold cost at hfull
  obtain ⟨hok, -, hcon, hret⟩ := protoAddRb_spec h.ok m
  have hle := h.ok.fill_le
  rw [if_neg hfull] at hret
  refine ⟨⟨hok, ?_⟩, hret, ?_⟩
  · show Framed protoCode (protoAddRb q.rb m).1.content ms
    rw [hcon]
    exact h.framed.abandon (by omega)
  · show (protoAddRb q.rb m).1.fillCnt = _
    rw [← Ringbuf.length_content, hcon, List.length_append, q.rb.length_content,
      List.length_take]
    omega

/-- The result of a put into a ring of at most 32767 bytes is `-1` exactly when
the message does not fit. -/
theorem queuePuts_ret_iff {q : Queue} {ms : List Bytes} (h : q.Holds ms)
    (hsize : q.rb.size ≤ 32767) (m : Bytes) :
    (queuePuts q m).2 = -1 ↔ ¬ q.rb.fillCnt + cost m ≤ q.rb.size := by
  constructor
  · intro hret hfit
    rw [(queuePuts_fits h hfit).2.1, Nat.mod_eq_of_lt (by omega),
      toI16_of_lt (by omega)] at hret
    omega
  · intro hfull
    exact (queuePuts_full h hfull).2.1

theorem queueGets_size {q : Queue} {ms : List Bytes} (h : q.Holds ms) {buffer : Bytes}
    {maxLen : UInt16} (hbuf : maxLen.toNat ≤ buffer.length) (isBegin : UInt8) :
    (queueGets q buffer maxLen isBegin).queue.rb.size = q.rb.size := by
  have hspec := protoParseRbLoop_spec q.rb.content h.ok rfl
    (protoInit_sees isBegin hbuf)
  rw [q.rb.length_content] at hspec
  exact hspec.2.1

/-- A get from a queue that holds no message drains the ring. -/
theorem queueGets_nil {q : Queue} (h : q.Holds []) {buffer : Bytes} {maxLen : UInt16}
    (hbuf : maxLen.toNat ≤ buffer.length) (isBegin : UInt8) :
    (queueGets q buffer maxLen isBegin).ret = -1 ∧
      (queueGets q buffer maxLen isBegin).queue.Holds [] ∧
      (queueGets q buffer maxLen isBegin).queue.rb.fillCnt = 0 := by
  have hspec := protoParseRbLoop_spec q.rb.content h.ok rfl
    (protoInit_sees isBegin hbuf)
  rw [q.rb.length_content] at hspec
  rcases h.framed.next ⟨!(isBegin == 0), false, []⟩ with ⟨-, hn⟩ | ⟨m, _, ns, he, -⟩
  · rw [hn] at hspec
    obtain ⟨hok, -, hret, hcon⟩ := hspec
    refine ⟨hret, ⟨hok, ?_⟩, ?_⟩
    · show Framed protoCode (protoParseRb q.rb buffer maxLen isBegin).rb.content []
      rw [protoParseRb, hcon]
      exact .nil
    · show (protoParseRb q.rb buffer maxLen isBegin).rb.fillCnt = 0
      rw [← Ringbuf.length_content, protoParseRb, hcon]
      rfl
  · exact absurd he (List.cons_ne_nil m ns).symm

/-- A get returns the first message, cut at `maxLen`, and leaves the others. -/
theorem queueGets_cons {q : Queue} {m : Bytes} {ms : List Bytes} (h : q.Holds (m :: ms))
    {buffer : Bytes} {maxLen : UInt16} (hbuf : maxLen.toNat ≤ buffer.length)
    (isBegin : UInt8) :
    (queueGets q buffer maxLen isBegin).ret = 0 ∧
      (queueGets q buffer maxLen isBegin).queue.Holds ms ∧
      (queueGets q buffer maxLen isBegin).queue.rb.fillCnt < q.rb.fillCnt ∧
      (queueGets q buffer maxLen isBegin).message = m.take maxLen.toNat := by
  have hspec := protoParseRbLoop_spec q.rb.content h.ok rfl
    (protoInit_sees isBegin hbuf)
  rw [q.rb.length_content] at hspec
  rcases h.framed.next ⟨!(isBegin == 0), false, []⟩ with
    ⟨he, -⟩ | ⟨m', rest, ns, he, hn, hlt, hf⟩
  · exact absurd he (List.cons_ne_nil m ms)
  · obtain ⟨rfl, rfl⟩ := List.cons.inj he
    rw [hn] at hspec
    obtain ⟨hok, -, hret, hcon, hlen, hmsg⟩ := hspec
    refine ⟨hret, ⟨hok, ?_⟩, ?_, ?_⟩
    · show Framed protoCode (protoParseRb q.rb buffer maxLen isBegin).rb.content ms
      rw [protoParseRb, hcon]
      exact hf
    · show (protoParseRb q.rb buffer maxLen isBegin).rb.fillCnt < q.rb.fillCnt
      rw [← Ringbuf.length_content, ← q.rb.length_content, protoParseRb, hcon]
      exact hlt
    · show (protoParseRb q.rb buffer maxLen isBegin).bufOut.take
        (protoParseRb q.rb buffer maxLen isBegin).len = m.take maxLen.toNat
      rw [protoParseRb, hlen]
      exact hmsg

/-! ## Sequences of calls -/

/-- A call on the queue.  A get brings its buffer, whose content does not matter,
and the stack byte its parser starts from. -/
inductive QueueCall where
  | puts (buffer : Bytes)
  | gets (buffer : Bytes) (maxLen : UInt16) (isBegin : UInt8)

/-- A call with its result.  The message of a get is what its caller reads when
the result is `0`. -/
inductive QueueEvent where
  | put (msg : Bytes) (ret : Int)
  | got (msg : Bytes) (ret : Int)

def QueueCall.step (q : Queue) : QueueCall → Queue × QueueEvent
  | .puts buffer => ((queuePuts q buffer).1, .put buffer (queuePuts q buffer).2)
  | .gets buffer maxLen isBegin =>
    let g := queueGets q buffer maxLen isBegin
    (g.queue, .got g.message g.ret)

def runCalls : Queue → List QueueCall → List QueueEvent
  | _, [] => []
  | q, c :: calls => (c.step q).2 :: runCalls (c.step q).1 calls

/-- The message of a put that did not return `-1`. -/
def QueueEvent.accepted : QueueEvent → Option Bytes
  | .put msg ret => if ret = -1 then none else some msg
  | .got _ _ => none

/-- The message of a get that returned `0`. -/
def QueueEvent.returned : QueueEvent → Option Bytes
  | .put _ _ => none
  | .got msg ret => if ret = 0 then some msg else none

def accepted (log : List QueueEvent) : List Bytes := log.filterMap QueueEvent.accepted

def returned (log : List QueueEvent) : List Bytes := log.filterMap QueueEvent.returned

theorem accepted_cons (e : QueueEvent) (log : List QueueEvent) :
    accepted (e :: log) = e.accepted.toList ++ accepted log := by
  unfold accepted
  rw [List.filterMap_cons]
  cases e.accepted <;> rfl

theorem returned_cons (e : QueueEvent) (log : List QueueEvent) :
    returned (e :: log) = e.returned.toList ++ returned log := by
  unfold returned
  rw [List.filterMap_cons]
  cases e.returned <;> rfl

/-- Every get of the calls has room for the message. -/
def Fits (calls : List QueueCall) (m : Bytes) : Prop :=
  ∀ b l j, QueueCall.gets b l j ∈ calls → m.length ≤ l.toNat

/-- The callers keep the bounds of the contract: no message is longer than an
`I16` or than a get can return, and a get's buffer is as long as it says. -/
structure WellUsed (calls : List QueueCall) : Prop where
  puts_le : ∀ m, .puts m ∈ calls → m.length ≤ 32767
  gets_room : ∀ b l j, .gets b l j ∈ calls → l.toNat ≤ b.length
  fits : ∀ m, .puts m ∈ calls → Fits calls m

theorem WellUsed.tail {c : QueueCall} {calls : List QueueCall} (h : WellUsed (c :: calls)) :
    WellUsed calls where
  puts_le m hm := h.puts_le m (List.mem_cons_of_mem c hm)
  gets_room b l j hg := h.gets_room b l j (List.mem_cons_of_mem c hg)
  fits m hm b l j hg :=
    h.fits m (List.mem_cons_of_mem c hm) b l j (List.mem_cons_of_mem c hg)

/-- One call moves one message at most: in at the back when a put accepts it,
out at the front when a get returns it. -/
theorem QueueCall.step_spec {q : Queue} {ms : List Bytes} (hq : q.Holds ms)
    (hsize : q.rb.size ≤ 32767) {c : QueueCall} {calls : List QueueCall}
    (hcalls : WellUsed (c :: calls)) (hms : ∀ m ∈ ms, Fits (c :: calls) m) :
    ∃ ms', (c.step q).1.Holds ms' ∧ (c.step q).1.rb.size = q.rb.size ∧
      (∀ m ∈ ms', Fits calls m) ∧
      ms ++ (c.step q).2.accepted.toList = (c.step q).2.returned.toList ++ ms' ∧
      ∀ m, (c.step q).2 = .got m (-1) → ms = [] := by
  have hms' : ∀ m ∈ ms, Fits calls m :=
    fun m hm b l j hg => hms m hm b l j (List.mem_cons_of_mem c hg)
  cases c with
  | puts m =>
    have hret := queuePuts_ret_iff hq hsize m
    have hsz := queuePuts_size hq m
    by_cases hfit : q.rb.fillCnt + cost m ≤ q.rb.size
    · have hne : ¬ (queuePuts q m).2 = -1 := fun h => hret.mp h hfit
      refine ⟨ms ++ [m], (queuePuts_fits hq hfit).1, hsz, ?_, ?_, by simp [step]⟩
      · intro m' hm'
        rcases List.mem_append.mp hm' with h | h
        · exact hms' m' h
        · rw [List.mem_singleton.mp h]
          exact fun b l j hg =>
            hcalls.fits m List.mem_cons_self b l j (List.mem_cons_of_mem _ hg)
      · simp [step, QueueEvent.accepted, QueueEvent.returned, hne]
    · have heq := hret.mpr hfit
      refine ⟨ms, (queuePuts_full hq hfit).1, hsz, hms', ?_, by simp [step]⟩
      simp [step, QueueEvent.accepted, QueueEvent.returned, heq]
  | gets b l j =>
    have hb := hcalls.gets_room b l j List.mem_cons_self
    have hsz := queueGets_size hq hb j
    cases ms with
    | nil =>
      obtain ⟨hret, hh, -⟩ := queueGets_nil hq hb j
      refine ⟨[], hh, hsz, hms', ?_, fun _ _ => rfl⟩
      simp [step, QueueEvent.accepted, QueueEvent.returned, hret]
    | cons m ms =>
      obtain ⟨hret, hh, -, hmsg⟩ := queueGets_cons hq hb j
      have hle := hms m List.mem_cons_self b l j List.mem_cons_self
      rw [List.take_of_length_le hle] at hmsg
      refine ⟨ms, hh, hsz, fun m' h => hms' m' (List.mem_cons_of_mem m h), ?_, ?_⟩
      · simp [step, QueueEvent.accepted, QueueEvent.returned, hret, hmsg]
      · simp [step, hret]

/-- Between two calls the queue holds the accepted messages that were not
returned yet, and a get that finds nothing finds that list empty. -/
theorem runCalls_spec {calls : List QueueCall} {q : Queue} {ms : List Bytes}
    (hq : q.Holds ms) (hsize : q.rb.size ≤ 32767) (hcalls : WellUsed calls)
    (hms : ∀ m ∈ ms, Fits calls m) :
    returned (runCalls q calls) <+: ms ++ accepted (runCalls q calls) ∧
      ∀ l₁ l₂ m, runCalls q calls = l₁ ++ .got m (-1) :: l₂ →
        returned l₁ = ms ++ accepted l₁ := by
  induction calls generalizing q ms with
  | nil =>
    refine ⟨List.nil_prefix, fun l₁ l₂ m h => ?_⟩
    exact absurd h.symm (List.append_ne_nil_of_right_ne_nil l₁ (List.cons_ne_nil _ _))
  | cons c calls ih =>
    obtain ⟨ms', hq', hsz, hms', hbal, hempty⟩ := c.step_spec hq hsize hcalls hms
    obtain ⟨hpre, hend⟩ := ih hq' (by omega) hcalls.tail hms'
    constructor
    · rw [runCalls, returned_cons, accepted_cons, ← List.append_assoc, hbal, List.append_assoc]
      exact (List.prefix_append_right_inj _).mpr hpre
    · intro l₁ l₂ m he
      cases l₁ with
      | nil =>
        rw [hempty m (List.cons.inj he).1]
        rfl
      | cons e l₁ =>
        obtain ⟨rfl, htail⟩ := List.cons.inj he
        rw [returned_cons, accepted_cons, ← List.append_assoc, hbal, List.append_assoc,
          hend l₁ l₂ m htail]

/-- The queue is a FIFO of the accepted messages.  What the gets return is a
prefix of what the puts accepted, byte for byte, and a get fails only once
everything accepted before it has been returned. -/
theorem queue_fifo (queue : Queue) {size : Nat} (h2 : 2 ≤ size) (hsize : size ≤ 32767)
    {calls : List QueueCall} (hcalls : WellUsed calls) :
    returned (runCalls (queueInit queue size) calls) <+:
        accepted (runCalls (queueInit queue size) calls) ∧
      ∀ l₁ l₂ m, runCalls (queueInit queue size) calls = l₁ ++ .got m (-1) :: l₂ →
        returned l₁ = accepted l₁ := by
  obtain ⟨hq, hs⟩ := queueInit_holds queue h2
  exact runCalls_spec hq (by omega) hcalls fun m h => absurd h List.not_mem_nil

/-- In a ring of twelve bytes the third of these puts does not fit and leaves an
open frame behind, which the put after the two gets follows. -/
def sampleCalls : List QueueCall :=
  [.puts [0x7E, 0x01], .puts [], .puts [0x7D, 0x7D, 0x7D],
    .gets [9, 9, 9] 3 1, .gets [9, 9, 9] 3 0, .puts [0x7F], .gets [9, 9, 9] 3 5]

theorem sampleCalls_wellUsed : WellUsed sampleCalls where
  puts_le m h := by
    simp only [sampleCalls, List.mem_cons, QueueCall.puts.injEq, reduceCtorEq, List.not_mem_nil,
      or_false, false_or] at h
    rcases h with rfl | rfl | rfl | rfl <;> simp
  gets_room b l j h := by
    simp only [sampleCalls, List.mem_cons, QueueCall.gets.injEq, reduceCtorEq, List.not_mem_nil,
      or_false, false_or] at h
    rcases h with ⟨rfl, rfl, -⟩ | ⟨rfl, rfl, -⟩ | ⟨rfl, rfl, -⟩ <;> decide
  fits m h b l j h' := by
    simp only [sampleCalls, List.mem_cons, QueueCall.puts.injEq, reduceCtorEq, List.not_mem_nil,
      or_false, false_or] at h
    simp only [sampleCalls, List.mem_cons, QueueCall.gets.injEq, reduceCtorEq, List.not_mem_nil,
      or_false, false_or] at h'
    rcases h' with ⟨-, rfl, -⟩ | ⟨-, rfl, -⟩ | ⟨-, rfl, -⟩ <;>
      rcases h with rfl | rfl | rfl | rfl <;> decide

/-- On the sample every message that was accepted comes back. -/
theorem queue_fifo_sampleCalls :
    accepted (runCalls (queueInit ⟨⟨[], 0, 0, 0, 0⟩⟩ 12) sampleCalls) =
        [[0x7E, 0x01], [], [0x7F]] ∧
      returned (runCalls (queueInit ⟨⟨[], 0, 0, 0, 0⟩⟩ 12) sampleCalls) <+:
        accepted (runCalls (queueInit ⟨⟨[], 0, 0, 0, 0⟩⟩ 12) sampleCalls) :=
  ⟨by decide, (queue_fifo ⟨⟨[], 0, 0, 0, 0⟩⟩ (by decide) (by decide) sampleCalls_wellUsed).1⟩

end Mqtt
end EspMisc
