/-
The ring buffer of `app_common/mqtt/ringbuf.c`.

`Ringbuf` keeps the array that `p_o` points to together with the read and write
pointers as offsets into it.  `Ringbuf.Ok` is the invariant the three functions
maintain, and `Ringbuf.content` is the queue of bytes the ring stores.  Each
function has one specification lemma in these terms, and no later module looks
at the array again.  `ringbuf_refines_fifo` puts them together for every sequence of
calls.
-/
import EspMisc.Lib.Cyclic
import EspMisc.Lib.Run

namespace EspMisc
namespace Mqtt

open Cyclic

abbrev Bytes := List UInt8

structure Ringbuf where
  /-- The array at `p_o`. -/
  buf : Bytes
  pR : Nat
  pW : Nat
  fillCnt : Nat
  size : Nat
  deriving Repr, DecidableEq

/-- `RINGBUF_Init`: the result is `-1` for a NULL array or a size below two, and
the object is then left as it was. -/
def ringbufInit (r : Ringbuf) (buf : Option Bytes) (size : Nat) : Ringbuf × Int :=
  match buf with
  | none => (r, -1)
  | some buf =>
    if size < 2 then (r, -1)
    else ({ buf := buf, pR := 0, pW := 0, fillCnt := 0, size := size }, 0)

def ringbufPut (r : Ringbuf) (c : UInt8) : Ringbuf × Int :=
  if r.fillCnt ≥ r.size then (r, -1)
  else
    let pW := r.pW + 1
    ({ r with
        fillCnt := r.fillCnt + 1
        buf := r.buf.set r.pW c
        pW := if pW ≥ r.size then 0 else pW }, 0)

/-- `RINGBUF_Get`: the byte read is meaningful when the result is `0`. -/
def ringbufGet (r : Ringbuf) : Ringbuf × UInt8 × Int :=
  if r.fillCnt ≤ 0 then (r, 0, -1)
  else
    let pR := r.pR + 1
    ({ r with
        fillCnt := r.fillCnt - 1
        pR := if pR ≥ r.size then 0 else pR }, r.buf.getD r.pR 0, 0)

namespace Ringbuf

/-- The read pointer is inside the array and the write pointer is `fillCnt`
cells after it. -/
structure Ok (r : Ringbuf) : Prop where
  length_buf : r.buf.length = r.size
  two_le_size : 2 ≤ r.size
  fill_le : r.fillCnt ≤ r.size
  pR_lt : r.pR < r.size
  pW_eq : r.pW = (r.pR + r.fillCnt) % r.size

/-- The bytes stored, oldest first. -/
def content (r : Ringbuf) : Bytes := window r.buf r.pR r.fillCnt

@[simp] theorem length_content (r : Ringbuf) : r.content.length = r.fillCnt :=
  window_length _ _ _

theorem Ok.pW_lt {r : Ringbuf} (h : r.Ok) : r.pW < r.size := by
  have := h.two_le_size
  rw [h.pW_eq]
  exact Nat.mod_lt _ (by omega)

end Ringbuf

/-- A ring over an array of its size begins empty, whatever the array holds. -/
theorem ringbufInit_ok (r : Ringbuf) {buf : Bytes} {size : Nat} (h : 2 ≤ size)
    (hbuf : buf.length = size) :
    (ringbufInit r (some buf) size).2 = 0 ∧ (ringbufInit r (some buf) size).1.Ok ∧
      (ringbufInit r (some buf) size).1.content = [] ∧
      (ringbufInit r (some buf) size).1.size = size := by
  have hs : ¬ size < 2 := by omega
  simp only [ringbufInit, hs, if_false]
  refine ⟨trivial, ?_, rfl, trivial⟩
  exact {
    length_buf := hbuf
    two_le_size := h
    fill_le := Nat.zero_le _
    pR_lt := by show 0 < size; omega
    pW_eq := by simp }

theorem ringbufInit_spec (r : Ringbuf) {size : Nat} (h : 2 ≤ size) :
    (ringbufInit r (some (List.replicate size 0)) size).1.Ok ∧
      (ringbufInit r (some (List.replicate size 0)) size).1.content = [] ∧
      (ringbufInit r (some (List.replicate size 0)) size).1.size = size :=
  (ringbufInit_ok r h List.length_replicate).2

theorem ringbufPut_full {r : Ringbuf} (h : r.size ≤ r.fillCnt) (c : UInt8) :
    ringbufPut r c = (r, -1) := by
  simp only [ringbufPut, ge_iff_le, h, if_true]

/-- A put into a ring with room appends its byte. -/
theorem ringbufPut_room {r : Ringbuf} (hr : r.Ok) (h : r.fillCnt < r.size) (c : UInt8) :
    (ringbufPut r c).2 = 0 ∧ (ringbufPut r c).1.Ok ∧
      (ringbufPut r c).1.content = r.content ++ [c] ∧
      (ringbufPut r c).1.size = r.size ∧
      (ringbufPut r c).1.fillCnt = r.fillCnt + 1 := by
  have hn : ¬ r.size ≤ r.fillCnt := by omega
  have hw := hr.pW_lt
  simp only [ringbufPut, ge_iff_le, hn, if_false]
  refine ⟨trivial, ?_, ?_, trivial, trivial⟩
  · refine {
      length_buf := by rw [List.length_set]; exact hr.length_buf
      two_le_size := hr.two_le_size
      fill_le := h
      pR_lt := hr.pR_lt
      pW_eq := ?_ }
    show (if r.size ≤ r.pW + 1 then 0 else r.pW + 1) = (r.pR + (r.fillCnt + 1)) % r.size
    have hstep : (r.pW + 1) % r.size = (r.pR + (r.fillCnt + 1)) % r.size := by
      rw [hr.pW_eq, Nat.mod_add_mod, Nat.add_assoc]
    by_cases hwrap : r.size ≤ r.pW + 1
    · have he : r.pW + 1 = r.size := by omega
      rw [if_pos hwrap, ← hstep, he, Nat.mod_self]
    · rw [if_neg hwrap, ← hstep, Nat.mod_eq_of_lt (by omega)]
  · show window (r.buf.set r.pW c) r.pR (r.fillCnt + 1) = r.content ++ [c]
    have hlen : r.fillCnt < r.buf.length := by rw [hr.length_buf]; exact h
    have hp := window_push (r := r.pR) hlen c
    rwa [hr.length_buf, ← hr.pW_eq] at hp

/-- A get from a ring that stores something removes the oldest byte. -/
theorem ringbufGet_some {r : Ringbuf} (hr : r.Ok) {c : UInt8} {rest : Bytes}
    (h : r.content = c :: rest) :
    (ringbufGet r).2 = (c, 0) ∧ (ringbufGet r).1.Ok ∧
      (ringbufGet r).1.content = rest ∧
      (ringbufGet r).1.size = r.size ∧
      r.fillCnt = (ringbufGet r).1.fillCnt + 1 := by
  have hlen : r.fillCnt = rest.length + 1 := by
    rw [← r.length_content, h, List.length_cons]
  obtain ⟨n, hn⟩ : ∃ n, r.fillCnt = n + 1 := ⟨rest.length, hlen⟩
  have hpos : ¬ r.fillCnt ≤ 0 := by omega
  have hpR := hr.pR_lt
  have hcons : cell r.buf r.pR :: window r.buf (r.pR + 1) n = c :: rest := by
    rw [← window_succ, ← hn]
    exact h
  obtain ⟨hc, hrest⟩ := List.cons.inj hcons
  have hcell : r.buf.getD r.pR 0 = c := by
    rw [← hc, cell, hr.length_buf, Nat.mod_eq_of_lt hpR]
    rfl
  have hmod : (if r.size ≤ r.pR + 1 then 0 else r.pR + 1) = (r.pR + 1) % r.size := by
    by_cases hwrap : r.size ≤ r.pR + 1
    · have he : r.pR + 1 = r.size := by omega
      rw [if_pos hwrap, he, Nat.mod_self]
    · rw [if_neg hwrap, Nat.mod_eq_of_lt (by omega)]
  have h2 := hr.two_le_size
  simp only [ringbufGet, hpos, if_false, ge_iff_le, hcell, hmod]
  refine ⟨trivial, ?_, ?_, trivial, by omega⟩
  · exact {
      length_buf := hr.length_buf
      two_le_size := hr.two_le_size
      fill_le := by have := hr.fill_le; show r.fillCnt - 1 ≤ r.size; omega
      pR_lt := Nat.mod_lt _ (by show 0 < r.size; omega)
      pW_eq := by
        show r.pW = ((r.pR + 1) % r.size + (r.fillCnt - 1)) % r.size
        rw [hr.pW_eq, Nat.mod_add_mod, hn]
        congr 1
        omega }
  · show window r.buf ((r.pR + 1) % r.size) (r.fillCnt - 1) = rest
    rw [hn, Nat.add_sub_cancel, ← hrest]
    apply window_congr
    rw [hr.length_buf, Nat.mod_mod]

theorem ringbufGet_none {r : Ringbuf} (h : r.fillCnt = 0) : ringbufGet r = (r, 0, -1) := by
  simp only [ringbufGet, h, Nat.le_refl, if_true]

/-! ## Sequences of calls -/

inductive RingCall
  | put (c : UInt8)
  | get
deriving DecidableEq, Repr

/-- The result of a call, and the byte that a get has stored for its caller. -/
structure RingReply where
  result : Int
  stored : Option UInt8
deriving DecidableEq, Repr

def ringCall (r : Ringbuf) : RingCall → Ringbuf × RingReply
  | .put c => ((ringbufPut r c).1, ⟨(ringbufPut r c).2, none⟩)
  | .get =>
    let (r', c, result) := ringbufGet r
    (r', ⟨result, if result = 0 then some c else none⟩)

/-- The same calls on a queue of bounded length. -/
def fifoCall (capacity : Nat) (q : Bytes) : RingCall → Bytes × RingReply
  | .put c => if q.length = capacity then (q, ⟨-1, none⟩) else (q ++ [c], ⟨0, none⟩)
  | .get =>
    match q with
    | [] => ([], ⟨-1, none⟩)
    | c :: rest => (rest, ⟨0, some c⟩)

/-- The ring is in order and stores the queue. -/
structure Ringbuf.Holds (size : Nat) (r : Ringbuf) (q : Bytes) : Prop where
  ok : r.Ok
  content : r.content = q
  size : r.size = size

theorem Ringbuf.Holds.fillCnt {size : Nat} {r : Ringbuf} {q : Bytes} (h : r.Holds size q) :
    r.fillCnt = q.length := by
  rw [← h.content, r.length_content]

theorem ringCall_simulates (size : Nat) :
    Machine.Simulates (Ringbuf.Holds size) ringCall (fifoCall size) := by
  intro r q call h
  have hfill := h.fillCnt
  cases call with
  | put c =>
    simp only [ringCall, fifoCall]
    by_cases hfull : q.length = size
    · have hstored : r.size ≤ r.fillCnt := Nat.le_of_eq (by rw [h.size, hfill, hfull])
      rw [if_pos hfull, ringbufPut_full hstored]
      exact ⟨rfl, h⟩
    · have hle := h.ok.fill_le
      rw [h.size, hfill] at hle
      have hroom : r.fillCnt < r.size := by rw [h.size, hfill]; omega
      obtain ⟨hresult, hok, hcontent, hsize, _⟩ := ringbufPut_room h.ok hroom c
      rw [if_neg hfull, hresult]
      exact ⟨rfl, hok, by rw [hcontent, h.content], hsize.trans h.size⟩
  | get =>
    cases q with
    | nil =>
      simp only [ringCall, fifoCall, ringbufGet_none hfill]
      exact ⟨rfl, h⟩
    | cons c rest =>
      obtain ⟨hresult, hok, hcontent, hsize, _⟩ := ringbufGet_some h.ok h.content
      simp only [ringCall, fifoCall, hresult, if_true]
      exact ⟨trivial, hok, hcontent, hsize.trans h.size⟩

/-- After `RINGBUF_Init`, every sequence of puts and gets replies as a queue of that
capacity does, and leaves the write pointer `fillCnt` cells after the read pointer. -/
theorem ringbuf_refines_fifo (r : Ringbuf) {buf : Bytes} {size : Nat} (hsize : 2 ≤ size)
    (hbuf : buf.length = size) (calls : List RingCall) :
    let start := ringbufInit r (some buf) size
    let last := (Machine.replies ringCall start.1 calls).1
    start.2 = 0 ∧
      (Machine.replies ringCall start.1 calls).2 =
        (Machine.replies (fifoCall size) [] calls).2 ∧
      last.fillCnt = (Machine.replies (fifoCall size) [] calls).1.length ∧
      last.pR < size ∧ last.pW < size ∧ last.pW = (last.pR + last.fillCnt) % size := by
  obtain ⟨hresult, hok, hcontent, hcapacity⟩ := ringbufInit_ok r hsize hbuf
  obtain ⟨hreplies, hlast⟩ :=
    (ringCall_simulates size).replies ⟨hok, hcontent, hcapacity⟩ calls
  have hr := hlast.ok.pR_lt
  have hw := hlast.ok.pW_lt
  have hgap := hlast.ok.pW_eq
  rw [hlast.size] at hr hw hgap
  exact ⟨hresult, hreplies, hlast.fillCnt, hr, hw, hgap⟩

/-- A ring of two bytes is overfilled and drained. -/
theorem ringbuf_refines_fifo_two :
    (Machine.replies ringCall (ringbufInit ⟨[], 0, 0, 0, 0⟩ (some [7, 7]) 2).1
      [.put 1, .put 2, .put 3, .get, .put 4, .get, .get, .get]).2.map RingReply.stored =
        [none, none, none, some 1, none, some 2, some 4, none] ∧
      (ringbufInit ⟨[], 0, 0, 0, 0⟩ (some [7, 7]) 2).2 = 0 := by
  have h := ringbuf_refines_fifo ⟨[], 0, 0, 0, 0⟩ (Nat.le_refl 2) (show [7, 7].length = 2 from rfl)
    [.put 1, .put 2, .put 3, .get, .put 4, .get, .get, .get]
  exact ⟨(congrArg (List.map RingReply.stored) h.2.1).trans (by decide), h.1⟩

end Mqtt
end EspMisc
