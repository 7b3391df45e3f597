/-
The buffer of `jsontree/jsonutil.c`.

`json_print` prints a tree into a buffer of `JSON_BUFF_SZ` bytes and returns a copy.
`json_putchar` compares the position with the size by `<=`, so it writes one character
more than the buffer has room for, and the NUL comes after that one: `json_inside_iff`
says that the buffer holds exactly the outputs that are shorter than it is.
-/
import EspMisc.Json.Tree

namespace EspMisc
namespace Json

def JSON_BUFF_SZ : Nat := 2 * 1024

/-- The static variables of the file, with the memory from `json_buf` on and the indices
that were written.  Without `allocated`, `json_buf` is the null pointer. -/
structure JsonBuf where
  allocated : Bool
  pos : Nat
  size : Nat
  mem : Nat → UInt8
  writes : List Nat

def JsonBuf.store (c : UInt8) (b : JsonBuf) : JsonBuf :=
  { b with mem := Function.update b.mem b.pos c, writes := b.writes ++ [b.pos] }

def jsonPutchar (b : JsonBuf) (c : UInt8) : JsonBuf :=
  if b.allocated ∧ b.pos ≤ b.size then { b.store c with pos := b.pos + 1 } else b

/-- What `json_print` leaves in the buffer, the string in `*reqJsonBuf` and its length. -/
structure JsonPrinted (σ : Type) where
  st : σ
  buf : JsonBuf
  string : Bytes
  pos : Nat

section Print

variable {κ σ : Type} (output : κ → σ → Int → Called σ)

/-- The characters that the tree writes while it is printed.  `path` is followed, but then
`jsontree_setup` goes back to the root. -/
def printTree (fuel : Nat) (tree : JsonValue κ) (path : Bytes) (st : σ) : Option (σ × Bytes) :=
  let js := jsontreeReset tree { frames := [], path := 0, callbackState := 0 }
  (findJsonPath js path).bind fun found =>
    let js := { found.1 with path := UInt8.ofNat found.1.depth }
    printLoop output fuel (jsontreeSetup tree js) st

/-- `allocated` is whether `os_malloc` has memory, which holds `mem`. -/
def jsonPrint (fuel : Nat) (tree : JsonValue κ) (path : Bytes) (st : σ) (allocated : Bool)
    (mem : Nat → UInt8) : Option (JsonPrinted σ) :=
  (printTree output fuel tree path st).map fun r =>
    let buf := r.2.foldl jsonPutchar ⟨allocated, 0, JSON_BUFF_SZ, mem, []⟩
    let buf := buf.store 0
    { st := r.1, buf := buf, string := (List.range buf.pos).map buf.mem, pos := buf.pos }

end Print

/-! ## The characters in the buffer -/

/-- After `written` characters of the output. -/
structure Filled (written : Bytes) (b : JsonBuf) : Prop where
  allocated : b.allocated = true
  size : b.size = JSON_BUFF_SZ
  pos : b.pos = written.length
  writes : b.writes = List.range written.length
  mem : ∀ i (h : i < written.length), b.mem i = written[i]

variable {written : Bytes} {b : JsonBuf}

theorem Filled.store (h : Filled written b) (c : UInt8) :
    Filled (written ++ [c]) { b.store c with pos := b.pos + 1 } where
  allocated := h.allocated
  size := h.size
  pos := by rw [List.length_append, h.pos]; rfl
  writes := by
    change b.writes ++ [b.pos] = _
    rw [h.writes, h.pos, List.length_append]
    exact List.range_succ.symm
  mem i hi := by
    change Function.update b.mem b.pos c i = _
    rw [h.pos]
    rw [List.length_append, List.length_singleton] at hi
    rcases Nat.lt_succ_iff_lt_or_eq.mp hi with hlt | rfl
    · rw [Function.update_of_ne (Nat.ne_of_lt hlt), h.mem i hlt, List.getElem_append_left hlt]
    · rw [Function.update_self, List.getElem_concat_length rfl]

/-- `json_putchar` takes `JSON_BUFF_SZ + 1` characters. -/
theorem Filled.putchar {emitted : Bytes} (h : Filled (emitted.take (JSON_BUFF_SZ + 1)) b)
    (c : UInt8) : Filled ((emitted ++ [c]).take (JSON_BUFF_SZ + 1)) (jsonPutchar b c) := by
  have hpos := h.pos
  rw [List.length_take] at hpos
  unfold jsonPutchar
  rw [h.size]
  by_cases hle : b.pos ≤ JSON_BUFF_SZ
  · have hall : emitted.take (JSON_BUFF_SZ + 1) = emitted := List.take_of_length_le (by omega)
    have hnext : (emitted ++ [c]).take (JSON_BUFF_SZ + 1) = emitted ++ [c] := by
      refine List.take_of_length_le ?_
      rw [List.length_append, List.length_singleton]
      omega
    rw [hall] at h
    rw [if_pos ⟨h.allocated, hle⟩, hnext]
    exact h.store c
  · rw [if_neg (fun hb => hle hb.2), List.take_append_of_le_length (by omega)]
    exact h

theorem Filled.print {emitted : Bytes} (h : Filled (emitted.take (JSON_BUFF_SZ + 1)) b)
    (cs : Bytes) : Filled ((emitted ++ cs).take (JSON_BUFF_SZ + 1)) (cs.foldl jsonPutchar b) := by
  induction cs generalizing emitted b with
  | nil => rwa [List.append_nil]
  | cons c cs ih =>
    have hnext := ih (h.putchar c)
    rwa [List.append_assoc] at hnext

theorem Filled.string (h : Filled written b) :
    (List.range b.pos).map (b.store 0).mem = written := by
  refine List.ext_getElem ?_ fun i hi hw => ?_
  · rw [List.length_map, List.length_range, h.pos]
  · rw [List.getElem_map, List.getElem_range, ← h.mem i hw]
    exact Function.update_of_ne (Nat.ne_of_lt (h.pos ▸ hw)) _ _

/-- Without a buffer nothing is printed. -/
theorem print_unallocated (h : b.allocated = false) (cs : Bytes) :
    cs.foldl jsonPutchar b = b := by
  induction cs with
  | nil => rfl
  | cons c cs ih =>
    have hskip : jsonPutchar b c = b := by
      unfold jsonPutchar
      rw [h, if_neg (fun hb => absurd hb.1 nofun)]
    rw [List.foldl_cons, hskip, ih]

/-! ## What stays in the buffer -/

/-- All writes are inside of the buffer, and the string is the part of the output that
fits in it together with the NUL. -/
structure InBuffer {σ : Type} (emitted : Bytes) (r : JsonPrinted σ) : Prop where
  allocated : r.buf.allocated = true
  writes : ∀ i ∈ r.buf.writes, i < JSON_BUFF_SZ
  string : r.string = emitted.take (JSON_BUFF_SZ - 1)

section Inside

variable {κ σ : Type} {output : κ → σ → Int → Called σ} {fuel : Nat} {tree : JsonValue κ}
  {path : Bytes} {st st' : σ} {emitted : Bytes}

theorem jsonPrint_allocated (h : printTree output fuel tree path st = some (st', emitted))
    (mem : Nat → UInt8) :
    ∃ r, jsonPrint output fuel tree path st true mem = some r ∧ r.buf.allocated = true ∧
      r.buf.writes = List.range (min (JSON_BUFF_SZ + 1) emitted.length + 1) ∧
      r.string = emitted.take (JSON_BUFF_SZ + 1) := by
  have hempty : Filled (List.take (JSON_BUFF_SZ + 1) []) ⟨true, 0, JSON_BUFF_SZ, mem, []⟩ :=
    ⟨rfl, rfl, rfl, rfl, nofun⟩
  have hfilled := hempty.print emitted
  rw [List.nil_append] at hfilled
  refine ⟨_, by rw [jsonPrint, h]; rfl, hfilled.allocated, ?_, hfilled.string⟩
  have hwrites := (hfilled.store 0).writes
  rwa [List.length_append, List.length_take] at hwrites

theorem jsonPrint_unallocated (h : printTree output fuel tree path st = some (st', emitted))
    (mem : Nat → UInt8) :
    ∃ r, jsonPrint output fuel tree path st false mem = some r ∧ r.buf.allocated = false := by
  refine ⟨_, by rw [jsonPrint, h]; rfl, ?_⟩
  change (emitted.foldl jsonPutchar ⟨false, 0, JSON_BUFF_SZ, mem, []⟩).allocated = false
  rw [print_unallocated rfl]

/-- Whatever a tree writes, it stays in the buffer exactly when there is a buffer and the
output is shorter than it. -/
theorem json_inside_iff (h : printTree output fuel tree path st = some (st', emitted))
    (allocated : Bool) (mem : Nat → UInt8) :
    ∃ r, jsonPrint output fuel tree path st allocated mem = some r ∧
      (InBuffer emitted r ↔ allocated = true ∧ emitted.length < JSON_BUFF_SZ) := by
  cases allocated with
  | false =>
    obtain ⟨r, hr, hnone⟩ := jsonPrint_unallocated h mem
    refine ⟨r, hr, iff_of_false (fun hin => ?_) (fun hb => absurd hb.1 nofun)⟩
    exact absurd (hnone.symm.trans hin.allocated) nofun
  | true =>
    obtain ⟨r, hr, hgot, hwrites, hstring⟩ := jsonPrint_allocated h mem
    refine ⟨r, hr, ?_⟩
    rw [and_iff_right rfl]
    constructor
    · intro hin
      -- the NUL is written at the position after the last character
      have hnul : min (JSON_BUFF_SZ + 1) emitted.length ∈ r.buf.writes := by
        rw [hwrites]
        exact List.self_mem_range_succ
      have hlt := hin.writes _ hnul
      omega
    · intro hlt
      refine ⟨hgot, fun i hi => ?_, ?_⟩
      · rw [hwrites, List.mem_range] at hi
        omega
      · rw [hstring, List.take_of_length_le (by omega), List.take_of_length_le (by omega)]

end Inside

/-- A tree without callbacks. -/
def noCallback : Empty → Unit → Int → Called Unit := nofun

/-- A string of `n` letters, which is printed between quotes. -/
def letters (n : Nat) : JsonValue Empty := .string (some (List.replicate n 97))

theorem printTree_letters (n : Nat) :
    printTree noCallback 1 (letters n) [] () =
      some ((), jsontreeWriteString (some (List.replicate n 97))) := rfl

theorem length_letters (n : Nat) :
    (jsontreeWriteString (some (List.replicate n 97))).length = n + 2 := by
  have hplain : (List.replicate n (97 : UInt8)).flatMap (fun c => if c = 34 then [92, c] else [c]) =
      List.replicate n 97 := by
    induction n with
    | zero => rfl
    | succ n ih => rw [List.replicate_succ, List.flatMap_cons, ih]; rfl
  unfold jsontreeWriteString
  rw [Option.getD_some, hplain, List.length_append, List.length_cons, List.length_replicate]
  rfl

theorem json_inside_letters : ∃ r, jsonPrint noCallback 1 (letters 2045) [] () true (fun _ => 0) =
    some r ∧ InBuffer (jsontreeWriteString (some (List.replicate 2045 97))) r := by
  obtain ⟨r, hr, hiff⟩ := json_inside_iff (printTree_letters 2045) true fun _ => 0
  exact ⟨r, hr, hiff.mpr ⟨rfl, by rw [length_letters]; decide⟩⟩

/-- An output of exactly `JSON_BUFF_SZ` characters. -/
theorem json_not_inside : ∃ r, jsonPrint noCallback 1 (letters 2046) [] () true (fun _ => 0) =
    some r ∧ JSON_BUFF_SZ ∈ r.buf.writes ∧
    ¬InBuffer (jsontreeWriteString (some (List.replicate 2046 97))) r := by
  obtain ⟨r, hr, -, hwrites, -⟩ := jsonPrint_allocated (printTree_letters 2046) fun _ => 0
  have hout : JSON_BUFF_SZ ∈ r.buf.writes := by
    rw [hwrites, length_letters, List.mem_range]
    decide
  exact ⟨r, hr, hout, fun hin => absurd (hin.writes _ hout) (Nat.lt_irrefl _)⟩

end Json
end EspMisc
