/-
The printer of `jsontree/jsontree.c`.

A tree is printed one step at a time: `jsontree_print_next` looks at the value at the
current depth, writes a part of it and moves down, up or nowhere.  A value may be a
callback, which writes what it likes and is called again as long as it asks for that.

Nothing of the printer depends on what `putchar` does with a character, so a step is
modelled by the characters that it writes.
-/
import Mathlib.Data.List.Infix

namespace EspMisc
namespace Json

abbrev Bytes := List UInt8

/-- `jsontree_value`.  The callbacks are those of `κ`, or none.  A pointer to an integer is
the integer, as `int` or `unsigned int`. -/
inductive JsonValue (κ : Type)
  | object (pairs : List (Bytes × JsonValue κ))
  | array (values : List (JsonValue κ))
  | string (value : Option Bytes)
  | uint (value : UInt32)
  | int (value : Int32)
  | callback (output : Option κ)
  | sptr (value : Int32)
  | uptr (value : UInt32)
  | illegal

/-! ## Characters -/

def jsontreeWriteString (text : Option Bytes) : Bytes :=
  34 :: (text.getD []).flatMap (fun c => if c = 34 then [92, c] else [c]) ++ [34]

/-- The digits of `value` in front of those in `buf`, which has room for `l` more. -/
def uintDigits : Nat → UInt32 → Bytes → Bytes
  | 0, _, buf => buf
  | l + 1, value, buf =>
    let buf := (48 + (value % 10).toUInt8) :: buf
    if value / 10 > 0 then uintDigits l (value / 10) buf else buf

def jsontreeWriteUint (value : UInt32) : Bytes := uintDigits 10 value []

def jsontreeWriteInt (value : Int32) : Bytes :=
  if value < 0 then 45 :: jsontreeWriteUint (-value).toUInt32
  else jsontreeWriteUint value.toUInt32

/-! ## Steps -/

/-- The values and indices from the current depth up to the root. -/
structure Context (κ : Type) where
  frames : List (JsonValue κ × UInt16)
  path : UInt8
  callbackState : Int

def JSONTREE_MAX_DEPTH : Nat := 10

/-- `jsontree_reset`, with the value at the root. -/
def jsontreeReset {κ : Type} (root : JsonValue κ) (js : Context κ) : Context κ :=
  { js with frames := [(root, 0)] }

def jsontreeSetup {κ : Type} (root : JsonValue κ) (js : Context κ) : Context κ :=
  jsontreeReset root { js with path := 0 }

namespace Context

variable {κ : Type}

def depth (js : Context κ) : Nat := js.frames.length - 1

/-- One level down.  Nothing checks that the arrays of the context have one more level. -/
def descend (js : Context κ) (v : JsonValue κ) : Option (Context κ) :=
  if js.frames.length < JSONTREE_MAX_DEPTH then some { js with frames := (v, 0) :: js.frames }
  else none

/-- Back up one level, and whether there was one. -/
def backUp (js : Context κ) : Bool × Context κ :=
  match js.frames with
  | _ :: (v, index) :: frames => (true, { js with frames := (v, index + 1) :: frames })
  | _ => (false, js)

end Context

/-- What a callback leaves of its own static variables and of `callback_state`, what it
writes and what it returns. -/
structure Called (σ : Type) where
  st : σ
  callbackState : Int
  emitted : Bytes
  ret : Int

/-- A step, with the static variables of the callbacks. -/
structure Printed (κ σ : Type) where
  more : Bool
  js : Context κ
  st : σ
  emitted : Bytes

section Print

variable {κ σ : Type} (output : κ → σ → Int → Called σ)

def finished (js : Context κ) (st : σ) (emitted : Bytes) : Printed κ σ :=
  ⟨js.backUp.1, js.backUp.2, st, emitted⟩

/-- The elements of an object or an array between `type` and `type + 2`, each with what is
written before its value.  `none` is a step out of the arrays of the context. -/
def printElements (js : Context κ) (st : σ) (type : UInt8) (index : UInt16)
    (elements : List (Bytes × JsonValue κ)) : Option (Printed κ σ) :=
  let first := if index = 0 then [type] else []
  if (UInt8.ofNat elements.length).toNat ≤ index.toNat then
    some (finished js st (first ++ [type + 2]))
  else
    let comma := if index > 0 then [44] else []
    match elements[index.toNat]? with
    | none => none
    | some (name, ov) => (js.descend ov).map fun js => ⟨true, js, st, first ++ comma ++ name⟩

def printCallback (js : Context κ) (st : σ) (index : UInt16) (cb : Option κ) : Printed κ σ :=
  let js := if index = 0 then { js with callbackState := 0 } else js
  match cb with
  | none => finished js st (jsontreeWriteString (some []))
  | some cb =>
    let called := output cb st js.callbackState
    let js := { js with callbackState := called.callbackState }
    if called.ret ≠ 0 then
      match js.frames with
      | (v, index) :: frames =>
        ⟨true, { js with frames := (v, index + 1) :: frames }, called.st, called.emitted⟩
      | [] => ⟨false, js, called.st, called.emitted⟩
    else finished js called.st called.emitted

def jsontreePrintNext (js : Context κ) (st : σ) : Option (Printed κ σ) :=
  match js.frames with
  | [] => none
  | (v, index) :: _ =>
    match v with
    | .object pairs =>
      printElements js st 123 index
        (pairs.map fun p => (jsontreeWriteString (some p.1) ++ [58], p.2))
    | .array values => printElements js st 91 index (values.map fun ov => ([], ov))
    | .string value => some (finished js st (jsontreeWriteString value))
    | .uint value | .uptr value => some (finished js st (jsontreeWriteUint value))
    | .int value | .sptr value => some (finished js st (jsontreeWriteInt value))
    | .callback cb => some (printCallback output js st index cb)
    | .illegal => some ⟨false, js, st, []⟩

/-- `while (jsontree_print_next(&json) && json.path <= json.depth)`, with all that is
written.  The result is `none` when `fuel` steps are not enough. -/
def printLoop : Nat → Context κ → σ → Option (σ × Bytes)
  | 0, _, _ => none
  | fuel + 1, js, st =>
    (jsontreePrintNext output js st).bind fun p =>
      if p.more ∧ p.js.path.toNat ≤ p.js.depth then
        (printLoop fuel p.js p.st).map fun r => (r.1, p.emitted ++ r.2)
      else some (p.st, p.emitted)

variable {output} {js : Context κ} {st : σ} {p : Printed κ σ}

theorem printLoop_next (h : jsontreePrintNext output js st = some p)
    (hmore : p.more = true ∧ p.js.path.toNat ≤ p.js.depth) (fuel : Nat) :
    printLoop output (fuel + 1) js st =
      (printLoop output fuel p.js p.st).map fun r => (r.1, p.emitted ++ r.2) := by
  rw [printLoop, h, Option.bind_some, if_pos hmore]

end Print

/-! ## Paths -/

/-- The loop of `find_json_path`, on what stands between the slashes of the path.  The part
of the path before a slash names the first pair that begins with it. -/
def followPath {κ : Type} : List Bytes → Context κ → JsonValue κ →
    Option (Context κ × Option (JsonValue κ))
  | [], js, v => some (js, some v)
  | part :: parts, js, v =>
    -- a slash at the start of what is left
    if part = [] ∧ parts ≠ [] then some (js, some v)
    else
      match v with
      | .object pairs =>
        -- `count` has eight bits
        let count := (UInt8.ofNat pairs.length).toNat
        match (pairs.take count).findIdx? (fun p => decide (part <+: p.1)) with
        | none => some (js, none)
        | some i =>
          match js.frames, pairs[i]? with
          | (u, _) :: frames, some pair =>
            match { js with frames := (u, UInt16.ofNat i) :: frames }.descend pair.2 with
            | none => none
            | some js =>
              -- nothing after the slash
              if parts = [] ∨ parts = [[]] then some (js, some pair.2)
              else followPath parts js pair.2
          | _, _ => none
      | _ => some (js, none)

def findJsonPath {κ : Type} (js : Context κ) (path : Bytes) :
    Option (Context κ × Option (JsonValue κ)) :=
  match js.frames.getLast? with
  | none => none
  | some (v, _) =>
    (followPath (path.splitOn 47) js v).map fun r => ({ r.1 with callbackState := 0 }, r.2)

end Json
end EspMisc
