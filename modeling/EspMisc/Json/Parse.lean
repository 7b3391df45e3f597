/-
The parser of `jsontree/jsonparse.c`.

`jsonparse_next` goes through a text one element at a time and keeps the brackets that are
open on a stack.  The text of a value is not copied: the state has its place in the text,
and `jsonparse_copy_value` and `jsonparse_get_value_as_int` read it from there.
-/
import EspMisc.Json.Tree

namespace EspMisc
namespace Json

def JSONPARSE_MAX_DEPTH : Nat := 10

inductive JsonError
  | ok
  | syntaxError
  | unexpectedArray
  | unexpectedEndOfArray
  | unexpectedObject
  | unexpectedEndOfObject
  | unexpectedString
  deriving DecidableEq, Repr

/-- `jsonparse_state`, without the text.  `stack` begins with the innermost bracket, and its
length is `depth`. -/
structure ParseState where
  pos : Nat
  len : Nat
  stack : Bytes
  vstart : Nat
  vlen : Nat
  vtype : UInt8
  error : JsonError

/-! ## The stack -/

namespace ParseState

/-- The bool that `push` returns is not looked at.  `none` is a write behind the stack. -/
def push (st : ParseState) (c : UInt8) : Option ParseState :=
  if st.stack.length < JSONPARSE_MAX_DEPTH then
    some { st with stack := c :: st.stack, vtype := 0 }
  else none

def modify (st : ParseState) (c : UInt8) : ParseState :=
  match st.stack with
  | [] => st
  | _ :: stack => { st with stack := c :: stack }

def pop (st : ParseState) : ParseState :=
  match st.stack with
  | [] => st
  | c :: stack => { st with stack := stack, vtype := c }

end ParseState

/-! ## Values -/

/-- How many characters there are up to the one that ends a string, and whether that is a
quote.  A character after a backslash is skipped.  `none` is a read behind the text. -/
def stringEnd : Bool → Bytes → Option (Nat × Bool)
  | _, [] => none
  | true, _ :: text => (stringEnd false text).map fun r => (r.1 + 1, r.2)
  | false, c :: text =>
    if c = 0 then some (1, false)
    else if c = 34 then some (1, true)
    else (stringEnd (c = 92) text).map fun r => (r.1 + 1, r.2)

def isNumberChar (c : UInt8) : Bool := (48 ≤ c && c ≤ 57) || c = 46

/-- `strncmp`, as far as whether it is 0. -/
def strncmpZero : Nat → Bytes → Bytes → Bool
  | 0, _, _ => true
  | n + 1, a :: as, b :: bs => if a ≠ b then false else if a = 0 then true else strncmpZero n as bs
  | _ + 1, _, _ => false

/-- The word of `null`, `true` and `false`, and its NUL. -/
def atomicWord (type : UInt8) : Bytes :=
  if type = 110 then [110, 117, 108, 108, 0]
  else if type = 116 then [116, 114, 117, 101, 0]
  else [102, 97, 108, 115, 101, 0]

/-- The parser is behind the first character of the value. -/
def atomic (json : Bytes) (st : ParseState) (type : UInt8) : Option (UInt8 × ParseState) :=
  let st := { st with vstart := st.pos }
  if type = 34 ∨ type = 78 then
    (stringEnd false (json.drop st.pos)).map fun r =>
      if r.2 then (type, { st with pos := st.pos + r.1, vlen := r.1 - 1, vtype := type })
      else (0, { st with pos := st.pos + r.1, error := .syntaxError })
  else if type = 48 then
    let n := ((json.drop st.pos).takeWhile isNumberChar).length
    -- the character that ends the number is read as well
    if st.pos + n < json.length then
      some (type,
        { st with pos := st.pos + n, vstart := st.vstart - 1, vlen := n + 1, vtype := type })
    else none
  else
    let n := ((json.drop st.pos).takeWhile fun c =>
      c != 0 && c != 32 && c != 44 && c != 93 && c != 125).length
    if st.pos + n < json.length then
      let st := { st with pos := st.pos + n, vstart := st.vstart - 1, vlen := n + 1 }
      let len := max st.vlen ((atomicWord type).length - 1)
      if strncmpZero len (atomicWord type) (json.drop st.vstart) then
        some (type, { st with vtype := type })
      else some (0, { st with error := .syntaxError })
    else none

/-! ## Elements -/

def skipWs (json : Bytes) (st : ParseState) : ParseState :=
  { st with
    pos := st.pos + (((json.take st.len).drop st.pos).takeWhile fun c => c = 32 || c = 10).length }

def isAtomic (st : ParseState) : Bool :=
  st.vtype = 78 || st.vtype = 34 || st.vtype = 48 || st.vtype = 110 || st.vtype = 116 ||
    st.vtype = 102

def jsonparseSetup (len : Nat) (st : ParseState) : ParseState :=
  { st with len := len, pos := 0, stack := [], error := .ok, vtype := 0 }

def jsonparseGetType (st : ParseState) : UInt8 := st.stack.headD 0

def jsonparseHasNext (st : ParseState) : Bool := st.pos < st.len

/-- The cases of `jsonparse_next` at the character `c`.  `next` is the call of the function
after a colon. -/
def parseChar (json : Bytes) (next : ParseState → Option (UInt8 × ParseState)) (st : ParseState)
    (c : UInt8) : Option (UInt8 × ParseState) :=
  let s := jsonparseGetType st
  let v := st.vtype
  let st := { st with pos := st.pos + 1 }
  let fail := fun error => some ((0 : UInt8), { st with error := error })
  if c = 123 then
    if (s = 0 ∧ v = 0) ∨ s = 91 ∨ s = 58 then (st.push c).map fun st => (c, st)
    else fail .unexpectedObject
  else if c = 125 then
    if (s = 58 ∧ v ≠ 44 ∧ v ≠ 0) ∨ (s = 123 ∧ v = 0) then some (c, st.pop)
    else fail .unexpectedEndOfObject
  else if c = 93 then
    if s = 91 ∧ v ≠ 44 then some (c, st.pop) else fail .unexpectedEndOfArray
  else if c = 58 then
    if s = 123 ∧ v = 78 then next { st.modify 58 with vtype := 0 } else fail .syntaxError
  else if c = 44 then
    if s = 58 ∧ v ≠ 0 then some (c, { st.modify 123 with vtype := c })
    else if s = 91 then some (c, { st with vtype := c })
    else fail .syntaxError
  else if c = 34 then
    if (s = 0 ∧ v = 0) ∨ s = 123 ∨ s = 91 ∨ s = 58 then
      atomic json st (if s = 123 then 78 else c)
    else fail .unexpectedString
  else if c = 91 then
    if (s = 0 ∧ v = 0) ∨ s = 91 ∨ s = 58 then (st.push c).map fun st => (c, st)
    else fail .unexpectedArray
  else if c = 0 then
    if v = 0 ∨ st.stack ≠ [] then fail .syntaxError else some (0, st)
  else if s = 0 ∨ s = 58 ∨ s = 91 then
    if v ≠ 0 ∧ v ≠ 44 then fail .syntaxError
    else if c = 45 ∨ (c ≤ 57 ∧ 48 ≤ c) then atomic json st 48
    else if c = 110 ∨ c = 116 ∨ c = 102 then atomic json st c
    else fail .syntaxError
  else if s = 123 then fail .syntaxError
  else some (0, st)

/-- `none` is an access outside of the text or of the stack. -/
def parseElement (json : Bytes) (next : ParseState → Option (UInt8 × ParseState))
    (st : ParseState) : Option (UInt8 × ParseState) :=
  let st := skipWs json st
  json[st.pos]?.bind (parseChar json next st)

/-- After a colon the innermost bracket is a colon as well, where a second colon is an error,
so the function calls itself at most once. -/
def jsonparseNext (json : Bytes) : ParseState → Option (UInt8 × ParseState) :=
  parseElement json (parseElement json fun _ => none)

section Colon

variable {json : Bytes} {next next' : ParseState → Option (UInt8 × ParseState)}

/-- The call after a colon is made with a colon on the stack. -/
theorem parseChar_congr (h : ∀ st, jsonparseGetType st = 58 → next st = next' st)
    (st : ParseState) (c : UInt8) : parseChar json next st c = parseChar json next' st c := by
  unfold parseChar
  by_cases hs : jsonparseGetType st = 123 ∧ st.vtype = 78
  · obtain ⟨tl, htl⟩ : ∃ tl, st.stack = 123 :: tl := by
      match hstack : st.stack with
      | [] => rw [jsonparseGetType, hstack] at hs; exact absurd hs.1 (by decide)
      | s :: tl => rw [jsonparseGetType, hstack] at hs; exact ⟨tl, by rw [← hs.1]; rfl⟩
    have htop : ∀ pos, jsonparseGetType
        { ({ st with pos := pos } : ParseState).modify 58 with vtype := 0 } = 58 := by
      intro pos
      simp only [ParseState.modify, htl]
      rfl
    simp only [if_pos hs, h _ (htop _)]
  · simp only [if_neg hs]

theorem parseElement_congr (h : ∀ st, jsonparseGetType st = 58 → next st = next' st)
    (st : ParseState) : parseElement json next st = parseElement json next' st := by
  exact congrArg (Option.bind _) (funext (parseChar_congr h (skipWs json st)))

/-- With a colon on the stack there is no such call. -/
theorem parseElement_colon {st : ParseState} (h : jsonparseGetType st = 58) :
    parseElement json next st = parseElement json next' st := by
  have hs : ¬(jsonparseGetType (skipWs json st) = 123 ∧ (skipWs json st).vtype = 78) :=
    fun hcolon => absurd (h.symm.trans hcolon.1) (by decide)
  refine congrArg (Option.bind _) (funext fun c => ?_)
  unfold parseChar
  simp only [if_neg hs]

theorem jsonparseNext_eq (st : ParseState) :
    jsonparseNext json st = parseElement json (jsonparseNext json) st :=
  parseElement_congr (fun _ h => parseElement_colon h) st

end Colon

/-! ## Values in the text -/

def unescape (c : UInt8) : Bytes :=
  if c = 34 ∨ c = 92 ∨ c = 47 then [c]
  else if c = 98 then [8]
  else if c = 102 then [12]
  else if c = 110 then [10]
  else if c = 114 then [13]
  else if c = 116 then [9]
  else []

/-- The loop of `jsonparse_copy_value`, with `n` characters of the value and `room` bytes of
the buffer left. -/
def copyLoop : Bytes → Nat → Nat → Option Bytes
  | _, 0, _ | _, _ + 1, 0 => some []
  | [], _ + 1, _ + 1 => none
  | c :: text, n + 1, room + 1 =>
    if c = 92 then
      match text with
      | [] => none
      | e :: text =>
        (copyLoop text (n - 1) (room + 1 - (unescape e).length)).map fun r => unescape e ++ r
    else (copyLoop text n room).map fun r => c :: r

/-- What is returned and the string in the buffer of `size` bytes, if one is written.  `none`
is an access outside of the text or of the buffer, which has to have room for the NUL. -/
def jsonparseCopyValue (json : Bytes) (st : ParseState) (size : Nat) :
    Option (UInt8 × Option Bytes) :=
  if isAtomic st then
    if size = 0 then none
    else (copyLoop (json.drop st.vstart) st.vlen (size - 1)).map fun r => (st.vtype, some r)
  else some (0, none)

/-- The number that the digits at the start of the text are. -/
def digitsValue (text : Bytes) : Nat :=
  (text.takeWhile fun c => 48 ≤ c && c ≤ 57).foldl (fun n c => 10 * n + (c.toNat - 48)) 0

/-- `atoi` on a text that begins with a digit or a sign.  Outside of the range of `int` its
result is not defined. -/
def atoi (text : Bytes) : Option Int :=
  let n : Int := match text with
    | 45 :: digits => -digitsValue digits
    | digits => digitsValue digits
  if -2147483648 ≤ n ∧ n ≤ 2147483647 then some n else none

def jsonparseGetValueAsInt (json : Bytes) (st : ParseState) : Option Int :=
  if st.vtype ≠ 48 then some 0 else atoi (json.drop st.vstart)

end Json
end EspMisc
