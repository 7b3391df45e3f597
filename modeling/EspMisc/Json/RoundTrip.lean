/-
What is printed is read back.

`readings` is what a reader of a tree should see: the brackets, the commas, the names and the
values in order, each string with all its characters and each number with its value.  The
text that `json_print` writes has exactly these elements for `jsonparse_next`, as long as no
string has a backslash, which the printer does not escape.
-/
import Mathlib.Algebra.Ring.Nat
import EspMisc.Json.Parse
import EspMisc.Json.Render

namespace EspMisc
namespace Json

/-! ## Readers -/

/-- An element as its reader sees it: what `jsonparse_next` returns, and what
`jsonparse_copy_value` and `jsonparse_get_value_as_int` give. -/
structure Reading where
  type : UInt8
  text : Bytes
  number : Option Int
  deriving DecidableEq

def reading (json : Bytes) (size : Nat) (type : UInt8) (st : ParseState) : Option Reading :=
  (jsonparseCopyValue json st size).map fun copy =>
    ⟨type, copy.2.getD [], jsonparseGetValueAsInt json st⟩

/-- All elements up to the first call that returns 0. -/
def readAll (json : Bytes) (size : Nat) : Nat → ParseState → Option (List Reading × ParseState)
  | 0, _ => none
  | fuel + 1, st =>
    (jsonparseNext json st).bind fun r =>
      if r.1 = 0 then some ([], r.2)
      else (reading json size r.1 r.2).bind fun e =>
        (readAll json size fuel r.2).map fun rest => (e :: rest.1, rest.2)

/-- The elements between two states of the parser. -/
inductive Reads (json : Bytes) (size : Nat) : ParseState → List Reading → ParseState → Prop
  | nil (st : ParseState) : Reads json size st [] st
  | cons {st st' st'' : ParseState} {type : UInt8} {e : Reading} {rs : List Reading}
      (hnext : jsonparseNext json st = some (type, st')) (htype : type ≠ 0)
      (hread : reading json size type st' = some e) (hrest : Reads json size st' rs st'') :
      Reads json size st (e :: rs) st''

variable {json : Bytes} {size : Nat}

theorem Reads.append {st st' st'' : ParseState} {rs rs' : List Reading}
    (h : Reads json size st rs st') (h' : Reads json size st' rs' st'') :
    Reads json size st (rs ++ rs') st'' := by
  induction h with
  | nil => exact h'
  | cons hnext htype hread _ ih => exact .cons hnext htype hread (ih h')

theorem Reads.one {st st' : ParseState} {type : UInt8} {e : Reading}
    (hnext : jsonparseNext json st = some (type, st')) (htype : type ≠ 0)
    (hread : reading json size type st' = some e) : Reads json size st [e] st' :=
  .cons hnext htype hread (.nil st')

theorem Reads.readAll {st st' : ParseState} {rs : List Reading} (h : Reads json size st rs st')
    (fuel : Nat) : Json.readAll json size (rs.length + fuel) st =
      (Json.readAll json size fuel st').map fun r => (rs ++ r.1, r.2) := by
  induction h with
  | nil st =>
    rw [List.length_nil, Nat.zero_add]
    exact Option.map_id'.symm
  | cons hnext htype hread _ ih =>
    rw [List.length_cons, Nat.add_right_comm, Json.readAll, hnext, Option.bind_some,
      if_neg htype, hread, Option.bind_some, ih, Option.map_map]
    rfl

/-! ## Elements of a tree -/

/-- An element without a value. -/
def sign (c : UInt8) : Reading := ⟨c, [], some 0⟩

def separated : Bool → List (List Reading) → List Reading
  | _, [] => []
  | first, rs :: l => (if first then [] else [sign 44]) ++ (rs ++ separated false l)

/-- The value of an `unsigned int` that is not too large for an `int`. -/
def uintNumber (value : UInt32) : Option Int :=
  if value.toNat ≤ 2147483647 then some value.toNat else none

def readings {κ : Type} : JsonValue κ → List Reading
  | .object pairs =>
    sign 123 :: separated true (pairs.map fun p => ⟨78, p.1, some 0⟩ :: readings p.2) ++ [sign 125]
  | .array values => sign 91 :: separated true (values.map fun ov => readings ov) ++ [sign 93]
  | .string value => [⟨34, value.getD [], some 0⟩]
  | .uint value | .uptr value => [⟨48, jsontreeWriteUint value, uintNumber value⟩]
  | .int value | .sptr value => [⟨48, jsontreeWriteInt value, some value.toInt⟩]
  | .callback _ => [⟨34, [], some 0⟩]
  | .illegal => []
termination_by v => sizeOf v
decreasing_by
  · rename_i hp
    have hlt := List.sizeOf_lt_of_mem hp
    have hp : sizeOf p = 1 + sizeOf p.1 + sizeOf p.2 := rfl
    rw [JsonValue.object.sizeOf_spec]
    omega
  · rename_i hv
    have hlt := List.sizeOf_lt_of_mem hv
    rw [JsonValue.array.sizeOf_spec]
    omega

def elementReadings {κ : Type} (e : Option Bytes × JsonValue κ) : List Reading :=
  (match e.1 with
    | none => []
    | some name => [⟨78, name, some 0⟩]) ++ readings e.2

section Trees

variable {κ : Type}

theorem readings_object (pairs : List (Bytes × JsonValue κ)) :
    readings (.object pairs) =
      sign 123 :: (separated true ((members pairs).map elementReadings) ++ [sign 125]) := by
  rw [readings, members, List.map_map]
  rfl

theorem readings_array (values : List (JsonValue κ)) :
    readings (.array values) =
      sign 91 :: (separated true ((items values).map elementReadings) ++ [sign 93]) := by
  rw [readings, items, List.map_map]
  rfl

end Trees

/-! ## Characters of a value -/

/-- The characters of a string between its quotes. -/
def escaped (text : Bytes) : Bytes := text.flatMap fun c => if c = 34 then [92, c] else [c]

/-- No character that the printer does not escape and the parser does not take as it is. -/
def Clean (text : Bytes) : Prop := ∀ c ∈ text, c ≠ 0 ∧ c ≠ 92

instance (text : Bytes) : Decidable (Clean text) :=
  List.decidableBAll (fun c => c ≠ 0 ∧ c ≠ 92) text

theorem escaped_quote (text : Bytes) : escaped (34 :: text) = 92 :: 34 :: escaped text := rfl

theorem escaped_other {c : UInt8} (h : c ≠ 34) (text : Bytes) :
    escaped (c :: text) = c :: escaped text := by
  rw [escaped, List.flatMap_cons, if_neg h]
  rfl

theorem stringEnd_escaped {text : Bytes} (h : Clean text) (w : Bytes) :
    stringEnd false (escaped text ++ 34 :: w) = some ((escaped text).length + 1, true) := by
  induction text with
  | nil => rfl
  | cons c text ih =>
    have hc := h c List.mem_cons_self
    have hrest := ih fun d hd => h d (List.mem_cons_of_mem c hd)
    by_cases hquote : c = 34
    · subst hquote
      rw [escaped_quote, List.cons_append, List.cons_append]
      change ((stringEnd false (escaped text ++ 34 :: w)).map _).map _ = _
      rw [hrest]
      rfl
    · rw [escaped_other hquote, List.cons_append, stringEnd, if_neg hc.1, if_neg hquote,
        decide_eq_false hc.2, hrest]
      rfl

theorem copyLoop_zero (text : Bytes) (room : Nat) : copyLoop text 0 room = some [] := by
  cases text <;> rw [copyLoop.eq_def]

theorem copyLoop_full (text : Bytes) (n : Nat) : copyLoop text n 0 = some [] := by
  cases n <;> cases text <;> rw [copyLoop.eq_def]

theorem copyLoop_escaped {text : Bytes} (h : Clean text) (w : Bytes) (room : Nat) :
    copyLoop (escaped text ++ w) (escaped text).length room = some (text.take room) := by
  induction text generalizing room with
  | nil => rw [List.take_nil]; exact copyLoop_zero _ _
  | cons c text ih =>
    have hc := h c List.mem_cons_self
    have hrest := ih fun d hd => h d (List.mem_cons_of_mem c hd)
    match room with
    | 0 => exact copyLoop_full _ _
    | room + 1 =>
      by_cases hquote : c = 34
      · subst hquote
        rw [escaped_quote, List.cons_append, List.cons_append]
        change (copyLoop (escaped text ++ w) (escaped text).length room).map _ = _
        rw [hrest]
        rfl
      · rw [escaped_other hquote, List.cons_append, List.length_cons, copyLoop.eq_def]
        simp only [if_neg hc.2, hrest, Option.map_some, List.take_succ_cons]

/-! ## Digits -/

def IsDigit (c : UInt8) : Prop := 48 ≤ c.toNat ∧ c.toNat ≤ 57

theorem IsDigit.digit (value : UInt32) :
    IsDigit (48 + (value % 10).toUInt8) ∧
      (48 + (value % 10).toUInt8).toNat - 48 = value.toNat % 10 := by
  have hlt : value.toNat % 10 < 10 := Nat.mod_lt _ (by decide)
  have hval : (48 + (value % 10).toUInt8).toNat = 48 + value.toNat % 10 := by
    rw [UInt8.toNat_add, UInt32.toNat_toUInt8, UInt32.toNat_mod]
    change (48 + value.toNat % 10 % 256) % 256 = _
    omega
  exact ⟨⟨by omega, by omega⟩, by omega⟩

theorem uintDigits_isDigit (l : Nat) (value : UInt32) {buf : Bytes}
    (h : ∀ c ∈ buf, IsDigit c) : ∀ c ∈ uintDigits l value buf, IsDigit c := by
  induction l generalizing value buf with
  | zero => exact h
  | succ l ih =>
    have hbuf : ∀ c ∈ (48 + (value % 10).toUInt8) :: buf, IsDigit c :=
      List.forall_mem_cons.mpr ⟨(IsDigit.digit value).1, h⟩
    rw [uintDigits]
    split
    · exact ih (value / 10) hbuf
    · exact hbuf

theorem uintDigits_ne_nil (l : Nat) (value : UInt32) {buf : Bytes} (h : buf ≠ []) :
    uintDigits l value buf ≠ [] := by
  induction l generalizing value buf with
  | zero => exact h
  | succ l ih =>
    rw [uintDigits]
    split
    · exact ih (value / 10) (List.cons_ne_nil _ _)
    · exact List.cons_ne_nil _ _

/-- The digits in front of a text are read as the value that they were written for. -/
theorem uintDigits_value {l : Nat} {value : UInt32} (h : value.toNat < 10 ^ l) (buf : Bytes) :
    (uintDigits l value buf).foldl (fun n c => 10 * n + (c.toNat - 48)) 0 =
      buf.foldl (fun n c => 10 * n + (c.toNat - 48)) value.toNat := by
  induction l generalizing value buf with
  | zero =>
    have hzero : value.toNat = 0 := Nat.lt_one_iff.mp h
    rw [uintDigits, hzero]
  | succ l ih =>
    have hdigit := (IsDigit.digit value).2
    have hdiv : (value / 10).toNat = value.toNat / 10 := UInt32.toNat_div _ _
    rw [uintDigits]
    by_cases hmore : value / 10 > 0
    · have hlt : (value / 10).toNat < 10 ^ l := by
        rw [hdiv]
        rw [Nat.pow_succ] at h
        omega
      rw [if_pos hmore, ih hlt, List.foldl_cons, hdigit, hdiv, Nat.div_add_mod]
    · have hzero : value.toNat / 10 = 0 := by
        rw [← hdiv]
        by_contra hne
        exact hmore (UInt32.lt_iff_toNat_lt.mpr (Nat.pos_of_ne_zero hne))
      rw [if_neg hmore, List.foldl_cons, hdigit]
      congr 1
      omega

/-- A text that does not go on with a character of a number. -/
def Ends (w : Bytes) : Prop := ∃ c tl, w = c :: tl ∧ isNumberChar c = false

theorem IsDigit.decide {c : UInt8} (h : IsDigit c) : (48 ≤ c && c ≤ 57) = true := by
  rw [Bool.and_eq_true, decide_eq_true_iff, decide_eq_true_iff]
  exact ⟨UInt8.le_iff_toNat_le.mpr h.1, UInt8.le_iff_toNat_le.mpr h.2⟩

theorem Ends.takeWhile {w : Bytes} (hw : Ends w) {p : UInt8 → Bool}
    (hp : ∀ c, p c = true → isNumberChar c = true) {ds : Bytes} (hds : ∀ c ∈ ds, p c = true) :
    (ds ++ w).takeWhile p = ds := by
  obtain ⟨c, tl, rfl, hc⟩ := hw
  have hstop : ¬p c = true := fun hpc => by
    rw [hp c hpc] at hc
    exact absurd hc (by decide)
  rw [List.takeWhile_append_of_pos hds, List.takeWhile_cons_of_neg hstop, List.append_nil]

theorem jsontreeWriteUint_digits (value : UInt32) :
    ∃ c ds, jsontreeWriteUint value = c :: ds ∧ IsDigit c ∧ ∀ d ∈ ds, IsDigit d := by
  have hne : jsontreeWriteUint value ≠ [] := by
    rw [jsontreeWriteUint, uintDigits]
    split
    · exact uintDigits_ne_nil _ _ (List.cons_ne_nil _ _)
    · exact List.cons_ne_nil _ _
  obtain ⟨c, ds, hcons⟩ := List.exists_cons_of_ne_nil hne
  have hall : ∀ d ∈ c :: ds, IsDigit d := by
    rw [← hcons]
    exact uintDigits_isDigit 10 value fun d hd => absurd hd (by simp)
  exact ⟨c, ds, hcons, List.forall_mem_cons.mp hall⟩

theorem digitsValue_uint (value : UInt32) {w : Bytes} (hw : Ends w) :
    digitsValue (jsontreeWriteUint value ++ w) = value.toNat := by
  have hdigits : ∀ c ∈ jsontreeWriteUint value, (48 ≤ c && c ≤ 57) = true := fun c hc =>
    (uintDigits_isDigit 10 value (fun d hd => absurd hd (by simp)) c hc).decide
  have hnumber : ∀ c : UInt8, (48 ≤ c && c ≤ 57) = true → isNumberChar c = true := by
    intro c hc
    rw [isNumberChar, hc]
    rfl
  have hlt : value.toNat < 10 ^ 10 := Nat.lt_trans value.toNat_lt (by decide)
  rw [digitsValue, hw.takeWhile hnumber hdigits, jsontreeWriteUint, uintDigits_value hlt]
  rfl

theorem atoi_uint (value : UInt32) {w : Bytes} (hw : Ends w) :
    atoi (jsontreeWriteUint value ++ w) = uintNumber value := by
  have hvalue := digitsValue_uint value hw
  obtain ⟨c, ds, hcons, hc, -⟩ := jsontreeWriteUint_digits value
  have hsign : c ≠ 45 := fun h => by
    rw [h] at hc
    exact absurd hc.1 (by decide)
  have hplain : ∀ digits, c :: ds ++ w ≠ 45 :: digits := fun digits h =>
    hsign (List.cons.inj h).1
  rw [hcons] at hvalue ⊢
  rw [atoi, uintNumber, hvalue]
  · by_cases hle : value.toNat ≤ 2147483647
    · rw [if_pos hle, if_pos (by omega)]
    · rw [if_neg hle, if_neg (by omega)]
  · exact hplain

theorem toInt_eq (value : Int32) :
    value.toInt = if value.toUInt32.toNat < 2147483648 then (value.toUInt32.toNat : Int)
      else value.toUInt32.toNat - 4294967296 := by
  have hcond : value.toInt = if 2 * value.toUInt32.toNat < 2 ^ 32 then (value.toUInt32.toNat : Int)
      else value.toUInt32.toNat - (2 ^ 32 : Nat) := BitVec.toInt_eq_toNat_cond value.toBitVec
  rw [hcond]
  split <;> split <;> omega

theorem toNat_neg (value : Int32) :
    (-value).toUInt32.toNat = (4294967296 - value.toUInt32.toNat) % 4294967296 :=
  BitVec.toNat_neg value.toBitVec

theorem atoi_int (value : Int32) {w : Bytes} (hw : Ends w) :
    atoi (jsontreeWriteInt value ++ w) = some value.toInt := by
  have hint := toInt_eq value
  have hlt : value.toUInt32.toNat < 4294967296 := UInt32.toNat_lt _
  rw [jsontreeWriteInt]
  by_cases hneg : value < 0
  · have hsign : value.toInt < 0 := Int32.lt_iff_toInt_lt.mp hneg
    have hvalue := digitsValue_uint (-value).toUInt32 hw
    rw [toNat_neg] at hvalue
    rw [if_pos hneg, List.cons_append, atoi, hvalue, hint]
    rw [hint] at hsign
    split at hsign
    · omega
    · rename_i hbig
      have hmod : (4294967296 - value.toUInt32.toNat) % 4294967296 =
          4294967296 - value.toUInt32.toNat := Nat.mod_eq_of_lt (by omega)
      rw [hmod, if_neg hbig, if_pos (by omega)]
      refine congrArg some ?_
      omega
  · have hsign : ¬value.toInt < 0 := fun h => hneg (Int32.lt_iff_toInt_lt.mpr h)
    rw [if_neg hneg, atoi_uint _ hw, uintNumber]
    split at hint
    · rw [if_pos (by omega), hint]
    · omega

/-! ## Steps of the parser -/

variable {st st' : ParseState} {c : UInt8} {w : Bytes}

/-- The first character of what is left is looked at if it is no white space. -/
theorem next_at (h : json.drop st.pos = c :: w) (hc : c ≠ 32 ∧ c ≠ 10) :
    jsonparseNext json st = parseChar json (jsonparseNext json) st c := by
  have hskip : skipWs json st = st := by
    have hnone : (((json.take st.len).drop st.pos).takeWhile fun c => c = 32 || c = 10) = [] := by
      rw [List.drop_take, h]
      match st.len - st.pos with
      | 0 => rfl
      | k + 1 =>
        refine List.takeWhile_cons_of_neg ?_
        rw [Bool.or_eq_true, decide_eq_true_iff, decide_eq_true_iff, not_or]
        exact hc
    rw [skipWs, hnone]
    rfl
  have hget : json[st.pos]? = some c := by
    rw [← List.head?_drop, h]
    rfl
  rw [jsonparseNext_eq, parseElement, hskip]
  exact congrArg (Option.bind · _) hget

theorem drop_succ (h : json.drop st.pos = c :: w) : json.drop (st.pos + 1) = w := by
  rw [← List.drop_drop, h]
  rfl

theorem drop_append {u : Bytes} {pos pos' : Nat} (h : json.drop pos = u ++ w)
    (hpos : pos' = pos + u.length) : json.drop pos' = w := by
  rw [hpos, ← List.drop_drop, h, List.drop_left]

/-- A value may stand here. -/
def ValueNext (st : ParseState) : Prop :=
  (jsonparseGetType st = 0 ∧ st.vtype = 0) ∨
    (jsonparseGetType st = 91 ∧ (st.vtype = 0 ∨ st.vtype = 44)) ∨
      (jsonparseGetType st = 58 ∧ st.vtype = 0)

theorem ValueNext.opens (h : ValueNext st) :
    (jsonparseGetType st = 0 ∧ st.vtype = 0) ∨ jsonparseGetType st = 91 ∨
      jsonparseGetType st = 58 := by
  rcases h with h | h | h
  · exact .inl h
  · exact .inr (.inl h.1)
  · exact .inr (.inr h.1)

theorem next_open (hst : ValueNext st) (h : json.drop st.pos = c :: w) (hc : c = 123 ∨ c = 91)
    (hdepth : st.stack.length < JSONPARSE_MAX_DEPTH) :
    jsonparseNext json st =
      some (c, { st with pos := st.pos + 1, stack := c :: st.stack, vtype := 0 }) := by
  have hopens := hst.opens
  rcases hc with rfl | rfl
  · rw [next_at h (by decide)]
    simp [parseChar, hopens, ParseState.push, hdepth]
  · rw [next_at h (by decide)]
    simp [parseChar, hopens, ParseState.push, hdepth]

theorem jsontreeWriteString_append (value : Option Bytes) (w : Bytes) :
    jsontreeWriteString value ++ w = 34 :: (escaped (value.getD []) ++ 34 :: w) := by
  rw [jsontreeWriteString, List.append_assoc]
  rfl

/-- The state behind a string, whose characters are between the quotes. -/
def afterString (st : ParseState) (type : UInt8) (text : Bytes) : ParseState :=
  { st with
    pos := st.pos + (escaped text).length + 2
    vstart := st.pos + 1
    vlen := (escaped text).length
    vtype := type }

theorem atomic_string {type : UInt8} (htype : type = 34 ∨ type = 78) {text : Bytes}
    (hclean : Clean text) (h : json.drop st.pos = 34 :: (escaped text ++ 34 :: w)) :
    atomic json { st with pos := st.pos + 1 } type = some (type, afterString st type text) := by
  simp only [atomic, if_pos htype, drop_succ h, stringEnd_escaped hclean, Option.map_some, if_true,
    afterString, Nat.add_sub_cancel]
  congr 3
  omega

theorem next_string (hst : ValueNext st) {value : Option Bytes} (hclean : Clean (value.getD []))
    (h : json.drop st.pos = jsontreeWriteString value ++ w) :
    jsonparseNext json st = some (34, afterString st 34 (value.getD [])) := by
  rw [jsontreeWriteString_append] at h
  have hopens := hst.opens
  have htop : jsonparseGetType st ≠ 123 := by
    intro htop
    rw [htop] at hopens
    exact absurd hopens (by simp)
  rw [next_at h (by decide), ← atomic_string (.inl rfl) hclean h]
  rcases hopens with ⟨htop, hv⟩ | htop | htop
  · simp [parseChar, htop, hv]
  · simp [parseChar, htop]
  · simp [parseChar, htop]

theorem next_name (htop : jsonparseGetType st = 123) {name : Bytes} (hclean : Clean name)
    (h : json.drop st.pos = jsontreeWriteString (some name) ++ w) :
    jsonparseNext json st = some (78, afterString st 78 name) := by
  rw [jsontreeWriteString_append] at h
  rw [next_at h (by decide), ← atomic_string (.inr rfl) hclean h]
  simp [parseChar, htop]

theorem next_colon {tl : Bytes} (hstack : st.stack = 123 :: tl) (hname : st.vtype = 78)
    (h : json.drop st.pos = 58 :: w) :
    jsonparseNext json st =
      jsonparseNext json { st with pos := st.pos + 1, stack := 58 :: tl, vtype := 0 } := by
  have htop : jsonparseGetType st = 123 := by rw [jsonparseGetType, hstack]; rfl
  rw [next_at h (by decide)]
  simp [parseChar, htop, hname, ParseState.modify, hstack]

theorem next_comma_object {tl : Bytes} (hstack : st.stack = 58 :: tl) (hv : st.vtype ≠ 0)
    (h : json.drop st.pos = 44 :: w) :
    jsonparseNext json st =
      some (44, { st with pos := st.pos + 1, stack := 123 :: tl, vtype := 44 }) := by
  have htop : jsonparseGetType st = 58 := by rw [jsonparseGetType, hstack]; rfl
  rw [next_at h (by decide)]
  simp [parseChar, htop, hv, ParseState.modify, hstack]

theorem next_comma_array (htop : jsonparseGetType st = 91) (h : json.drop st.pos = 44 :: w) :
    jsonparseNext json st = some (44, { st with pos := st.pos + 1, vtype := 44 }) := by
  rw [next_at h (by decide)]
  simp [parseChar, htop]

/-- The number at `pos`, which is behind its first character. -/
theorem next_number (hst : ValueNext st) {ds : Bytes} (hc : c = 45 ∨ IsDigit c)
    (hds : ∀ d ∈ ds, IsDigit d) (hw : Ends w) (h : json.drop st.pos = c :: (ds ++ w)) :
    jsonparseNext json st =
      some (48, { st with
        pos := st.pos + (ds.length + 1), vstart := st.pos, vlen := ds.length + 1, vtype := 48 }) := by
  have hother : ∀ d ∈ [(123 : UInt8), 125, 93, 58, 44, 34, 91, 0, 32, 10], c ≠ d := by
    rintro d hd rfl
    rcases hc with rfl | hc
    · exact absurd hd (by decide)
    · have hnone : ∀ d ∈ [(123 : UInt8), 125, 93, 58, 44, 34, 91, 0, 32, 10],
          ¬(48 ≤ d.toNat ∧ d.toNat ≤ 57) := by simp
      exact hnone c hd hc
  have hnumber : c = 45 ∨ (c ≤ 57 ∧ 48 ≤ c) :=
    hc.imp_right fun h => ⟨UInt8.le_iff_toNat_le.mpr h.2, UInt8.le_iff_toNat_le.mpr h.1⟩
  have hvalue : jsonparseGetType st = 0 ∨ jsonparseGetType st = 58 ∨ jsonparseGetType st = 91 := by
    rcases hst with h | h | h
    · exact .inl h.1
    · exact .inr (.inr h.1)
    · exact .inr (.inl h.1)
  have hv : ¬(st.vtype ≠ 0 ∧ st.vtype ≠ 44) := by
    rcases hst with h | h | h
    · exact fun hv => hv.1 h.2
    · exact fun hv => h.2.elim hv.1 hv.2
    · exact fun hv => hv.1 h.2
  simp only [List.forall_mem_cons] at hother
  obtain ⟨h1, h2, h3, h4, h5, h6, h7, h8, h9, h10, -⟩ := hother
  rw [next_at h ⟨h9, h10⟩]
  simp only [parseChar, if_neg h1, if_neg h2, if_neg h3, if_neg h4, if_neg h5, if_neg h6,
    if_neg h7, if_neg h8, if_pos hvalue, if_neg hv, if_pos hnumber]
  have htake : ((json.drop (st.pos + 1)).takeWhile isNumberChar).length = ds.length := by
    have hdigits : ∀ d ∈ ds, isNumberChar d = true := fun d hd => by
      rw [isNumberChar, (hds d hd).decide]
      rfl
    rw [drop_succ h, hw.takeWhile (fun _ h => h) hdigits]
  have hlt : st.pos + 1 + ds.length < json.length := by
    obtain ⟨d, tl, rfl, -⟩ := hw
    have hlen := congrArg List.length h
    rw [List.length_drop, List.length_cons, List.length_append, List.length_cons] at hlen
    omega
  rw [atomic]
  simp only [htake, if_pos hlt]
  rw [if_neg (by decide), if_pos trivial, Nat.add_sub_cancel, Nat.add_assoc, Nat.add_comm 1]

theorem next_end (hstack : st.stack = []) (hv : st.vtype ≠ 0) (h : json.drop st.pos = 0 :: w) :
    jsonparseNext json st = some (0, { st with pos := st.pos + 1 }) := by
  rw [next_at h (by decide)]
  have htop : jsonparseGetType st = 0 := by rw [jsonparseGetType, hstack]; rfl
  simp [parseChar, hv, hstack]

/-! ## What is read at a step -/

/-- What a buffer of `size` bytes has room for. -/
def Reading.cut (size : Nat) (e : Reading) : Reading := { e with text := e.text.take (size - 1) }

theorem reading_sign (type : UInt8)
    (h : st.vtype = 0 ∨ st.vtype = 44 ∨ st.vtype = 58 ∨ st.vtype = 91 ∨ st.vtype = 123) :
    reading json size type st = some ((sign type).cut size) := by
  have hatomic : isAtomic st = false ∧ st.vtype ≠ 48 := by
    rw [isAtomic]
    rcases h with h | h | h | h | h <;> rw [h] <;> decide
  rw [reading, jsonparseCopyValue, hatomic.1, jsonparseGetValueAsInt, if_pos hatomic.2,
    Reading.cut, sign, List.take_nil]
  rfl

theorem reading_string (hsize : 0 < size) {type : UInt8} (htype : type = 34 ∨ type = 78)
    {text : Bytes} (hclean : Clean text) (h : json.drop st.pos = 34 :: (escaped text ++ 34 :: w)) :
    reading json size type (afterString st type text) =
      some (Reading.cut size ⟨type, text, some 0⟩) := by
  have hcopy : copyLoop (json.drop (afterString st type text).vstart)
      (afterString st type text).vlen (size - 1) = some (text.take (size - 1)) := by
    change copyLoop (json.drop (st.pos + 1)) _ _ = _
    rw [drop_succ h]
    exact copyLoop_escaped hclean _ _
  have hatomic : isAtomic (afterString st type text) = true ∧
      (afterString st type text).vtype ≠ 48 := by
    rcases htype with rfl | rfl
    · exact ⟨rfl, (by decide : (34 : UInt8) ≠ 48)⟩
    · exact ⟨rfl, (by decide : (78 : UInt8) ≠ 48)⟩
  rw [reading, jsonparseCopyValue, hatomic.1, if_pos rfl, if_neg (Nat.ne_of_gt hsize), hcopy,
    jsonparseGetValueAsInt, if_pos hatomic.2]
  rfl

/-- The digits and the sign of a number stand for themselves. -/
theorem escaped_number {text : Bytes} (h : ∀ c ∈ text, c = 45 ∨ IsDigit c) :
    escaped text = text ∧ Clean text := by
  have hnone : ∀ d ∈ [(0 : UInt8), 92, 34], ¬(d = 45 ∨ 48 ≤ d.toNat ∧ d.toNat ≤ 57) := by simp
  have hother : ∀ d ∈ [(0 : UInt8), 92, 34], ∀ c ∈ text, c ≠ d := by
    rintro d hd c hc rfl
    exact hnone c hd (h c hc)
  simp only [List.forall_mem_cons] at hother
  obtain ⟨hzero, hslash, hquote, -⟩ := hother
  refine ⟨?_, fun c hc => ⟨hzero c hc, hslash c hc⟩⟩
  have hself : ∀ c ∈ text, (if c = 34 then [92, c] else [c]) = [c] := fun c hc =>
    if_neg (hquote c hc)
  rw [escaped, List.flatMap_congr hself]
  exact List.flatMap_singleton' text

theorem reading_number (hsize : 0 < size) {text : Bytes} {number : Option Int}
    (htext : ∀ c ∈ text, c = 45 ∨ IsDigit c) (hvalue : atoi (text ++ w) = number)
    (hst : json.drop st.vstart = text ++ w) (hlen : st.vlen = text.length) (htype : st.vtype = 48) :
    reading json size 48 st = some (Reading.cut size ⟨48, text, number⟩) := by
  obtain ⟨hself, hclean⟩ := escaped_number htext
  have hcopy : copyLoop (json.drop st.vstart) st.vlen (size - 1) =
      some (text.take (size - 1)) := by
    have h := copyLoop_escaped hclean w (size - 1)
    rwa [hself, ← hst, ← hlen] at h
  have hatomic : isAtomic st = true := by
    rw [isAtomic, htype]
    rfl
  rw [reading, jsonparseCopyValue, hatomic, if_pos rfl, if_neg (Nat.ne_of_gt hsize), hcopy,
    jsonparseGetValueAsInt, htype, if_neg (not_not.mpr rfl), hst, hvalue]
  rfl

/-! ## Trees -/

/-- `n` characters later, behind a value, with `stack` open. -/
structure After (st : ParseState) (n : Nat) (stack : Bytes) (st' : ParseState) : Prop where
  pos : st'.pos = st.pos + n
  stack : st'.stack = stack
  vtype : st'.vtype ≠ 0 ∧ st'.vtype ≠ 44
  error : st'.error = st.error
  len : st'.len = st.len

/-- What the stack and the type of the last element are between the elements of an object
or an array. -/
inductive Inside : Bool → UInt8 → UInt8 → UInt8 → Prop
  | newObject : Inside true 125 123 0
  | object {v : UInt8} (hv : v ≠ 0 ∧ v ≠ 44) : Inside false 125 58 v
  | newArray : Inside true 93 91 0
  | array {v : UInt8} (hv : v ≠ 0 ∧ v ≠ 44) : Inside false 93 91 v

theorem Inside.top {first : Bool} {close top v : UInt8} (h : Inside first close top v) :
    close ≠ 0 ∧ (top = 0 ∨ top = 44 ∨ top = 58 ∨ top = 91 ∨ top = 123) ∧
      top ≠ 0 ∧ top ≠ 44 := by
  cases h <;> decide

theorem Inside.close {first : Bool} {close top v : UInt8} (h : Inside first close top v) :
    close = 125 ∨ close = 93 := by
  cases h
  · exact .inl rfl
  · exact .inl rfl
  · exact .inr rfl
  · exact .inr rfl

section Trees

variable {κ σ : Type} {output : κ → σ → Int → Called σ}

/-- Strings and names are read as they are. -/
def CleanAll (rs : List Reading) : Prop := ∀ r ∈ rs, Clean r.text

/-- What `Renders` says of a piece, in terms of the parser: the text of the piece is read as
its elements, wherever it stands in the text. -/
def ReadsPiece (json : Bytes) (size room : Nat) : Piece κ → Bytes → Prop
  | .value v, text => ∀ st w, json.drop st.pos = text ++ w → Ends w → ValueNext st →
      st.stack.length + room < JSONPARSE_MAX_DEPTH → CleanAll (readings v) →
      ∃ st', Reads json size st ((readings v).map (Reading.cut size)) st' ∧
        After st text.length st.stack st'
  | .elements first close l, text => ∀ st top tl w, json.drop st.pos = text ++ w →
      st.stack = top :: tl → Inside first close top st.vtype →
      (∀ e ∈ l, e.1.isSome = (close == 125)) → tl.length + room < JSONPARSE_MAX_DEPTH →
      CleanAll (separated first (l.map elementReadings)) →
      ∃ st', Reads json size st
        ((separated first (l.map elementReadings) ++ [sign close]).map (Reading.cut size)) st' ∧
        After st text.length tl st'

theorem reads_string (hsize : 0 < size) {value : Option Bytes} (hst : ValueNext st)
    (h : json.drop st.pos = jsontreeWriteString value ++ w) (hclean : Clean (value.getD [])) :
    ∃ st', Reads json size st [Reading.cut size ⟨34, value.getD [], some 0⟩] st' ∧
      After st (jsontreeWriteString value).length st.stack st' := by
  have hread : reading json size 34 (afterString st 34 (value.getD [])) =
      some (Reading.cut size ⟨34, value.getD [], some 0⟩) :=
    reading_string hsize (.inl rfl) hclean (h.trans (jsontreeWriteString_append value w))
  refine ⟨_, .one (next_string hst hclean h) (by decide) hread, ?_, rfl, ?_, rfl, rfl⟩
  · have hlen := congrArg List.length (jsontreeWriteString_append value [])
    rw [List.append_nil, List.length_cons, List.length_append, List.length_singleton] at hlen
    rw [hlen]
    rfl
  · exact ⟨(by decide : (34 : UInt8) ≠ 0), (by decide : (34 : UInt8) ≠ 44)⟩

theorem reads_number (hsize : 0 < size) {ds : Bytes} {number : Option Int} (hst : ValueNext st)
    (hc : c = 45 ∨ IsDigit c) (hds : ∀ d ∈ ds, IsDigit d) (hw : Ends w)
    (hvalue : atoi (c :: ds ++ w) = number) (h : json.drop st.pos = c :: ds ++ w) :
    ∃ st', Reads json size st [Reading.cut size ⟨48, c :: ds, number⟩] st' ∧
      After st (c :: ds).length st.stack st' := by
  have htext : ∀ d ∈ c :: ds, d = 45 ∨ IsDigit d :=
    List.forall_mem_cons.mpr ⟨hc, fun d hd => .inr (hds d hd)⟩
  refine ⟨_, .one (next_number hst hc hds hw h) (by decide) ?_, rfl, rfl, ?_, rfl, rfl⟩
  · exact reading_number hsize htext hvalue h rfl rfl
  · exact ⟨(by decide : (48 : UInt8) ≠ 0), (by decide : (48 : UInt8) ≠ 44)⟩

theorem reads_uint (hsize : 0 < size) (value : UInt32) (hst : ValueNext st) (hw : Ends w)
    (h : json.drop st.pos = jsontreeWriteUint value ++ w) :
    ∃ st', Reads json size st
        [Reading.cut size ⟨48, jsontreeWriteUint value, uintNumber value⟩] st' ∧
      After st (jsontreeWriteUint value).length st.stack st' := by
  have hvalue := atoi_uint value hw
  obtain ⟨c, ds, hcons, hc, hds⟩ := jsontreeWriteUint_digits value
  rw [hcons] at h hvalue ⊢
  exact reads_number hsize hst (.inr hc) hds hw hvalue h

theorem reads_int (hsize : 0 < size) (value : Int32) (hst : ValueNext st) (hw : Ends w)
    (h : json.drop st.pos = jsontreeWriteInt value ++ w) :
    ∃ st', Reads json size st
        [Reading.cut size ⟨48, jsontreeWriteInt value, some value.toInt⟩] st' ∧
      After st (jsontreeWriteInt value).length st.stack st' := by
  have hvalue := atoi_int value hw
  rw [jsontreeWriteInt] at h hvalue ⊢
  by_cases hneg : value < 0
  · obtain ⟨c, ds, hcons, hc, hds⟩ := jsontreeWriteUint_digits (-value).toUInt32
    rw [if_pos hneg, hcons] at h hvalue ⊢
    exact reads_number hsize hst (.inl rfl) (List.forall_mem_cons.mpr ⟨hc, hds⟩) hw hvalue h
  · obtain ⟨c, ds, hcons, hc, hds⟩ := jsontreeWriteUint_digits value.toUInt32
    rw [if_neg hneg, hcons] at h hvalue ⊢
    exact reads_number hsize hst (.inr hc) hds hw hvalue h

theorem next_close {first : Bool} {close top : UInt8} {tl : Bytes}
    (hin : Inside first close top st.vtype) (hstack : st.stack = top :: tl)
    (h : json.drop st.pos = close :: w) :
    jsonparseNext json st =
      some (close, { st with pos := st.pos + 1, stack := tl, vtype := top }) := by
  have htop : jsonparseGetType st = top := by rw [jsonparseGetType, hstack]; rfl
  generalize hv : st.vtype = v at hin
  cases hin with
  | newObject =>
    rw [next_at h (by decide)]
    simp [parseChar, htop, hv, ParseState.pop, hstack]
  | object hne =>
    rw [next_at h (by decide)]
    simp [parseChar, htop, hv, hne, ParseState.pop, hstack]
  | newArray =>
    rw [next_at h (by decide)]
    simp [parseChar, htop, hv, ParseState.pop, hstack]
  | array hne =>
    rw [next_at h (by decide)]
    simp [parseChar, htop, hv, hne, ParseState.pop, hstack]

/-- The end of an object or an array. -/
theorem reads_close {first : Bool} {close top : UInt8} {tl : Bytes}
    (hin : Inside first close top st.vtype) (hstack : st.stack = top :: tl)
    (h : json.drop st.pos = close :: w) :
    ∃ st', Reads json size st [(sign close).cut size] st' ∧ After st 1 tl st' := by
  have hnext := next_close hin hstack h
  obtain ⟨hclose, hsign, htop⟩ := hin.top
  exact ⟨_, .one hnext hclose (reading_sign close hsign), rfl, rfl, htop, rfl, rfl⟩

/-- Behind the comma, if there is one. -/
structure AtElement (st : ParseState) (close top : UInt8) : Prop where
  object : close = 125 → top = 123
  array : close = 93 → top = 91 ∧ (st.vtype = 0 ∨ st.vtype = 44)

theorem reads_comma {first : Bool} {close top : UInt8} {tl : Bytes}
    (hin : Inside first close top st.vtype) (hstack : st.stack = top :: tl)
    (h : json.drop st.pos = (if first then [] else [44]) ++ w) :
    ∃ st' top', Reads json size st
        ((if first then [] else [sign 44]).map (Reading.cut size)) st' ∧
      AtElement st' close top' ∧ st'.stack = top' :: tl ∧
      st'.pos = st.pos + (if first then [] else [(44 : UInt8)]).length ∧
      st'.error = st.error ∧ st'.len = st.len := by
  generalize hv : st.vtype = v at hin
  cases hin with
  | newObject =>
    exact ⟨st, 123, .nil st, ⟨fun _ => rfl, fun h => absurd h (by decide)⟩, hstack, rfl, rfl, rfl⟩
  | newArray =>
    exact ⟨st, 91, .nil st, ⟨fun h => absurd h (by decide), fun _ => ⟨rfl, .inl hv⟩⟩, hstack,
      rfl, rfl, rfl⟩
  | object hne =>
    have hnext := next_comma_object hstack (hv ▸ hne.1) h
    exact ⟨_, 123, .one hnext (by decide) (reading_sign 44 (.inr (.inl rfl))),
      ⟨fun _ => rfl, fun h => absurd h (by decide)⟩, rfl, rfl, rfl, rfl⟩
  | array hne =>
    have htop : jsonparseGetType st = 91 := by rw [jsonparseGetType, hstack]; rfl
    have hnext := next_comma_array htop h
    exact ⟨_, 91, .one hnext (by decide) (reading_sign 44 (.inr (.inl rfl))),
      ⟨fun h => absurd h (by decide), fun _ => ⟨rfl, .inr rfl⟩⟩, hstack, rfl, rfl, rfl⟩

/-- The name before a value, and its colon, which is passed when the value is read. -/
theorem reads_label (hsize : 0 < size) {close top : UInt8} {tl : Bytes} {name : Option Bytes}
    (hat : AtElement st close top) (hclose : close = 125 ∨ close = 93)
    (hname : name.isSome = (close == 125)) (hstack : st.stack = top :: tl)
    (hclean : ∀ text, name = some text → Clean text)
    (h : json.drop st.pos = label name ++ w) :
    ∃ st' top', ValueNext st' ∧ st'.stack = top' :: tl ∧ st'.pos = st.pos + (label name).length ∧
      (∀ v, v ≠ 0 ∧ v ≠ 44 → Inside false close top' v) ∧ st'.error = st.error ∧
      st'.len = st.len ∧
      ∀ rs st'', Reads json size st' rs st'' → st''.vtype ≠ 0 →
        Reads json size st ((name.toList.map fun text => Reading.cut size ⟨78, text, some 0⟩) ++ rs)
          st'' := by
  match name with
  | none =>
    have harray : close = 93 := by
      rcases hclose with rfl | rfl
      · exact absurd hname (by decide)
      · rfl
    obtain ⟨rfl, hv⟩ := hat.array harray
    have htop : jsonparseGetType st = 91 := by rw [jsonparseGetType, hstack]; rfl
    refine ⟨st, 91, .inr (.inl ⟨htop, hv⟩), hstack, rfl, fun v hv => ?_, rfl, rfl,
      fun rs st'' hread _ => hread⟩
    rw [harray]
    exact .array hv
  | some text =>
    have hobject : close = 125 := by
      rcases hclose with rfl | rfl
      · rfl
      · have hfalse : true = false := hname
        exact absurd hfalse (by decide)
    obtain rfl := hat.object hobject
    have htop : jsonparseGetType st = 123 := by rw [jsonparseGetType, hstack]; rfl
    have hw : json.drop st.pos = jsontreeWriteString (some text) ++ 58 :: w := by
      rw [h, label, List.append_assoc]
      rfl
    have hstring := jsontreeWriteString_append (some text) (58 :: w)
    have hread : reading json size 78 (afterString st 78 text) =
        some (Reading.cut size ⟨78, text, some 0⟩) :=
      reading_string hsize (.inr rfl) (hclean text rfl) (hw.trans hstring)
    have hnext := next_name htop (hclean text rfl) hw
    have hlen : (jsontreeWriteString (some text)).length = (escaped text).length + 2 := by
      have hlen := congrArg List.length (jsontreeWriteString_append (some text) [])
      rwa [List.append_nil, List.length_cons, List.length_append] at hlen
    have hdrop : json.drop (afterString st 78 text).pos = 58 :: w := by
      have hpos : (afterString st 78 text).pos =
          st.pos + (jsontreeWriteString (some text)).length := by
        rw [hlen]
        rfl
      exact drop_append hw hpos
    let st' : ParseState := { afterString st 78 text with
      pos := (afterString st 78 text).pos + 1, stack := 58 :: tl, vtype := 0 }
    have hcolon : jsonparseNext json (afterString st 78 text) = jsonparseNext json st' :=
      next_colon hstack rfl hdrop
    refine ⟨st', 58, .inr (.inr ⟨rfl, rfl⟩), rfl, ?_, fun v hv => ?_, rfl, rfl, ?_⟩
    · rw [label, List.length_append, hlen]
      rfl
    · rw [hobject]
      exact .object hv
    · intro rs st'' hrest hv
      refine .cons hnext (by decide) hread ?_
      cases hrest with
      | nil => exact absurd rfl hv
      | cons hnext' htype hread' hrest' => exact .cons (hcolon.trans hnext') htype hread' hrest'

/-- What follows a value in an object or an array. -/
theorem Renders.ends {room : Nat} {close : UInt8} {l : List (Option Bytes × JsonValue κ)}
    {s s' : σ} {text : Bytes} (h : Renders output room (.elements false close l) s s' text)
    (hclose : close = 125 ∨ close = 93) (w : Bytes) : Ends (text ++ w) := by
  cases h with
  | nil =>
    refine ⟨close, w, rfl, ?_⟩
    rcases hclose with rfl | rfl <;> decide
  | cons _ _ => exact ⟨44, _, rfl, by decide⟩

theorem After.trans {a b : ParseState} {n m : Nat} {stack : Bytes} {d : ParseState}
    (hpos : b.pos = a.pos + n) (herror : b.error = a.error) (hlen : b.len = a.len)
    (h : After b m stack d) : After a (n + m) stack d := by
  refine ⟨?_, h.stack, h.vtype, h.error.trans herror, h.len.trans hlen⟩
  rw [h.pos, hpos, Nat.add_assoc]

theorem elementReadings_cut (name : Option Bytes) (v : JsonValue κ) :
    (elementReadings (name, v)).map (Reading.cut size) =
      (name.toList.map fun text => Reading.cut size ⟨78, text, some 0⟩) ++
        (readings v).map (Reading.cut size) := by
  cases name <;> rfl

/-- An object or an array, from what is read between its brackets. -/
theorem reads_container {room : Nat} {close : UInt8} {l : List (Option Bytes × JsonValue κ)}
    {text : Bytes} (ih : ReadsPiece json size room (.elements true close l) text)
    (hin : Inside true close c 0) (hnames : ∀ e ∈ l, e.1.isSome = (close == 125))
    (h : json.drop st.pos = c :: text ++ w) (hnext : ValueNext st)
    (hdepth : st.stack.length + room < JSONPARSE_MAX_DEPTH)
    (hclean : CleanAll (sign c :: (separated true (l.map elementReadings) ++ [sign close]))) :
    ∃ st', Reads json size st ((sign c ::
        (separated true (l.map elementReadings) ++ [sign close])).map (Reading.cut size)) st' ∧
      After st (c :: text).length st.stack st' := by
  have hc : (c = 123 ∨ c = 91) ∧ c ≠ 0 := by
    cases hin <;> decide
  have hopen := next_open hnext h hc.1 (by omega)
  have hinner : CleanAll (separated true (l.map elementReadings)) := fun r hr =>
    hclean r (List.mem_cons_of_mem _ (List.mem_append_left _ hr))
  obtain ⟨st', hreads, hafter⟩ := ih { st with pos := st.pos + 1, stack := c :: st.stack, vtype := 0 }
    c st.stack w (drop_succ h) rfl hin hnames hdepth hinner
  refine ⟨st', .cons hopen hc.2 (reading_sign c (.inl rfl)) hreads, ?_⟩
  rw [List.length_cons, Nat.add_comm]
  refine After.trans ?_ ?_ ?_ hafter
  all_goals rfl

theorem Renders.reads [IsEmpty κ] (hsize : 0 < size) {room : Nat} {piece : Piece κ} {s s' : σ}
    {text : Bytes} (h : Renders output room piece s s' text) :
    ReadsPiece json size room piece text := by
  induction h with
  | string _ _ value =>
    intro st w hst _ hnext _ hclean
    rw [readings] at hclean ⊢
    exact reads_string hsize hnext hst (hclean _ List.mem_cons_self)
  | uint _ _ value | uptr _ _ value =>
    intro st w hst hw hnext _ _
    rw [readings]
    exact reads_uint hsize value hnext hw hst
  | int _ _ value | sptr _ _ value =>
    intro st w hst hw hnext _ _
    rw [readings]
    exact reads_int hsize value hnext hw hst
  | noCallback =>
    intro st w hst _ hnext _ hclean
    rw [readings] at hclean ⊢
    exact reads_string hsize hnext hst (hclean _ List.mem_cons_self)
  | @callback _ _ _ cb => exact isEmptyElim cb
  | object _ _ ih =>
    intro st w hst _ hnext hdepth hclean
    rw [readings_object] at hclean ⊢
    refine reads_container ih .newObject (fun e he => ?_) hst hnext hdepth hclean
    obtain ⟨p, -, rfl⟩ := List.mem_map.mp he
    rfl
  | array _ _ ih =>
    intro st w hst _ hnext hdepth hclean
    rw [readings_array] at hclean ⊢
    refine reads_container ih .newArray (fun e he => ?_) hst hnext hdepth hclean
    obtain ⟨v, -, rfl⟩ := List.mem_map.mp he
    rfl
  | nil =>
    intro st top tl w hst hstack hin _ _ _
    exact reads_close hin hstack hst
  | @cons room _ _ _ first close name v l text rest hv hrest ihv ihrest =>
    intro st top tl w hst hstack hin hnames hdepth hclean
    rw [List.append_assoc] at hst
    obtain ⟨st₁, top₁, hcomma, hat, hstack₁, hpos₁, herror₁, hlen₁⟩ := reads_comma hin hstack hst
    rw [List.map_cons, separated] at hclean ⊢
    have hst₁ : json.drop st₁.pos = label name ++ (text ++ (rest ++ w)) := by
      rw [drop_append hst hpos₁, List.append_assoc, List.append_assoc]
    have helement : CleanAll (elementReadings (name, v)) := fun r hr =>
      hclean r (List.mem_append_right _ (List.mem_append_left _ hr))
    have hothers : CleanAll (separated false (l.map elementReadings)) := fun r hr =>
      hclean r (List.mem_append_right _ (List.mem_append_right _ hr))
    have hname : ∀ t, name = some t → Clean t := by
      rintro t rfl
      exact helement ⟨78, t, some 0⟩ (List.mem_append_left _ List.mem_cons_self)
    have hvalueClean : CleanAll (readings v) := fun r hr =>
      helement r (List.mem_append_right _ hr)
    have hsome : name.isSome = (close == 125) := hnames _ List.mem_cons_self
    obtain ⟨st₂, top₂, hnext, hstack₂, hpos₂, hinside, herror₂, hlen₂, hlabel⟩ :=
      reads_label hsize hat hin.close hsome hstack₁ hname hst₁
    have hst₂ := drop_append hst₁ hpos₂
    have hroom : st₂.stack.length + room < JSONPARSE_MAX_DEPTH := by
      rw [hstack₂, List.length_cons]
      omega
    obtain ⟨st₃, hvalue, hafter⟩ := ihv st₂ (rest ++ w) hst₂ (hrest.ends hin.close w) hnext hroom
      hvalueClean
    have hst₃ := drop_append hst₂ hafter.pos
    obtain ⟨st₄, hlast, hafter₄⟩ := ihrest st₃ top₂ tl w hst₃ (hafter.stack.trans hstack₂)
      (hinside _ hafter.vtype) (fun e he => hnames e (List.mem_cons_of_mem _ he)) hdepth hothers
    refine ⟨st₄, ?_, ?_⟩
    · have hall := hcomma.append ((hlabel _ st₃ hvalue hafter.vtype.1).append hlast)
      rw [List.map_append, List.map_append, List.map_append, elementReadings_cut]
      simpa only [List.append_assoc, List.map_append] using hall
    · have hpos : st₃.pos = st.pos + ((if first then [] else [(44 : UInt8)]).length +
          ((label name).length + text.length)) := by
        rw [hafter.pos, hpos₂, hpos₁]
        omega
      have herror : st₃.error = st.error := hafter.error.trans (herror₂.trans herror₁)
      have hlen : st₃.len = st.len := hafter.len.trans (hlen₂.trans hlen₁)
      have htotal := hafter₄.trans hpos herror hlen
      rwa [Nat.add_assoc, Nat.add_assoc, ← List.length_append, ← List.length_append,
        ← List.length_append] at htotal

/-- The whole text of a tree, and the NUL behind it. -/
theorem Renders.readAll [IsEmpty κ] (hsize : 0 < size) {room : Nat} {tree : JsonValue κ} {s s' : σ}
    {text : Bytes} (h : Renders output room (.value tree) s s' text)
    (hroom : room < JSONPARSE_MAX_DEPTH) (hclean : CleanAll (readings tree)) (len fuel : Nat)
    (st : ParseState) :
    ∃ st', Json.readAll (text ++ [0]) size ((readings tree).length + 1 + fuel)
        (jsonparseSetup len st) = some ((readings tree).map (Reading.cut size), st') ∧
      st'.error = .ok ∧ st'.stack = [] ∧ st'.pos = text.length + 1 ∧ st'.len = len := by
  have hnext : ValueNext (jsonparseSetup len st) := .inl ⟨rfl, rfl⟩
  have hdepth : (jsonparseSetup len st).stack.length + room < JSONPARSE_MAX_DEPTH := by
    change 0 + room < _
    omega
  obtain ⟨st₁, hreads, hafter⟩ := h.reads hsize (jsonparseSetup len st) [0] rfl
    ⟨0, [], rfl, by decide⟩ hnext hdepth hclean
  have hpos : st₁.pos = text.length := hafter.pos.trans (Nat.zero_add _)
  have hdrop : (text ++ [0]).drop st₁.pos = [0] := by rw [hpos, List.drop_left]
  have hend := next_end hafter.stack hafter.vtype.1 hdrop
  refine ⟨{ st₁ with pos := st₁.pos + 1 }, ?_, hafter.error, hafter.stack, ?_, hafter.len⟩
  · have hall := hreads.readAll (1 + fuel)
    rw [List.length_map] at hall
    rw [Nat.add_assoc, hall, Nat.add_comm 1, Json.readAll, hend]
    simp
  · rw [hpos]

/-- A reader of the text that `json_print`, with memory for its buffer, gives sees the tree
that was printed, each text up to the size of its own buffer, and no error.  Of an unsigned
value above `INT_MAX` it sees no number. -/
theorem jsonPrint_readAll [IsEmpty κ] (hsize : 0 < size) {room : Nat} {tree : JsonValue κ}
    {path : Bytes} {s s' : σ} {text : Bytes}
    (hfind : findJsonPath (jsontreeReset tree ⟨[], 0, 0⟩) path ≠ none)
    (h : Renders output room (.value tree) s s' text) (hroom : room < JSONTREE_MAX_DEPTH)
    (hlen : text.length < JSON_BUFF_SZ) (hclean : CleanAll (readings tree)) :
    ∃ n, ∀ fuel mem, ∃ printed,
      jsonPrint output (n + fuel) tree path s true mem = some printed ∧
      ∀ st, ∃ st', Json.readAll (printed.string ++ [0]) size ((readings tree).length + 1 + fuel)
          (jsonparseSetup printed.string.length st) =
            some ((readings tree).map (Reading.cut size), st') ∧
        st'.error = .ok ∧ st'.stack = [] ∧ jsonparseHasNext st' = false := by
  obtain ⟨n, hn⟩ := jsonPrint_renders hfind h hroom hlen
  refine ⟨n, fun fuel mem => ?_⟩
  obtain ⟨printed, hprint, hsends⟩ := hn fuel mem
  refine ⟨printed, hprint, fun st => ?_⟩
  rw [hsends.string]
  obtain ⟨st', hread, herror, hstack, hpos, hlen⟩ :=
    h.readAll hsize hroom hclean text.length fuel st
  refine ⟨st', hread, herror, hstack, decide_eq_false ?_⟩
  rw [hpos, hlen]
  omega

end Trees

/-- `{"a\"":[-5,7],"b":""}` -/
def pairsTree : JsonValue Empty :=
  .object [([97, 34], .array [.int (-5), .uint 7]), ([98], .string none)]

def pairsText : Bytes :=
  [123, 34, 97, 92, 34, 34, 58, 91, 45, 53, 44, 55, 93, 44, 34, 98, 34, 58, 34, 34, 125]

theorem pairs_renders : Renders noCallback 2 (.value pairsTree) () () pairsText := by
  have harray : Renders noCallback 1 (.value (.array [.int (-5), .uint 7])) () ()
      [91, 45, 53, 44, 55, 93] :=
    .array (by decide) (.cons (.int 0 () (-5)) (.cons (.uint 0 () 7) (.nil 1 () false 93)))
  exact .object (by decide) (.cons harray (.cons (.string 1 () none) (.nil 2 () false 125)))

theorem pairs_readings : readings pairsTree =
    [sign 123, ⟨78, [97, 34], some 0⟩, sign 91, ⟨48, [45, 53], some (-5)⟩, sign 44,
      ⟨48, [55], some 7⟩, sign 93, sign 44, ⟨78, [98], some 0⟩, ⟨34, [], some 0⟩, sign 125] := by
  simp only [pairsTree, readings, List.map_cons, List.map_nil, separated]
  rfl

theorem pairs_readAll : ∃ n, ∀ fuel mem, ∃ printed,
    jsonPrint noCallback (n + fuel) pairsTree [] () true mem = some printed ∧
    ∀ st, ∃ st', readAll (printed.string ++ [0]) 64 ((readings pairsTree).length + 1 + fuel)
        (jsonparseSetup printed.string.length st) =
          some ((readings pairsTree).map (Reading.cut 64), st') ∧
      st'.error = .ok ∧ st'.stack = [] ∧ jsonparseHasNext st' = false :=
  jsonPrint_readAll (by decide) (by decide) pairs_renders (by decide) (by decide)
    (by rw [CleanAll, pairs_readings]; decide)

end Json
end EspMisc
