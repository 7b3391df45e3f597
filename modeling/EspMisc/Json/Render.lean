/-
What a tree prints.

The printer goes through a tree with a stack of values and indices, one part of the text
at a time.  `Renders` says what the text of a tree is, by recursion on the tree; a callback
that asks to be called again goes on where it stopped.  `printLoop_renders` says that the
steps of the printer write that text, for any tree that is not too deep for the stack.
-/
import EspMisc.Json.Buffer

namespace EspMisc
namespace Json

variable {κ σ : Type}

/-- What a callback writes until it does not ask for more.  `callback_state` starts at 0
whenever the index is 0. -/
inductive CallbackWrites (output : κ → σ → Int → Called σ) (cb : κ) :
    UInt16 → Int → σ → σ → Bytes → Prop
  | last {index : UInt16} {state : Int} {st : σ}
      (h : (output cb st (if index = 0 then 0 else state)).ret = 0) :
      CallbackWrites output cb index state st (output cb st (if index = 0 then 0 else state)).st
        (output cb st (if index = 0 then 0 else state)).emitted
  | more {index : UInt16} {state : Int} {st st' : σ} {text : Bytes}
      (h : (output cb st (if index = 0 then 0 else state)).ret ≠ 0)
      (hrest : CallbackWrites output cb (index + 1)
        (output cb st (if index = 0 then 0 else state)).callbackState
        (output cb st (if index = 0 then 0 else state)).st st' text) :
      CallbackWrites output cb index state st st'
        ((output cb st (if index = 0 then 0 else state)).emitted ++ text)

/-- A value, or the elements of one that are still to come, each with its name if it has
one, and with what closes them. -/
inductive Piece (κ : Type)
  | value (v : JsonValue κ)
  | elements (first : Bool) (close : UInt8) (l : List (Option Bytes × JsonValue κ))

/-- What stands before the value of an element. -/
def label : Option Bytes → Bytes
  | none => []
  | some name => jsontreeWriteString (some name) ++ [58]

def members (pairs : List (Bytes × JsonValue κ)) : List (Option Bytes × JsonValue κ) :=
  pairs.map fun p => (some p.1, p.2)

def items (values : List (JsonValue κ)) : List (Option Bytes × JsonValue κ) :=
  values.map fun ov => (none, ov)

/-- The text of a piece that has at most `room` levels below it. -/
inductive Renders (output : κ → σ → Int → Called σ) : Nat → Piece κ → σ → σ → Bytes → Prop
  | string (room : Nat) (st : σ) (value : Option Bytes) :
      Renders output room (.value (.string value)) st st (jsontreeWriteString value)
  | uint (room : Nat) (st : σ) (value : UInt32) :
      Renders output room (.value (.uint value)) st st (jsontreeWriteUint value)
  | uptr (room : Nat) (st : σ) (value : UInt32) :
      Renders output room (.value (.uptr value)) st st (jsontreeWriteUint value)
  | int (room : Nat) (st : σ) (value : Int32) :
      Renders output room (.value (.int value)) st st (jsontreeWriteInt value)
  | sptr (room : Nat) (st : σ) (value : Int32) :
      Renders output room (.value (.sptr value)) st st (jsontreeWriteInt value)
  | noCallback (room : Nat) (st : σ) :
      Renders output room (.value (.callback none)) st st (jsontreeWriteString (some []))
  | callback {room : Nat} {st st' : σ} {cb : κ} {text : Bytes}
      (h : ∀ state, CallbackWrites output cb 0 state st st' text) :
      Renders output room (.value (.callback (some cb))) st st' text
  | object {room : Nat} {st st' : σ} {pairs : List (Bytes × JsonValue κ)} {text : Bytes}
      (hcount : pairs.length < 256)
      (h : Renders output room (.elements true 125 (members pairs)) st st' text) :
      Renders output room (.value (.object pairs)) st st' (123 :: text)
  | array {room : Nat} {st st' : σ} {values : List (JsonValue κ)} {text : Bytes}
      (hcount : values.length < 256)
      (h : Renders output room (.elements true 93 (items values)) st st' text) :
      Renders output room (.value (.array values)) st st' (91 :: text)
  | nil (room : Nat) (st : σ) (first : Bool) (close : UInt8) :
      Renders output room (.elements first close []) st st [close]
  | cons {room : Nat} {st st' st'' : σ} {first : Bool} {close : UInt8}
      {name : Option Bytes} {v : JsonValue κ} {l : List (Option Bytes × JsonValue κ)}
      {text rest : Bytes}
      (h : Renders output room (.value v) st st' text)
      (hrest : Renders output (room + 1) (.elements false close l) st' st'' rest) :
      Renders output (room + 1) (.elements first close ((name, v) :: l)) st st''
        ((if first then [] else [44]) ++ (label name ++ (text ++ rest)))

section Run

variable {output : κ → σ → Int → Called σ}

/-- What the loop does once a value is printed: the next index of the value above it, if
there is one and it is in the part of the tree that is printed. -/
def resume (output : κ → σ → Int → Called σ) (fuel : Nat) (frames : List (JsonValue κ × UInt16))
    (path : UInt8) (state : Int) (st : σ) (text : Bytes) : Option (σ × Bytes) :=
  match frames with
  | [] => some (st, text)
  | (u, i) :: rest =>
    if path.toNat ≤ rest.length then
      (printLoop output fuel ⟨(u, i + 1) :: rest, path, state⟩ st).map fun r => (r.1, text ++ r.2)
    else some (st, text)

/-- After some steps the loop has written `text` and is done with the value on top. -/
def Prints (output : κ → σ → Int → Called σ) (js : Context κ) (st : σ)
    (frames : List (JsonValue κ × UInt16)) (st' : σ) (text : Bytes) : Prop :=
  ∃ n state, ∀ fuel, printLoop output (n + fuel) js st =
    resume output fuel frames js.path state st' text

theorem resume_append (fuel : Nat) (frames : List (JsonValue κ × UInt16)) (path : UInt8)
    (state : Int) (st : σ) (text more : Bytes) :
    (resume output fuel frames path state st more).map (fun r => (r.1, text ++ r.2)) =
      resume output fuel frames path state st (text ++ more) := by
  unfold resume
  cases frames with
  | nil => rfl
  | cons top rest =>
    by_cases hpath : path.toNat ≤ rest.length
    · simp only [if_pos hpath, Option.map_map]
      congr 1
      funext r
      rw [Function.comp_apply, List.append_assoc]
    · simp only [if_neg hpath]
      rfl

/-- The step that ends a value. -/
theorem Prints.finished {js : Context κ} {st st' : σ} {v : JsonValue κ} {index : UInt16}
    {frames : List (JsonValue κ × UInt16)} {path : UInt8} {state : Int} {text : Bytes}
    (hpath : js.path = path)
    (h : jsontreePrintNext output js st =
      some (Json.finished ⟨(v, index) :: frames, path, state⟩ st' text)) :
    Prints output js st frames st' text := by
  refine ⟨1, state, fun fuel => ?_⟩
  rw [Nat.add_comm, printLoop, h, Option.bind_some, hpath]
  unfold Json.finished Context.backUp resume
  cases frames with
  | nil => rfl
  | cons top rest =>
    by_cases hin : path.toNat ≤ rest.length
    · simp only [if_pos hin]
      exact if_pos ⟨trivial, hin⟩
    · simp only [if_neg hin]
      exact if_neg fun hmore => hin hmore.2

/-- A step that goes on, and then what follows. -/
theorem Prints.next {js : Context κ} {st st' : σ} {p : Printed κ σ}
    {frames : List (JsonValue κ × UInt16)} {text : Bytes}
    (h : jsontreePrintNext output js st = some p)
    (hmore : p.more = true ∧ p.js.path.toNat ≤ p.js.depth) (hpath : p.js.path = js.path)
    (hrest : Prints output p.js p.st frames st' text) :
    Prints output js st frames st' (p.emitted ++ text) := by
  obtain ⟨n, state, hn⟩ := hrest
  refine ⟨n + 1, state, fun fuel => ?_⟩
  rw [Nat.add_right_comm, printLoop_next h hmore, hn, resume_append, hpath]

/-- A value below one that is in the part that is printed, and then what is left of that
one. -/
theorem Prints.append {js : Context κ} {st st' st'' : σ} {u : JsonValue κ} {i : UInt16}
    {frames : List (JsonValue κ × UInt16)} {text rest : Bytes}
    (hpath : js.path.toNat ≤ frames.length)
    (h : Prints output js st ((u, i) :: frames) st' text)
    (hrest : ∀ state, Prints output ⟨(u, i + 1) :: frames, js.path, state⟩ st' frames st'' rest) :
    Prints output js st frames st'' (text ++ rest) := by
  obtain ⟨n, state, hn⟩ := h
  obtain ⟨m, state', hm⟩ := hrest state
  refine ⟨n + m, state', fun fuel => ?_⟩
  rw [Nat.add_assoc, hn, resume, if_pos hpath, hm, resume_append]

/-- `u` is printed as the elements `all`, between `close - 2` and `close`. -/
def HasElements (output : κ → σ → Int → Called σ) (u : JsonValue κ) (close : UInt8)
    (all : List (Option Bytes × JsonValue κ)) : Prop :=
  ∀ i frames path state st,
    jsontreePrintNext output ⟨(u, i) :: frames, path, state⟩ st =
      printElements ⟨(u, i) :: frames, path, state⟩ st (close - 2) i
        (all.map fun e => (label e.1, e.2))

theorem hasElements_object (pairs : List (Bytes × JsonValue κ)) :
    HasElements output (.object pairs) 125 (members pairs) := by
  intro i frames path state st
  rw [members, List.map_map]
  rfl

theorem hasElements_array (values : List (JsonValue κ)) :
    HasElements output (.array values) 93 (items values) := by
  intro i frames path state st
  rw [items, List.map_map]
  rfl

variable {u v : JsonValue κ} {close : UInt8} {all l : List (Option Bytes × JsonValue κ)}
  {i : UInt16} {frames : List (JsonValue κ × UInt16)} {path : UInt8} {state : Int}

/-- The step after the last element. -/
theorem HasElements.closing (hu : HasElements output u close all) (hcount : all.length < 256)
    (hi : all.drop i.toNat = []) (st : σ) :
    jsontreePrintNext output ⟨(u, i) :: frames, path, state⟩ st =
      some (Json.finished ⟨(u, i) :: frames, path, state⟩ st
        ((if i = 0 then [close - 2] else []) ++ [close])) := by
  have hle : all.length ≤ i.toNat := List.drop_eq_nil_iff.mp hi
  have hmod : (UInt8.ofNat all.length).toNat = all.length := by
    rw [UInt8.toNat_ofNat']
    exact Nat.mod_eq_of_lt hcount
  have hclose : close - 2 + 2 = close := by rw [UInt8.sub_add_cancel]
  rw [hu, printElements, List.length_map, hmod, if_pos hle, hclose]

/-- The step down to an element. -/
theorem HasElements.element (hu : HasElements output u close all) (hcount : all.length < 256)
    {name : Option Bytes} (hi : all.drop i.toNat = (name, v) :: l)
    (hdepth : frames.length + 1 < JSONTREE_MAX_DEPTH) (st : σ) :
    jsontreePrintNext output ⟨(u, i) :: frames, path, state⟩ st =
      some ⟨true, ⟨(v, 0) :: (u, i) :: frames, path, state⟩, st,
        (if i = 0 then [close - 2] else []) ++ (if i = 0 then [] else [44]) ++ label name⟩ := by
  have hlt : i.toNat < all.length :=
    List.length_lt_of_drop_ne_nil (by rw [hi]; exact List.cons_ne_nil _ _)
  have hmod : (UInt8.ofNat all.length).toNat = all.length := by
    rw [UInt8.toNat_ofNat']
    exact Nat.mod_eq_of_lt hcount
  have hget : (all.map fun e => (label e.1, e.2))[i.toNat]? = some (label name, v) := by
    rw [List.getElem?_map, ← List.head?_drop, hi]
    rfl
  have hcomma : (if i > 0 then [(44 : UInt8)] else []) = if i = 0 then [] else [44] := by
    by_cases hzero : i = 0
    · subst hzero
      rfl
    · rw [if_neg hzero, if_pos (UInt16.pos_iff_ne_zero.mpr hzero)]
  rw [hu, printElements, List.length_map, hmod, if_neg (Nat.not_le.mpr hlt), hget, hcomma]
  simp only [Context.descend, List.length_cons, if_pos hdepth, Option.map_some]

/-- A callback that asks to be called again. -/
theorem printNext_callback_more {cb : κ} {st : σ} {called : Called σ}
    (h : output cb st (if i = 0 then 0 else state) = called) (hret : called.ret ≠ 0) :
    jsontreePrintNext output ⟨(.callback (some cb), i) :: frames, path, state⟩ st =
      some ⟨true, ⟨(.callback (some cb), i + 1) :: frames, path, called.callbackState⟩,
        called.st, called.emitted⟩ := by
  subst h
  by_cases hzero : i = 0
  · simp only [if_pos hzero] at hret ⊢
    simp only [jsontreePrintNext, printCallback, if_pos hzero, if_pos hret]
  · simp only [if_neg hzero] at hret ⊢
    simp only [jsontreePrintNext, printCallback, if_neg hzero, if_pos hret]

/-- A callback that is done. -/
theorem printNext_callback_last {cb : κ} {st : σ} {called : Called σ}
    (h : output cb st (if i = 0 then 0 else state) = called) (hret : called.ret = 0) :
    jsontreePrintNext output ⟨(.callback (some cb), i) :: frames, path, state⟩ st =
      some (Json.finished ⟨(.callback (some cb), i) :: frames, path, called.callbackState⟩
        called.st called.emitted) := by
  subst h
  by_cases hzero : i = 0
  · simp only [if_pos hzero] at hret ⊢
    simp only [jsontreePrintNext, printCallback, if_pos hzero, if_neg (not_not.mpr hret)]
  · simp only [if_neg hzero] at hret ⊢
    simp only [jsontreePrintNext, printCallback, if_neg hzero, if_neg (not_not.mpr hret)]

/-- A callback is called until it does not ask for more. -/
theorem CallbackWrites.prints {cb : κ} {st st' : σ} {text : Bytes}
    (h : CallbackWrites output cb i state st st' text) (hpath : path.toNat ≤ frames.length) :
    Prints output ⟨(.callback (some cb), i) :: frames, path, state⟩ st frames st' text := by
  induction h with
  | last h => exact Prints.finished rfl (printNext_callback_last rfl h)
  | more h _ ih =>
    have hstep := @printNext_callback_more _ _ output _ frames path _ cb _ _ rfl h
    exact Prints.next hstep ⟨rfl, hpath⟩ rfl ih

/-- What `Renders` says of a piece, in terms of the steps: the loop writes the text wherever
the piece stands on the stack, provided that there is room below it. -/
def PrintsPiece (output : κ → σ → Int → Called σ) (room : Nat) :
    Piece κ → σ → σ → Bytes → Prop
  | .value v, st, st', text => ∀ frames path state, frames.length + room < JSONTREE_MAX_DEPTH →
      path.toNat ≤ frames.length →
      Prints output ⟨(v, 0) :: frames, path, state⟩ st frames st' text
  | .elements first close l, st, st', text => ∀ u all i frames path state,
      HasElements output u close all → all.length < 256 → all.drop i.toNat = l →
      (first = true ↔ i = 0) → frames.length + room < JSONTREE_MAX_DEPTH →
      path.toNat ≤ frames.length →
      Prints output ⟨(u, i) :: frames, path, state⟩ st frames st'
        ((if first then [close - 2] else []) ++ text)

theorem Renders.prints {room : Nat} {piece : Piece κ} {st st' : σ} {text : Bytes}
    (h : Renders output room piece st st' text) : PrintsPiece output room piece st st' text := by
  induction h with
  | string | uint | uptr | int | sptr | noCallback =>
    intro frames path state _ _
    exact Prints.finished rfl rfl
  | callback h =>
    intro frames path state _ hpath
    exact (h state).prints hpath
  | object hcount _ ih =>
    intro frames path state hroom hpath
    refine ih _ _ 0 frames path state (hasElements_object _) ?_ rfl (by decide) hroom hpath
    rw [members, List.length_map]
    exact hcount
  | array hcount _ ih =>
    intro frames path state hroom hpath
    refine ih _ _ 0 frames path state (hasElements_array _) ?_ rfl (by decide) hroom hpath
    rw [items, List.length_map]
    exact hcount
  | nil room st first close =>
    intro u all i frames path state hu hcount hi hfirst _ _
    have hif : (if first then [close - 2] else []) = if i = 0 then [close - 2] else [] := by
      simp only [hfirst]
    rw [hif]
    exact Prints.finished rfl (hu.closing hcount hi st)
  | @cons room st st' st'' first close name v l text rest _ _ ih ihrest =>
    intro u all i frames path state hu hcount hi hfirst hroom hpath
    have hlt : i.toNat < all.length :=
      List.length_lt_of_drop_ne_nil (by rw [hi]; exact List.cons_ne_nil _ _)
    have hnext : (i + 1).toNat = i.toNat + 1 := by
      rw [UInt16.toNat_add]
      exact Nat.mod_eq_of_lt (by change i.toNat + 1 < 65536; omega)
    have hdrop : all.drop (i + 1).toNat = l := by
      rw [hnext, ← List.drop_drop, hi]
      rfl
    have hmoved : false = true ↔ i + 1 = 0 := by
      refine ⟨fun h => absurd h (by decide), fun h => ?_⟩
      rw [h] at hnext
      exact absurd hnext (by simp)
    have hvalue := ih ((u, i) :: frames) path state (by rw [List.length_cons]; omega)
      (by rw [List.length_cons]; omega)
    have hboth := hvalue.append hpath fun state' =>
      ihrest u all (i + 1) frames path state' hu hcount hdrop hmoved hroom hpath
    have hdepth : frames.length + 1 < JSONTREE_MAX_DEPTH := by omega
    have hbelow : path.toNat ≤ (⟨(v, 0) :: (u, i) :: frames, path, state⟩ : Context κ).depth := by
      rw [Context.depth, List.length_cons, List.length_cons]
      omega
    have hall := Prints.next (hu.element hcount hi hdepth st) ⟨rfl, hbelow⟩ rfl hboth
    have htext : (if first then [close - 2] else []) ++
        ((if first then [] else [44]) ++ (label name ++ (text ++ rest))) =
        (if i = 0 then [close - 2] else []) ++ (if i = 0 then [] else [44]) ++ label name ++
          (text ++ ((if false = true then [close - 2] else []) ++ rest)) := by
      simp only [hfirst, List.append_assoc, Bool.false_eq_true, if_false, List.nil_append]
    rw [htext]
    exact hall

/-- The loop stops after the value at which it started when `path` is its depth. -/
theorem Renders.printLoop {room : Nat} {st st' : σ} {text : Bytes}
    (h : Renders output room (.value v) st st' text)
    (hroom : frames.length + room < JSONTREE_MAX_DEPTH) (hpath : path.toNat = frames.length)
    (state : Int) :
    ∃ n, ∀ fuel, Json.printLoop output (n + fuel) ⟨(v, 0) :: frames, path, state⟩ st =
      some (st', text) := by
  obtain ⟨n, state', hn⟩ := h.prints frames path state hroom (Nat.le_of_eq hpath)
  refine ⟨n, fun fuel => (hn fuel).trans ?_⟩
  unfold resume
  cases frames with
  | nil => rfl
  | cons top rest =>
    refine if_neg ?_
    rw [hpath, List.length_cons]
    omega

end Run

/-! ## What is sent -/

/-- What is left in the buffer of the characters that were written, and the copy. -/
def copied (allocated : Bool) (mem : Nat → UInt8) (r : σ × Bytes) : JsonPrinted σ :=
  let buf := r.2.foldl jsonPutchar ⟨allocated, 0, JSON_BUFF_SZ, mem, []⟩
  let buf := buf.store 0
  { st := r.1, buf := buf, string := (List.range buf.pos).map buf.mem, pos := buf.pos }

/-- `json_ws_send` goes on from where `path` leads, and does not go back to the root. -/
def jsonWsSend (output : κ → σ → Int → Called σ) (fuel : Nat) (tree : JsonValue κ) (path : Bytes)
    (st : σ) (allocated : Bool) (mem : Nat → UInt8) : Option (JsonPrinted σ) :=
  let js := jsontreeReset tree { frames := [], path := 0, callbackState := 0 }
  (findJsonPath js path).bind fun found =>
    let js := { found.1 with path := UInt8.ofNat found.1.depth }
    (printLoop output fuel js st).map (copied allocated mem)

/-- The copy is the whole text, and nothing was written outside of the buffer. -/
structure Sends (printed : JsonPrinted σ) (st : σ) (text : Bytes) : Prop where
  st : printed.st = st
  string : printed.string = text
  writes : ∀ i ∈ printed.buf.writes, i < JSON_BUFF_SZ

theorem copied_sends {text : Bytes} (hlen : text.length < JSON_BUFF_SZ) (st : σ)
    (mem : Nat → UInt8) : Sends (copied true mem (st, text)) st text := by
  have hempty : Filled (List.take (JSON_BUFF_SZ + 1) []) ⟨true, 0, JSON_BUFF_SZ, mem, []⟩ :=
    ⟨rfl, rfl, rfl, rfl, nofun⟩
  have hfilled := hempty.print text
  rw [List.nil_append, List.take_of_length_le (by omega)] at hfilled
  refine ⟨rfl, hfilled.string, fun i hi => ?_⟩
  have hwrites : (copied true mem (st, text)).buf.writes = List.range (text ++ [0]).length :=
    (hfilled.store 0).writes
  rw [hwrites, List.mem_range, List.length_append, List.length_singleton] at hi
  omega

/-- A path leads to a value at its first index, which is the one that is returned. -/
theorem followPath_frames {parts : List Bytes} {js js' : Context κ} {v : JsonValue κ}
    {rest : List (JsonValue κ × UInt16)} {r : Option (JsonValue κ)}
    (h : followPath parts js v = some (js', r)) (hjs : js.frames = (v, 0) :: rest) :
    ∃ u rest', js'.frames = (u, 0) :: rest' ∧ ∀ w, r = some w → w = u := by
  induction parts generalizing js v rest with
  | nil =>
    simp only [followPath, Option.some.injEq, Prod.mk.injEq] at h
    exact ⟨v, rest, h.1 ▸ hjs, fun w hw => (Option.some.inj (h.2.trans hw)).symm⟩
  | cons part parts ih =>
    have hstay : ∀ r', some (js, r') = some (js', r) → (∀ w, r' = some w → w = v) →
        ∃ u rest', js'.frames = (u, 0) :: rest' ∧ ∀ w, r = some w → w = u := by
      intro r' hr hw
      obtain ⟨rfl, rfl⟩ := Prod.mk.inj (Option.some.inj hr)
      exact ⟨v, rest, hjs, hw⟩
    unfold followPath at h
    by_cases hslash : part = [] ∧ parts ≠ []
    · rw [if_pos hslash] at h
      exact hstay _ h fun w hw => (Option.some.inj hw).symm
    rw [if_neg hslash] at h
    match v, h with
    | .object pairs, h =>
      match hidx : (pairs.take (UInt8.ofNat pairs.length).toNat).findIdx?
          (fun p => decide (part <+: p.1)) with
      | none =>
        simp only [hidx] at h
        exact hstay _ h fun w hw => absurd hw (by simp)
      | some k =>
        simp only [hidx, hjs] at h
        match hpair : pairs[k]? with
        | none => simp only [hpair, reduceCtorEq] at h
        | some pair =>
          -- one level down, to the first pair that begins with the part
          simp only [hpair, Context.descend, List.length_cons] at h
          split at h
          · exact absurd h (by simp)
          · rename_i down hdown
            have hframes : down.frames = (pair.2, 0) :: (.object pairs, UInt16.ofNat k) :: rest := by
              split at hdown
              · rw [← Option.some.inj hdown]
              · exact absurd hdown (by simp)
            by_cases hlast : parts = [] ∨ parts = [[]]
            · rw [if_pos hlast] at h
              obtain ⟨rfl, rfl⟩ := Prod.mk.inj (Option.some.inj h)
              exact ⟨_, _, hframes, fun w hw => (Option.some.inj hw).symm⟩
            · rw [if_neg hlast] at h
              exact ih h hframes
    | .array _, h | .string _, h | .uint _, h | .int _, h | .callback _, h | .sptr _, h
    | .uptr _, h | .illegal, h => exact hstay _ h fun w hw => absurd hw (by simp)

section Sent

variable {output : κ → σ → Int → Called σ} {tree : JsonValue κ} {path : Bytes}

/-- `json_print` copies the text of the tree, whatever the path is, if it fits in the buffer
and the tree is not too deep for the stack. -/
theorem jsonPrint_renders {room : Nat} {st st' : σ} {text : Bytes}
    (hfind : findJsonPath (jsontreeReset tree ⟨[], 0, 0⟩) path ≠ none)
    (h : Renders output room (.value tree) st st' text) (hroom : room < JSONTREE_MAX_DEPTH)
    (hlen : text.length < JSON_BUFF_SZ) :
    ∃ n, ∀ fuel mem, ∃ printed,
      jsonPrint output (n + fuel) tree path st true mem = some printed ∧
        Sends printed st' text := by
  obtain ⟨found, hfound⟩ := Option.ne_none_iff_exists'.mp hfind
  have hroom : ([] : List (JsonValue κ × UInt16)).length + room < JSONTREE_MAX_DEPTH := by
    rwa [List.length_nil, Nat.zero_add]
  have hpath : (0 : UInt8).toNat = ([] : List (JsonValue κ × UInt16)).length := rfl
  obtain ⟨n, hn⟩ := h.printLoop hroom hpath found.1.callbackState
  refine ⟨n, fun fuel mem => ⟨copied true mem (st', text), ?_, copied_sends hlen st' mem⟩⟩
  have htree : printTree output (n + fuel) tree path st = some (st', text) := by
    rw [printTree, hfound, Option.bind_some]
    exact hn fuel
  rw [jsonPrint, htree]
  rfl

/-- With memory for its buffer, `json_ws_send` copies the text of the value to which the
path leads. -/
theorem jsonWsSend_renders {js : Context κ} {r : Option (JsonValue κ)}
    (hfind : findJsonPath (jsontreeReset tree ⟨[], 0, 0⟩) path = some (js, r)) :
    ∃ v rest, js.frames = (v, 0) :: rest ∧ (∀ w, r = some w → w = v) ∧
      ∀ room st st' text, Renders output room (.value v) st st' text →
        rest.length + room < JSONTREE_MAX_DEPTH → text.length < JSON_BUFF_SZ →
        ∃ n, ∀ fuel mem, ∃ sent,
          jsonWsSend output (n + fuel) tree path st true mem = some sent ∧
            Sends sent st' text := by
  have hfollow : ∃ found, followPath (path.splitOn 47) (jsontreeReset tree ⟨[], 0, 0⟩) tree =
      some found ∧ ({ found.1 with callbackState := 0 }, found.2) = (js, r) :=
    Option.map_eq_some_iff.mp hfind
  obtain ⟨⟨js', r'⟩, hfollow, hjs⟩ := hfollow
  obtain ⟨rfl, rfl⟩ := Prod.mk.inj hjs
  obtain ⟨v, rest, hframes, hvalue⟩ := followPath_frames hfollow rfl
  refine ⟨v, rest, hframes, hvalue, fun room st st' text h hroom hlen => ?_⟩
  have hdepth : (UInt8.ofNat rest.length).toNat = rest.length := by
    rw [UInt8.toNat_ofNat']
    refine Nat.mod_eq_of_lt ?_
    unfold JSONTREE_MAX_DEPTH at hroom
    omega
  obtain ⟨n, hn⟩ := h.printLoop hroom hdepth 0
  refine ⟨n, fun fuel mem => ⟨copied true mem (st', text), ?_, copied_sends hlen st' mem⟩⟩
  have hprint : printLoop output (n + fuel)
      ⟨js'.frames, UInt8.ofNat (js'.frames.length - 1), 0⟩ st = some (st', text) := by
    rw [hframes]
    exact hn fuel
  rw [jsonWsSend, hfind, Option.bind_some]
  change (printLoop output (n + fuel) ⟨js'.frames, UInt8.ofNat (js'.frames.length - 1), 0⟩ st).map
    (copied true mem) = _
  rw [hprint]
  rfl

end Sent

/-- A callback that writes a letter and asks to be called again, up to `callback_state`. -/
def repeated (times : Int) (st : Unit) (state : Int) : Called Unit :=
  ⟨st, state + 1, [97], if state + 1 < times then 1 else 0⟩

/-- `{"x":[7,C],"y":"z"}`, where the callback is called three times. -/
def repeatedTree : JsonValue Int :=
  .object [([120], .array [.uint 7, .callback (some 3)]), ([121], .string (some [122]))]

theorem repeatedTree_found :
    findJsonPath (jsontreeReset repeatedTree ⟨[], 0, 0⟩) [120] =
      some (⟨[(.array [.uint 7, .callback (some 3)], 0), (repeatedTree, 0)], 0, 0⟩,
        some (.array [.uint 7, .callback (some 3)])) := rfl

/-- `[7,aaa]` -/
theorem repeated_renders :
    Renders repeated 1 (.value (.array [.uint 7, .callback (some 3)])) () ()
      [91, 55, 44, 97, 97, 97, 93] := by
  have hagain : (1 : Int) ≠ 0 := by decide
  have hthree : ∀ state, CallbackWrites repeated 3 0 state () () [97, 97, 97] := fun _ =>
    .more hagain (.more hagain (.last rfl))
  exact .array (by decide) (.cons (.uint 0 () 7) (.cons (.callback hthree) (.nil 1 () false 93)))

theorem jsonWsSend_repeated :
    ∃ n, ∀ fuel mem, ∃ sent, jsonWsSend repeated (n + fuel) repeatedTree [120] () true mem =
      some sent ∧ Sends sent () [91, 55, 44, 97, 97, 97, 93] := by
  obtain ⟨v, rest, hframes, -, hsend⟩ :=
    @jsonWsSend_renders _ _ repeated _ _ _ _ repeatedTree_found
  obtain ⟨hv, rfl⟩ := List.cons.inj hframes
  obtain rfl := (Prod.mk.inj hv).1
  exact hsend 1 () () _ repeated_renders (by decide) (by decide)

end Json
end EspMisc
