/-
The life of circular buffers, from their creation on.

`status` reads from the calls of a run which buffers should be open, and `OpenLaw` is what
each call should do: the bit is as the calls say, `cbuffOpen` returns a handle for the listed
buffers that are not open, and `cbuffDestroy` leaves an open one alone.
`open_discipline_iff` is the exact condition on the calls.
-/
import EspMisc.Cbuff.World

namespace EspMisc
namespace Cbuff

open Machine

/-! ## What the calls say -/

/-- A create that returns a number closes its object, a successful open opens one, and a
close closes one; an object that was not created has no status. -/
def statusAfter (st : Nat → Option Bool) (k : LifeStep) : Nat → Option Bool :=
  match k.input, k.output with
  | .create _ _ (some a), [.created number] =>
    if number ≠ 0 then Function.update st a (some false) else st
  | .openBuffer _, [.opened (some a)] => Function.update st a ((st a).map fun _ => true)
  | .close a, _ => Function.update st a ((st a).map fun _ => false)
  | _, _ => st

/-- Whether the calls of a run leave a buffer open, for the buffers that were created. -/
def status (tr : List LifeStep) : Nat → Option Bool := tr.foldl statusAfter fun _ => none

theorem status_snoc (tr : List LifeStep) (k : LifeStep) :
    status (tr ++ [k]) = statusAfter (status tr) k := List.foldl_concat ..

/-- What a call should do, after the calls before it. -/
structure OpenLaw (before : List LifeStep) (k : LifeStep) : Prop where
  flags : ∀ a o, status (before ++ [k]) a = some o → k.after.isOpen a = o
  opens : ∀ num, k.input = .openBuffer num → ∃ handle, k.output = [.opened handle] ∧
    (∀ a, handle = some a →
      a ∈ k.before.listed ∧ k.before.number a = num ∧ k.before.isOpen a = false) ∧
    (handle = none → ∀ a ∈ k.before.listed, k.before.number a = num → k.before.isOpen a = true)
  destroys : ∀ num, k.input = .destroy num →
    (∃ a ∈ k.before.listed, k.before.number a = num ∧ k.before.isOpen a = true) →
    k.output = [.destroyed CBUFF_DESTROY_FAIL] ∧ k.after = k.before

/-- The calls that go well. -/
structure Allowed (before : List LifeStep) (k : LifeStep) : Prop where
  /-- Something is listed, and an open buffer does not hide another one of the same number. -/
  opens : ∀ num, k.input = .openBuffer num → k.before.listed ≠ [] ∧
    ∀ a, k.before.named num = some a → k.before.isOpen a = true →
      ∀ b ∈ k.before.listed, k.before.number b = num → k.before.isOpen b = true
  /-- No buffer of the number is open. -/
  destroys : ∀ num, k.input = .destroy num →
    ∀ a ∈ k.before.listed, k.before.number a = num → k.before.isOpen a = false
  /-- A buffer that is open is not cleared. -/
  clears : ∀ a, k.input = .data a (.byte .clearBuffer) → status before a ≠ none →
    k.before.isOpen a = false
  /-- A buffer that is open is not created again while the first number is the only free
  one. -/
  creates : ∀ buffer sizeOfBuffer a, k.input = .create buffer sizeOfBuffer (some a) →
    buffer ≠ 0 → sizeOfBuffer ≠ 0 → k.before.activeCbuffObjs = 0xFFFE → status before a ≠ none →
    k.before.isOpen a = false

/-! ## One call -/

/-- The buffers with a status are open as it says. -/
def FlagsOk (w : World) (st : Nat → Option Bool) : Prop := ∀ a o, st a = some o → w.isOpen a = o

/-- The world is in order, and every buffer that was created is open as the calls say. -/
structure Known (w : World) (tr : List LifeStep) : Prop where
  ok : w.Ok
  flags : FlagsOk w (status tr)

section Calls

variable {w : World} {tr : List LifeStep}

/-- A call has changed one object, and says whether it is open now. -/
theorem flags_update {st : Nat → Option Bool} (h : FlagsOk w st) {a : Nat} {o : CbuffObj}
    {said : Option Bool} (ho : ∀ b, said = some b → o.has CBUFF_OPEN = b) {l : List Nat}
    {active : BitVec 32} {memory : Nat → UInt8} :
    FlagsOk ⟨Function.update w.objs a o, l, active, memory⟩ (Function.update st a said) := by
  intro b v hb
  rw [isOpen_update]
  by_cases hba : b = a
  · rw [hba, Function.update_self] at hb
    rw [if_pos hba]
    exact ho v hb
  · rw [Function.update_of_ne hba] at hb
    rw [if_neg hba]
    exact h b v hb

/-- The calls that are judged by more than the flags they leave. -/
def LifeCall.judged : LifeCall → Bool
  | .openBuffer _ => true
  | .destroy _ => true
  | _ => false

/-- The calls that may go wrong. -/
def LifeCall.risky : LifeCall → Bool
  | .openBuffer _ => true
  | .destroy _ => true
  | .create _ _ (some _) => true
  | .data _ (.byte .clearBuffer) => true
  | _ => false

theorem openLaw_iff_flags {k : LifeStep} (hk : k.input.judged = false) :
    OpenLaw tr k ↔ FlagsOk k.after (statusAfter (status tr) k) := by
  rw [← status_snoc]
  constructor
  · exact fun hlaw => hlaw.flags
  · refine fun hflags => ⟨hflags, fun num h => ?_, fun num h => ?_⟩
    · exact absurd hk (by simp [h, LifeCall.judged])
    · exact absurd hk (by simp [h, LifeCall.judged])

theorem Allowed.of_safe {k : LifeStep} (hk : k.input.risky = false) : Allowed tr k where
  opens := fun num h => absurd hk (by simp [h, LifeCall.risky])
  destroys := fun num h => absurd hk (by simp [h, LifeCall.risky])
  clears := fun a h => absurd hk (by simp [h, LifeCall.risky])
  creates := fun buffer sizeOfBuffer a h => absurd hk (by simp [h, LifeCall.risky])

theorem data_safe {a : Nat} {c : DataCall} (hc : c ≠ .byte .clearBuffer) :
    (LifeCall.data a c).risky = false := by
  cases c with
  | byte op =>
    cases op with
    | clearBuffer => exact absurd rfl hc
    | _ => rfl
  | _ => rfl

section Conditions

variable {w' : World} {out : List LifeAnswer}

theorem allowed_destroy {num : BitVec 32} : Allowed tr ⟨w, .destroy num, out, w'⟩ ↔
    ∀ a ∈ w.listed, w.number a = num → w.isOpen a = false := by
  constructor
  · exact fun h => h.destroys num rfl
  · intro h
    refine ⟨?_, ?_, ?_, ?_⟩
    · intro _ hk
      cases hk
    · intro n hk
      cases hk
      exact h
    · intro _ hk
      cases hk
    · intro _ _ _ hk
      cases hk

theorem allowed_open {num : BitVec 32} : Allowed tr ⟨w, .openBuffer num, out, w'⟩ ↔
    w.listed ≠ [] ∧ ∀ a, w.named num = some a → w.isOpen a = true →
      ∀ b ∈ w.listed, w.number b = num → w.isOpen b = true := by
  constructor
  · exact fun h => h.opens num rfl
  · intro h
    refine ⟨?_, ?_, ?_, ?_⟩
    · intro n hk
      cases hk
      exact h
    · intro _ hk
      cases hk
    · intro _ hk
      cases hk
    · intro _ _ _ hk
      cases hk

theorem allowed_clear {a : Nat} : Allowed tr ⟨w, .data a (.byte .clearBuffer), out, w'⟩ ↔
    (status tr a ≠ none → w.isOpen a = false) := by
  constructor
  · exact fun h => h.clears a rfl
  · intro h
    refine ⟨?_, ?_, ?_, ?_⟩
    · intro _ hk
      cases hk
    · intro _ hk
      cases hk
    · intro b hk
      cases hk
      exact h
    · intro _ _ _ hk
      cases hk

theorem allowed_create {buffer sizeOfBuffer a : Nat} :
    Allowed tr ⟨w, .create buffer sizeOfBuffer (some a), out, w'⟩ ↔
      (buffer ≠ 0 → sizeOfBuffer ≠ 0 → w.activeCbuffObjs = 0xFFFE → status tr a ≠ none →
        w.isOpen a = false) := by
  constructor
  · exact fun h => h.creates buffer sizeOfBuffer a rfl
  · intro h
    refine ⟨?_, ?_, ?_, ?_⟩
    · intro _ hk
      cases hk
    · intro _ hk
      cases hk
    · intro _ hk
      cases hk
    · intro _ _ _ hk
      cases hk
      exact h

theorem openLaw_destroy {num : BitVec 32} : OpenLaw tr ⟨w, .destroy num, out, w'⟩ ↔
    FlagsOk w' (status tr) ∧
      ((∃ a ∈ w.listed, w.number a = num ∧ w.isOpen a = true) →
        out = [.destroyed CBUFF_DESTROY_FAIL] ∧ w' = w) := by
  have hstatus : status (tr ++ [⟨w, .destroy num, out, w'⟩]) = status tr := status_snoc ..
  constructor
  · exact fun h => ⟨hstatus ▸ h.flags, h.destroys num rfl⟩
  · rintro ⟨hflags, h⟩
    refine ⟨hstatus.symm ▸ hflags, ?_, ?_⟩
    · intro _ hk
      cases hk
    · intro n hk
      cases hk
      exact h

theorem openLaw_open {num : BitVec 32} : OpenLaw tr ⟨w, .openBuffer num, out, w'⟩ ↔
    FlagsOk w' (statusAfter (status tr) ⟨w, .openBuffer num, out, w'⟩) ∧
      ∃ handle, out = [.opened handle] ∧
        (∀ a, handle = some a → a ∈ w.listed ∧ w.number a = num ∧ w.isOpen a = false) ∧
        (handle = none → ∀ a ∈ w.listed, w.number a = num → w.isOpen a = true) := by
  rw [← status_snoc]
  constructor
  · exact fun h => ⟨h.flags, h.opens num rfl⟩
  · rintro ⟨hflags, h⟩
    refine ⟨hflags, ?_, ?_⟩
    · intro n hk
      cases hk
      exact h
    · intro _ hk
      cases hk

end Conditions

theorem close_law (h : Known w tr) {a : Nat} {w' : World} {out : List LifeAnswer}
    (hstep : lifeStep w (.close a) = some (w', out)) :
    w'.Ok ∧ (OpenLaw tr ⟨w, .close a, out, w'⟩ ↔ Allowed tr ⟨w, .close a, out, w'⟩) := by
  have hcall : lifeStep w (.close a) =
      some ({ w with objs := Function.update w.objs a (cbuffClose (w.objs a)).1 },
        [.closed (cbuffClose (w.objs a)).2]) := rfl
  rw [hcall] at hstep
  obtain ⟨rfl, rfl⟩ := Prod.mk.inj (Option.some.inj hstep)
  obtain ⟨haddress, hclosed⟩ := close_has (w.objs a)
  rw [h.ok.addressed] at haddress
  refine ⟨ok_update h.ok haddress h.ok.nodup h.ok.sixteen _, iff_of_true ?_ ?_⟩
  · refine (openLaw_iff_flags rfl).mpr (flags_update h.flags fun b hb => ?_)
    obtain ⟨_, _, rfl⟩ := Option.map_eq_some_iff.mp hb
    exact hclosed
  · exact .of_safe rfl

theorem init_law (h : Known w tr) {w' : World} {out : List LifeAnswer}
    (hstep : lifeStep w .init = some (w', out)) :
    w'.Ok ∧ (OpenLaw tr ⟨w, .init, out, w'⟩ ↔ Allowed tr ⟨w, .init, out, w'⟩) := by
  have hput : w.put cbuffInit = { w with listed := [], activeCbuffObjs := 0 } :=
    put_listed (l := []) h.ok
  rw [lifeStep, hput] at hstep
  obtain ⟨rfl, rfl⟩ := Prod.mk.inj (Option.some.inj hstep)
  have hzero (j : Nat) (hj : (0#32).getLsbD j = true) : j < 16 := absurd hj (by simp)
  refine ⟨⟨h.ok.addressed, List.nodup_nil, hzero⟩, iff_of_true ?_ ?_⟩
  · exact (openLaw_iff_flags rfl).mpr h.flags
  · exact .of_safe rfl

/-- An object that a call has closed on its own: the calls said so already, if it was
created. -/
theorem closed_flags {st : Nat → Option Bool} (h : FlagsOk w st) {a : Nat} {o : CbuffObj}
    (ho : o.has CBUFF_OPEN = false) {l : List Nat} {active : BitVec 32} {memory : Nat → UInt8} :
    FlagsOk ⟨Function.update w.objs a o, l, active, memory⟩ st ↔
      (st a ≠ none → w.isOpen a = false) := by
  constructor
  · intro hflags hknown
    obtain ⟨b, hb⟩ := Option.ne_none_iff_exists'.mp hknown
    have hafter := hflags a b hb
    rw [isOpen_update, if_pos rfl, ho] at hafter
    exact (h a b hb).trans hafter.symm
  · intro hclosed b v hb
    rw [isOpen_update]
    by_cases hba : b = a
    · subst hba
      have hbefore := hclosed (by rw [hb]; exact Option.some_ne_none v)
      rw [if_pos rfl, ho, ← hbefore]
      exact h b v hb
    · rw [if_neg hba]
      exact h b v hb

theorem data_law (h : Known w tr) {a : Nat} {c : DataCall} {w' : World} {out : List LifeAnswer}
    (hstep : lifeStep w (.data a c) = some (w', out)) :
    w'.Ok ∧ (OpenLaw tr ⟨w, .data a c, out, w'⟩ ↔ Allowed tr ⟨w, .data a c, out, w'⟩) := by
  obtain ⟨s, hs, heq⟩ := Option.map_eq_some_iff.mp hstep
  obtain ⟨rfl, rfl⟩ := Prod.mk.inj heq
  have haddress := dataCall_address hs
  rw [h.ok.addressed] at haddress
  refine ⟨ok_update h.ok haddress h.ok.nodup h.ok.sixteen _, ?_⟩
  rw [openLaw_iff_flags rfl]
  by_cases hc : c = .byte .clearBuffer
  · subst hc
    have hclosed : s.obj.has CBUFF_OPEN = false := by
      obtain rfl := Option.some.inj hs
      exact clear_closed _
    rw [allowed_clear]
    exact closed_flags h.flags hclosed
  · have hkeeps := dataCall_keeps hc hs
    refine iff_of_true ?_ (.of_safe (data_safe hc))
    show FlagsOk _ (status tr)
    rw [← Function.update_eq_self a (status tr)]
    exact flags_update h.flags fun b hb => hkeeps.isOpen.trans (h.flags a b hb)

theorem destroys_law (h : Known w tr) {num : BitVec 32} {w' : World} {out : List LifeAnswer}
    (hstep : lifeStep w (.destroy num) = some (w', out)) :
    w'.Ok ∧ (OpenLaw tr ⟨w, .destroy num, out, w'⟩ ↔ Allowed tr ⟨w, .destroy num, out, w'⟩) := by
  rw [destroy_world h.ok] at hstep
  rw [openLaw_destroy, allowed_destroy]
  cases hnamed : w.named num with
  | none =>
    rw [hnamed] at hstep
    obtain ⟨rfl, rfl⟩ := Prod.mk.inj (Option.some.inj hstep)
    refine ⟨h.ok, iff_of_true ⟨h.flags, fun _ => ⟨rfl, rfl⟩⟩ fun a ha hnum => ?_⟩
    exact absurd hnum (not_mem_of_named hnamed ha)
  | some a =>
    rw [hnamed] at hstep
    obtain ⟨rfl, rfl⟩ := Prod.mk.inj (Option.some.inj hstep)
    have hbits (j : Nat) (hj : (w.activeCbuffObjs &&& ~~~num).getLsbD j = true) : j < 16 := by
      rw [BitVec.getLsbD_and, Bool.and_eq_true] at hj
      exact h.ok.sixteen j hj.1
    refine ⟨⟨h.ok.addressed, h.ok.nodup.erase a, hbits⟩, ?_⟩
    constructor
    · rintro ⟨_, hfails⟩ b hb hnum
      by_contra hopen
      have hfail := (hfails ⟨b, hb, hnum, Bool.not_eq_false _ ▸ hopen⟩).1
      exact absurd hfail (by simp [CBUFF_DESTROY_OK, CBUFF_DESTROY_FAIL])
    · intro hclosed
      refine ⟨h.flags, ?_⟩
      rintro ⟨b, hb, hnum, hopen⟩
      rw [hclosed b hb hnum] at hopen
      exact absurd hopen Bool.false_ne_true

theorem opens_law (h : Known w tr) {num : BitVec 32} {w' : World} {out : List LifeAnswer}
    (hstep : lifeStep w (.openBuffer num) = some (w', out)) :
    w'.Ok ∧
      (OpenLaw tr ⟨w, .openBuffer num, out, w'⟩ ↔ Allowed tr ⟨w, .openBuffer num, out, w'⟩) := by
  rw [openLaw_open, allowed_open]
  by_cases hne : w.listed = []
  · rw [lifeStep, if_pos hne] at hstep
    obtain ⟨rfl, rfl⟩ := Prod.mk.inj (Option.some.inj hstep)
    refine ⟨h.ok, iff_of_false ?_ fun hallowed => hallowed.1 hne⟩
    rintro ⟨_, handle, hout, _⟩
    exact absurd hout (by simp)
  rw [open_world h.ok hne] at hstep
  cases hnamed : w.named num with
  | none =>
    rw [hnamed] at hstep
    obtain ⟨rfl, rfl⟩ := Prod.mk.inj (Option.some.inj hstep)
    refine ⟨h.ok, iff_of_true ⟨h.flags, none, rfl, fun a ha => absurd ha (by simp), ?_⟩
      ⟨hne, fun a ha => absurd ha (by simp)⟩⟩
    exact fun _ a ha hnum => absurd hnum (not_mem_of_named hnamed ha)
  | some a =>
    obtain ⟨hmem, hnum⟩ := mem_of_named hnamed
    rw [hnamed] at hstep
    by_cases hopen : w.isOpen a = true
    · simp only [if_pos hopen] at hstep
      obtain ⟨rfl, rfl⟩ := Prod.mk.inj (Option.some.inj hstep)
      refine ⟨h.ok, ?_⟩
      constructor
      · rintro ⟨_, handle, hout, _, hnone⟩
        cases hout
        exact ⟨hne, fun b hb _ => hnone rfl⟩
      · rintro ⟨_, hall⟩
        exact ⟨h.flags, none, rfl, fun b hb => absurd hb (by simp), fun _ => hall a rfl hopen⟩
    · simp only [if_neg hopen] at hstep
      obtain ⟨rfl, rfl⟩ := Prod.mk.inj (Option.some.inj hstep)
      have haddress : (w.objs a).opened.address = a := h.ok.addressed a
      refine ⟨ok_update h.ok haddress h.ok.nodup h.ok.sixteen _, iff_of_true ?_ ?_⟩
      · refine ⟨flags_update h.flags fun b hb => ?_, some a, rfl, ?_,
          fun hnone => absurd hnone (by simp)⟩
        · obtain ⟨_, _, rfl⟩ := Option.map_eq_some_iff.mp hb
          exact opened_has (w.objs a)
        · intro b hb
          obtain rfl := Option.some.inj hb
          exact ⟨hmem, hnum, Bool.eq_false_iff.mpr hopen⟩
      · refine ⟨hne, fun b hb hbopen => ?_⟩
        obtain rfl := Option.some.inj hb
        exact absurd hbopen hopen

/-- A create that returns 0 says nothing about any buffer. -/
theorem statusAfter_refused (st : Nat → Option Bool) (w w' : World) (buffer sizeOfBuffer : Nat)
    (obj : Option Nat) :
    statusAfter st ⟨w, .create buffer sizeOfBuffer obj, [.created 0], w'⟩ = st := by
  cases obj <;> rfl

/-- A create that returns 0 and leaves the world as it is. -/
theorem refused_law (h : Known w tr) {buffer sizeOfBuffer : Nat} {obj : Option Nat}
    (hallowed : Allowed tr ⟨w, .create buffer sizeOfBuffer obj, [.created 0], w⟩) :
    w.Ok ∧ (OpenLaw tr ⟨w, .create buffer sizeOfBuffer obj, [.created 0], w⟩ ↔
      Allowed tr ⟨w, .create buffer sizeOfBuffer obj, [.created 0], w⟩) := by
  refine ⟨h.ok, iff_of_true ((openLaw_iff_flags rfl).mpr ?_) hallowed⟩
  rw [statusAfter_refused]
  exact h.flags

theorem valid_create_law (h : Known w tr) {buffer sizeOfBuffer a : Nat} (hbuffer : buffer ≠ 0)
    (hsize : sizeOfBuffer ≠ 0) (ha : a ∉ w.listed) {w' : World} {out : List LifeAnswer}
    (hstep : lifeStep w (.create buffer sizeOfBuffer (some a)) = some (w', out)) :
    w'.Ok ∧ (OpenLaw tr ⟨w, .create buffer sizeOfBuffer (some a), out, w'⟩ ↔
      Allowed tr ⟨w, .create buffer sizeOfBuffer (some a), out, w'⟩) := by
  have hnodup : (a :: w.listed).Nodup := List.nodup_cons.mpr ⟨ha, h.ok.nodup⟩
  rcases create_world h.ok hbuffer hsize ha with
    ⟨num, hnum, hbits, heven, hnew⟩ | ⟨hfull, hnew⟩ | ⟨hone, hnew⟩
  · rw [hnew] at hstep
    obtain ⟨rfl, rfl⟩ := Prod.mk.inj (Option.some.inj hstep)
    have haddress : ({ (w.objs a).setup buffer sizeOfBuffer with
        bufferNumber := num } : CbuffObj).address = a := h.ok.addressed a
    refine ⟨ok_update h.ok haddress hnodup hbits _, iff_of_true ?_ ?_⟩
    · rw [openLaw_iff_flags rfl]
      simp only [statusAfter, if_pos hnum]
      refine flags_update h.flags fun b hb => ?_
      obtain rfl := Option.some.inj hb
      exact setup_closed (w.objs a) buffer sizeOfBuffer
    · exact allowed_create.mpr fun _ _ hone => absurd hone heven
  · rw [hnew] at hstep
    obtain ⟨rfl, rfl⟩ := Prod.mk.inj (Option.some.inj hstep)
    refine refused_law h (allowed_create.mpr fun _ _ hone => ?_)
    have hboth : (0xFFFF : BitVec 32) = 0xFFFE := hfull.symm.trans hone
    exact absurd hboth (by decide)
  · rw [hnew] at hstep
    obtain ⟨rfl, rfl⟩ := Prod.mk.inj (Option.some.inj hstep)
    have haddress : ((w.objs a).setup buffer sizeOfBuffer).address = a := h.ok.addressed a
    refine ⟨ok_update h.ok haddress hnodup h.ok.sixteen _, ?_⟩
    rw [openLaw_iff_flags rfl, allowed_create, statusAfter_refused,
      closed_flags h.flags (setup_closed (w.objs a) buffer sizeOfBuffer)]
    exact ⟨fun hclosed _ _ _ => hclosed, fun hclosed => hclosed hbuffer hsize hone⟩

theorem creates_law (h : Known w tr) {buffer sizeOfBuffer : Nat} {obj : Option Nat} {w' : World}
    {out : List LifeAnswer}
    (hstep : lifeStep w (.create buffer sizeOfBuffer obj) = some (w', out)) :
    w'.Ok ∧ (OpenLaw tr ⟨w, .create buffer sizeOfBuffer obj, out, w'⟩ ↔
      Allowed tr ⟨w, .create buffer sizeOfBuffer obj, out, w'⟩) := by
  have hlisted : ¬∃ a ∈ w.listed, some a = obj := by
    intro hlisted
    rw [lifeStep, if_pos hlisted] at hstep
    exact absurd hstep (by simp)
  by_cases hvalid : (Call.create buffer sizeOfBuffer (obj.map w.objs)).validCreate = true
  · have hargs : buffer ≠ 0 ∧ sizeOfBuffer ≠ 0 ∧ obj.isSome = true := by
      simpa [Call.validCreate] using hvalid
    obtain ⟨hbuffer, hsize, hsome⟩ := hargs
    obtain ⟨a, rfl⟩ := Option.isSome_iff_exists.mp hsome
    exact valid_create_law h hbuffer hsize (fun hmem => hlisted ⟨a, hmem, rfl⟩) hstep
  · rw [lifeStep, if_neg hlisted, cbuffCreate_invalid hvalid] at hstep
    dsimp only at hstep
    rw [put_registry h.ok] at hstep
    obtain ⟨rfl, rfl⟩ := Prod.mk.inj (Option.some.inj hstep)
    refine refused_law h ?_
    cases obj with
    | none => exact .of_safe rfl
    | some a =>
      refine allowed_create.mpr fun hbuffer hsize => absurd ?_ hvalid
      simpa [Call.validCreate] using ⟨hbuffer, hsize⟩

/-- One call obeys the law exactly when it is allowed, and leaves the world in order. -/
theorem lifeStep_law (h : Known w tr) {i : LifeCall} {w' : World} {out : List LifeAnswer}
    (hstep : lifeStep w i = some (w', out)) :
    w'.Ok ∧ (OpenLaw tr ⟨w, i, out, w'⟩ ↔ Allowed tr ⟨w, i, out, w'⟩) := by
  cases i with
  | init => exact init_law h hstep
  | create buffer sizeOfBuffer obj => exact creates_law h hstep
  | destroy num => exact destroys_law h hstep
  | openBuffer num => exact opens_law h hstep
  | close a => exact close_law h hstep
  | data a c => exact data_law h hstep

end Calls

/-! ## Every run -/

section Runs

variable {objs : Nat → CbuffObj} {memory : Nat → UInt8} {tr : List LifeStep} {w : World}

/-- Every call of a run obeys the law exactly when every call is allowed. -/
theorem open_discipline_iff (hrun : Run lifeStep (World.boot objs memory) tr w) :
    (∀ a k b, tr = a ++ k :: b → OpenLaw a k) ↔ ∀ a k b, tr = a ++ k :: b → Allowed a k := by
  have hboot : Known (World.boot objs memory) [] :=
    ⟨World.boot_ok objs memory, fun a o h => absurd h (Option.some_ne_none o).symm⟩
  refine hrun.law_history_iff Known hboot ?_ fun h hstep => (lifeStep_law h hstep).2
  intro w tr i w' out h hstep hallowed
  obtain ⟨hok, hlaw⟩ := lifeStep_law h hstep
  exact ⟨hok, (hlaw.mpr hallowed).flags⟩

end Runs

def sampleBoot : World := World.boot sampleObj fun _ => 0

/-- A buffer is created, opened, written to, closed and destroyed. -/
theorem open_discipline_of_one : ∃ tr w, Run lifeStep sampleBoot tr w ∧
    tr.map Taken.output = [[.created 1], [.opened (some 1)], [.done], [.closed 1],
      [.destroyed CBUFF_DESTROY_OK]] ∧
    ∀ a k b, tr = a ++ k :: b → OpenLaw a k := by
  have hcreate : Run lifeStep sampleBoot _ _ := Run.nil.snoc (i := .create 0x1000 3 (some 1)) rfl
  have hwrite : Run lifeStep sampleBoot _ _ :=
    (hcreate.snoc (i := .openBuffer 1) rfl).snoc (i := .data 1 (.byte (.putByte 65))) rfl
  have hrun : Run lifeStep sampleBoot _ _ :=
    (hwrite.snoc (i := .close 1) rfl).snoc (i := .destroy 1) rfl
  refine ⟨_, _, hrun, rfl, (open_discipline_iff hrun).mpr ?_⟩
  simp only [Run.forall_splits_snoc Allowed]
  refine ⟨⟨⟨⟨⟨?_, ?_⟩, ?_⟩, ?_⟩, ?_⟩, ?_⟩
  · intro a k b h
    simp at h
  · exact allowed_create.mpr fun _ _ h => absurd h (by decide)
  · refine allowed_open.mpr ⟨by decide, fun a ha hopen => ?_⟩
    obtain rfl := Option.some.inj (show some 1 = some a from ha)
    exact absurd hopen (by decide)
  · exact .of_safe rfl
  · exact .of_safe rfl
  · exact allowed_destroy.mpr fun a ha _ => by
      obtain rfl : a = 1 := List.mem_singleton.mp ha
      rfl

/-- The buffer is open when it is destroyed. -/
theorem open_buffer_destroyed : ∃ tr w, Run lifeStep sampleBoot tr w ∧
    ¬∀ a k b, tr = a ++ k :: b → OpenLaw a k := by
  have hrun : Run lifeStep sampleBoot _ _ :=
    ((Run.single (i := .create 0x1000 3 (some 1)) rfl).snoc (i := .openBuffer 1) rfl).snoc
      (i := .destroy 1) rfl
  refine ⟨_, _, hrun, fun hlaw => ?_⟩
  have hdestroy := (hlaw _ _ [] rfl).destroys 1 rfl ⟨1, by decide, rfl, rfl⟩
  exact absurd hdestroy.1 (by decide)

end Cbuff
end EspMisc
