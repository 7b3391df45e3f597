/-
The list of files as JSON, `fsJSON_get_list` of `platform/flash_fs.c`.

The list is an array with one element, the callback `items_cb`, which writes all the
files in one call and asks for no other.  When there are no files it has nothing to write
and asks to be called again, and the printer does as it is asked:
`listing_terminates_iff` says that the list is produced exactly when it is not empty.
-/
import EspMisc.FlashFs.Files
import EspMisc.Json.Buffer

namespace EspMisc
namespace FlashFs

open Json (Bytes Called Context JsonValue Printed jsontreeWriteString jsontreeWriteInt)

def fsNumber (f : FsFile) : Int32 :=
  match getFs f with
  | none => -1
  | some .fs0 => 0
  | some .fs1 => 1

/-- `{"name":...,"size":...,"fs":...}`.  The size goes through `int`. -/
def writeItem (f : FsFile) : Bytes :=
  [123] ++ jsontreeWriteString (some [110, 97, 109, 101]) ++ [58] ++
    jsontreeWriteString (some f.name) ++ [44] ++
    jsontreeWriteString (some [115, 105, 122, 101]) ++ [58] ++ jsontreeWriteInt f.size.toInt32 ++
    [44] ++ jsontreeWriteString (some [102, 115]) ++ [58] ++ jsontreeWriteInt (fsNumber f) ++ [125]

/-- The loop of `items_cb`, from the file that `f_st` points to. -/
def writeItems : List FsFile → Int → Called (List FsFile)
  | [], callbackState => ⟨[], callbackState, [], 1⟩
  | [f], callbackState => ⟨[], callbackState + 1, writeItem f, 0⟩
  | f :: files, callbackState =>
    let rest := writeItems files (callbackState + 1)
    { rest with emitted := writeItem f ++ [44] ++ rest.emitted }

/-- `fSt` is the static pointer into the list of files. -/
def itemsCb (files : List FsFile) (_ : Unit) (fSt : List FsFile) (callbackState : Int) :
    Called (List FsFile) :=
  writeItems (if callbackState = 0 then files else fSt) callbackState

/-- `{"files":[...]}`. -/
def fsTree : JsonValue Unit :=
  .object [([102, 105, 108, 101, 115], .array [.callback (some ())])]

/-- The list of the files, or the null pointer, and the static pointer. -/
def fsJSONGetList (fuel : Nat) (files fSt : List FsFile) (allocated : Bool) (mem : Nat → UInt8) :
    Option (List FsFile × Option Bytes) :=
  (Json.jsonPrint (itemsCb files) fuel fsTree [110, 97, 109, 101] fSt allocated mem).map fun r =>
    (r.st, if r.pos ≠ 0 then some r.string else none)

def ListingTerminates (files fSt : List FsFile) (allocated : Bool) (mem : Nat → UInt8) : Prop :=
  ∃ fuel r, fsJSONGetList fuel files fSt allocated mem = some r

/-! ## The callback -/

theorem writeItems_ret (files : List FsFile) (callbackState : Int) :
    (writeItems files callbackState).ret = if files = [] then 1 else 0 := by
  induction files generalizing callbackState with
  | nil => rfl
  | cons f files ih =>
    cases files with
    | nil => rfl
    | cons g files =>
      have hrest := ih (callbackState + 1)
      rw [if_neg (List.cons_ne_nil g files)] at hrest
      rw [if_neg (List.cons_ne_nil f _)]
      exact hrest

variable {files fSt : List FsFile} {allocated : Bool} {mem : Nat → UInt8}

/-- The context with the callback at its current depth. -/
def atItems (index : UInt16) (callbackState : Int) : Context Unit where
  frames := [(.callback (some ()), index), (.array [.callback (some ())], 0), (fsTree, 0)]
  path := 0
  callbackState := callbackState

/-- The context in the array, and in the object. -/
def inArray (index : UInt16) (callbackState : Int) : Context Unit where
  frames := [(.array [.callback (some ())], index), (fsTree, 0)]
  path := 0
  callbackState := callbackState

def inObject (index : UInt16) (callbackState : Int) : Context Unit where
  frames := [(fsTree, index)]
  path := 0
  callbackState := callbackState

/-- What is written before the first file: `{"files":[`. -/
def listHead : Bytes := [123, 34, 102, 105, 108, 101, 115, 34, 58, 91]

theorem printTree_eq (fuel : Nat) :
    Json.printTree (itemsCb files) (fuel + 2) fsTree [110, 97, 109, 101] fSt =
      (Json.printLoop (itemsCb files) fuel (atItems 0 0) fSt).map fun r =>
        (r.1, listHead ++ r.2) := by
  have hobject : Json.jsontreePrintNext (itemsCb files) (inObject 0 0) fSt =
      some ⟨true, inArray 0 0, fSt, listHead.take 9⟩ := rfl
  have harray : Json.jsontreePrintNext (itemsCb files) (inArray 0 0) fSt =
      some ⟨true, atItems 0 0, fSt, listHead.drop 9⟩ := rfl
  change Json.printLoop (itemsCb files) (fuel + 1 + 1) (inObject 0 0) fSt = _
  rw [Json.printLoop_next hobject ⟨rfl, Nat.zero_le _⟩,
    Json.printLoop_next harray ⟨rfl, Nat.zero_le _⟩,
    Option.map_map]
  rfl

/-- Without a file the callback stays where it is. -/
theorem items_trapped (index : UInt16) (fSt : List FsFile) (fuel : Nat) :
    Json.printLoop (itemsCb []) fuel (atItems index 0) fSt = none := by
  induction fuel generalizing index fSt with
  | zero => rfl
  | succ fuel ih =>
    have hagain : Json.jsontreePrintNext (itemsCb []) (atItems index 0) fSt =
        some ⟨true, atItems (index + 1) 0, [], []⟩ := by
      unfold Json.jsontreePrintNext atItems Json.printCallback
      dsimp only
      split <;> rfl
    rw [Json.printLoop_next hagain ⟨rfl, Nat.zero_le _⟩, ih]
    rfl

theorem printTree_nil (fuel : Nat) (fSt : List FsFile) :
    Json.printTree (itemsCb []) fuel fsTree [110, 97, 109, 101] fSt = none := by
  match fuel with
  | 0 => rfl
  | 1 => rfl
  | fuel + 2 =>
    rw [printTree_eq, items_trapped]
    rfl

/-- With a file the callback is called once, and the printer goes back up. -/
theorem items_ends (h : files ≠ []) (fSt : List FsFile) :
    ∃ r, Json.printLoop (itemsCb files) 3 (atItems 0 0) fSt = some r := by
  have hret : (writeItems files 0).ret = 0 := by rw [writeItems_ret, if_neg h]
  have hitems : Json.jsontreePrintNext (itemsCb files) (atItems 0 0) fSt =
      some ⟨true, inArray 1 (writeItems files 0).callbackState, (writeItems files 0).st,
        (writeItems files 0).emitted⟩ := by
    change some (Json.printCallback (itemsCb files) (atItems 0 0) fSt 0 (some ())) = _
    unfold Json.printCallback
    dsimp only
    rw [if_pos rfl]
    change some (if (writeItems files 0).ret ≠ 0 then _ else _) = _
    rw [hret]
    rfl
  rw [Json.printLoop_next hitems ⟨rfl, Nat.zero_le _⟩]
  exact ⟨_, rfl⟩

/-- The list is produced exactly when there is a file. -/
theorem listing_terminates_iff (files fSt : List FsFile) (allocated : Bool) (mem : Nat → UInt8) :
    ListingTerminates files fSt allocated mem ↔ files ≠ [] := by
  constructor
  · rintro ⟨fuel, r, hr⟩ rfl
    rw [fsJSONGetList, Json.jsonPrint, printTree_nil] at hr
    cases hr
  · intro h
    obtain ⟨r, hr⟩ := items_ends h fSt
    refine ⟨5, ?_⟩
    rw [fsJSONGetList, Json.jsonPrint, printTree_eq, hr]
    exact ⟨_, rfl⟩

/-- The catalogue of two empty file systems. -/
theorem empty_not_terminates : ¬ListingTerminates [] [] true fun _ => 0 := by
  rintro ⟨fuel, r, hr⟩
  rw [fsJSONGetList, Json.jsonPrint, printTree_nil] at hr
  cases hr

end FlashFs
end EspMisc
