/-
The catalogue of files of `platform/flash_fs.c`.

`fs_file_list` is a list of the files on two file systems.  The file systems themselves
are maps from names to contents, and the functions of this file change one of them and
the list together.  They find an entry by `strstr`, so by any part of its name, and then
go on with the name that was asked for.  A file that `fs_remove_by_name` finds is removed,
and its entry stays: `SPIFFS_fremove` closes the descriptor, and the `SPIFFS_close` after it
fails.

`mirrors_iff` says when the list keeps up with the file systems: exactly as long as the
entry that `fs_new_file` or `fs_rename_file` goes on with has the name that was asked for,
and `fs_remove_by_name` finds nothing.
-/
import EspMisc.Lib.Catalogue
import EspMisc.Lib.Run
import Mathlib.Data.List.Infix
import Mathlib.Data.List.Nodup

namespace EspMisc
namespace FlashFs

abbrev Name := List UInt8

inductive FsNo
  | fs0 | fs1
deriving DecidableEq, Repr

def FsNo.no : FsNo → Nat
  | .fs0 => 0
  | .fs1 => 1

def MARK_CRC32 : BitVec 16 := 1#16 <<< 10
def MARK_CRC16 : BitVec 16 := 1#16 <<< 9
def MARK_CRC8 : BitVec 16 := 1#16 <<< 8
def MARK_DYNFS : BitVec 16 := 1#16 <<< 4
def MARK_STATICFS : BitVec 16 := 1#16 <<< 3
def MARK_BIG : BitVec 16 := 1#16 <<< 2

structure FsFile where
  flags : BitVec 16
  size : UInt32
  crc : UInt32
  name : Name
deriving DecidableEq, Repr

def getFs (f : FsFile) : Option FsNo :=
  if f.flags &&& MARK_DYNFS ≠ 0 then some .fs1
  else if f.flags &&& MARK_STATICFS ≠ 0 then some .fs0
  else none

/-! ## File systems -/

/-- A map from names to contents for each file system. -/
abbrev Store := FsNo → Name → Option (List UInt8)

/-- The size that `SPIFFS_fstat` reports. -/
def statSize (data : List UInt8) : UInt32 := UInt32.ofNat data.length

namespace Store

variable (st : Store) (fs : FsNo)

def put (name : Name) (data : Option (List UInt8)) : Store :=
  Function.update st fs (Function.update (st fs) name data)

/-- `SPIFFS_open` with `SPIFFS_CREAT`, and with `SPIFFS_TRUNC` or without it. -/
def create (name : Name) (trunc : Bool) : Store :=
  match st fs name with
  | none => st.put fs name (some [])
  | some _ => if trunc then st.put fs name (some []) else st

/-- `SPIFFS_open` with `SPIFFS_APPEND`, and `SPIFFS_write`. -/
def append (name : Name) (bytes : List UInt8) : Option Store :=
  (st fs name).map fun data => st.put fs name (some (data ++ bytes))

def rename (old new : Name) : Option Store :=
  match st fs old, st fs new with
  | some data, none => some ((st.put fs old none).put fs new (some data))
  | _, _ => none

end Store

/-! ## Removing through a descriptor -/

def SPIFFS_ERR_NOT_FOUND : Int := -10002
def SPIFFS_ERR_DELETED : Int := -10004
def SPIFFS_ERR_FILE_CLOSED : Int := -10008

/-- The file systems, the file of a descriptor that has been opened, or `none` when the
descriptor is closed, and `err_code`. -/
structure Spiffs where
  store : Store
  fd : Option (FsNo × Name)
  errCode : Int

/-- `SPIFFS_open` without `SPIFFS_CREAT`. -/
def spiffsOpen (store : Store) (errCode : Int) (fs : FsNo) (name : Name) : Option Spiffs :=
  (store fs name).map fun _ => ⟨store, some (fs, name), errCode⟩

/-- The event `SPIFFS_EV_IX_DEL` closes every descriptor of the file that goes. -/
def spiffsFremove (v : Spiffs) : Spiffs × Int :=
  match v.fd with
  | none => ({ v with errCode := SPIFFS_ERR_FILE_CLOSED }, SPIFFS_ERR_FILE_CLOSED)
  | some (fs, name) => ({ v with store := v.store.put fs name none, fd := none }, 0)

def spiffsClose (v : Spiffs) : Spiffs × Int :=
  match v.fd with
  | none => ({ v with errCode := SPIFFS_ERR_FILE_CLOSED }, SPIFFS_ERR_FILE_CLOSED)
  | some _ => ({ v with fd := none }, 0)

def myspiffsFremove (v : Spiffs) : Spiffs × Int :=
  let (v, res) := spiffsFremove v
  let (v, res) := if res ≥ 0 then spiffsClose v else (v, res)
  if res ≥ 0 then (v, 1)
  else if v.errCode = SPIFFS_ERR_NOT_FOUND ∨ v.errCode = SPIFFS_ERR_DELETED then
    ({ v with errCode := 0 }, 1)
  else if res = SPIFFS_ERR_NOT_FOUND ∨ res = SPIFFS_ERR_DELETED then ({ v with errCode := 0 }, 1)
  else (v, -1)

/-- The file of an open descriptor goes, and the answer is that of a failure. -/
theorem myspiffsFremove_open {store : Store} {fs : FsNo} {name : Name} {errCode : Int} :
    myspiffsFremove ⟨store, some (fs, name), errCode⟩ =
      (⟨store.put fs name none, none, SPIFFS_ERR_FILE_CLOSED⟩, -1) :=
  rfl

structure Flash where
  files : List FsFile
  store : Store

/-! ## The functions of the file -/

/-- The entry that `fs_exists` finds, with those before it and those after it. -/
def fsExists (name : Name) : List FsFile → Option (List FsFile × FsFile × List FsFile)
  | [] => none
  | f :: files =>
    if name <:+: f.name then some ([], f, files)
    else (fsExists name files).map fun r => (f :: r.1, r.2)

/-- Nothing sets the `crc` of a new entry: `heap` is what the allocated memory holds there. -/
def fsNewFile (fs : FsNo) (filename : Option Name) (overwrite : Bool) (heap : UInt32) (s : Flash) :
    Flash × Int :=
  match filename with
  | none => (s, 0)
  | some filename =>
    match fsExists filename s.files with
    | none =>
      ({ files := ⟨1#16 <<< (fs.no + 3), 0, heap, filename⟩ :: s.files
         store := s.store.create fs filename false }, 1)
    | some (before, f, after) =>
      if getFs f = some fs ∧ overwrite = false then (s, 0)
      else
        let files := before ++ { f with size := 0, crc := 0 } :: after
        match getFs f with
        | none => ({ s with files := files }, -1)
        | some fsNo => ({ files := files, store := s.store.create fsNo filename true }, 1)

/-- `fs_append_to_file` of the entry at `index`, which is the null pointer past the end. -/
def fsAppendToFile (index : Nat) (data : Option (Nat → UInt8)) (len : UInt16) (s : Flash) :
    Flash × Int :=
  match data, s.files[index]? with
  | some data, some f =>
    if len = 0 then (s, -1)
    else
      let big := f.size + len.toUInt32 > 65535
      let f := { f with flags := if big then f.flags ||| MARK_BIG else f.flags }
      match (getFs f).bind fun fs => s.store.append fs f.name ((List.range len.toNat).map data) with
      | none => ({ s with files := s.files.set index f }, -1)
      | some store =>
        ({ files := s.files.set index { f with size := f.size + len.toUInt32 }, store := store },
          len.toNat)
  | _, _ => (s, -1)

/-- The number of the file system is not used. -/
def fsRenameFile (_fs : FsNo) (old new : Option Name) (s : Flash) : Flash × Int :=
  match old, new with
  | some old, some new =>
    match fsExists old s.files with
    | none => (s, -1)
    | some (before, f, after) =>
      match (getFs f).bind fun fs => s.store.rename fs old new with
      | none => (s, -1)
      | some store => ({ files := before ++ { f with name := new } :: after, store := store }, 1)
  | _, _ => (s, -1)

/-- `errCode` is what the calls before have left in `err_code`. -/
def fsRemoveByName (filename : Option Name) (errCode : Int) (s : Flash) : Flash × Int :=
  match filename with
  | none => (s, -1)
  | some filename =>
    match fsExists filename s.files with
    | none => (s, -1)
    | some (before, f, after) =>
      match getFs f with
      | none => (s, 1)
      | some fs =>
        match spiffsOpen s.store errCode fs f.name with
        | none => (s, -1)
        | some v =>
          let (v, res) := myspiffsFremove v
          if res ≥ 0 ∨ res = SPIFFS_ERR_NOT_FOUND ∨ res = SPIFFS_ERR_DELETED then
            ({ files := before ++ after, store := v.store }, 1)
          else ({ s with store := v.store }, res)

def crcMark (size : UInt32) : BitVec 16 :=
  if size ≤ 255 then MARK_CRC8 else if size ≤ 65535 then MARK_CRC16 else MARK_CRC32

/-- The entry of a file that `fs_readdir` or `dynfs_readdir` names, with what `fs_update_crc`
leaves in it. -/
def initEntry (updateCrc : FsFile → UInt32) (store : Store) (fs : FsNo) (name : Name) : FsFile :=
  let size := ((store fs name).map statSize).getD 0
  let flags :=
    match fs with
    | .fs0 => MARK_STATICFS
    | .fs1 => if size > 65000 then MARK_BIG ||| MARK_DYNFS else MARK_DYNFS
  let f : FsFile := { flags := flags ||| crcMark size, size := size, crc := 0, name := name }
  { f with crc := updateCrc f }

/-- `fs_init_info`, with the names that the two directories list. -/
def fsInitInfo (updateCrc : FsFile → UInt32) (dir : FsNo → List Name) (store : Store) : Flash where
  files :=
    (dir .fs1).foldl (fun files name => initEntry updateCrc store .fs1 name :: files)
      ((dir .fs0).foldl (fun files name => initEntry updateCrc store .fs0 name :: files) [])
  store := store

inductive Call
  | newFile (fs : FsNo) (filename : Option Name) (overwrite : Bool) (heap : UInt32)
  | append (index : Nat) (data : Option (Nat → UInt8)) (len : UInt16)
  | rename (fs : FsNo) (old new : Option Name)
  | remove (filename : Option Name) (errCode : Int)

def Call.run (s : Flash) : Call → Flash × Int
  | .newFile fs filename overwrite heap => fsNewFile fs filename overwrite heap s
  | .append index data len => fsAppendToFile index data len s
  | .rename fs old new => fsRenameFile fs old new s
  | .remove filename errCode => fsRemoveByName filename errCode s

def callStep (s : Flash) (call : Call) : Option (Flash × List Int) :=
  some ((call.run s).1, [(call.run s).2])

/-! ## Entries and files -/

def FsNo.mark : FsNo → BitVec 16
  | .fs0 => MARK_STATICFS
  | .fs1 => MARK_DYNFS

/-- Which file an entry is about: the flag of a file system and a name. -/
def FsFile.key (f : FsFile) : BitVec 16 × Name :=
  (f.flags &&& (MARK_STATICFS ||| MARK_DYNFS), f.name)

def onDisk (store : Store) (k : BitVec 16 × Name) : Option UInt32 :=
  if k.1 = FsNo.fs0.mark then (store .fs0 k.2).map statSize
  else if k.1 = FsNo.fs1.mark then (store .fs1 k.2).map statSize
  else none

/-- There is one entry for each file, with its name, its file system and its size, and
there are no other entries. -/
def Mirrored (s : Flash) : Prop :=
  Catalogue.Mirrors FsFile.key FsFile.size s.files (onDisk s.store)

variable {s : Flash} {fs : FsNo} {f : FsFile} {name : Name} {store : Store}

theorem mark_injective {fs fs' : FsNo} (h : fs.mark = fs'.mark) : fs = fs' := by
  cases fs <;> cases fs' <;> first | rfl | exact absurd h (by decide)

theorem onDisk_mark (store : Store) (fs : FsNo) (name : Name) :
    onDisk store (fs.mark, name) = (store fs name).map statSize := by
  cases fs with
  | fs0 => rfl
  | fs1 => exact (if_neg (show FsNo.fs1.mark ≠ FsNo.fs0.mark by decide)).trans (if_pos rfl)

theorem onDisk_other {k : BitVec 16 × Name} (h : ∀ fs, k.1 ≠ FsNo.mark fs) :
    onDisk store k = none := by
  unfold onDisk
  rw [if_neg (h .fs0), if_neg (h .fs1)]

theorem onDisk_put (data : Option (List UInt8)) :
    onDisk (store.put fs name data) =
      Function.update (onDisk store) (fs.mark, name) (data.map statSize) := by
  funext ⟨mark, n⟩
  by_cases hmark : ∃ fs', mark = FsNo.mark fs'
  · obtain ⟨fs', rfl⟩ := hmark
    rw [onDisk_mark]
    by_cases hfs : fs' = fs
    · subst hfs
      by_cases hn : n = name
      · subst hn
        simp [Store.put]
      · rw [Function.update_of_ne (by simp [hn]), onDisk_mark]
        simp [Store.put, hn]
    · have hne : fs'.mark ≠ fs.mark := fun h => hfs (mark_injective h)
      rw [Function.update_of_ne (by simp [hne]), onDisk_mark]
      simp [Store.put, hfs]
  · have hnone : ∀ fs', mark ≠ FsNo.mark fs' := fun fs' h => hmark ⟨fs', h⟩
    rw [onDisk_other hnone, Function.update_of_ne (by simp [hnone]), onDisk_other hnone]

theorem getFs_of_mark (h : f.flags &&& (MARK_STATICFS ||| MARK_DYNFS) = fs.mark) :
    getFs f = some fs := by
  have hdyn : f.flags &&& MARK_DYNFS = fs.mark &&& MARK_DYNFS := by
    rw [← h, BitVec.and_assoc]
    congr 1
  have hstatic : f.flags &&& MARK_STATICFS = fs.mark &&& MARK_STATICFS := by
    rw [← h, BitVec.and_assoc]
    congr 1
  unfold getFs
  rw [hdyn, hstatic]
  cases fs <;> decide

theorem Mirrored.getFs_mem (h : Mirrored s) (hf : f ∈ s.files) :
    ∃ fs, getFs f = some fs ∧ f.key = (fs.mark, f.name) ∧
      (s.store fs f.name).map statSize = some f.size := by
  have hget := h.get hf
  by_cases hmark : ∃ fs, f.flags &&& (MARK_STATICFS ||| MARK_DYNFS) = FsNo.mark fs
  · obtain ⟨fs, hfs⟩ := hmark
    have hkey : f.key = (fs.mark, f.name) := by rw [FsFile.key, hfs]
    rw [hkey, onDisk_mark] at hget
    exact ⟨fs, getFs_of_mark hfs, hkey, hget⟩
  · rw [onDisk_other fun fs hfs => hmark ⟨fs, hfs⟩] at hget
    exact absurd hget nofun

theorem fsExists_some {files before after : List FsFile}
    (h : fsExists name files = some (before, f, after)) : files = before ++ f :: after := by
  induction files generalizing before with
  | nil => exact absurd h nofun
  | cons g files ih =>
    unfold fsExists at h
    split at h
    · obtain ⟨rfl, rfl, rfl⟩ := by simpa using h
      rfl
    · obtain ⟨⟨a, g', b⟩, hr, heq⟩ := Option.map_eq_some_iff.mp h
      obtain ⟨rfl, rfl, rfl⟩ := by simpa using heq
      rw [ih hr, List.cons_append]

theorem fsExists_none {files : List FsFile} (h : fsExists name files = none) :
    ∀ f ∈ files, f.name ≠ name := by
  induction files with
  | nil => exact List.forall_mem_nil _
  | cons g files ih =>
    unfold fsExists at h
    split at h
    · exact absurd h nofun
    · rename_i hg
      refine List.forall_mem_cons.mpr ⟨?_, ih (by simpa using h)⟩
      rintro rfl
      exact hg List.infix_rfl

theorem Mirrored.store_eq_none (h : Mirrored s) (hnone : ∀ f ∈ s.files, f.name ≠ name) :
    s.store fs name = none := by
  by_contra hsome
  have hdisk : (onDisk s.store (fs.mark, name)).isSome = true := by
    rw [onDisk_mark, Option.isSome_map]
    exact Option.isSome_iff_ne_none.mpr hsome
  obtain ⟨f, hf, hkey⟩ := h.exists_of_isSome hdisk
  exact hnone f hf (congrArg Prod.snd hkey)

/-! ## One call -/

theorem onDisk_create_trunc :
    onDisk (store.create fs name true) =
      Function.update (onDisk store) (fs.mark, name) (some 0) := by
  have hcreate : store.create fs name true = store.put fs name (some []) := by
    unfold Store.create
    split <;> rfl
  rw [hcreate, onDisk_put]
  rfl

theorem onDisk_create_new (h : store fs name = none) :
    onDisk (store.create fs name false) =
      Function.update (onDisk store) (fs.mark, name) (some 0) := by
  rw [Store.create, h]
  exact onDisk_put _

theorem newEntry_key (fs : FsNo) (heap : UInt32) (name : Name) :
    FsFile.key ⟨1#16 <<< (fs.no + 3), 0, heap, name⟩ = (fs.mark, name) := by
  have hmark : 1#16 <<< (fs.no + 3) &&& (MARK_STATICFS ||| MARK_DYNFS) = fs.mark := by
    cases fs <;> decide
  rw [FsFile.key, hmark]

/-- The call goes on with an entry of another name, or it finds a file to remove. -/
inductive Strays (s : Flash) : Call → Prop
  | newFile {fs fsNo : FsNo} {filename : Name} {overwrite : Bool} {heap : UInt32}
      {before after : List FsFile} {f : FsFile}
      (hexists : fsExists filename s.files = some (before, f, after))
      (hname : f.name ≠ filename) (hgo : ¬(getFs f = some fs ∧ overwrite = false))
      (hfs : getFs f = some fsNo)
      (hlost : ¬(f.size = 0 ∧ (s.store fsNo filename).map statSize = some 0)) :
      Strays s (.newFile fs (some filename) overwrite heap)
  | rename {fs fsNo : FsNo} {old new : Name} {before after : List FsFile} {f : FsFile}
      {store : Store} (hexists : fsExists old s.files = some (before, f, after))
      (hname : f.name ≠ old) (hfs : getFs f = some fsNo)
      (hrename : s.store.rename fsNo old new = some store) :
      Strays s (.rename fs (some old) (some new))
  | remove {filename : Name} {errCode : Int} {before after : List FsFile} {f : FsFile}
      (hexists : fsExists filename s.files = some (before, f, after)) :
      Strays s (.remove (some filename) errCode)

theorem create_mirrored {filename : Name} {heap : UInt32} (h : Mirrored s)
    (hexists : fsExists filename s.files = none) :
    Mirrored
      { files := ⟨1#16 <<< (fs.no + 3), 0, heap, filename⟩ :: s.files
        store := s.store.create fs filename false } := by
  have hnone : s.store fs filename = none := h.store_eq_none (fsExists_none hexists)
  have hkey := newEntry_key fs heap filename
  have hcons := h.cons (e := ⟨1#16 <<< (fs.no + 3), 0, heap, filename⟩) (by
    rw [hkey, onDisk_mark, hnone]
    rfl)
  rw [hkey] at hcons
  unfold Mirrored
  rw [onDisk_create_new hnone]
  exact hcons

theorem resize_mirrored {before after : List FsFile} {f' : FsFile} (h : Mirrored s)
    (hfiles : s.files = before ++ f :: after) (hkey : f.key = (fs.mark, name))
    (hsame : f'.key = f.key)
    (hdisk : onDisk store = Function.update (onDisk s.store) (fs.mark, name) (some f'.size)) :
    Mirrored { files := before ++ f' :: after, store := store } := by
  unfold Mirrored at h ⊢
  rw [hfiles] at h
  have hreplace := h.replace (fun hne : f'.key ≠ f.key => absurd hsame hne)
  rw [hsame, Function.update_idem, hkey] at hreplace
  rw [hdisk]
  exact hreplace

theorem fsNewFile_mirrored (h : Mirrored s) (filename : Option Name) (overwrite : Bool)
    (heap : UInt32) (hstrays : ¬Strays s (.newFile fs filename overwrite heap)) :
    Mirrored (fsNewFile fs filename overwrite heap s).1 := by
  cases filename with
  | none => exact h
  | some filename =>
    unfold fsNewFile
    dsimp only
    cases hexists : fsExists filename s.files with
    | none => exact create_mirrored h hexists
    | some r =>
      obtain ⟨before, f, after⟩ := r
      have hfiles := fsExists_some hexists
      obtain ⟨fsNo, hfs, hkey, hsize⟩ := h.getFs_mem (f := f) (by simp [hfiles])
      dsimp only
      split
      · exact h
      · rename_i hgo
        rw [hfs]
        by_cases hname : f.name = filename
        · subst hname
          exact resize_mirrored h hfiles hkey rfl onDisk_create_trunc
        · have hkept : f.size = 0 ∧ (s.store fsNo filename).map statSize = some 0 := by
            by_contra hlost
            exact hstrays (.newFile hexists hname hgo hfs hlost)
          have hzero : onDisk s.store (fsNo.mark, filename) = some 0 := by
            rw [onDisk_mark, hkept.2]
          have hsized : onDisk s.store (fsNo.mark, f.name) = some 0 := by
            rw [onDisk_mark, hsize, hkept.1]
          refine resize_mirrored h hfiles hkey rfl ?_
          rw [onDisk_create_trunc, ← hzero, Function.update_eq_self, hzero, ← hsized,
            Function.update_eq_self]

/-- The file that was made has no entry, or the entry that was cleared is of a file that
was not. -/
theorem fsNewFile_strays {filename : Option Name} {overwrite : Bool} {heap : UInt32}
    (h : Mirrored s) (hstrays : Strays s (.newFile fs filename overwrite heap)) :
    ¬Mirrored (fsNewFile fs filename overwrite heap s).1 := by
  cases hstrays with
  | @newFile _ fsNo filename _ _ before after f hexists hname hgo hfs hlost =>
    have hfiles := fsExists_some hexists
    obtain ⟨fs', hfs', hkey, hsize⟩ := h.getFs_mem (f := f) (by simp [hfiles])
    obtain rfl : fsNo = fs' := Option.some.inj (hfs.symm.trans hfs')
    have hrun : (fsNewFile fs (some filename) overwrite heap s).1 =
        { files := before ++ { f with size := 0, crc := 0 } :: after
          store := s.store.create fsNo filename true } := by
      simp only [fsNewFile, hexists]
      rw [if_neg hgo, hfs]
    rw [hrun]
    intro hafter
    apply hlost
    unfold Mirrored at hafter
    rw [onDisk_create_trunc] at hafter
    constructor
    · have hcleared := hafter.get (e := { f with size := 0, crc := 0 }) (by simp)
      have hkey' : FsFile.key { f with size := 0, crc := 0 } = (fsNo.mark, f.name) := hkey
      rw [hkey', Function.update_of_ne (by simp [hname]), onDisk_mark, hsize] at hcleared
      exact Option.some.inj hcleared
    · obtain ⟨e, he, hekey⟩ := hafter.exists_of_isSome (k := (fsNo.mark, filename)) (by simp)
      have hmem : e ∈ s.files := by
        rw [hfiles]
        simp only [List.mem_append, List.mem_cons] at he ⊢
        rcases he with ha | rfl | hb
        · exact .inl ha
        · exact absurd (congrArg Prod.snd hekey) hname
        · exact .inr (.inr hb)
      have hget := hafter.get he
      have hbefore := h.get hmem
      rw [hekey, Function.update_self] at hget
      rw [hekey, onDisk_mark, ← hget] at hbefore
      exact hbefore

theorem key_big (f : FsFile) (big : Prop) [Decidable big] :
    FsFile.key { f with flags := if big then f.flags ||| MARK_BIG else f.flags } = f.key := by
  have hmarks : MARK_BIG &&& (MARK_STATICFS ||| MARK_DYNFS) = 0#16 := by decide
  unfold FsFile.key
  split
  · rw [BitVec.and_or_distrib_right, hmarks, BitVec.or_zero]
  · rfl

theorem statSize_append (data bytes : List UInt8) :
    statSize (data ++ bytes) = statSize data + statSize bytes := by
  unfold statSize
  rw [List.length_append, UInt32.ofNat_add]

theorem set_split {index : Nat} {files : List FsFile} (h : files[index]? = some f) (f' : FsFile) :
    files = files.take index ++ f :: files.drop (index + 1) ∧
      files.set index f' = files.take index ++ f' :: files.drop (index + 1) := by
  obtain ⟨hlt, rfl⟩ := List.getElem?_eq_some_iff.mp h
  constructor
  · rw [← List.drop_eq_getElem_cons hlt, List.take_append_drop]
  · rw [List.set_eq_take_append_cons_drop, if_pos hlt]

theorem fsAppendToFile_mirrored (h : Mirrored s) (index : Nat) (data : Option (Nat → UInt8))
    (len : UInt16) : Mirrored (fsAppendToFile index data len s).1 := by
  unfold fsAppendToFile
  split
  · rename_i data f hf
    split
    · exact h
    · obtain ⟨fs, hfs, hkey, hsize⟩ := h.getFs_mem (List.mem_of_getElem? hf)
      obtain ⟨content, hcontent, hstat⟩ := Option.map_eq_some_iff.mp hsize
      have hkey' := (key_big f (f.size + len.toUInt32 > 65535)).trans hkey
      dsimp only
      generalize (if f.size + len.toUInt32 > 65535 then f.flags ||| MARK_BIG else f.flags) =
        flags at hkey' ⊢
      have hfs' : getFs { f with flags := flags } = some fs :=
        getFs_of_mark (congrArg Prod.fst hkey')
      have hlen : len.toUInt32 = statSize ((List.range len.toNat).map data) := by
        rw [statSize, List.length_map, List.length_range]
        apply UInt32.toNat_inj.mp
        have hlt : len.toNat < UInt32.size := Nat.lt_trans len.toNat_lt (by decide)
        rw [UInt16.toNat_toUInt32, UInt32.toNat_ofNat_of_lt' hlt]
      obtain ⟨hfiles, hset⟩ := set_split hf
        { f with flags := flags, size := f.size + len.toUInt32 }
      rw [hfs', Option.bind_some, Store.append, hcontent, Option.map_some]
      dsimp only
      rw [hset]
      refine resize_mirrored h hfiles hkey (hkey'.trans hkey.symm) ?_
      rw [onDisk_put, Option.map_some, statSize_append, hstat, hlen]
  · exact h

/-- The file goes and the entry stays. -/
theorem fsRemoveByName_found {filename : Name} {errCode : Int} {before after : List FsFile}
    {data : List UInt8} (hexists : fsExists filename s.files = some (before, f, after))
    (hfs : getFs f = some fs) (hdata : s.store fs f.name = some data) :
    fsRemoveByName (some filename) errCode s =
      ({ s with store := s.store.put fs f.name none }, -1) := by
  simp only [fsRemoveByName, hexists, hfs, spiffsOpen, hdata, Option.map_some,
    myspiffsFremove_open]
  exact if_neg (by decide)

theorem fsRemoveByName_mirrored (h : Mirrored s) (filename : Option Name) (errCode : Int)
    (hstrays : ¬Strays s (.remove filename errCode)) :
    Mirrored (fsRemoveByName filename errCode s).1 := by
  cases filename with
  | none => exact h
  | some filename =>
    unfold fsRemoveByName
    dsimp only
    cases hexists : fsExists filename s.files with
    | none => exact h
    | some r => exact absurd (.remove hexists) hstrays

theorem fsRemoveByName_strays {filename : Option Name} {errCode : Int} (h : Mirrored s)
    (hstrays : Strays s (.remove filename errCode)) :
    ¬Mirrored (fsRemoveByName filename errCode s).1 := by
  cases hstrays with
  | @remove filename _ before after f hexists =>
    have hmem : f ∈ s.files := by simp [fsExists_some hexists]
    obtain ⟨fs, hfs, hkey, hsize⟩ := h.getFs_mem hmem
    obtain ⟨data, hdata, -⟩ := Option.map_eq_some_iff.mp hsize
    rw [fsRemoveByName_found hexists hfs hdata]
    intro hafter
    have hget := hafter.get hmem
    rw [onDisk_put, hkey, Function.update_self] at hget
    exact absurd hget nofun

theorem rename_some {fs : FsNo} {old new : Name} (h : s.store.rename fs old new = some store) :
    ∃ data, s.store fs old = some data ∧ s.store fs new = none ∧
      onDisk store =
        Function.update (Function.update (onDisk s.store) (fs.mark, old) none) (fs.mark, new)
          (some (statSize data)) := by
  unfold Store.rename at h
  split at h
  · rename_i data hold hnew
    obtain rfl := Option.some.inj h
    exact ⟨data, hold, hnew, by rw [onDisk_put, onDisk_put]; rfl⟩
  · exact absurd h nofun

theorem fsRenameFile_mirrored (h : Mirrored s) (old new : Option Name)
    (hstrays : ¬Strays s (.rename fs old new)) : Mirrored (fsRenameFile fs old new s).1 := by
  unfold fsRenameFile
  split
  · rename_i old new
    split
    · exact h
    · rename_i before f after hexists
      have hfiles := fsExists_some hexists
      obtain ⟨fsNo, hfs, hkey, hsize⟩ := h.getFs_mem (f := f) (by simp [hfiles])
      rw [hfs]
      split
      · exact h
      · rename_i store hrename
        have hname : f.name = old := by
          by_contra hne
          exact hstrays (.rename hexists hne hfs hrename)
        subst hname
        obtain ⟨data, hold, hnew, hdisk⟩ := rename_some hrename
        rw [hold, Option.map_some, Option.some.injEq] at hsize
        unfold Mirrored at h ⊢
        rw [hfiles] at h
        have hkey' : FsFile.key { f with name := new } = (fsNo.mark, new) :=
          congrArg (fun k => (k.1, new)) hkey
        have hnone : FsFile.key { f with name := new } ≠ f.key →
            onDisk s.store (FsFile.key { f with name := new }) = none := by
          intro _
          rw [hkey', onDisk_mark, hnew]
          rfl
        have hreplace := h.replace hnone
        rw [hkey, hkey'] at hreplace
        rw [hdisk, hsize]
        exact hreplace
  · exact h

theorem fsRenameFile_strays {old new : Option Name} (h : Mirrored s)
    (hstrays : Strays s (.rename fs old new)) : ¬Mirrored (fsRenameFile fs old new s).1 := by
  cases hstrays with
  | @rename _ fsNo old new before after f store hexists hname hfs hrename =>
    have hfiles := fsExists_some hexists
    obtain ⟨fs', hfs', hkey, hsize⟩ := h.getFs_mem (f := f) (by simp [hfiles])
    obtain rfl : fsNo = fs' := Option.some.inj (hfs.symm.trans hfs')
    obtain ⟨data, hold, hnew, hdisk⟩ := rename_some hrename
    have hrun : (fsRenameFile fs (some old) (some new) s).1 =
        { files := before ++ { f with name := new } :: after, store := store } := by
      simp only [fsRenameFile, hexists, hfs, Option.bind_some, hrename]
    rw [hrun]
    intro hafter
    unfold Mirrored at h hafter
    have hne : f.name ≠ new := by
      rintro rfl
      rw [hnew] at hsize
      exact absurd hsize nofun
    have hkept : onDisk store (fsNo.mark, f.name) = some f.size := by
      rw [hdisk, Function.update_of_ne (by simp [hne]), Function.update_of_ne (by simp [hname]),
        onDisk_mark, hsize]
    obtain ⟨e, he, hekey⟩ := hafter.exists_of_isSome (k := (fsNo.mark, f.name)) (by rw [hkept]; rfl)
    have hrest : e ∈ before ++ after := by
      simp only [List.mem_append, List.mem_cons] at he ⊢
      rcases he with ha | rfl | hb
      · exact .inl ha
      · exact absurd (congrArg Prod.snd hekey).symm hne
      · exact .inr hb
    rw [hfiles] at h
    have hgone := h.erase.get hrest
    rw [hekey, ← hkey, Function.update_self] at hgone
    exact absurd hgone nofun

/-! ## Runs -/

theorem callStep_mirrored {call : Call} {t : Flash} {out : List Int} (h : Mirrored s)
    (hstep : callStep s call = some (t, out)) : Mirrored t ↔ ¬Strays s call := by
  obtain rfl : (call.run s).1 = t := congrArg Prod.fst (Option.some.inj hstep)
  cases call with
  | newFile fs filename overwrite heap =>
    constructor
    · intro hmirrored hstrays
      exact fsNewFile_strays h hstrays hmirrored
    · exact fsNewFile_mirrored h filename overwrite heap
  | rename fs old new =>
    constructor
    · intro hmirrored hstrays
      exact fsRenameFile_strays h hstrays hmirrored
    · exact fsRenameFile_mirrored h old new
  | append index data len => exact iff_of_true (fsAppendToFile_mirrored h index data len) nofun
  | remove filename errCode =>
    constructor
    · intro hmirrored hstrays
      exact fsRemoveByName_strays h hstrays hmirrored
    · exact fsRemoveByName_mirrored h filename errCode

/-- The directories list the files of the file systems, each of them once. -/
structure Listed (dir : FsNo → List Name) (store : Store) : Prop where
  nodup : ∀ fs, (dir fs).Nodup
  mem : ∀ fs name, name ∈ dir fs ↔ (store fs name).isSome = true

variable (updateCrc : FsFile → UInt32)

theorem initEntry_key (store : Store) (fs : FsNo) (name : Name) :
    (initEntry updateCrc store fs name).key = (fs.mark, name) := by
  have hcrc (size : UInt32) : crcMark size &&& (MARK_STATICFS ||| MARK_DYNFS) = 0#16 := by
    unfold crcMark
    split
    · decide
    · split <;> decide
  unfold initEntry FsFile.key
  dsimp only
  rw [BitVec.and_or_distrib_right, hcrc, BitVec.or_zero]
  congr 1
  cases fs with
  | fs0 =>
    change MARK_STATICFS &&& (MARK_STATICFS ||| MARK_DYNFS) = MARK_STATICFS
    decide
  | fs1 =>
    change ite _ _ _ &&& (MARK_STATICFS ||| MARK_DYNFS) = MARK_DYNFS
    split <;> decide

theorem initEntries_mirrored {dir : FsNo → List Name} (h : Listed dir store) (fs : FsNo) :
    Catalogue.Mirrors FsFile.key FsFile.size ((dir fs).map (initEntry updateCrc store fs))
      fun k => if k.1 = fs.mark then (store fs k.2).map statSize else none where
  nodup := by
    rw [List.map_map]
    refine (h.nodup fs).map ?_
    intro n n' heq
    simpa [initEntry_key] using heq
  mem := by
    intro k size
    constructor
    · rintro ⟨e, he, rfl, rfl⟩
      obtain ⟨name, hname, rfl⟩ := List.mem_map.mp he
      obtain ⟨data, hdata⟩ := Option.isSome_iff_exists.mp ((h.mem fs name).mp hname)
      rw [initEntry_key, if_pos rfl]
      simp [initEntry, hdata]
    · intro hsize
      obtain ⟨hmark, hsize⟩ := Option.ite_none_right_eq_some.mp hsize
      obtain ⟨data, hdata, rfl⟩ := Option.map_eq_some_iff.mp hsize
      refine ⟨_, List.mem_map.mpr ⟨k.2, (h.mem fs k.2).mpr (by rw [hdata]; rfl), rfl⟩, ?_, ?_⟩
      · rw [initEntry_key, ← hmark]
      · simp [initEntry, hdata]

theorem foldl_entries (g : Name → FsFile) (names : List Name) (files : List FsFile) :
    names.foldl (fun files name => g name :: files) files = (names.map g).reverse ++ files := by
  induction names generalizing files with
  | nil => rfl
  | cons name names ih =>
    rw [List.foldl_cons, ih, List.map_cons, List.reverse_cons, List.append_assoc]
    rfl

theorem fsInitInfo_mirrored {dir : FsNo → List Name} (h : Listed dir store) :
    Mirrored (fsInitInfo updateCrc dir store) := by
  have hfs1 := initEntries_mirrored updateCrc h .fs1
  have hmirrors := hfs1.append (initEntries_mirrored updateCrc h .fs0) (by
    intro k
    by_cases hk : k.1 = FsNo.fs1.mark
    · exact .inr (if_neg (hk ▸ by decide))
    · exact .inl (if_neg hk))
  have hdisk : onDisk store = fun k =>
      (if k.1 = FsNo.fs1.mark then (store .fs1 k.2).map statSize else none).or
        (if k.1 = FsNo.fs0.mark then (store .fs0 k.2).map statSize else none) := by
    funext k
    unfold onDisk
    by_cases hk : k.1 = FsNo.fs0.mark
    · rw [if_pos hk, if_pos hk, if_neg (hk ▸ by decide), Option.none_or]
    · rw [if_neg hk, if_neg hk, Option.or_none]
  unfold Mirrored fsInitInfo
  rw [foldl_entries, foldl_entries, List.append_nil, hdisk]
  exact hmirrors.perm ((List.reverse_perm _).symm.append (List.reverse_perm _).symm)

/-- After `fs_init_info`, the list keeps up with the file systems in every state of a run,
exactly when no call of the run goes on with an entry of another name and none finds a
file to remove. -/
theorem mirrors_iff {dir : FsNo → List Name} (h : Listed dir store)
    {tr : List (Machine.Taken Flash Call Int)}
    (hrun : Machine.Run callStep (fsInitInfo updateCrc dir store) tr s) :
    (Mirrored (fsInitInfo updateCrc dir store) ∧ ∀ k ∈ tr, Mirrored k.after) ↔
      ∀ k ∈ tr, ¬Strays k.before k.input := by
  have hinit := fsInitInfo_mirrored updateCrc h
  rw [and_iff_right hinit]
  refine hrun.always_iff (fun _ => True) Mirrored trivial hinit (fun _ _ => trivial) ?_
  intro s call t out _ hmirrored hstep
  exact callStep_mirrored hmirrored hstep

/-- One file, `abc`, on the first file system. -/
def sampleStore : Store := fun fs name =>
  if fs = .fs0 ∧ name = [0x61, 0x62, 0x63] then some [0x64] else none

def sampleDir : FsNo → List Name
  | .fs0 => [[0x61, 0x62, 0x63]]
  | .fs1 => []

theorem sample_listed : Listed sampleDir sampleStore := by
  constructor
  · intro fs
    cases fs <;> decide
  · intro fs name
    cases fs <;> simp [sampleDir, sampleStore]

def sampleFlash : Flash := fsInitInfo (fun _ => 7) sampleDir sampleStore

/-- The new file `b` is taken for `abc`. -/
theorem newFile_not_mirrored : ∃ tr s, Machine.Run callStep sampleFlash tr s ∧
    ¬(Mirrored sampleFlash ∧ ∀ k ∈ tr, Mirrored k.after) := by
  have hstep : callStep sampleFlash (.newFile .fs0 (some [0x62]) true 0) = some (_, _) := rfl
  refine ⟨_, _, .single hstep, ?_⟩
  rintro ⟨hstart, hall⟩
  have hmirrored := hall _ (List.mem_singleton_self _)
  refine (callStep_mirrored hstart hstep).mp hmirrored (.newFile rfl ?_ ?_ rfl ?_)
  · decide
  · decide
  · decide

theorem newFile_mirrors :
    Mirrored sampleFlash ∧
      Mirrored (fsNewFile .fs1 (some [0x78, 0x79]) false 0 sampleFlash).1 := by
  have hstep : callStep sampleFlash (.newFile .fs1 (some [0x78, 0x79]) false 0) = some (_, _) := rfl
  have hexists : fsExists [0x78, 0x79] sampleFlash.files = none := by decide
  have hall := (mirrors_iff (fun _ => 7) sample_listed (.single hstep)).mpr (by
    rw [List.forall_mem_singleton]
    intro hstrays
    cases hstrays with
    | newFile hfound => exact absurd (hexists.symm.trans hfound) nofun)
  exact ⟨hall.1, hall.2 _ (List.mem_singleton_self _)⟩

end FlashFs
end EspMisc
