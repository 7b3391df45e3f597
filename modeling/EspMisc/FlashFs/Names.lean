/-
What the lookup by `strstr` does to other files.

`fs_exists` takes the first entry whose name has the given string anywhere in it.
`lookup_exact_iff` says for which lists that is a lookup by name, and then
`fs_remove_by_name` and `fs_rename_file` touch no other file.  A file that is removed never
takes its entry with it.  `newFile_unharmed_iff` says
when `fs_new_file` without `overwrite` leaves the files there are as they are: a match on
the other file system goes the way of `overwrite`, and is cleared.
-/
import EspMisc.FlashFs.Files

namespace EspMisc
namespace FlashFs

variable {s : Flash} {fs fsNo : FsNo} {f : FsFile} {name : Name} {files before after : List FsFile}
variable {heap : UInt32}

/-! ## The first match -/

theorem fsExists_first (h : fsExists name files = some (before, f, after)) :
    name <:+: f.name ∧ ∀ g ∈ before, ¬name <:+: g.name := by
  induction files generalizing before with
  | nil => exact absurd h nofun
  | cons g files ih =>
    unfold fsExists at h
    by_cases hg : name <:+: g.name
    · rw [if_pos hg] at h
      obtain ⟨rfl, rfl, rfl⟩ := by simpa using h
      exact ⟨hg, List.forall_mem_nil _⟩
    · rw [if_neg hg] at h
      obtain ⟨⟨a, g', b⟩, hr, heq⟩ := Option.map_eq_some_iff.mp h
      obtain ⟨rfl, rfl, rfl⟩ := by simpa using heq
      have hrest := ih hr
      exact ⟨hrest.1, List.forall_mem_cons.mpr ⟨hg, hrest.2⟩⟩

/-- The search stops at a match or before it. -/
theorem fsExists_of_part (h : name <:+: f.name) (before after : List FsFile) :
    ∃ b g a, fsExists name (before ++ f :: after) = some (b, g, a) ∧ (g ∈ before ∨ g = f) := by
  induction before with
  | nil => exact ⟨[], f, after, if_pos h, .inr rfl⟩
  | cons e before ih =>
    rw [List.cons_append]
    unfold fsExists
    by_cases he : name <:+: e.name
    · exact ⟨[], e, before ++ f :: after, if_pos he, .inl List.mem_cons_self⟩
    · obtain ⟨b, g, a, hfound, hg⟩ := ih
      refine ⟨e :: b, g, a, ?_, hg.imp_left (List.mem_cons_of_mem e)⟩
      rw [if_neg he, hfound, Option.map_some]

/-- `fs_exists` finds an entry exactly when one has the name, and finds one that has it. -/
def LooksUp (name : Name) (files : List FsFile) : Prop :=
  ((fsExists name files).isSome = true ↔ ∃ f ∈ files, f.name = name) ∧
    ∀ before f after, fsExists name files = some (before, f, after) → f.name = name

/-- An entry with more than the string in its name comes after one with the string as its
name. -/
def ExactFirst (name : Name) (files : List FsFile) : Prop :=
  ∀ before f after, files = before ++ f :: after → name <:+: f.name → f.name ≠ name →
    ∃ g ∈ before, g.name = name

theorem ExactFirst.name_eq (h : ExactFirst name files)
    (hexists : fsExists name files = some (before, f, after)) : f.name = name := by
  obtain ⟨hpart, hfirst⟩ := fsExists_first hexists
  by_contra hne
  obtain ⟨g, hg, rfl⟩ := h before f after (fsExists_some hexists) hpart hne
  exact hfirst g hg List.infix_rfl

theorem looksUp_iff : LooksUp name files ↔ ExactFirst name files := by
  constructor
  · rintro ⟨-, hname⟩ before f after rfl hpart hne
    obtain ⟨b, g, a, hfound, hg | rfl⟩ := fsExists_of_part hpart before after
    · exact ⟨g, hg, hname b g a hfound⟩
    · exact absurd (hname b g a hfound) hne
  · intro h
    refine ⟨⟨?_, ?_⟩, fun before f after hexists => h.name_eq hexists⟩
    · intro hsome
      obtain ⟨⟨before, f, after⟩, hexists⟩ := Option.isSome_iff_exists.mp hsome
      exact ⟨f, by simp [fsExists_some hexists], h.name_eq hexists⟩
    · rintro ⟨f, hf, hname⟩
      by_contra hnone
      rw [Bool.not_eq_true, Option.isSome_eq_false_iff, Option.isNone_iff_eq_none] at hnone
      exact fsExists_none hnone f hf hname

/-! ## Removing and renaming -/

/-- At most the file `name` has gone, or the file and its entry. -/
def RemovesOnly (name : Name) (s t : Flash) : Prop :=
  t = s ∨ ∃ before f after fs data, s.files = before ++ f :: after ∧ f.name = name ∧
    getFs f = some fs ∧ s.store fs name = some data ∧ t.store = s.store.put fs name none ∧
      (t.files = s.files ∨ t.files = before ++ after)

/-- Nothing has gone, or the file `name` and its entry, both of them. -/
def RemovesBoth (name : Name) (s t : Flash) : Prop :=
  t = s ∨ ∃ before f after fs data, s.files = before ++ f :: after ∧ f.name = name ∧
    getFs f = some fs ∧ s.store fs name = some data ∧ t.store = s.store.put fs name none ∧
      t.files = before ++ after

/-- The name finds no entry, or one without a file. -/
def NothingToRemove (name : Name) (s : Flash) : Prop :=
  ∀ before f after fs, fsExists name s.files = some (before, f, after) →
    getFs f = some fs → s.store fs f.name = none

/-- At most the file `old` and its entry have another name. -/
def RenamesOnly (old new : Name) (s t : Flash) : Prop :=
  t = s ∨ ∃ before f after fs, s.files = before ++ f :: after ∧ f.name = old ∧
    getFs f = some fs ∧ t.files = before ++ { f with name := new } :: after ∧
      s.store.rename fs old new = some t.store

theorem fsRemoveByName_nothing (h : NothingToRemove name s) (errCode : Int) :
    (fsRemoveByName (some name) errCode s).1 = s := by
  unfold fsRemoveByName
  dsimp only
  cases hexists : fsExists name s.files with
  | none => rfl
  | some r =>
    obtain ⟨before, f, after⟩ := r
    cases hfs : getFs f with
    | none => simp only [hfs]
    | some fs => simp only [hfs, spiffsOpen, h before f after fs hexists hfs, Option.map_none]

/-- The call changes nothing, or one file has gone and the list is as it was. -/
theorem fsRemoveByName_cases (name : Name) (errCode : Int) (s : Flash) :
    ((fsRemoveByName (some name) errCode s).1 = s ∧ NothingToRemove name s) ∨
      ∃ before f after fs data, fsExists name s.files = some (before, f, after) ∧
        getFs f = some fs ∧ s.store fs f.name = some data ∧
        (fsRemoveByName (some name) errCode s).1 =
          { s with store := s.store.put fs f.name none } := by
  by_cases hnothing : NothingToRemove name s
  · exact .inl ⟨fsRemoveByName_nothing hnothing errCode, hnothing⟩
  · simp only [NothingToRemove, not_forall] at hnothing
    obtain ⟨before, f, after, fs, hexists, hfs, hstore⟩ := hnothing
    obtain ⟨data, hdata⟩ := Option.ne_none_iff_exists'.mp hstore
    exact .inr ⟨before, f, after, fs, data, hexists, hfs, hdata,
      congrArg Prod.fst (fsRemoveByName_found hexists hfs hdata)⟩

theorem fsRemoveByName_only (h : ExactFirst name s.files) (errCode : Int) :
    RemovesOnly name s (fsRemoveByName (some name) errCode s).1 := by
  rcases fsRemoveByName_cases name errCode s with
    ⟨hsame, -⟩ | ⟨before, f, after, fs, data, hexists, hfs, hdata, hgone⟩
  · exact .inl hsame
  · obtain rfl := h.name_eq hexists
    rw [hgone]
    exact .inr ⟨before, f, after, fs, data, fsExists_some hexists, rfl, hfs, hdata, rfl, .inl rfl⟩

/-- The entry stays, so the file and its entry go together only if nothing goes. -/
theorem fsRemoveByName_both_iff (name : Name) (errCode : Int) (s : Flash) :
    RemovesBoth name s (fsRemoveByName (some name) errCode s).1 ↔ NothingToRemove name s := by
  rcases fsRemoveByName_cases name errCode s with
    ⟨hsame, hnothing⟩ | ⟨before, f, after, fs, data, hexists, hfs, hdata, hgone⟩
  · exact iff_of_true (.inl hsame) hnothing
  · refine iff_of_false ?_ fun hnothing => ?_
    · rw [hgone]
      rintro (hsame | ⟨b, g, a, fs', data', hsplit, -, -, -, -, hfiles⟩)
      · have hstore := congrArg (fun t => t.store fs f.name) hsame
        simp [Store.put, hdata] at hstore
      · have hlength := congrArg List.length (hsplit.symm.trans hfiles)
        simp at hlength
    · exact absurd (hdata.symm.trans (hnothing before f after fs hexists hfs))
        (Option.some_ne_none _)

theorem fsRenameFile_only (h : ExactFirst name s.files) (fs : FsNo) (new : Name) :
    RenamesOnly name new s (fsRenameFile fs (some name) (some new) s).1 := by
  unfold fsRenameFile
  dsimp only
  cases hexists : fsExists name s.files with
  | none => exact .inl rfl
  | some r =>
    obtain ⟨before, f, after⟩ := r
    cases hfs : getFs f with
    | none => simp only [hfs]; exact .inl rfl
    | some fsNo =>
      cases hrename : s.store.rename fsNo name new with
      | none => simp only [hfs, Option.bind_some, hrename]; exact .inl rfl
      | some store =>
        simp only [hfs, Option.bind_some, hrename]
        exact .inr ⟨before, f, after, fsNo, fsExists_some hexists, h.name_eq hexists, hfs, rfl,
          hrename⟩

/-- The lookup is by name, and with it what is removed and renamed, exactly when the first
entry with the string in its name has no more than it.  That a file goes together with its
entry holds exactly when, besides, there is nothing to remove. -/
theorem lookup_exact_iff (s : Flash) (name : Name) (errCode : Int) :
    ((LooksUp name s.files ∧ RemovesOnly name s (fsRemoveByName (some name) errCode s).1 ∧
        ∀ fs new, RenamesOnly name new s (fsRenameFile fs (some name) (some new) s).1) ↔
      ExactFirst name s.files) ∧
    ((LooksUp name s.files ∧ RemovesBoth name s (fsRemoveByName (some name) errCode s).1 ∧
        ∀ fs new, RenamesOnly name new s (fsRenameFile fs (some name) (some new) s).1) ↔
      ExactFirst name s.files ∧ NothingToRemove name s) := by
  rw [looksUp_iff, fsRemoveByName_both_iff]
  constructor
  · constructor
    · intro h
      exact h.1
    · intro h
      exact ⟨h, fsRemoveByName_only h errCode, fsRenameFile_only h⟩
  · constructor
    · rintro ⟨h, hnothing, -⟩
      exact ⟨h, hnothing⟩
    · rintro ⟨h, hnothing⟩
      exact ⟨h, hnothing, fsRenameFile_only h⟩

/-- The string `b` finds the file `abc`, which is removed. -/
theorem lookup_not_exact :
    ¬LooksUp [0x62] sampleFlash.files ∧
      ¬RemovesOnly [0x62] sampleFlash (fsRemoveByName (some [0x62]) 0 sampleFlash).1 := by
  have hfiles : sampleFlash.files = [initEntry (fun _ => 7) sampleStore .fs0 [0x61, 0x62, 0x63]] :=
    rfl
  have hgone : (fsRemoveByName (some [0x62]) 0 sampleFlash).1.store .fs0 [0x61, 0x62, 0x63] =
      none := rfl
  constructor
  · rw [looksUp_iff]
    intro h
    obtain ⟨g, hg, -⟩ := h [] _ [] hfiles (by decide) (by decide)
    exact absurd hg List.not_mem_nil
  · rintro (hsame | ⟨before, f, after, fs, data, hsplit, hname, -, -, -, -⟩)
    · rw [hsame] at hgone
      exact absurd hgone (by decide)
    · have hmem : f ∈ sampleFlash.files := by simp [hsplit]
      rw [hfiles, List.mem_singleton] at hmem
      subst hmem
      exact absurd hname (by decide)

/-- By its own name `abc` is removed as well, and its entry stays. -/
example : (fsRemoveByName (some [0x61, 0x62, 0x63]) 0 sampleFlash).2 = -1 ∧
    (fsRemoveByName (some [0x61, 0x62, 0x63]) 0 sampleFlash).1.files = sampleFlash.files := by
  decide

/-! ## A new file without overwriting -/

/-- The files that were there have their content, and the size and the crc that were
recorded of them. -/
structure Unharmed (s t : Flash) : Prop where
  content : ∀ fs name data, s.store fs name = some data → t.store fs name = some data
  kept : ∀ f ∈ s.files, ∃ g ∈ t.files, g.key = f.key
  recorded : ∀ f ∈ s.files, ∀ g ∈ t.files, g.key = f.key → g.size = f.size ∧ g.crc = f.crc

/-- What the name finds on the other file system has nothing to lose. -/
def NothingToClear (fs : FsNo) (name : Name) (s : Flash) : Prop :=
  ∀ before f after fsNo, fsExists name s.files = some (before, f, after) →
    getFs f = some fsNo → fsNo ≠ fs →
      f.size = 0 ∧ f.crc = 0 ∧ ∀ data, s.store fsNo name = some data → data = []

theorem Mirrored.eq_of_key {g : FsFile} (h : Mirrored s) (hf : f ∈ s.files) (hg : g ∈ s.files)
    (hkey : g.key = f.key) : g = f :=
  List.inj_on_of_nodup_map h.nodup hg hf hkey

theorem Mirrored.unharmed_self (h : Mirrored s) : Unharmed s s where
  content := fun _ _ _ hdata => hdata
  kept := fun f hf => ⟨f, hf, rfl⟩
  recorded := by
    intro f hf g hg hkey
    rw [h.eq_of_key hf hg hkey]
    exact ⟨rfl, rfl⟩

theorem Store.put_of_ne (st : Store) (data : Option (List UInt8)) {fs' : FsNo} {name' : Name}
    (h : ¬(fs' = fs ∧ name' = name)) : st.put fs name data fs' name' = st fs' name' := by
  unfold Store.put
  by_cases hfs : fs' = fs
  · subst hfs
    rw [Function.update_self, Function.update_of_ne fun hname => h ⟨rfl, hname⟩]
  · rw [Function.update_of_ne hfs]

theorem Store.create_content {st : Store} {trunc : Bool}
    (hempty : trunc = true → ∀ data, st fs name = some data → data = []) {fs' : FsNo}
    {name' : Name} {data : List UInt8} (hdata : st fs' name' = some data) :
    st.create fs name trunc fs' name' = some data := by
  unfold Store.create
  by_cases hsame : fs' = fs ∧ name' = name
  · obtain ⟨rfl, rfl⟩ := hsame
    rw [hdata]
    cases trunc with
    | false => exact hdata
    | true => simp [Store.put, hempty rfl data hdata]
  · have hput := Store.put_of_ne st (some []) hsame
    cases hst : st fs name with
    | none => exact hput.trans hdata
    | some old => cases trunc <;> simp [hput, hdata]

theorem create_unharmed (h : Mirrored s) (hexists : fsExists name s.files = none) :
    Unharmed s
      { files := ⟨1#16 <<< (fs.no + 3), 0, heap, name⟩ :: s.files
        store := s.store.create fs name false } where
  content := fun _ _ _ hdata =>
    Store.create_content (fun htrunc => absurd htrunc Bool.false_ne_true) hdata
  kept := fun f hf => ⟨f, List.mem_cons_of_mem _ hf, rfl⟩
  recorded := by
    intro f hf g hg hkey
    rcases List.mem_cons.mp hg with rfl | hg
    · rw [newEntry_key] at hkey
      exact absurd (congrArg Prod.snd hkey).symm (fsExists_none hexists f hf)
    · exact h.unharmed_self.recorded f hf g hg hkey

theorem fsNewFile_other (hexists : fsExists name s.files = some (before, f, after))
    (hfs : getFs f = some fsNo) (hother : fsNo ≠ fs) :
    (fsNewFile fs (some name) false heap s).1 =
      { files := before ++ { f with size := 0, crc := 0 } :: after
        store := s.store.create fsNo name true } := by
  have hgo : ¬(getFs f = some fs ∧ True) := by
    rintro ⟨hsame, -⟩
    exact hother (Option.some.inj (hfs.symm.trans hsame))
  simp only [fsNewFile, hexists]
  rw [if_neg hgo, hfs]

theorem fsNewFile_unharmed (h : Mirrored s) (hclear : NothingToClear fs name s) :
    Unharmed s (fsNewFile fs (some name) false heap s).1 := by
  cases hexists : fsExists name s.files with
  | none =>
    simp only [fsNewFile, hexists]
    exact create_unharmed h hexists
  | some r =>
    obtain ⟨before, f, after⟩ := r
    have hfiles := fsExists_some hexists
    obtain ⟨fsNo, hfs, -, -⟩ := h.getFs_mem (f := f) (by simp [hfiles])
    by_cases hsame : fsNo = fs
    · subst hsame
      simp only [fsNewFile, hexists]
      rw [if_pos ⟨hfs, trivial⟩]
      exact h.unharmed_self
    · obtain ⟨hsize, hcrc, hempty⟩ := hclear before f after fsNo hexists hfs hsame
      have hcleared : { f with size := 0, crc := 0 } = f := by
        cases f with
        | mk flags size crc name' =>
          obtain rfl : size = 0 := hsize
          obtain rfl : crc = 0 := hcrc
          rfl
      rw [fsNewFile_other hexists hfs hsame, hcleared, ← hfiles]
      exact {
        content := fun _ _ _ hdata => Store.create_content (fun _ => hempty) hdata
        kept := h.unharmed_self.kept
        recorded := h.unharmed_self.recorded }

theorem nothingToClear_of_unharmed
    (hunharmed : Unharmed s (fsNewFile fs (some name) false heap s).1) :
    NothingToClear fs name s := by
  intro before f after fsNo hexists hfs hother
  rw [fsNewFile_other hexists hfs hother] at hunharmed
  have hrecorded := hunharmed.recorded f (by simp [fsExists_some hexists])
    { f with size := 0, crc := 0 } (by simp) rfl
  refine ⟨hrecorded.1.symm, hrecorded.2.symm, ?_⟩
  intro data hdata
  have hcontent := hunharmed.content fsNo name data hdata
  simp only [Store.create, hdata, if_true, Store.put, Function.update_self] at hcontent
  exact (Option.some.inj hcontent).symm

/-- Without `overwrite` a new file leaves the others as they are, exactly when the name
does not find, on the other file system, an entry or a file that has something in it. -/
theorem newFile_unharmed_iff (h : Mirrored s) (fs : FsNo) (name : Name) (heap : UInt32) :
    Unharmed s (fsNewFile fs (some name) false heap s).1 ↔ NothingToClear fs name s := by
  constructor
  · exact nothingToClear_of_unharmed
  · exact fsNewFile_unharmed h

theorem sampleFlash_mirrored : Mirrored sampleFlash :=
  fsInitInfo_mirrored (fun _ => 7) sample_listed

/-- Asked for on the second file system, `abc` on the first is cleared. -/
theorem newFile_harms :
    Mirrored sampleFlash ∧
      ¬Unharmed sampleFlash (fsNewFile .fs1 (some [0x61, 0x62, 0x63]) false 0 sampleFlash).1 := by
  refine ⟨sampleFlash_mirrored, ?_⟩
  intro hunharmed
  have hcontent := hunharmed.content .fs0 [0x61, 0x62, 0x63] [0x64] rfl
  exact absurd hcontent (by decide)

/-- On the file system that it is on, `abc` is found and left as it is. -/
theorem newFile_unharmed :
    Mirrored sampleFlash ∧
      Unharmed sampleFlash (fsNewFile .fs0 (some [0x61, 0x62, 0x63]) false 0 sampleFlash).1 := by
  refine ⟨sampleFlash_mirrored, (newFile_unharmed_iff sampleFlash_mirrored .fs0 _ 0).mpr ?_⟩
  intro before f after fsNo hexists hfs hother
  have hfound : fsExists [0x61, 0x62, 0x63] sampleFlash.files =
      some ([], initEntry (fun _ => 7) sampleStore .fs0 [0x61, 0x62, 0x63], []) := rfl
  obtain rfl : initEntry (fun _ => 7) sampleStore .fs0 [0x61, 0x62, 0x63] = f :=
    congrArg (·.2.1) (Option.some.inj (hfound.symm.trans hexists))
  have hfs0 : getFs (initEntry (fun _ => 7) sampleStore .fs0 [0x61, 0x62, 0x63]) = some .fs0 := by
    decide
  exact absurd (Option.some.inj (hfs.symm.trans hfs0)) hother

end FlashFs
end EspMisc
