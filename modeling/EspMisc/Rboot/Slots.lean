/-
What the last roms are good for.

`rboot_switch_to_main` and `rboot_switch_to_setup` go to the last rom of a class.  So it
should be a rom of that class, and it should be the one that ran last.  `classes_iff` says
when the first holds, over any calls and reboots: the default configuration breaks it.
`remembers` says when the second does: `rboot_switch` has to find the rom that runs
selected, as it does unless another call has come before.
-/
import EspMisc.Rboot.Switch

namespace EspMisc
namespace Rboot

open Machine

/-! ## The classes of the last roms -/

/-- The last roms are of their classes. -/
def Selection.Classed (s : Selection) : Prop :=
  (s.lastSetupRom = 0 ∨ s.lastSetupRom = 1) ∧ (s.lastMainRom = 2 ∨ s.lastMainRom = 3)

theorem Selection.Classed.select {s : Selection} (h : s.Classed) (rom : UInt8) :
    (s.select rom).Classed := by
  simp only [Selection.Classed, Selection.select]
  constructor
  · split
    · next hlt =>
      have hlt := UInt8.lt_iff_toNat_lt.mp hlt
      rw [← UInt8.toNat_inj, ← UInt8.toNat_inj]
      exact Nat.le_one_iff_eq_zero_or_eq_one.mp (Nat.le_of_lt_succ hlt)
    · exact h.1
  · split
    · next hlt =>
      have hle := UInt8.le_iff_toNat_le.mp hlt.1
      have hlt := UInt8.lt_iff_toNat_lt.mp hlt.2
      rw [← UInt8.toNat_inj, ← UInt8.toNat_inj]
      simp only [UInt8.reduceToNat] at hle hlt ⊢
      omega
    · exact h.2

theorem Valid.boot {f : Flash} (h : Valid f) (hc : (selection f).Classed)
    {checkImage : UInt32 → UInt32} {b : Booted} (hb : findImage f checkImage = some b) :
    Valid b.flash ∧ (selection b.flash).Classed := by
  have hboot : bootConfig f = rbootGetConfig f := if_pos h.accepted
  have hkept := findImage_kept hb
  rw [hboot] at hkept
  refine ⟨⟨hkept.accepted, hkept.count.trans h.count⟩, ?_, ?_⟩
  · rcases hkept.lastSetupRom with hs | hs
    · rw [selection, hs]
      exact hc.1
    · rw [selection, hs]
      exact Or.inl rfl
  · rw [selection, hkept.lastMainRom]
    exact hc.2

/-- A device whose last roms are of their classes, so that it switches to a rom of the
class it is asked for. -/
def SwitchesByClass (d : Device) : Prop :=
  (selection d.flash).Classed ∧
    (∀ malloc, ∃ slotNo, (slotNo = 2 ∨ slotNo = 3) ∧
      rbootSwitchToMain d malloc = rbootSwitch d slotNo true malloc) ∧
    ∀ malloc, ∃ slotNo, (slotNo = 0 ∨ slotNo = 1) ∧
      rbootSwitchToSetup d malloc = rbootSwitch d slotNo true malloc

theorem Selection.Classed.switches {d : Device} (h : (selection d.flash).Classed) :
    SwitchesByClass d :=
  ⟨h, fun _ => ⟨_, h.2, rfl⟩, fun _ => ⟨_, h.1, rfl⟩⟩

theorem step_classed {d d' : Device} {i : Event × Answers} {out : List Output}
    (h : Valid d.flash ∧ (selection d.flash).Classed) (hstep : step d i = some (d', out)) :
    Valid d'.flash ∧ (selection d'.flash).Classed := by
  rcases step_cases hstep with ⟨b, -, hb, rfl⟩ | ⟨slotNo, restart, -, -, hswitch⟩
  · exact h.1.boot h.2 hb
  · rcases rbootSwitch_cases h.1 slotNo restart i.2.malloc with
      ⟨-, f', hvalid, hsel, heq⟩ | ⟨-, hsame⟩
    · obtain ⟨rfl, -⟩ := Prod.mk.inj (heq.symm.trans hswitch)
      exact ⟨hvalid, hsel ▸ h.2.select slotNo⟩
    · rw [hswitch] at hsame
      rw [show d' = d from hsame]
      exact h

/-- The sector that a device starts with: four roms with last roms of their classes, or
nothing that the loader believes. -/
def Started (f : Flash) : Prop :=
  Valid f ∧ (selection f).Classed ∨ accepted (configSector f) = false

/-- The default configuration has rom 0 for its last main rom. -/
theorem not_classed_boot {f : Flash} (hrej : accepted (configSector f) ≠ true)
    {checkImage : UInt32 → UInt32} {b : Booted} (hb : findImage f checkImage = some b) :
    ¬ (selection b.flash).Classed := by
  have hboot : bootConfig f = freshConfig f := if_neg hrej
  have hmain := (findImage_kept hb).lastMainRom
  rw [hboot] at hmain
  have hzero : (selection b.flash).lastMainRom = 0 := hmain
  intro hclassed
  have hother := hclassed.2
  rw [hzero] at hother
  exact absurd hother (by decide)

/-- After the first boot, the last roms are of their classes exactly when the loader
believed the configuration it found. -/
theorem classes_iff {f : Flash} (hf : Started f) {tr : List Record} {d : Device}
    (h : Run step (.off f) tr d) (hne : tr ≠ []) :
    (∀ k ∈ tr, SwitchesByClass k.after) ↔ accepted (configSector f) = true := by
  obtain ⟨k, rest, rfl⟩ := List.exists_cons_of_ne_nil hne
  constructor
  · intro hall
    refine Decidable.not_not.mp fun hrej => ?_
    rcases step_cases h.first with ⟨b, -, hb, hk⟩ | ⟨_, _, -, hrun, -⟩
    · have hclassed := (hall k List.mem_cons_self).1
      rw [hk] at hclassed
      exact not_classed_boot hrej hb hclassed
    · exact absurd hrun Bool.false_ne_true
  · intro hacc
    have hstart : Valid f ∧ (selection f).Classed := by
      rcases hf with hf | hrej
      · exact hf
      · exact absurd (hacc.symm.trans hrej) (by decide)
    intro k' hk'
    obtain ⟨a, b, hab⟩ := List.append_of_mem hk'
    obtain ⟨hrun, hstep⟩ := h.taken a b k' hab
    have hbefore := hrun.always (fun d => Valid d.flash ∧ (selection d.flash).Classed) hstart
      step_classed
    exact (step_classed hbefore hstep).2.switches

/-- The loader finds every image good, and there is memory. -/
def sampleAnswers : Answers := ⟨true, fun _ => 1⟩

theorem sampleAnswers_good (addr : UInt32) : sampleAnswers.checkImage addr ≠ 0 :=
  show (1 : UInt32) ≠ 0 by decide

/-- The loader returns when there are roms. -/
theorem reboot_step {d : Device} (h : 0 < (bootConfig d.flash).count) (answers : Answers) :
    ∃ b, findImage d.flash answers.checkImage = some b ∧
      step d (.reboot, answers) = some (.boot b, []) := by
  obtain ⟨b, hb⟩ := Option.isSome_iff_exists.mp (findImage_isSome answers.checkImage h)
  exact ⟨b, hb, congrArg (Option.map _) hb⟩

/-- A flash that was never written. -/
def blankFlash : Flash := fun _ => 0xFF

theorem blankFlash_rejected : accepted (configSector blankFlash) ≠ true := by
  intro hacc
  have hmagic := (accepted_magic hacc).1
  rw [← rbootGetConfig_eq] at hmagic
  exact absurd hmagic (by decide)

/-- On a fresh device the last main rom is a setup rom. -/
theorem classes_blank : Started blankFlash ∧ ∃ tr d, Run step (.off blankFlash) tr d ∧
    ¬ ∀ k ∈ tr, SwitchesByClass k.after := by
  have hboot : bootConfig blankFlash = freshConfig blankFlash := if_neg blankFlash_rejected
  refine ⟨Or.inr (Bool.eq_false_iff.mpr blankFlash_rejected), ?_⟩
  obtain ⟨b, hb, hstep⟩ :=
    reboot_step (d := .off blankFlash) (hboot ▸ (by decide)) sampleAnswers
  refine ⟨_, _, .single hstep, fun hall => ?_⟩
  exact not_classed_boot blankFlash_rejected hb (hall _ (List.mem_singleton_self _)).1

/-- A configuration whose last roms are 0 and 2. -/
def sampleConfig : RbootConfig := { freshConfig blankFlash with lastMainRom := 2 }

def sampleFlash : Flash :=
  writeSector blankFlash (storeConfig sampleConfig.withChksum (configSector blankFlash))

theorem sampleFlash_valid : Valid sampleFlash ∧ selection sampleFlash = ⟨0, 2, 0⟩ := by
  have hlen := length_configSector blankFlash
  have hget := rbootGetConfig_write blankFlash sampleConfig.withChksum hlen
  refine ⟨⟨?_, ?_⟩, ?_⟩
  · rw [sampleFlash, configSector_write blankFlash (length_storeConfig _ hlen)]
    exact accepted_storeConfig rfl rfl _
  · rw [sampleFlash, hget]
    rfl
  · rw [selection, sampleFlash, hget]
    rfl

/-- A call that writes, as a step. -/
theorem switch_step {d : Device} (h : Valid d.flash) (hrun : d.running.isSome = true)
    {slotNo : UInt8} {restart : Bool} (hw : writes d slotNo restart sampleAnswers.malloc) :
    ∃ f' out, Valid f' ∧ selection f' = (selection d.flash).select slotNo ∧
      step d (.switch slotNo restart, sampleAnswers) =
        some (⟨f', d.restartPending || !restart, d.running⟩, out) := by
  rcases rbootSwitch_cases h slotNo restart sampleAnswers.malloc with
    ⟨-, f', hvalid, hsel, heq⟩ | ⟨hnot, -⟩
  · exact ⟨f', _, hvalid, hsel, (if_pos hrun).trans (congrArg some heq)⟩
  · exact absurd hw hnot

/-- A reboot into the selected rom, as a step. -/
theorem selected_step {d : Device} (h : Valid d.flash)
    (hlt : (selection d.flash).currentRom < 4) :
    step d (.reboot, sampleAnswers) =
      some (⟨d.flash, false, some (selection d.flash).currentRom⟩, []) := by
  have hcount : (rbootGetConfig d.flash).currentRom < (rbootGetConfig d.flash).count := by
    rw [h.count]
    exact hlt
  obtain ⟨runAddr, hne, hfind⟩ := findImage_selected h.accepted hcount
    sampleAnswers_good
  rw [step, hfind, Option.map_some, Device.boot, if_neg hne, romNumber_toNat]
  rfl

/-- Rom 0 is booted, and from it rom 2. -/
theorem classes_iff_sample : ∃ tr d, Run step (.off sampleFlash) tr d ∧ tr.length = 3 ∧
    d.running = some 2 ∧ ∀ k ∈ tr, SwitchesByClass k.after := by
  obtain ⟨hvalid, hsel⟩ := sampleFlash_valid
  have hrom : (selection sampleFlash).currentRom < 4 := by
    rw [hsel]
    decide
  have hstep₁ := @selected_step (.off sampleFlash) hvalid hrom
  obtain ⟨f, out, hvalid₂, hsel₂, hstep₂⟩ :=
    @switch_step ⟨sampleFlash, false, some (selection sampleFlash).currentRom⟩ hvalid rfl 2 true
      ⟨by simp, by decide, by rw [hsel]; decide, rfl⟩
  rw [hsel] at hsel₂
  have hstep₃ := @selected_step ⟨f, false, some (selection sampleFlash).currentRom⟩ hvalid₂
    (by rw [hsel₂]; decide)
  have hrun := ((Run.single hstep₁).snoc hstep₂).snoc hstep₃
  refine ⟨_, _, hrun, rfl, ?_, (classes_iff (Or.inl ⟨hvalid, ?_⟩) hrun
    (List.cons_ne_nil _ _)).mpr hvalid.accepted⟩
  · rw [hsel₂]
    rfl
  · rw [hsel]
    exact ⟨Or.inl rfl, Or.inl rfl⟩

/-! ## The rom that ran last -/

def isSetup (rom : UInt8) : Bool := rom < 2

/-- The last rom of a class. -/
def Selection.last (s : Selection) (setup : Bool) : UInt8 :=
  if setup then s.lastSetupRom else s.lastMainRom

/-- The rom of a class that ran last, after these steps; before them it was `rom`. -/
def ranLast (setup : Bool) (rom : UInt8) (tr : List Record) : UInt8 :=
  tr.foldl (fun rom k =>
    match k.after.running with
    | some running => if isSetup running = setup then running else rom
    | none => rom) rom

theorem ranLast_snoc (setup : Bool) (rom : UInt8) (tr : List Record) (k : Record) :
    ranLast setup rom (tr ++ [k]) =
      match k.after.running with
      | some running => if isSetup running = setup then running else ranLast setup rom tr
      | none => ranLast setup rom tr := List.foldl_concat ..

/-- A device that runs the selected one of four roms. -/
structure RunsSelected (d : Device) (rom : UInt8) : Prop where
  valid : Valid d.flash
  classed : (selection d.flash).Classed
  running : d.running = some rom
  selected : (selection d.flash).currentRom = rom
  rom : rom < 4

/-- The rom of a class that ran last when the device started. -/
def startedLast (d : Device) (rom : UInt8) (setup : Bool) : UInt8 :=
  if isSetup rom = setup then rom else (selection d.flash).last setup

/-- The device remembers the rom of the other class that ran last. -/
def Remembers (d₀ : Device) (rom₀ : UInt8) (tr : List Record) (d : Device) : Prop :=
  ∀ rom, d.running = some rom → (selection d.flash).last (!isSetup rom) =
    ranLast (!isSetup rom) (startedLast d₀ rom₀ (!isSetup rom)) tr

/-- Whenever `rboot_switch` writes the configuration, the rom that runs is selected. -/
def NotesRunning (k : Record) : Prop :=
  ∀ slotNo restart, k.input.1.call k.before.flash = some (slotNo, restart) →
    writes k.before slotNo restart k.input.2.malloc →
    k.before.running = some (selection k.before.flash).currentRom

/-- What holds of a device that runs `rom`: the other class has its last rom, and so has
the class of `rom` as soon as another rom is selected. -/
structure Tracks (last₀ : Bool → UInt8) (rom : UInt8) (d : Device) (tr : List Record) : Prop where
  valid : Valid d.flash
  running : d.running = some rom
  current : (selection d.flash).currentRom < 4
  other : (selection d.flash).last (!isSetup rom) =
    ranLast (!isSetup rom) (last₀ (!isSetup rom)) tr
  own : (selection d.flash).currentRom ≠ rom → (selection d.flash).last (isSetup rom) = rom
  ran : ranLast (isSetup rom) (last₀ (isSetup rom)) tr = rom

theorem Selection.last_select {s : Selection} (h : s.currentRom < 4) (rom : UInt8)
    (setup : Bool) :
    (s.select rom).last setup =
      if isSetup s.currentRom = setup then s.currentRom else s.last setup := by
  by_cases hsetup : s.currentRom < 2
  · have hmain : ¬ (2 ≤ s.currentRom ∧ s.currentRom < 4) :=
      fun hm => absurd hsetup (UInt8.not_lt.mpr hm.1)
    cases setup <;> simp [Selection.last, Selection.select, isSetup, hsetup, hmain]
  · have hmain : 2 ≤ s.currentRom ∧ s.currentRom < 4 := ⟨UInt8.not_lt.mp hsetup, h⟩
    cases setup <;> simp [Selection.last, Selection.select, isSetup, hsetup, hmain]

section Tracking

variable {last₀ : Bool → UInt8} {rom : UInt8} {d : Device} {tr : List Record}

theorem ranLast_running {k : Record} (h : k.after.running = some rom) (setup : Bool)
    (last : UInt8) :
    ranLast setup last (tr ++ [k]) =
      if isSetup rom = setup then rom else ranLast setup last tr := by
  rw [ranLast_snoc, h]

/-- A step after which the same rom runs changes nothing about what ran last. -/
theorem Tracks.ran_snoc (h : Tracks last₀ rom d tr) {k : Record}
    (hk : k.after.running = some rom) (setup : Bool) :
    ranLast setup (last₀ setup) (tr ++ [k]) = ranLast setup (last₀ setup) tr := by
  rw [ranLast_running hk]
  split
  · next heq => rw [← heq, h.ran]
  · rfl

/-- The configuration is written while the rom that runs is selected. -/
theorem Tracks.write (h : Tracks last₀ rom d tr)
    (hsel : (selection d.flash).currentRom = rom) {k : Record} (hk : k.after.running = some rom)
    (hvalid : Valid k.after.flash) {slotNo : UInt8} (hslot : slotNo < 4)
    (hnew : selection k.after.flash = (selection d.flash).select slotNo) :
    Tracks last₀ rom k.after (tr ++ [k]) := by
  refine ⟨hvalid, hk, ?_, ?_, ?_, ?_⟩
  · rw [hnew]
    exact hslot
  · rw [hnew, Selection.last_select h.current, hsel, if_neg (by simp), h.ran_snoc hk]
    exact h.other
  · intro _
    rw [hnew, Selection.last_select h.current, hsel, if_pos rfl]
  · rw [h.ran_snoc hk]
    exact h.ran

/-- The device starts the selected rom. -/
theorem Tracks.reboot (h : Tracks last₀ rom d tr) {k : Record}
    (hk : k.after.running = some (selection d.flash).currentRom)
    (hflash : k.after.flash = d.flash) :
    Tracks last₀ (selection d.flash).currentRom k.after (tr ++ [k]) := by
  refine ⟨hflash ▸ h.valid, hk, ?_, ?_, ?_, ?_⟩
  · rw [hflash]
    exact h.current
  · rw [hflash, ranLast_running hk, if_neg (by simp)]
    -- the other class is that of the rom before, or its other class
    by_cases hclass : isSetup (selection d.flash).currentRom = isSetup rom
    · rw [hclass]
      exact h.other
    · have hnot : (!isSetup (selection d.flash).currentRom) = isSetup rom := by
        cases hb : isSetup rom <;> simp_all
      have hne : (selection d.flash).currentRom ≠ rom := fun heq => hclass (by rw [heq])
      rw [hnot, h.own hne, h.ran]
  · intro hne
    rw [hflash] at hne
    exact absurd rfl hne
  · rw [ranLast_running hk, if_pos rfl]

end Tracking

/-- What a step is allowed to do here: every image is good, and a call that writes finds
the rom that runs selected. -/
def Careful (k : Record) : Prop := (∀ addr, k.input.2.checkImage addr ≠ 0) ∧ NotesRunning k

theorem step_tracks {last₀ : Bool → UInt8} {d d' : Device} {tr : List Record}
    {i : Event × Answers} {out : List Output} (h : ∃ rom, Tracks last₀ rom d tr)
    (hstep : step d i = some (d', out)) (hok : Careful ⟨d, i, out, d'⟩) :
    ∃ rom, Tracks last₀ rom d' (tr ++ [⟨d, i, out, d'⟩]) := by
  obtain ⟨rom, h⟩ := h
  rcases step_cases hstep with ⟨b, -, hb, rfl⟩ | ⟨slotNo, restart, hcall, -, hswitch⟩
  · have hcount : (rbootGetConfig d.flash).currentRom < (rbootGetConfig d.flash).count := by
      rw [h.valid.count]
      exact h.current
    obtain ⟨runAddr, hne, hfind⟩ := findImage_selected h.valid.accepted hcount hok.1
    obtain rfl := Option.some.inj (hfind.symm.trans hb)
    refine ⟨_, h.reboot (k := ⟨d, i, out, _⟩) ?_ rfl⟩
    simp only [if_neg hne, romNumber_toNat]
    rfl
  · rcases rbootSwitch_cases h.valid slotNo restart i.2.malloc with
      ⟨hwrites, f', hvalid, hsel, heq⟩ | ⟨-, hsame⟩
    · obtain ⟨rfl, -⟩ := Prod.mk.inj (heq.symm.trans hswitch)
      have hrun := hok.2 slotNo restart hcall hwrites
      have hcurrent := Option.some.inj (hrun.symm.trans h.running)
      exact ⟨rom, h.write (k := ⟨d, i, out, _⟩) hcurrent h.running hvalid hwrites.2.1 hsel⟩
    · rw [hswitch] at hsame
      obtain rfl : d' = d := hsame
      refine ⟨rom, h.valid, h.running, h.current, ?_, h.own, ?_⟩
      · rw [h.ran_snoc h.running]
        exact h.other
      · rw [h.ran_snoc h.running]
        exact h.ran

/-- If every call that writes the configuration finds the rom that runs selected, the
device always remembers the rom of the other class that ran last. -/
theorem remembers {d₀ : Device} {rom₀ : UInt8} (h₀ : RunsSelected d₀ rom₀) {tr : List Record}
    {d : Device} (h : Run step d₀ tr d) (hok : ∀ k ∈ tr, Careful k) :
    Remembers d₀ rom₀ tr d := by
  have hinit : ∃ rom, Tracks (startedLast d₀ rom₀) rom d₀ [] := by
    refine ⟨rom₀, h₀.valid, h₀.running, ?_, ?_, ?_, ?_⟩
    · rw [h₀.selected]
      exact h₀.rom
    · exact (if_neg (by simp)).symm
    · intro hne
      exact absurd h₀.selected hne
    · exact if_pos rfl
  obtain ⟨rom, htracks⟩ := h.history
    (fun d tr => ∃ rom, Tracks (startedLast d₀ rom₀) rom d tr) hinit step_tracks hok
  intro rom' hrun
  obtain rfl := Option.some.inj (htracks.running.symm.trans hrun)
  exact htracks.other

/-- Rom 0 runs. -/
def sampleDevice : Device := ⟨sampleFlash, false, some 0⟩

theorem sampleDevice_selection : selection sampleDevice.flash = ⟨0, 2, 0⟩ := sampleFlash_valid.2

theorem sampleDevice_runs : RunsSelected sampleDevice 0 := by
  refine ⟨sampleFlash_valid.1, ?_, rfl, ?_, by decide⟩
  · rw [sampleDevice_selection]
    exact ⟨Or.inl rfl, Or.inl rfl⟩
  · rw [sampleDevice_selection]

/-- Rom 1 is selected on the way from rom 0 to rom 2; rom 2 then takes it for the one
that ran last. -/
theorem not_remembers : RunsSelected sampleDevice 0 ∧ ∃ tr d, Run step sampleDevice tr d ∧
    (∀ k ∈ tr, ∀ addr, k.input.2.checkImage addr ≠ 0) ∧ ¬ Remembers sampleDevice 0 tr d := by
  refine ⟨sampleDevice_runs, ?_⟩
  obtain ⟨f₁, out₁, hvalid₁, hsel₁, hstep₁⟩ :=
    @switch_step sampleDevice sampleFlash_valid.1 rfl 1 false
      ⟨by decide, by decide, by rw [sampleDevice_selection]; decide, rfl⟩
  rw [sampleDevice_selection] at hsel₁
  obtain ⟨f₂, out₂, hvalid₂, hsel₂, hstep₂⟩ :=
    @switch_step ⟨f₁, true, some 0⟩ hvalid₁ rfl 2 true
      ⟨by simp, by decide, by rw [hsel₁]; decide, rfl⟩
  rw [hsel₁] at hsel₂
  have hstep₃ := @selected_step ⟨f₂, true, some 0⟩ hvalid₂ (by rw [hsel₂]; decide)
  refine ⟨_, _, ((Run.single hstep₁).snoc hstep₂).snoc hstep₃, ?_, fun hrem => ?_⟩
  · intro k hk
    simp only [List.cons_append, List.nil_append, List.mem_cons, List.not_mem_nil, or_false] at hk
    rcases hk with rfl | rfl | rfl <;> exact sampleAnswers_good
  · rw [hsel₂] at hrem
    have hlast := hrem 2 rfl
    rw [show (!isSetup 2) = true by decide] at hlast
    have hsetup : (selection f₂).last true = 1 := by
      rw [hsel₂]
      rfl
    have hran : startedLast sampleDevice 0 true = 0 := if_pos (by decide)
    rw [hsetup, hran] at hlast
    exact absurd (show (1 : UInt8) = 0 from hlast) (by decide)

/-- On the way from rom 0 to rom 2 with nothing between, rom 0 is remembered. -/
theorem remembers_sample : ∃ tr d, Run step sampleDevice tr d ∧ d.running = some 2 ∧
    (selection d.flash).lastSetupRom = 0 := by
  obtain ⟨f₁, out₁, hvalid₁, hsel₁, hstep₁⟩ :=
    @switch_step sampleDevice sampleFlash_valid.1 rfl 2 true
      ⟨by decide, by decide, by rw [sampleDevice_selection]; decide, rfl⟩
  rw [sampleDevice_selection] at hsel₁
  have hstep₂ := @selected_step ⟨f₁, false, some 0⟩ hvalid₁ (by rw [hsel₁]; decide)
  have hrun := (Run.single hstep₁).snoc hstep₂
  have hrem := remembers sampleDevice_runs hrun ?_
  · rw [hsel₁] at hrem hrun
    exact ⟨_, _, hrun, rfl, hrem 2 rfl⟩
  · intro k hk
    simp only [List.cons_append, List.nil_append, List.mem_cons, List.not_mem_nil, or_false] at hk
    rcases hk with rfl | rfl
    · refine ⟨sampleAnswers_good, fun _ _ _ _ => ?_⟩
      rw [sampleDevice_selection]
      rfl
    · exact ⟨sampleAnswers_good, fun _ _ hcall _ => absurd hcall (by simp [Event.call])⟩

end Rboot
end EspMisc
