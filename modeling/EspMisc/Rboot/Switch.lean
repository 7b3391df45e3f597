/-
Switching between the roms.

The four slots are of two classes, setup roms (0 and 1) and main roms (2 and 3).  The
configuration has the selected rom, which runs after the next restart, and for each class
the rom to go back to.  `rboot_switch` selects another rom and notes the one that was
selected before; until the restart, that is not the one that runs.

A device takes calls and reboots in any order.  `Selection` is the part of its
configuration that the calls are about, and `rbootSwitch_cases` says what a call makes of
it.
-/
import EspMisc.Lib.Run
import EspMisc.Rboot.Boot

namespace EspMisc
namespace Rboot

open Machine

/-! ## The code -/

def rbootGetCurrentRom (f : Flash) : UInt8 := (rbootGetConfig f).currentRom

/-- The part of `rboot_set_current_rom` that notes the rom that was selected. -/
def noteRom (conf : RbootConfig) : RbootConfig :=
  if conf.currentRom < 2 then { conf with lastSetupRom := conf.currentRom }
  else if conf.currentRom < 4 then { conf with lastMainRom := conf.currentRom }
  else conf

def rbootSetCurrentRom (f : Flash) (rom : UInt8) (malloc : Bool) : Bool × Flash :=
  let conf := rbootGetConfig f
  if rom ≥ conf.count then (false, f)
  else rbootSetConfig f { noteRom conf with currentRom := rom } malloc

/-- A device: its flash, the static `restartPending`, and the rom that runs, if one does. -/
structure Device where
  flash : Flash
  restartPending : Bool
  running : Option UInt8

inductive Output where
  | systemRestart
  deriving Repr, DecidableEq

def rbootSwitch (d : Device) (slotNo : UInt8) (restart malloc : Bool) : Device × List Output :=
  if d.restartPending ∧ restart = false then (d, [])
  else
    let before := rbootGetCurrentRom d.flash
    if slotNo ≥ 4 then (d, [])
    else if before = slotNo then
      if d.restartPending ∧ restart then (d, [.systemRestart]) else (d, [])
    else
      let set := rbootSetCurrentRom d.flash slotNo malloc
      if set.1 then
        if restart then ({ d with flash := set.2 }, [.systemRestart])
        else ({ d with flash := set.2, restartPending := true }, [])
      else ({ d with flash := set.2 }, [])

def rbootSwitchToMain (d : Device) (malloc : Bool) : Device × List Output :=
  rbootSwitch d (rbootGetConfig d.flash).lastMainRom true malloc

def rbootSwitchToSetup (d : Device) (malloc : Bool) : Device × List Output :=
  rbootSwitch d (rbootGetConfig d.flash).lastSetupRom true malloc

/-! ## The device -/

/-- A call of the application, or a reboot.  `system_restart` only asks for one, so calls
may come between. -/
inductive Event where
  | switch (slotNo : UInt8) (restart : Bool)
  | switchToMain
  | switchToSetup
  | reboot

/-- What a step is told: whether `os_malloc` has memory, and what `check_image` makes of
the images. -/
structure Answers where
  malloc : Bool
  checkImage : UInt32 → UInt32

/-- The loader runs.  It clears the static variables with the rest of the memory. -/
def Device.boot (b : Booted) : Device where
  flash := b.flash
  restartPending := false
  running := if b.runAddr = 0 then none else some (romNumber b.romToBoot)

/-- One step.  Calls need a rom that runs. -/
def step (d : Device) (i : Event × Answers) : Option (Device × List Output) :=
  match i.1 with
  | .reboot => (findImage d.flash i.2.checkImage).map fun b => (.boot b, [])
  | .switch slotNo restart =>
    if d.running.isSome then some (rbootSwitch d slotNo restart i.2.malloc) else none
  | .switchToMain => if d.running.isSome then some (rbootSwitchToMain d i.2.malloc) else none
  | .switchToSetup => if d.running.isSome then some (rbootSwitchToSetup d i.2.malloc) else none

abbrev Record := Taken Device (Event × Answers) Output

/-- A device that is off. -/
def Device.off (f : Flash) : Device := ⟨f, false, none⟩

/-- The call of `rboot_switch` that an event makes. -/
def Event.call (f : Flash) : Event → Option (UInt8 × Bool)
  | .switch slotNo restart => some (slotNo, restart)
  | .switchToMain => some ((rbootGetConfig f).lastMainRom, true)
  | .switchToSetup => some ((rbootGetConfig f).lastSetupRom, true)
  | .reboot => none

/-- A step is a reboot or a call of `rboot_switch`. -/
theorem step_cases {d d' : Device} {i : Event × Answers} {out : List Output}
    (h : step d i = some (d', out)) :
    (∃ b, i.1 = .reboot ∧ findImage d.flash i.2.checkImage = some b ∧ d' = .boot b) ∨
      ∃ slotNo restart, i.1.call d.flash = some (slotNo, restart) ∧ d.running.isSome = true ∧
        rbootSwitch d slotNo restart i.2.malloc = (d', out) := by
  obtain ⟨e, answers⟩ := i
  cases e with
  | reboot =>
    obtain ⟨b, hb, hd⟩ := Option.map_eq_some_iff.mp h
    exact Or.inl ⟨b, rfl, hb, (Prod.mk.inj hd).1.symm⟩
  | switch slotNo restart =>
    obtain ⟨hrun, hd⟩ := Option.ite_none_right_eq_some.mp h
    exact Or.inr ⟨_, _, rfl, hrun, Option.some.inj hd⟩
  | switchToMain =>
    obtain ⟨hrun, hd⟩ := Option.ite_none_right_eq_some.mp h
    exact Or.inr ⟨_, _, rfl, hrun, Option.some.inj hd⟩
  | switchToSetup =>
    obtain ⟨hrun, hd⟩ := Option.ite_none_right_eq_some.mp h
    exact Or.inr ⟨_, _, rfl, hrun, Option.some.inj hd⟩

/-! ## Selections -/

/-- The fields of the configuration that the application writes. -/
structure Selection where
  currentRom : UInt8
  lastMainRom : UInt8
  lastSetupRom : UInt8

def selection (f : Flash) : Selection :=
  ⟨(rbootGetConfig f).currentRom, (rbootGetConfig f).lastMainRom,
    (rbootGetConfig f).lastSetupRom⟩

/-- The flash has a configuration of four roms that the loader believes. -/
structure Valid (f : Flash) : Prop where
  accepted : accepted (configSector f) = true
  count : (rbootGetConfig f).count = 4

namespace Selection

/-- Another rom is selected, and the one before is noted for its class. -/
def select (s : Selection) (rom : UInt8) : Selection where
  currentRom := rom
  lastMainRom := if 2 ≤ s.currentRom ∧ s.currentRom < 4 then s.currentRom else s.lastMainRom
  lastSetupRom := if s.currentRom < 2 then s.currentRom else s.lastSetupRom

end Selection

/-- The call of `rboot_switch` gets as far as writing the configuration. -/
def writes (d : Device) (slotNo : UInt8) (restart malloc : Bool) : Prop :=
  ¬ (d.restartPending = true ∧ restart = false) ∧ slotNo < 4 ∧
    (selection d.flash).currentRom ≠ slotNo ∧ malloc = true

theorem rbootSetConfig_valid {f : Flash} (h : Valid f) {c : RbootConfig}
    (hmagic : c.magic = (rbootGetConfig f).magic)
    (hversion : c.version = (rbootGetConfig f).version) (hcount : c.count = 4) :
    ∃ f', rbootSetConfig f c true = (true, f') ∧ Valid f' ∧
      selection f' = ⟨c.currentRom, c.lastMainRom, c.lastSetupRom⟩ := by
  have hbelieved := accepted_magic h.accepted
  rw [← rbootGetConfig_eq] at hbelieved
  have hlen := length_configSector f
  refine ⟨_, rfl, ⟨?_, ?_⟩, ?_⟩
  · rw [configSector_write f (length_storeConfig _ hlen)]
    exact accepted_storeConfig (hmagic.trans hbelieved.1) (hversion.trans hbelieved.2) _
  · rw [rbootGetConfig_write f _ hlen]
    exact hcount
  · rw [selection, rbootGetConfig_write f _ hlen]
    rfl

theorem noteRom_spec (c : RbootConfig) :
    (noteRom c).magic = c.magic ∧ (noteRom c).version = c.version ∧ (noteRom c).count = c.count ∧
      (noteRom c).lastMainRom =
        (if 2 ≤ c.currentRom ∧ c.currentRom < 4 then c.currentRom else c.lastMainRom) ∧
      (noteRom c).lastSetupRom =
        if c.currentRom < 2 then c.currentRom else c.lastSetupRom := by
  unfold noteRom
  by_cases hsetup : c.currentRom < 2
  · have hmain : ¬ (2 ≤ c.currentRom ∧ c.currentRom < 4) :=
      fun h => absurd hsetup (UInt8.not_lt.mpr h.1)
    rw [if_pos hsetup, if_neg hmain, if_pos hsetup]
    exact ⟨rfl, rfl, rfl, rfl, rfl⟩
  · rw [if_neg hsetup, if_neg hsetup]
    by_cases hmain : c.currentRom < 4
    · rw [if_pos hmain, if_pos ⟨UInt8.not_lt.mp hsetup, hmain⟩]
      exact ⟨rfl, rfl, rfl, rfl, rfl⟩
    · rw [if_neg hmain, if_neg fun h => hmain h.2]
      exact ⟨rfl, rfl, rfl, rfl, rfl⟩

theorem rbootSetCurrentRom_valid {f : Flash} (h : Valid f) {rom : UInt8} (hrom : rom < 4) :
    ∃ f', rbootSetCurrentRom f rom true = (true, f') ∧ Valid f' ∧
      selection f' = (selection f).select rom := by
  have hcount : ¬ rom ≥ (rbootGetConfig f).count := by
    rw [h.count]
    exact UInt8.not_le.mpr hrom
  obtain ⟨hmagic, hversion, hnum, hmain, hsetup⟩ := noteRom_spec (rbootGetConfig f)
  rw [rbootSetCurrentRom, if_neg hcount]
  obtain ⟨f', hset, hvalid, hsel⟩ := rbootSetConfig_valid h
    (c := { noteRom (rbootGetConfig f) with currentRom := rom }) hmagic hversion
    (hnum.trans h.count)
  refine ⟨f', hset, hvalid, hsel.trans ?_⟩
  rw [hmain, hsetup]
  rfl

theorem rbootSetCurrentRom_failed (f : Flash) (rom : UInt8) :
    rbootSetCurrentRom f rom false = (false, f) := by
  simp only [rbootSetCurrentRom]
  split <;> rfl

/-- What a call of `rboot_switch` does: it writes the selection, or it leaves the device
as it is. -/
theorem rbootSwitch_cases {d : Device} (h : Valid d.flash) (slotNo : UInt8)
    (restart malloc : Bool) :
    (writes d slotNo restart malloc ∧ ∃ f', Valid f' ∧
        selection f' = (selection d.flash).select slotNo ∧
        rbootSwitch d slotNo restart malloc =
          ({ d with flash := f', restartPending := d.restartPending || !restart },
            if restart then [.systemRestart] else [])) ∨
      (¬ writes d slotNo restart malloc ∧ (rbootSwitch d slotNo restart malloc).1 = d) := by
  unfold rbootSwitch writes
  by_cases hpending : d.restartPending = true ∧ restart = false
  · rw [if_pos hpending]
    exact Or.inr ⟨fun hw => hw.1 hpending, rfl⟩
  rw [if_neg hpending]
  by_cases hslot : slotNo ≥ 4
  · rw [if_pos hslot]
    exact Or.inr ⟨fun hw => absurd hw.2.1 (UInt8.not_lt.mpr hslot), rfl⟩
  rw [if_neg hslot]
  by_cases hsame : rbootGetCurrentRom d.flash = slotNo
  · rw [if_pos hsame]
    refine Or.inr ⟨fun hw => hw.2.2.1 hsame, ?_⟩
    split <;> rfl
  rw [if_neg hsame]
  cases malloc with
  | false =>
    refine Or.inr ⟨fun hw => absurd hw.2.2.2 Bool.false_ne_true, ?_⟩
    rw [rbootSetCurrentRom_failed, if_neg Bool.false_ne_true]
  | true =>
    obtain ⟨f', hset, hvalid, hsel⟩ := rbootSetCurrentRom_valid h (UInt8.not_le.mp hslot)
    refine Or.inl ⟨⟨hpending, UInt8.not_le.mp hslot, hsame, rfl⟩, f', hvalid, hsel, ?_⟩
    rw [hset, if_pos rfl]
    cases restart with
    | true => rw [if_pos rfl, Bool.not_true, Bool.or_false, if_pos rfl]
    | false =>
      rw [if_neg Bool.false_ne_true, Bool.not_false, Bool.or_true, if_neg Bool.false_ne_true]

end Rboot
end EspMisc
