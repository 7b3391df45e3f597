/-
The temperature loop of `driver/onewire_nb.c`.

A sequence is driven by `MSG_IFACE_ONE_WIRE` events.  Events are posted by the callback
of the hardware timer and by `OW_init_seq`, which `onewire_nb_init` and the callback of
`onewire_timer` call; at its end a sequence calls back, and the callback arms
`onewire_timer` for the next one.  A state of the loop is the driver together with the
posted events and the two timers, and a step is whatever can happen next: the task takes
an event, or one of the timers expires.

`pending_iff` is about the events under way: one at a time, exactly as long as the timer
does not expire after a temperature was read.
-/
import EspMisc.OneWire.Sequence
import EspMisc.Lib.Run

namespace EspMisc
namespace OneWire

inductive HwTimerState
  | disabled | init | ready | active | stopped
deriving DecidableEq, Repr

/-- `hw_timer_state >= HW_TIMER_READY`. -/
def HwTimerState.usable : HwTimerState → Bool
  | .disabled | .init => false
  | .ready | .active | .stopped => true

inductive DsSeq
  | invalid | uuidT | convT | readT | nextReadT
deriving DecidableEq, Repr

structure Temperature where
  sign : Char
  val : UInt16
  fract : UInt16
  available : Bool
deriving DecidableEq, Repr

/-- The static variables of the driver and of `hw_timer.c`, the posted events, and the
delays that the two timers are armed with. -/
structure Loop where
  driver : Driver
  queued : Nat
  hwTimerState : HwTimerState
  hwTimer : Option Nat
  onewireTimer : Option Nat
  onewireTimerArg : DsSeq
  latestTemp : Temperature

/-- What the loop does outside of its state. -/
inductive Signal
  | effect (e : Effect)
  | publish (temp : Temperature)
deriving DecidableEq, Repr

/-! ## The hardware timer -/

def hwTimerDisarm (s : Loop) : Loop :=
  if s.hwTimerState = .active then { s with hwTimer := none, hwTimerState := .stopped } else s

def hwTimerArm (us : Nat) (s : Loop) : Loop :=
  if s.hwTimerState.usable then { s with hwTimer := some us, hwTimerState := .active } else s

def hwTimerInit (s : Loop) : Loop :=
  if s.hwTimerState = .disabled then { s with hwTimerState := .init } else s

def hwTimerSetFunc (s : Loop) : Loop :=
  match s.hwTimerState with
  | .disabled | .active => s
  | .init | .ready | .stopped => { s with hwTimerState := .ready }

/-! ## Sequences -/

def DS_READ_SPAD : UInt8 := 0xBE
def DS_SKIPROM : UInt8 := 0xCC
def DS_READROM : UInt8 := 0x33
def DS_CONVERT_T : UInt8 := 0x44
def DS_FAMILY_CODE : UInt8 := 0x28
def OW_SPAD_SIZE : Nat := 9

def DsSeq.seqs : DsSeq → List OpType
  | .uuidT | .readT => [.reset, .write, .write, .read, .fin]
  | .convT => [.reset, .write, .write, .fin]
  | .invalid | .nextReadT => []

def DsSeq.args : DsSeq → List UInt8
  | .uuidT => [0, DS_READROM, DS_READ_SPAD, 9, 0]
  | .convT => [0, DS_SKIPROM, DS_CONVERT_T, 0]
  | .readT => [0, DS_SKIPROM, DS_READ_SPAD, 9, 0]
  | .invalid | .nextReadT => []

def DsSeq.callback : DsSeq → Option DoneCb
  | .uuidT => some .readUuid
  | .convT => some .convT
  | .readT => some .readTemp
  | .invalid | .nextReadT => none

/-- The driver with a sequence that is about to begin. -/
def Driver.withSeq (d : Driver) (seq : DsSeq) : Driver :=
  { d with
    seqArr := seq.seqs
    argArr := seq.args
    seqLen := seq.seqs.length
    seqState := .init
    error := .none
    callback := seq.callback }

def owInitSeq (seq : DsSeq) (s : Loop) : Loop :=
  match seq.callback with
  | some _ =>
    { s with
      driver := s.driver.withSeq seq, onewireTimerArg := seq, queued := s.queued + 1 }
  -- no caller asks for another sequence
  | none => { s with driver := s.driver.withSeq seq, onewireTimerArg := .invalid }

/-- `system_os_post` of the event, by the interrupt of the timer. -/
def owHwTimerCb (s : Loop) : Loop := { s with queued := s.queued + 1 }

def onewireSeqTimerCb (s : Loop) : Loop :=
  match s.onewireTimerArg with
  | .uuidT => owInitSeq .convT s
  | .convT => owInitSeq .readT s
  | .readT => s
  | .nextReadT => hwTimerArm 10 (owInitSeq .convT s)
  | .invalid => s

/-! ## The end of a sequence -/

def dscrcTable : List UInt8 := [
  0, 94, 188, 226, 97, 63, 221, 131, 194, 156, 126, 32, 163, 253, 31, 65,
  157, 195, 33, 127, 252, 162, 64, 30, 95, 1, 227, 189, 62, 96, 130, 220,
  35, 125, 159, 193, 66, 28, 254, 160, 225, 191, 93, 3, 128, 222, 60, 98,
  190, 224, 2, 92, 223, 129, 99, 61, 124, 34, 192, 158, 29, 67, 161, 255,
  70, 24, 250, 164, 39, 121, 155, 197, 132, 218, 56, 102, 229, 187, 89, 7,
  219, 133, 103, 57, 186, 228, 6, 88, 25, 71, 165, 251, 120, 38, 196, 154,
  101, 59, 217, 135, 4, 90, 184, 230, 167, 249, 27, 69, 198, 152, 122, 36,
  248, 166, 68, 26, 153, 199, 37, 123, 58, 100, 134, 216, 91, 5, 231, 185,
  140, 210, 48, 110, 237, 179, 81, 15, 78, 16, 242, 172, 47, 113, 147, 205,
  17, 79, 173, 243, 112, 46, 204, 146, 211, 141, 111, 49, 178, 236, 14, 80,
  175, 241, 19, 77, 206, 144, 114, 44, 109, 51, 209, 143, 12, 82, 176, 238,
  50, 108, 142, 208, 83, 13, 239, 177, 240, 174, 76, 18, 145, 207, 45, 115,
  202, 148, 118, 40, 171, 245, 23, 73, 8, 86, 180, 234, 105, 55, 213, 139,
  87, 9, 235, 181, 54, 104, 138, 212, 149, 203, 41, 119, 244, 170, 72, 22,
  233, 183, 85, 11, 136, 214, 52, 106, 43, 117, 151, 201, 74, 20, 246, 168,
  116, 42, 200, 150, 21, 75, 169, 247, 182, 232, 10, 84, 215, 137, 107, 53]

def onewireCrc8 (bytes : List UInt8) : UInt8 :=
  bytes.foldl (fun crc byte => dscrcTable.getD (crc ^^^ byte).toNat 0) 0

/-- The first `n` bytes of the scratchpad. -/
def Driver.spad (d : Driver) (n : Nat) : List UInt8 := (List.range n).map d.spadBuf

/-- `latest_temp`, from the first two bytes of the scratchpad. -/
def Driver.temperature (d : Driver) : Temperature :=
  let reading : UInt16 := (d.spadBuf 1).toUInt16 <<< 8 ||| (d.spadBuf 0).toUInt16
  let negative := reading &&& 0x8000 ≠ 0
  let reading := if negative then (reading ^^^ 0xffff) + 1 else reading
  { sign := if negative then '-' else '+'
    val := reading >>> 4
    fract := (reading &&& 0xf) * 100 / 16
    available := true }

def owHandleError (s : Loop) : Loop :=
  hwTimerDisarm { s with driver := { s.driver with error := .none } }

/-- `os_timer_arm` of `onewire_timer`, with its argument. -/
def armOnewireTimer (arg : DsSeq) (ms : Nat) (s : Loop) : Loop :=
  { s with onewireTimerArg := arg, onewireTimer := some ms }

def readTempDoneCb (s : Loop) : Loop × List Signal :=
  let s := hwTimerDisarm s
  if s.driver.error ≠ .none then (owHandleError s, [])
  else
    let ok := onewireCrc8 (s.driver.spad 8) = s.driver.spadBuf 8
    let temp := if ok then s.driver.temperature else s.latestTemp
    let cleared := fun k => if k < OW_SPAD_SIZE then 0 else s.driver.spadBuf k
    (armOnewireTimer .nextReadT 2431
        { s with latestTemp := temp, driver := { s.driver with spadBuf := cleared } },
      if ok then [.publish temp] else [])

def convTDoneCb (s : Loop) : Loop × List Signal :=
  if s.driver.error ≠ .none then (owHandleError s, [])
  else (armOnewireTimer .convT 750 s, [])

def readUuidDoneCb (s : Loop) : Loop × List Signal :=
  if s.driver.error ≠ .none then (owHandleError s, [])
  else
    (armOnewireTimer .uuidT 15
      { s with driver := { s.driver with uuid := DS_FAMILY_CODE :: s.driver.spad 7 } }, [])

def doneCb : DoneCb → Loop → Loop × List Signal
  | .readUuid => readUuidDoneCb
  | .convT => convTDoneCb
  | .readTemp => readTempDoneCb

/-! ## Steps -/

/-- What an effect of an event does to the loop, and what it leads to outside of it. -/
def Effect.act (e : Effect) (s : Loop) : Loop × List Signal :=
  match e with
  | .hwTimerArm us => (OneWire.hwTimerArm us s, [.effect e])
  | .callback cb => ((doneCb cb s).1, .effect e :: (doneCb cb s).2)
  | _ => (s, [.effect e])

def actAll (s : Loop) : List Effect → Loop × List Signal
  | [] => (s, [])
  | e :: effects =>
    ((actAll (e.act s).1 effects).1, (e.act s).2 ++ (actAll (e.act s).1 effects).2)

inductive LoopEvent
  /-- The task takes an event, with this level on the bus. -/
  | task (pin : Bool)
  | hwTimer
  | onewireTimer
deriving DecidableEq, Repr

def taskStep (s : Loop) (pin : Bool) : Loop × List Signal :=
  let stepped := oneWireEvent s.driver pin
  actAll { s with driver := stepped.1, queued := s.queued - 1 } stepped.2

def loopStep (s : Loop) : LoopEvent → Option (Loop × List Signal)
  | .task pin => if s.queued = 0 then none else some (taskStep s pin)
  | .hwTimer =>
    if s.hwTimer.isSome then some (owHwTimerCb { s with hwTimer := none }, []) else none
  | .onewireTimer =>
    if s.onewireTimer.isSome then some (onewireSeqTimerCb { s with onewireTimer := none }, [])
    else none

/-- Static variables before anything ran. -/
def Loop.boot : Loop where
  driver :=
    { seqArr := [], argArr := [], seqLen := 0, seqState := .invalid, seqPos := 0
      opType := .invalid, curOp := 0, delayCount := 0, error := .none, spadBuf := fun _ => 0
      uuid := List.replicate 8 0, callback := none, read := ⟨0, false, 0, 0, 0⟩, write := ⟨0, 0⟩ }
  queued := 0
  hwTimerState := .disabled
  hwTimer := none
  onewireTimer := none
  onewireTimerArg := .invalid
  latestTemp := ⟨Char.ofNat 0, 0, 0, false⟩

/-- `onewire_nb_init`: the two structures are set to zero and the first sequence begins. -/
def onewireNbInit (s : Loop) : Loop :=
  owInitSeq .uuidT
    (hwTimerSetFunc
      (hwTimerInit
        { s with
          driver := { Loop.boot.driver with read := s.driver.read, write := s.driver.write }
          latestTemp := Loop.boot.latestTemp
          onewireTimer := none }))

def started : Loop := onewireNbInit .boot

/-! ## What an event leads to -/

/-- Neither an armed timer nor a callback. -/
def Effect.onBus : Effect → Prop
  | .hwTimerArm _ | .callback _ => False
  | _ => True

theorem readSwitch_onBus (d : Driver) (pin : Bool) : ∀ e ∈ (readSwitch d pin).2, e.onBus := by
  simp only [readSwitch]
  repeat' split
  all_goals simp [readLineLow, Effect.onBus]

theorem writeSwitch_onBus (d : Driver) : ∀ e ∈ (writeSwitch d).2, e.onBus := by
  simp only [writeSwitch]
  repeat' split
  all_goals simp [writeLineLow, Effect.onBus]

theorem owDoitReset_onBus (d : Driver) (pin : Bool) : ∀ e ∈ (owDoitReset d pin).2, e.onBus := by
  unfold owDoitReset
  repeat' split
  all_goals simp [Effect.onBus]

theorem opDone_effects (doneOp : Nat) (r : Driver × List Effect) : (opDone doneOp r).2 = r.2 := by
  unfold opDone
  split <;> rfl

theorem runOp_onBus (d : Driver) (pin : Bool) : ∀ e ∈ (runOp d pin).2, e.onBus := by
  unfold runOp
  split
  · rw [owDoitRead, opDone_effects]
    exact readSwitch_onBus _ _
  · rw [owDoitWrite, opDone_effects]
    exact writeSwitch_onBus _
  · exact owDoitReset_onBus _ _
  · simp

theorem actAll_append {a : List Effect} (h : ∀ e ∈ a, e.onBus) (b : List Effect) (s : Loop) :
    (actAll s (a ++ b)).1 = (actAll s b).1 := by
  induction a with
  | nil => rfl
  | cons e a ih =>
    obtain ⟨he, ha⟩ := List.forall_mem_cons.mp h
    have hact : (e.act s).1 = s := by
      cases e <;> first | rfl | exact he.elim
    rw [List.cons_append, actAll, hact]
    exact ih ha

def ran (s : Loop) (pin : Bool) : Driver := (runOp (beginSeq s.driver) pin).1

/-- The state before what `nextOp` adds. -/
def taken (s : Loop) (pin : Bool) : Loop :=
  { s with driver := (nextOp (ran s pin)).1, queued := s.queued - 1 }

/-- Of the effects of an event only those of `nextOp` change the loop. -/
theorem taskStep_eq (s : Loop) (pin : Bool) :
    (taskStep s pin).1 = (actAll (taken s pin) (nextOp (ran s pin)).2).1 :=
  actAll_append (runOp_onBus _ _) _ _

/-- What an event leads to: it arms the timer, or it calls back, or neither. -/
inductive TaskCase (d : Driver) (s : Loop) : Loop → Prop
  | arms : TaskCase d s (hwTimerArm 10 s)
  | calls (cb : DoneCb) (hcb : d.callback = some cb) (hdone : d.seqState = .done)
      (hd : s.driver = d) : TaskCase d s (doneCb cb s).1
  | rests (h : d.seqState ∈ [.invalid, .max] ∨ d.seqState = .transition ∧ d.seqLen ≤ d.seqPos ∨
      d.seqState = .done ∧ d.callback = none) : TaskCase d s s

theorem taskStep_cases (s : Loop) (pin : Bool) :
    TaskCase (ran s pin) (taken s pin) (taskStep s pin).1 := by
  rw [taskStep_eq]
  unfold taken
  generalize ran s pin = d
  unfold nextOp
  split
  · exact .arms
  · exact .arms
  · rename_i h
    split
    · rename_i hlen
      exact .rests (.inr (.inl ⟨h, hlen⟩))
    · exact .arms
  · rename_i h
    cases hcb : d.callback with
    | none => exact .rests (.inr (.inr ⟨h, hcb⟩))
    | some cb => exact .calls cb hcb h rfl
  · rename_i h₁ h₂ h₃ h₄
    refine .rests (.inl ?_)
    cases hstate : d.seqState <;> simp_all

/-- What `onewire_timer` leads to: a sequence begins, with or without the hardware timer,
or none does. -/
inductive TimerCase (s : Loop) : Loop → Prop
  | begins (seq : DsSeq) (hseq : seq.callback.isSome = true)
      (harg : s.onewireTimerArg ≠ .nextReadT) : TimerCase s (owInitSeq seq s)
  | rereads (harg : s.onewireTimerArg = .nextReadT) :
      TimerCase s (hwTimerArm 10 (owInitSeq .convT s))
  | rests (harg : s.onewireTimerArg = .readT ∨ s.onewireTimerArg = .invalid) : TimerCase s s

theorem onewireSeqTimerCb_cases (s : Loop) : TimerCase s (onewireSeqTimerCb s) := by
  unfold onewireSeqTimerCb
  cases h : s.onewireTimerArg with
  | uuidT => exact .begins .convT rfl (by simp [h])
  | convT => exact .begins .readT rfl (by simp [h])
  | readT => exact .rests (.inl h)
  | nextReadT => exact .rereads h
  | invalid => exact .rests (.inr h)

inductive StepCase (s : Loop) : LoopEvent → Loop → Prop
  | task (pin : Bool) (hq : s.queued ≠ 0) : StepCase s (.task pin) (taskStep s pin).1
  | hwTimer (h : s.hwTimer.isSome = true) :
      StepCase s .hwTimer (owHwTimerCb { s with hwTimer := none })
  | onewireTimer (h : s.onewireTimer.isSome = true) :
      StepCase s .onewireTimer (onewireSeqTimerCb { s with onewireTimer := none })

theorem loopStep_cases {s t : Loop} {e : LoopEvent} {out : List Signal}
    (h : loopStep s e = some (t, out)) : StepCase s e t := by
  cases e with
  | task pin =>
    obtain ⟨hq, heq⟩ := Option.ite_none_left_eq_some.mp h
    obtain rfl : (taskStep s pin).1 = t := congrArg Prod.fst (Option.some.inj heq)
    exact .task pin hq
  | hwTimer =>
    obtain ⟨ht, heq⟩ := Option.ite_none_right_eq_some.mp h
    obtain rfl := congrArg Prod.fst (Option.some.inj heq)
    exact .hwTimer ht
  | onewireTimer =>
    obtain ⟨ht, heq⟩ := Option.ite_none_right_eq_some.mp h
    obtain rfl := congrArg Prod.fst (Option.some.inj heq)
    exact .onewireTimer ht

/-! ## Events under way -/

/-- The events that are queued, and the one that the hardware timer will post. -/
def pending (s : Loop) : Nat := s.queued + s.hwTimer.isSome.toNat

/-- With the sequence that `onewire_timer` will begin. -/
def tokens (s : Loop) : Nat := pending s + s.onewireTimer.isSome.toNat

/-- The timer expires after a temperature was read. -/
def Rereads (s : Loop) (e : LoopEvent) : Prop :=
  e = .onewireTimer ∧ s.onewireTimerArg = .nextReadT

instance (s : Loop) (e : LoopEvent) : Decidable (Rereads s e) :=
  inferInstanceAs (Decidable (_ ∧ _))

/-- One event at a time, or the timer that will lead to one. -/
structure Single (s : Loop) : Prop where
  usable : s.hwTimerState.usable = true
  tokens : tokens s ≤ 1

variable {s : Loop}

theorem hwTimerArm_eq (us : Nat) (h : s.hwTimerState.usable = true) :
    hwTimerArm us s = { s with hwTimer := some us, hwTimerState := .active } := if_pos h

/-- The timer that a callback arms is to begin the sequence after this one. -/
def DoneCb.next : DoneCb → DsSeq
  | .readUuid => .uuidT
  | .convT => .convT
  | .readTemp => .nextReadT

/-- The hardware timer was disarmed at most. -/
structure Disarmed (s s' : Loop) : Prop where
  usable : s'.hwTimerState.usable = true
  queued : s'.queued = s.queued
  hwTimer : s'.hwTimer = s.hwTimer ∨ s'.hwTimer = none

theorem Disarmed.trans {s₁ s₂ : Loop} (h : Disarmed s s₁) (h' : Disarmed s₁ s₂) :
    Disarmed s s₂ where
  usable := h'.usable
  queued := h'.queued.trans h.queued
  hwTimer := h'.hwTimer.elim (fun heq => heq ▸ h.hwTimer) .inr

theorem Disarmed.pending_le {s' : Loop} (h : Disarmed s s') : pending s' ≤ pending s := by
  unfold pending
  rw [h.queued]
  rcases h.hwTimer with heq | heq <;> simp [heq]

theorem hwTimerDisarm_disarmed (h : s.hwTimerState.usable = true) :
    Disarmed s (hwTimerDisarm s) := by
  unfold hwTimerDisarm
  split
  · exact ⟨rfl, rfl, .inr rfl⟩
  · exact ⟨h, rfl, .inl rfl⟩

theorem hwTimerDisarm_keeps (s : Loop) :
    (hwTimerDisarm s).driver = s.driver ∧ (hwTimerDisarm s).onewireTimer = s.onewireTimer := by
  unfold hwTimerDisarm
  split <;> exact ⟨rfl, rfl⟩

structure Called (cb : DoneCb) (s s' : Loop) : Prop where
  disarmed : Disarmed s s'
  timer : s.driver.error = .none →
    s'.onewireTimer.isSome = true ∧ s'.onewireTimerArg = cb.next ∧
      ∃ spadBuf uuid, s'.driver = { s.driver with spadBuf := spadBuf, uuid := uuid }
  failed : s.driver.error ≠ .none → s'.onewireTimer = s.onewireTimer

theorem owHandleError_called (cb : DoneCb) {s' : Loop} (h : Disarmed s s')
    (htimer : s'.onewireTimer = s.onewireTimer) (herror : s.driver.error ≠ .none) :
    Called cb s (owHandleError s') where
  disarmed := by
    have hcleared := hwTimerDisarm_disarmed
      (s := { s' with driver := { s'.driver with error := .none } }) h.usable
    exact h.trans ⟨hcleared.usable, hcleared.queued, hcleared.hwTimer⟩
  timer := fun hnone => absurd hnone herror
  failed := fun _ => (hwTimerDisarm_keeps _).2.trans htimer

theorem armOnewireTimer_called (cb : DoneCb) {s' : Loop} {ms : Nat} (h : Disarmed s s')
    (hd : ∃ spadBuf uuid, s'.driver = { s.driver with spadBuf := spadBuf, uuid := uuid })
    (herror : s.driver.error = .none) : Called cb s (armOnewireTimer cb.next ms s') where
  disarmed := ⟨h.usable, h.queued, h.hwTimer⟩
  timer := fun _ => ⟨rfl, rfl, hd⟩
  failed := fun hne => absurd herror hne

theorem readTempDoneCb_called (h : s.hwTimerState.usable = true) :
    Called .readTemp s (readTempDoneCb s).1 := by
  have hdisarmed := hwTimerDisarm_disarmed h
  obtain ⟨hdriver, htimer⟩ := hwTimerDisarm_keeps s
  unfold readTempDoneCb
  dsimp only
  split
  · rename_i herror
    exact owHandleError_called .readTemp hdisarmed htimer (hdriver ▸ herror)
  · rename_i herror
    refine armOnewireTimer_called .readTemp
      ⟨hdisarmed.usable, hdisarmed.queued, hdisarmed.hwTimer⟩ ?_ (hdriver ▸ not_not.mp herror)
    rw [hdriver]
    exact ⟨_, _, rfl⟩

theorem doneCb_called (cb : DoneCb) (h : s.hwTimerState.usable = true) :
    Called cb s (doneCb cb s).1 := by
  have hsame : Disarmed s s := ⟨h, rfl, .inl rfl⟩
  cases cb with
  | readUuid =>
    change Called _ s (readUuidDoneCb s).1
    unfold readUuidDoneCb
    split
    · rename_i herror
      exact owHandleError_called .readUuid hsame rfl herror
    · rename_i herror
      exact armOnewireTimer_called .readUuid ⟨h, rfl, .inl rfl⟩ ⟨_, _, rfl⟩ (not_not.mp herror)
  | convT =>
    change Called _ s (convTDoneCb s).1
    unfold convTDoneCb
    split
    · rename_i herror
      exact owHandleError_called .convT hsame rfl herror
    · rename_i herror
      exact armOnewireTimer_called .convT hsame ⟨_, _, rfl⟩ (not_not.mp herror)
  | readTemp => exact readTempDoneCb_called h

/-! ## One event at a time -/

theorem owInitSeq_eq {seq : DsSeq} (h : seq.callback.isSome = true) (s : Loop) :
    owInitSeq seq s =
      { s with
        driver := s.driver.withSeq seq, onewireTimerArg := seq, queued := s.queued + 1 } := by
  unfold owInitSeq
  cases hcb : seq.callback with
  | none => exact absurd h (by simp [hcb])
  | some cb => rfl

theorem started_single : Single started := ⟨rfl, by decide⟩

theorem Single.task (h : Single s) (hq : s.queued ≠ 0) (pin : Bool) :
    Single (taskStep s pin).1 := by
  have htokens := h.tokens
  have hzero : OneWire.tokens (taken s pin) = 0 := by
    unfold OneWire.tokens pending at htokens ⊢
    change s.queued - 1 + s.hwTimer.isSome.toNat + s.onewireTimer.isSome.toNat = 0
    omega
  have husable : (taken s pin).hwTimerState.usable = true := h.usable
  have hcase := taskStep_cases s pin
  generalize taken s pin = s' at hzero husable hcase
  generalize (taskStep s pin).1 = t at hcase ⊢
  unfold OneWire.tokens at hzero
  cases hcase with
  | arms =>
    rw [hwTimerArm_eq 10 husable]
    refine ⟨rfl, ?_⟩
    unfold OneWire.tokens pending at *
    simp
    omega
  | calls cb =>
    have hcalled := doneCb_called cb husable
    have hle := hcalled.disarmed.pending_le
    have hone := (doneCb cb s').1.onewireTimer.isSome.toNat_le
    refine ⟨hcalled.disarmed.usable, ?_⟩
    unfold OneWire.tokens
    omega
  | rests =>
    refine ⟨husable, ?_⟩
    unfold OneWire.tokens
    omega

theorem Single.hwTimer (h : Single s) (ht : s.hwTimer.isSome = true) :
    Single (owHwTimerCb { s with hwTimer := none }) := by
  have htokens := h.tokens
  refine ⟨h.usable, ?_⟩
  unfold OneWire.tokens pending at htokens ⊢
  rw [ht] at htokens
  change s.queued + 1 + 0 + s.onewireTimer.isSome.toNat ≤ 1
  simp only [Bool.toNat_true] at htokens
  omega

theorem Single.idle (h : Single s) (ht : s.onewireTimer.isSome = true) : pending s = 0 := by
  have htokens := h.tokens
  unfold OneWire.tokens at htokens
  rw [ht, Bool.toNat_true] at htokens
  omega

theorem Single.onewireTimer (h : Single s) (ht : s.onewireTimer.isSome = true)
    (harg : s.onewireTimerArg ≠ .nextReadT) :
    Single (onewireSeqTimerCb { s with onewireTimer := none }) := by
  have hidle := h.idle ht
  unfold pending at hidle
  have hcase := onewireSeqTimerCb_cases { s with onewireTimer := none }
  generalize onewireSeqTimerCb _ = t at hcase ⊢
  cases hcase with
  | begins seq hseq =>
    rw [owInitSeq_eq hseq]
    refine ⟨h.usable, ?_⟩
    unfold OneWire.tokens pending
    simp
    omega
  | rereads hnext => exact absurd hnext harg
  | rests =>
    refine ⟨h.usable, ?_⟩
    unfold OneWire.tokens pending
    simp
    omega

theorem Single.rereads (h : Single s) (ht : s.onewireTimer.isSome = true)
    (harg : s.onewireTimerArg = .nextReadT) :
    pending (onewireSeqTimerCb { s with onewireTimer := none }) = 2 := by
  have hidle := h.idle ht
  unfold pending at hidle
  have hcase := onewireSeqTimerCb_cases { s with onewireTimer := none }
  generalize onewireSeqTimerCb _ = t at hcase ⊢
  cases hcase with
  | begins _ _ hne => exact absurd harg hne
  | rereads =>
    rw [owInitSeq_eq rfl, hwTimerArm_eq]
    · unfold pending
      simp
      omega
    · exact h.usable
  | rests hrests => simp [harg] at hrests

theorem loopStep_pending (h : Single s) {e : LoopEvent} {t : Loop} {out : List Signal}
    (hstep : loopStep s e = some (t, out)) :
    (¬Rereads s e → Single t) ∧ (Rereads s e → pending t = 2) := by
  cases loopStep_cases hstep with
  | task pin hq => exact ⟨fun _ => h.task hq pin, fun hre => absurd hre.1 (by simp)⟩
  | hwTimer ht => exact ⟨fun _ => h.hwTimer ht, fun hre => absurd hre.1 (by simp)⟩
  | onewireTimer ht =>
    exact ⟨fun hre => h.onewireTimer ht fun harg => hre ⟨rfl, harg⟩, fun hre => h.rereads ht hre.2⟩

/-- In every run there is at most one event under way, exactly when `onewire_timer` does
not expire after a temperature was read. -/
theorem pending_iff {tr : List (Machine.Taken Loop LoopEvent Signal)}
    (hrun : Machine.Run loopStep started tr s) :
    (pending started ≤ 1 ∧ ∀ k ∈ tr, pending k.after ≤ 1) ↔
      ∀ k ∈ tr, ¬Rereads k.before k.input := by
  rw [and_iff_right (by decide)]
  refine hrun.law_iff Single started_single ?_ ?_
  · intro s e t out h hstep hallowed
    exact (loopStep_pending h hstep).1 hallowed
  · intro s e t out h hstep
    obtain ⟨hsingle, htwo⟩ := loopStep_pending h hstep
    constructor
    · intro hle hre
      exact absurd (htwo hre ▸ hle) (by omega)
    · intro hallowed
      exact Nat.le_trans (Nat.le_add_right _ _) (hsingle hallowed).tokens

/-! ## A sequence in the loop -/

open Machine (Run Taken)

theorem nextOp_effects (d : Driver) : (nextOp d).2 = [] ∨ ∃ e, (nextOp d).2 = [e] := by
  unfold nextOp
  split
  · exact .inr ⟨_, rfl⟩
  · exact .inr ⟨_, rfl⟩
  · split
    · exact .inl rfl
    · exact .inr ⟨_, rfl⟩
  · cases d.callback with
    | none => exact .inl rfl
    | some cb => exact .inr ⟨_, rfl⟩
  · exact .inl rfl

theorem nextOp_of_event {d d' : Driver} {pin : Bool} {tick : List Effect} {e : Effect}
    (h : oneWireEvent d pin = (d', tick ++ [e])) (he : ¬e.onBus) :
    nextOp (runOp (beginSeq d) pin).1 = (d', [e]) := by
  have hbus := runOp_onBus (beginSeq d) pin
  have heffects : (runOp (beginSeq d) pin).2 ++ (nextOp (runOp (beginSeq d) pin).1).2 =
      tick ++ [e] := congrArg Prod.snd h
  have hdriver : (nextOp (runOp (beginSeq d) pin).1).1 = d' := congrArg Prod.fst h
  rcases nextOp_effects (runOp (beginSeq d) pin).1 with hnil | ⟨e', hone⟩
  · rw [hnil, List.append_nil] at heffects
    exact absurd (hbus e (heffects ▸ by simp)) he
  · rw [hone] at heffects
    obtain rfl : e' = e := by simpa using (List.append_inj' heffects rfl).2
    exact Prod.ext hdriver hone

theorem taskStep_of_event {d' : Driver} {pin : Bool} {tick : List Effect} {e : Effect}
    (h : oneWireEvent s.driver pin = (d', tick ++ [e])) (he : ¬e.onBus) :
    (taskStep s pin).1 = (e.act { s with driver := d', queued := s.queued - 1 }).1 := by
  have hnext := nextOp_of_event h he
  rw [taskStep_eq, taken, ran, hnext]
  rfl

theorem run_task (pin : Bool) (hq : s.queued ≠ 0) :
    ∃ tr, Run loopStep s tr (taskStep s pin).1 := by
  have hstep : loopStep s (.task pin) = some ((taskStep s pin).1, (taskStep s pin).2) := if_neg hq
  exact ⟨_, .single hstep⟩

theorem run_hwTimer (h : s.hwTimer.isSome = true) :
    ∃ tr, Run loopStep s tr (owHwTimerCb { s with hwTimer := none }) := by
  have hstep : loopStep s .hwTimer = some (owHwTimerCb { s with hwTimer := none }, []) := if_pos h
  exact ⟨_, .single hstep⟩

/-- One event is queued, and the hardware timer is off. -/
structure Queued (s : Loop) : Prop where
  usable : s.hwTimerState.usable = true
  queued : s.queued = 1
  hwTimer : s.hwTimer = none

theorem Does.run {cb : DoneCb} {pin : Nat → Bool} {t : Nat} {d d' : Driver}
    {ticks : List (List Effect)} (h : Does cb pin t d ticks d') (hs : Queued s)
    (hd : s.driver = d) :
    ∃ tr s', Run loopStep s tr (doneCb cb s').1 ∧ s'.driver = d' ∧
      s'.onewireTimer = s.onewireTimer ∧ s'.hwTimerState.usable = true ∧ s'.queued = 0 ∧
      s'.hwTimer = none := by
  induction h generalizing s with
  | @last t d d' tick hevent _ =>
    subst hd
    obtain ⟨tr, htr⟩ := run_task (pin t) (show s.queued ≠ 0 by simp [hs.queued])
    rw [taskStep_of_event hevent (by simp [Effect.onBus])] at htr
    exact ⟨tr, _, htr, rfl, rfl, hs.usable, by simp [hs.queued], hs.hwTimer⟩
  | @cons t d d₁ d₂ tick ticks hevent _ ih =>
    subst hd
    obtain ⟨tr, htr⟩ := run_task (pin t) (show s.queued ≠ 0 by simp [hs.queued])
    rw [taskStep_of_event hevent (by simp [Effect.onBus])] at htr
    change Run loopStep s tr (hwTimerArm 10 { s with driver := d₁, queued := s.queued - 1 }) at htr
    rw [hwTimerArm_eq 10 (by exact hs.usable)] at htr
    obtain ⟨tr₁, htr₁⟩ := run_hwTimer
      (s := { s with
        driver := d₁, queued := s.queued - 1, hwTimer := some 10, hwTimerState := .active }) rfl
    obtain ⟨tr₂, s', htr₂, hs'⟩ := ih (s := owHwTimerCb { s with
      driver := d₁, queued := s.queued - 1, hwTimer := none, hwTimerState := .active })
      ⟨rfl, by simp [owHwTimerCb, hs.queued], rfl⟩ rfl
    exact ⟨tr ++ tr₁ ++ tr₂, s', (htr.append htr₁).append htr₂, hs'⟩

structure Begun (seq : DsSeq) (s : Loop) : Prop extends Queued s where
  driver : ∃ d, s.driver = Driver.withSeq d seq

/-- A sequence ended, and `onewire_timer` is armed with its argument. -/
structure Ended (arg : DsSeq) (s : Loop) : Prop where
  usable : s.hwTimerState.usable = true
  queued : s.queued = 0
  hwTimer : s.hwTimer = none
  onewireTimer : s.onewireTimer.isSome = true
  onewireTimerArg : s.onewireTimerArg = arg

/-- The operations of `ds_seqs` and `ds_seq_args`. -/
def DsSeq.ops : DsSeq → List Op
  | .uuidT => [.reset 0, .write DS_READROM, .write DS_READ_SPAD, .read 9]
  | .convT => [.reset 0, .write DS_SKIPROM, .write DS_CONVERT_T]
  | .readT => [.reset 0, .write DS_SKIPROM, .write DS_READ_SPAD, .read 9]
  | .invalid | .nextReadT => []

theorem withSeq_setUp {seq : DsSeq} {cb : DoneCb} (h : seq.callback = some cb) (d : Driver) :
    SetUp cb seq.ops (d.withSeq seq) := by
  cases seq with
  | uuidT => exact ⟨rfl, rfl, ⟨0, rfl⟩, rfl, show 5 ≤ 255 by decide, rfl, h⟩
  | convT => exact ⟨rfl, rfl, ⟨0, rfl⟩, rfl, show 4 ≤ 255 by decide, rfl, h⟩
  | readT => exact ⟨rfl, rfl, ⟨0, rfl⟩, rfl, show 5 ≤ 255 by decide, rfl, h⟩
  | invalid => exact absurd h nofun
  | nextReadT => exact absurd h nofun

theorem ops_reads (seq : DsSeq) : ∀ n, .read n ∈ seq.ops → n ≠ 0 := by
  cases seq <;> simp [DsSeq.ops]

theorem outcome_low (t : Nat) (spad : Nat → UInt8) (ops : List Op) :
    (outcome (fun _ => false) t spad ops).error = .none := by
  induction ops generalizing t spad with
  | nil => rfl
  | cons op ops ih =>
    cases op with
    | reset arg => exact ih _ _
    | write byte => exact ih _ _
    | read count => exact ih _ _

theorem Begun.run {seq : DsSeq} {cb : DoneCb} (h : Begun seq s) (hcb : seq.callback = some cb) :
    ∃ tr s', Run loopStep s tr s' ∧ Ended cb.next s' := by
  obtain ⟨d, hd⟩ := h.driver
  obtain ⟨d', hdoes, -, herror⟩ := (withSeq_setUp hcb d).performs (fun _ => false) (ops_reads seq)
  rw [outcome_low] at herror
  obtain ⟨tr, s', hrun, hs', -, husable, hqueued, hhw⟩ := hdoes.run h.toQueued hd
  have hcalled := doneCb_called cb husable
  obtain ⟨htimer, harg, -⟩ := hcalled.timer (by rw [hs', herror])
  refine ⟨tr, _, hrun, hcalled.disarmed.usable, hcalled.disarmed.queued.trans hqueued, ?_, htimer,
    harg⟩
  exact hcalled.disarmed.hwTimer.elim (·.trans hhw) id

theorem Ended.step {arg : DsSeq} (h : Ended arg s) :
    loopStep s .onewireTimer = some (onewireSeqTimerCb { s with onewireTimer := none }, []) :=
  if_pos h.onewireTimer

theorem Ended.run {arg seq : DsSeq} (h : Ended arg s)
    (hseq : arg = .uuidT ∧ seq = .convT ∨ arg = .convT ∧ seq = .readT) :
    ∃ tr s', Run loopStep s tr s' ∧ Begun seq s' := by
  refine ⟨_, _, .single h.step, ?_⟩
  have hcb : seq.callback.isSome = true := by
    rcases hseq with ⟨-, rfl⟩ | ⟨-, rfl⟩ <;> rfl
  have hbegins : onewireSeqTimerCb { s with onewireTimer := none } =
      owInitSeq seq { s with onewireTimer := none } := by
    unfold onewireSeqTimerCb
    dsimp only
    rw [h.onewireTimerArg]
    rcases hseq with ⟨rfl, rfl⟩ | ⟨rfl, rfl⟩ <;> rfl
  rw [hbegins, owInitSeq_eq hcb]
  exact ⟨⟨h.usable, by simp [h.queued], h.hwTimer⟩, _, rfl⟩

theorem started_begun : Begun .uuidT started := ⟨⟨rfl, rfl, rfl⟩, _, rfl⟩

theorem reads_once : ∃ tr s, Run loopStep started tr s ∧ Ended .nextReadT s := by
  obtain ⟨tr₁, s₁, hrun₁, h₁⟩ := started_begun.run rfl
  obtain ⟨tr₂, s₂, hrun₂, h₂⟩ := h₁.run (.inl ⟨rfl, rfl⟩)
  obtain ⟨tr₃, s₃, hrun₃, h₃⟩ := h₂.run rfl
  obtain ⟨tr₄, s₄, hrun₄, h₄⟩ := h₃.run (.inr ⟨rfl, rfl⟩)
  obtain ⟨tr₅, s₅, hrun₅, h₅⟩ := h₄.run rfl
  exact ⟨_, s₅, (((hrun₁.append hrun₂).append hrun₃).append hrun₄).append hrun₅, h₅⟩

theorem Ended.single {arg : DsSeq} (h : Ended arg s) : Single s := by
  refine ⟨h.usable, ?_⟩
  unfold OneWire.tokens pending
  rw [h.queued, h.hwTimer]
  cases s.onewireTimer <;> simp

/-- After the first temperature, two events are under way. -/
theorem rereading_pending : ∃ tr s, Run loopStep started tr s ∧
    ¬(pending started ≤ 1 ∧ ∀ k ∈ tr, pending k.after ≤ 1) := by
  obtain ⟨tr, s, hrun, h⟩ := reads_once
  refine ⟨_, _, hrun.snoc h.step, fun hall => ?_⟩
  have hle := hall.2 _ (List.mem_append_right _ (List.mem_singleton_self _))
  rw [h.single.rereads h.onewireTimer h.onewireTimerArg] at hle
  omega

def firstEvents : List LoopEvent := [.task true, .hwTimer, .task true]

theorem firstEvents_isSome : (Machine.exec loopStep started firstEvents).isSome = true := by
  decide +kernel

theorem pending_first :
    pending started ≤ 1 ∧ ∀ k ∈ ((Machine.exec loopStep started firstEvents).get
      firstEvents_isSome).1, pending k.after ≤ 1 := by
  refine (pending_iff (Machine.exec_get firstEvents_isSome)).mpr ?_
  decide +kernel

end OneWire
end EspMisc
