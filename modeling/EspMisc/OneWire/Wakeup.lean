/-
Whether the temperature loop goes on.

Each event arms the hardware timer or ends its sequence, and the callback at the end of
a sequence arms `onewire_timer`, unless the sequence had an error.  So as long as no
reset times out there is always something that wakes the loop up, `wakes_up`, even when
two events are under way.  A reset that times out is the end of it:
`owHandleError` arms nothing.
-/
import EspMisc.OneWire.Loop

namespace EspMisc
namespace OneWire

open Machine (Run Taken)

/-! ## Operations -/

/-- The response window of a reset closes without an answer. -/
structure Unanswered (d : Driver) (pin : Bool) : Prop where
  pin : pin = true
  seqState : d.seqState = .started
  opType : d.opType = .reset
  curOp : d.curOp = OW_RESET_OP_WAIT_60_RESP
  delayCount : dec d.delayCount = 0

instance (d : Driver) (pin : Bool) : Decidable (Unanswered d pin) :=
  decidable_of_iff
    (pin = true ∧ d.seqState = .started ∧ d.opType = .reset ∧
      d.curOp = OW_RESET_OP_WAIT_60_RESP ∧ dec d.delayCount = 0)
    ⟨fun ⟨h₁, h₂, h₃, h₄, h₅⟩ => ⟨h₁, h₂, h₃, h₄, h₅⟩,
      fun ⟨h₁, h₂, h₃, h₄, h₅⟩ => ⟨h₁, h₂, h₃, h₄, h₅⟩⟩

/-- An operation of a sequence is next, or under way, or the sequence is over. -/
structure Running (d : Driver) : Prop where
  seqPos : d.seqPos < d.seqLen
  opType : d.opType = d.seqArr.getD d.seqPos .invalid
  seqState : d.seqState = .transition ∨ d.seqState = .started ∧ d.opType ≠ .fin ∨
    d.seqState = .done ∧ d.opType = .fin
  curOp : d.seqState = .started → d.opType = .reset → 1 ≤ d.curOp ∧ d.curOp ≤ 5

/-- What the operation of an event leads to. -/
inductive OpCase (d : Driver) : Driver → Prop
  | stays {d' : Driver} (hframed : Framed d d') (hop : d'.opType = d.opType)
      (hstate : d'.seqState = .started) (hne : d.opType ≠ .fin)
      (hcur : d'.opType = .reset → 1 ≤ d'.curOp ∧ d'.curOp ≤ 5) : OpCase d d'
  | advances {d' : Driver} (hframed : Framed d d') (hne : d.opType ≠ .fin) :
      OpCase d { d' with seqPos := inc d'.seqPos, seqState := .transition }
  | ends (hop : d.opType = .fin) : OpCase d { d with seqState := .done }

structure Within (d d' : Driver) : Prop extends Framed d d' where
  opType : d'.opType = d.opType
  seqState : d'.seqState = d.seqState

theorem readSwitch_within (d : Driver) (pin : Bool) : Within d (readSwitch d pin).1 := by
  simp only [readSwitch]
  repeat' split
  all_goals exact ⟨⟨rfl, rfl, rfl, rfl, rfl, rfl⟩, rfl, rfl⟩

theorem writeSwitch_within (d : Driver) : Within d (writeSwitch d).1 := by
  simp only [writeSwitch]
  repeat' split
  all_goals exact ⟨⟨rfl, rfl, rfl, rfl, rfl, rfl⟩, rfl, rfl⟩

variable {d : Driver}

theorem enter_within (h : Running d) (hne : d.opType ≠ .fin) :
    Framed d (enter d) ∧ (enter d).opType = d.opType ∧ (enter d).seqState = .started ∧
      (d.opType = .reset → 1 ≤ (enter d).curOp ∧ (enter d).curOp ≤ 5) := by
  unfold enter
  split
  · exact ⟨⟨rfl, rfl, rfl, rfl, rfl, rfl⟩, rfl, rfl, fun _ => ⟨Nat.le_refl 1, show 1 ≤ 5 by decide⟩⟩
  · rename_i htransition
    have hstarted : d.seqState = .started := by
      rcases h.seqState with hs | hs | hs
      · exact absurd hs htransition
      · exact hs.1
      · exact absurd hs.2 hne
    exact ⟨⟨rfl, rfl, rfl, rfl, rfl, rfl⟩, rfl, hstarted, h.curOp hstarted⟩

theorem opDone_cases {d₁ d₂ : Driver} {doneOp : Nat} {effects : List Effect}
    (hframed : Framed d d₁) (hop : d₁.opType = d.opType) (hstate : d₁.seqState = .started)
    (hwithin : Within d₁ d₂) (hne : d.opType ≠ .fin) (hreset : d.opType ≠ .reset) :
    OpCase d (opDone doneOp (d₂, effects)).1 := by
  unfold opDone
  split
  · exact .advances (hframed.trans hwithin.toFramed) hne
  · exact .stays (hframed.trans hwithin.toFramed) (hwithin.opType.trans hop)
      (hwithin.seqState.trans hstate) hne
      fun h => absurd ((hwithin.opType.trans hop).symm.trans h) hreset

theorem owDoitReset_cases {pin : Bool} (hop : d.opType = .reset) (hstate : d.seqState = .started)
    (hcur : 1 ≤ d.curOp ∧ d.curOp ≤ 5) (hanswer : ¬Unanswered d pin) :
    OpCase d (owDoitReset d pin).1 := by
  have hne : d.opType ≠ .fin := by simp [hop]
  have hstays (op delay : Nat) (h : 1 ≤ op ∧ op ≤ 5) :
      OpCase d { d with delayCount := delay, curOp := op } :=
    .stays ⟨rfl, rfl, rfl, rfl, rfl, rfl⟩ rfl hstate hne fun _ => h
  unfold owDoitReset
  split
  · exact hstays _ _ (by decide)
  · split
    · exact hstays _ _ (by decide)
    · exact hstays _ _ hcur
  · split
    · exact hstays _ _ (by decide)
    · split
      · rename_i hthree hhigh hlast
        exact absurd ⟨by simpa using hhigh, hstate, hop, hthree, hlast⟩ hanswer
      · exact hstays _ _ hcur
  · split
    · exact hstays _ _ (by decide)
    · exact hstays _ _ hcur
  · exact .advances ⟨rfl, rfl, rfl, rfl, rfl, rfl⟩ hne
  · grind

theorem OpCase.of_framed {d₁ d₂ : Driver} (h : OpCase d₁ d₂) (hframed : Framed d d₁)
    (hop : d₁.opType = d.opType) (hne : d.opType ≠ .fin) : OpCase d d₂ := by
  cases h with
  | stays hframed' hop' hstate _ hcur =>
    exact .stays (hframed.trans hframed') (hop'.trans hop) hstate hne hcur
  | advances hframed' => exact .advances (hframed.trans hframed') hne
  | ends hfin => exact absurd (hop.symm.trans hfin) hne

theorem not_unanswered_enter {pin : Bool} (h : ¬Unanswered d pin) : ¬Unanswered (enter d) pin := by
  unfold enter
  split
  · exact fun hun => absurd hun.curOp (by simp)
  · exact h

/-- The operations of a sequence, of which the last one is `OW_OP_END`. -/
structure Sequenced (d : Driver) : Prop where
  known : ∀ pos < d.seqLen, d.seqArr.getD pos .invalid ∈ [.reset, .read, .write, .fin]
  fin : ∀ pos < d.seqLen, d.seqArr.getD pos .invalid ≠ .fin → pos + 1 < d.seqLen
  short : d.seqLen < 256

theorem runOp_cases {pin : Bool} (h : Running d) (hseq : Sequenced d)
    (hanswer : ¬Unanswered d pin) : OpCase d (runOp d pin).1 := by
  have hknown := hseq.known d.seqPos h.seqPos
  rw [← h.opType] at hknown
  cases hop : d.opType with
  | fin =>
    have hrun : runOp d pin = ({ d with seqState := .done }, []) := by simp [runOp, hop]
    rw [hrun]
    exact .ends hop
  | read =>
    obtain ⟨hframed, hsame, hstarted, -⟩ := enter_within h (by simp [hop])
    rw [show runOp d pin = owDoitRead (enter d) pin by simp [runOp, hop]]
    exact opDone_cases hframed hsame hstarted (readSwitch_within _ _) (by simp [hop])
      (by simp [hop])
  | write =>
    obtain ⟨hframed, hsame, hstarted, -⟩ := enter_within h (by simp [hop])
    rw [show runOp d pin = owDoitWrite (enter d) by simp [runOp, hop]]
    exact opDone_cases hframed hsame hstarted (writeSwitch_within _) (by simp [hop]) (by simp [hop])
  | reset =>
    obtain ⟨hframed, hsame, hstarted, hcur⟩ := enter_within h (by simp [hop])
    rw [show runOp d pin = owDoitReset (enter d) pin by simp [runOp, hop]]
    exact (owDoitReset_cases (hsame.trans hop) hstarted (hcur hop)
      (not_unanswered_enter hanswer)).of_framed hframed hsame (by simp [hop])
  | invalid => simp [hop] at hknown
  | max => simp [hop] at hknown

/-! ## Events -/

/-- A driver without an error, in a sequence or about to begin one. -/
structure Healthy (d : Driver) : Prop extends Sequenced d where
  seqPos : 0 < d.seqLen
  callback : d.callback.isSome = true
  error : d.error = .none
  state : d.seqState = .init ∨ Running d

theorem Healthy.begin (h : Healthy d) : Healthy (beginSeq d) ∧ Running (beginSeq d) := by
  unfold beginSeq
  split
  · have hrunning : Running { d with
        seqState := .transition, opType := d.seqArr.getD 0 .invalid, curOp := 0, seqPos := 0 } :=
      ⟨h.seqPos, rfl, .inl rfl, nofun⟩
    exact ⟨⟨⟨h.known, h.fin, h.short⟩, h.seqPos, h.callback, h.error, .inr hrunning⟩, hrunning⟩
  · rename_i hinit
    exact ⟨h, h.state.resolve_left hinit⟩

theorem Healthy.keep {d' : Driver} (h : Healthy d) (harr : d'.seqArr = d.seqArr)
    (hlen : d'.seqLen = d.seqLen) (hcallback : d'.callback = d.callback)
    (herror : d'.error = d.error) (hrunning : Running d') : Healthy d' where
  known := by rw [hlen, harr]; exact h.known
  fin := by rw [hlen, harr]; exact h.fin
  short := hlen ▸ h.short
  seqPos := hlen ▸ h.seqPos
  callback := hcallback ▸ h.callback
  error := herror.trans h.error
  state := .inr hrunning

/-- An event arms the hardware timer, or it calls back without an error. -/
theorem Healthy.event {pin : Bool} (h : Healthy d) (hrun : Running d)
    (hanswer : ¬Unanswered d pin) :
    Healthy (nextOp (runOp d pin).1).1 ∧
      ((nextOp (runOp d pin).1).2 = [.hwTimerArm 10] ∨
        ∃ cb, (nextOp (runOp d pin).1).2 = [.callback cb]) := by
  have hcase := runOp_cases hrun h.toSequenced hanswer
  generalize (runOp d pin).1 = r at hcase ⊢
  cases hcase with
  | stays hframed hop hstate hne hcur =>
    have hrunning : Running r :=
      ⟨by rw [hframed.seqPos, hframed.seqLen]; exact hrun.seqPos,
        by rw [hop, hframed.seqArr, hframed.seqPos]; exact hrun.opType,
        .inr (.inl ⟨hstate, by rwa [hop]⟩), fun _ => hcur⟩
    have hnext : nextOp r = (r, [.hwTimerArm 10]) := by simp [nextOp, hstate]
    rw [hnext]
    exact ⟨h.keep hframed.seqArr hframed.seqLen hframed.callback hframed.error hrunning, .inl rfl⟩
  | @advances d' hframed hne =>
    have hpos := h.fin d.seqPos hrun.seqPos (hrun.opType ▸ hne)
    have hinc : inc d'.seqPos = d.seqPos + 1 := by
      have hshort := h.short
      rw [hframed.seqPos]
      exact Nat.mod_eq_of_lt (by omega)
    have hlen : inc d'.seqPos < d'.seqLen := by rwa [hinc, hframed.seqLen]
    have hnext : nextOp { d' with seqPos := inc d'.seqPos, seqState := .transition } =
        (advance d', [.hwTimerArm 10]) := by
      simp [nextOp, Nat.not_le.mpr hlen, advance]
    rw [hnext]
    exact ⟨h.keep hframed.seqArr hframed.seqLen hframed.callback hframed.error
      ⟨hlen, rfl, .inl rfl, fun h => absurd h (by simp [advance])⟩, .inl rfl⟩
  | ends hop =>
    obtain ⟨cb, hcb⟩ := Option.isSome_iff_exists.mp h.callback
    have hnext : nextOp { d with seqState := .done } =
        ({ d with seqState := .done }, [.callback cb]) := by
      simp [nextOp, hcb]
    rw [hnext]
    have hrunning : Running { d with seqState := .done } :=
      ⟨hrun.seqPos, hrun.opType, .inr (.inr ⟨rfl, hop⟩), fun h => absurd h (by simp)⟩
    exact ⟨h.keep rfl rfl rfl rfl hrunning, .inr ⟨cb, rfl⟩⟩

/-! ## The loop -/

variable {s : Loop}

/-- The arguments with which `onewire_timer` begins a sequence. -/
def DsSeq.begins (arg : DsSeq) : Prop := arg ∈ [.uuidT, .convT, .nextReadT]

/-- Something will wake the loop up. -/
def WakesUp (s : Loop) : Prop :=
  s.queued ≠ 0 ∨ s.hwTimer.isSome = true ∨
    s.onewireTimer.isSome = true ∧ s.onewireTimerArg.begins

def TimesOut (s : Loop) : LoopEvent → Prop
  | .task pin => Unanswered s.driver pin
  | .hwTimer | .onewireTimer => False

instance (s : Loop) (e : LoopEvent) : Decidable (TimesOut s e) :=
  match e with
  | .task pin => inferInstanceAs (Decidable (Unanswered s.driver pin))
  | .hwTimer | .onewireTimer => inferInstanceAs (Decidable False)

structure Alive (s : Loop) : Prop where
  usable : s.hwTimerState.usable = true
  driver : Healthy s.driver
  timer : s.onewireTimer.isSome = true → s.onewireTimerArg.begins
  wakesUp : WakesUp s

theorem withSeq_healthy {seq : DsSeq} (h : seq.callback.isSome = true) (d : Driver) :
    Healthy (d.withSeq seq) := by
  have hknown : ∀ pos < seq.seqs.length,
      seq.seqs.getD pos .invalid ∈ [.reset, .read, .write, .fin] := by
    cases seq <;> decide
  have hfin : ∀ pos < seq.seqs.length,
      seq.seqs.getD pos .invalid ≠ .fin → pos + 1 < seq.seqs.length := by
    cases seq <;> decide
  have hlen : 0 < seq.seqs.length ∧ seq.seqs.length < 256 := by
    cases seq <;> first | decide | exact absurd h nofun
  exact ⟨⟨hknown, hfin, hlen.2⟩, hlen.1, h, rfl, .inl rfl⟩

theorem started_alive : Alive started where
  usable := rfl
  driver := withSeq_healthy rfl _
  timer := nofun
  wakesUp := .inl (by decide)

theorem next_begins (cb : DoneCb) : cb.next.begins := by
  cases cb <;> simp [DoneCb.next, DsSeq.begins]

theorem not_unanswered_beginSeq {pin : Bool} (h : ¬Unanswered d pin) :
    ¬Unanswered (beginSeq d) pin := by
  unfold beginSeq
  split
  · exact fun hun => absurd hun.seqState (by simp)
  · exact h

theorem Healthy.called {spadBuf : Nat → UInt8} {uuid : List UInt8} (h : Healthy d) :
    Healthy { d with spadBuf := spadBuf, uuid := uuid } where
  known := h.known
  fin := h.fin
  short := h.short
  seqPos := h.seqPos
  callback := h.callback
  error := h.error
  state := h.state.imp_right fun hrun => ⟨hrun.seqPos, hrun.opType, hrun.seqState, hrun.curOp⟩

theorem Alive.task (h : Alive s) {pin : Bool} (hanswer : ¬Unanswered s.driver pin) :
    Alive (taskStep s pin).1 := by
  obtain ⟨hbegun, hrun⟩ := h.driver.begin
  obtain ⟨hhealthy, hnext⟩ := hbegun.event hrun (not_unanswered_beginSeq hanswer)
  have husable : (taken s pin).hwTimerState.usable = true := h.usable
  rw [taskStep_eq]
  rcases hnext with harms | ⟨cb, hcalls⟩
  · rw [ran, harms]
    change Alive (hwTimerArm 10 (taken s pin))
    rw [hwTimerArm_eq 10 husable]
    exact ⟨rfl, hhealthy, h.timer, .inr (.inl rfl)⟩
  · rw [ran, hcalls]
    change Alive (doneCb cb (taken s pin)).1
    have hcalled := doneCb_called cb husable
    obtain ⟨htimer, harg, spadBuf, uuid, hdriver⟩ := hcalled.timer hhealthy.error
    have hbegins : (doneCb cb (taken s pin)).1.onewireTimerArg.begins := harg ▸ next_begins cb
    refine ⟨hcalled.disarmed.usable, ?_, fun _ => hbegins, .inr (.inr ⟨htimer, hbegins⟩)⟩
    rw [hdriver]
    exact hhealthy.called

theorem Alive.onewireTimer (h : Alive s) (ht : s.onewireTimer.isSome = true) :
    Alive (onewireSeqTimerCb { s with onewireTimer := none }) := by
  have hbegins := h.timer ht
  have hcase := onewireSeqTimerCb_cases { s with onewireTimer := none }
  generalize onewireSeqTimerCb _ = t at hcase ⊢
  cases hcase with
  | begins seq hseq =>
    rw [owInitSeq_eq hseq]
    exact ⟨h.usable, withSeq_healthy hseq _, nofun, .inl (Nat.succ_ne_zero _)⟩
  | rereads =>
    rw [owInitSeq_eq rfl, hwTimerArm_eq]
    · exact ⟨rfl, withSeq_healthy rfl _, nofun, .inl (Nat.succ_ne_zero _)⟩
    · exact h.usable
  | rests harg =>
    exact absurd hbegins (by rcases harg with heq | heq <;> simp_all [DsSeq.begins])

theorem loopStep_alive {e : LoopEvent} {t : Loop} {out : List Signal} (h : Alive s)
    (hstep : loopStep s e = some (t, out)) (hanswer : ¬TimesOut s e) : Alive t := by
  cases loopStep_cases hstep with
  | task pin _ => exact h.task hanswer
  | hwTimer _ => exact ⟨h.usable, h.driver, h.timer, .inl (Nat.succ_ne_zero _)⟩
  | onewireTimer ht => exact h.onewireTimer ht

/-- Something wakes the loop up in every state of a run in which no reset times out. -/
theorem wakes_up {tr : List (Taken Loop LoopEvent Signal)} (hrun : Run loopStep started tr s)
    (hanswered : ∀ k ∈ tr, ¬TimesOut k.before k.input) :
    WakesUp started ∧ ∀ k ∈ tr, WakesUp k.after := by
  refine ⟨started_alive.wakesUp, ?_⟩
  refine (hrun.history (fun s tr => Alive s ∧ ∀ k ∈ tr, WakesUp k.after) ?_ ?_ hanswered).2
  · exact ⟨started_alive, List.forall_mem_nil _⟩
  · rintro s tr e t out ⟨halive, hall⟩ hstep hanswer
    have ht := loopStep_alive halive hstep hanswer
    exact ⟨ht, List.forall_mem_append.mpr ⟨hall, List.forall_mem_singleton.mpr ht.wakesUp⟩⟩

/-! ## A reset without an answer -/

theorem outcome_high (seq : DsSeq) (h : seq.callback.isSome = true) (spad : Nat → UInt8) :
    (outcome (fun _ => true) 0 spad seq.ops).error = .resetRespTimeout := by
  cases seq <;> first | rfl | exact absurd h nofun

/-- Without a sensor the loop stops after its first reset. -/
theorem missing_stops : ∃ tr s, Run loopStep started tr s ∧
    ¬(WakesUp started ∧ ∀ k ∈ tr, WakesUp k.after) := by
  obtain ⟨d, hd⟩ := started_begun.driver
  have hsetUp := withSeq_setUp (show DsSeq.uuidT.callback = some .readUuid from rfl) d
  obtain ⟨d', hdoes, -, herror⟩ := hsetUp.performs (fun _ => true) (ops_reads _)
  rw [outcome_high .uuidT rfl] at herror
  obtain ⟨tr, s, hrun, hs, htimer, husable, hqueued, hhw⟩ :=
    hdoes.run started_begun.toQueued hd
  have hcalled := doneCb_called .readUuid husable
  have hstops : ¬WakesUp (doneCb .readUuid s).1 := by
    have hunarmed := hcalled.failed (by rw [hs, herror]; decide)
    have hoff := hcalled.disarmed.hwTimer.elim (·.trans hhw) id
    rintro (hq | hh | ⟨ht, -⟩)
    · exact hq (hcalled.disarmed.queued.trans hqueued)
    · simp [hoff] at hh
    · have hnone : started.onewireTimer = none := rfl
      simp [hunarmed, htimer, hnone] at ht
  refine ⟨tr, _, hrun, fun hall => hstops ?_⟩
  rcases hrun.ends with hstart | ⟨k, hk, hafter⟩
  · exact hstart ▸ hall.1
  · exact hafter ▸ hall.2 k hk

theorem firstEvents_wake_up :
    WakesUp started ∧ ∀ k ∈ ((Machine.exec loopStep started firstEvents).get
      firstEvents_isSome).1, WakesUp k.after := by
  refine wakes_up (Machine.exec_get firstEvents_isSome) ?_
  decide +kernel

end OneWire
end EspMisc
