/-
The keepalive.

In `MQTT_DATA` the timer counts `keepAliveTick` up, and past the keepalive time it
makes the task send a PINGREQ.  A segment from the broker sets the count back as a
PINGREQ does, so the count bounds the time since the connection was last used in
either direction (`silence_le`), and not the time since the client last sent.
-/
import EspMisc.Mqtt.Link

namespace EspMisc
namespace Mqtt

open Machine

/-! ## What a step makes of the count -/

def Event.isTick : Event → Bool
  | .timer => true
  | _ => false

def Event.isSegment : Event → Bool
  | .recv .. => true
  | _ => false

/-- A step that leaves the client in `MQTT_DATA`: a tick, a step that leaves the count
alone, a segment, or a PINGREQ. -/
inductive Counts (client c : MqttClient) (out : List Effect) : Event → Prop
  | tick (hst : client.connState = .mqttData)
      (hc : c.keepAliveTick = (client.keepAliveTick + 1) % 4294967296)
      (hle : c.keepAliveTick ≤ client.connectInfo.keepalive) : Counts client c out .timer
  | stay {e : Event} (he : e.isTick = false) (hst : client.connState = .mqttData)
      (hc : c.keepAliveTick = client.keepAliveTick) : Counts client c out e
  | segment {arg : Nat} {segment : Bytes} (hc : c.keepAliveTick = 0) :
      Counts client c out (.recv arg segment)
  | pingreq (hst : client.connState = .mqttKeepaliveSend) (hc : c.keepAliveTick = 0)
      (hout : ∃ m r, ∀ x ∈ client.plain (.espconnSend client.pCon m r), x ∈ out) :
      Counts client c out .task

/-- The settings that only the setup writes, and the count in `MQTT_DATA`. -/
def Kept (client c : MqttClient) (e : Event) (out : List Effect) : Prop :=
  c.connectInfo.keepalive = client.connectInfo.keepalive ∧
    (c.connState = .mqttData → Counts client c out e)

theorem Kept.elsewhere {client c : MqttClient} {e : Event} {out : List Effect}
    (hkeep : c.connectInfo.keepalive = client.connectInfo.keepalive)
    (hne : c.connState ≠ .mqttData) : Kept client c e out :=
  ⟨hkeep, fun hst => absurd hst hne⟩

theorem Requested.kept {client c : MqttClient} {out : List Effect} (h : Requested client c out)
    {e : Event} (he : e.isTick = false) : Kept client c e out := by
  obtain ⟨st, q, rfl, -, -⟩ := h
  exact ⟨rfl, fun hst => .stay he hst rfl⟩

theorem mqttConnect_kept {client c : MqttClient} {fresh : Nat} {answers : Answers} {e : Event}
    {out : List Effect} (h : ConnectCase client fresh answers c out) : Kept client c e out := by
  cases h with
  | address ha => exact .elsewhere rfl (by simp)
  | host host ha => exact .elsewhere rfl (by simp)

theorem mqttSendKeepalive_kept {client : MqttClient}
    (hst : client.connState = .mqttKeepaliveSend) (answers : Answers) :
    Kept client (mqttSendKeepalive client answers).1 .task
      (mqttSendKeepalive client answers).2 := by
  simp only [mqttSendKeepalive]
  split
  · refine ⟨rfl, fun _ => .pingreq hst rfl ?_⟩
    refine ⟨(mqttMsgPingreq client.mqttState.mqttConnection).outbound, answers.send, ?_⟩
    intro x hx
    exact List.mem_append_left _ hx
  · exact .elsewhere rfl (by simp)

theorem sendQueued_kept {client : MqttClient} (hst : client.connState = .mqttData)
    (answers : Answers) :
    Kept client (sendQueued client answers).1 .task (sendQueued client answers).2 := by
  simp only [sendQueued]
  split
  · exact ⟨rfl, fun _ => .stay rfl hst rfl⟩
  · split
    · exact ⟨rfl, fun _ => .stay rfl hst rfl⟩
    · exact ⟨rfl, fun _ => .stay rfl hst rfl⟩

theorem mqttTask_kept {client c : MqttClient} {fresh : Nat} {answers : Answers}
    {out : List Effect} (h : TaskCase client fresh answers c out) : Kept client c .task out := by
  cases h with
  | reconnect _ hcase => exact mqttConnect_kept hcase
  | keepalive hst => exact mqttSendKeepalive_kept hst answers
  | data hst => exact sendQueued_kept hst answers
  | disconnect _ => exact ⟨rfl, fun hst => .stay rfl hst rfl⟩
  | free _ => exact ⟨rfl, fun hst => .stay rfl hst rfl⟩
  | delete _ => exact ⟨rfl, fun hst => .stay rfl hst rfl⟩
  | idle _ => exact ⟨rfl, fun hst => .stay rfl hst rfl⟩

theorem mqttTimer_kept (client : MqttClient) :
    Kept client (mqttTimer client).1 .timer (mqttTimer client).2 := by
  simp only [mqttTimer]
  split
  · next hst =>
    split
    · exact .elsewhere rfl (by simp)
    · next hle => exact ⟨rfl, fun _ => .tick hst rfl (Nat.le_of_not_lt hle)⟩
  · next hst =>
    split
    · exact .elsewhere rfl (by simp)
    · exact ⟨rfl, fun h => absurd (hst.symm.trans h) (by simp)⟩
  · next hne _ => exact ⟨rfl, fun h => absurd h hne⟩

theorem mqttTcpclientRecv_kept {client c : MqttClient} {arg : Nat} {segment : Bytes}
    {out : List Effect} (h : mqttTcpclientRecv client segment = some (c, out)) :
    Kept client c (.recv arg segment) out := by
  cases (mqttTcpclientRecv_cases h).1 with
  | data st q hc hout =>
    rw [hc]
    exact ⟨rfl, fun _ => .segment rfl⟩
  | connack st hst hpend hlen htype hc hout =>
    rw [hc]
    exact ⟨rfl, fun _ => .segment rfl⟩
  | refused st hst hc hout =>
    rw [hc]
    exact ⟨rfl, fun _ => .segment rfl⟩

theorem mqttDnsFound_kept {client c : MqttClient} {ipaddr : Option Nat} {answers : Answers}
    {out : List Effect} (h : DnsCase client answers ipaddr c out) (arg : Nat) :
    Kept client c (.dnsFound arg ipaddr) out := by
  cases h with
  | failed => exact .elsewhere rfl (by simp)
  | connects hip haddr hp => exact .elsewhere rfl (by simp)
  | ignored h => exact ⟨rfl, fun h => .stay rfl h rfl⟩

theorem handle_kept {client c : MqttClient} {fresh : Nat} {answers : Answers} {e : Event}
    {out : List Effect} (h : e.handle client fresh answers = some (c, out)) :
    Kept client c e out := by
  cases e with
  | connect => exact mqttConnect_kept (mqttConnect_cases h)
  | task => exact mqttTask_kept (mqttTask_cases h)
  | recv arg segment => exact mqttTcpclientRecv_kept h
  | dnsFound arg ipaddr => exact mqttDnsFound_kept (mqttDnsFound_cases h) arg
  | publish topic data qos retain =>
    obtain ⟨b, hr⟩ := request_returned h
    exact (mqttPublish_requested hr).kept rfl
  | subscribe topic qos =>
    obtain ⟨b, hr⟩ := request_returned h
    exact (mqttSubscribe_requested hr).kept rfl
  | unSubscribe topic =>
    obtain ⟨b, hr⟩ := request_returned h
    exact (mqttUnSubscribe_requested hr).kept rfl
  | ping =>
    obtain ⟨b, hr⟩ := request_returned h
    exact (mqttPing_requested hr).kept rfl
  | disconCb =>
    obtain ⟨rfl, rfl⟩ := Prod.mk.inj (Option.some.inj h)
    refine ⟨rfl, fun hst => ?_⟩
    have hst : Control.afterDiscon client.connState = .mqttData := hst
    rcases Control.afterDiscon_cases client.connState with h | h | h <;>
      exact absurd (h.symm.trans hst) (by simp)
  | timer =>
    obtain ⟨rfl, rfl⟩ := Prod.mk.inj (Option.some.inj h)
    exact mqttTimer_kept client
  | disconnect | deleteClient | connectCb | reconCb =>
    obtain ⟨rfl, rfl⟩ := Prod.mk.inj (Option.some.inj h)
    exact .elsewhere rfl (by simp)
  | sentCb | initLWT | on =>
    obtain ⟨rfl, rfl⟩ := Prod.mk.inj (Option.some.inj h)
    exact ⟨rfl, fun h => .stay rfl h rfl⟩

/-! ## A client with SSL -/

/-- A client that wants SSL makes no connection, so it gets no session. -/
structure Offline (l : Link) : Prop where
  connecting : l.net.connecting = []
  state : l.control.connState ≠ .mqttConnectSending ∧ l.control.connState ≠ .mqttData ∧
    l.control.connState ≠ .mqttKeepaliveSend

theorem Offline.keep {answers : Answers} {l l' : Link} {e : Event} {out : List Effect}
    (hl : Offline l) (hsec : l.control.security ≠ 0) (h : LinkStep answers l e out l') :
    Offline l' := by
  obtain ⟨c, net⟩ := l
  obtain ⟨c', net'⟩ := l'
  obtain ⟨hpos, hmove, hnet⟩ := h
  obtain ⟨hcon, hst⟩ := hl
  simp only at hmove hnet hcon hst hsec
  subst hnet
  cases hmove with
  | request he =>
    rw [fire_request he]
    exact ⟨hcon, hst⟩
  | connectAddress he ha =>
    rw [fire_connects he, Control.plain_eq_nil hsec, List.append_nil, applyAll_free]
    exact ⟨hcon, by simp⟩
  | connectHost he ha host =>
    rw [fire_connects he, applyAll_append, applyAll_free]
    exact ⟨(connecting_lookup ..).trans hcon, by simp⟩
  | taskDisconnect _ =>
    rw [applyAll_disconnect]
    exact ⟨hcon, hst⟩
  | taskFree _ =>
    rw [applyAll_free]
    exact ⟨hcon, hst⟩
  | taskDelete _ =>
    rw [applyAll_free]
    exact ⟨hcon, hst⟩
  | taskKeepalive hk => exact absurd hk hst.2.2
  | taskSend hd => exact absurd hd hst.2.1
  | taskIdle _ => exact ⟨hcon, hst⟩
  | timerIdle => exact ⟨hcon, hst⟩
  | timerKeepalive hd => exact absurd hd hst.2.1
  | dnsFound hip haddr hp =>
    rw [Control.plain_eq_nil hsec]
    exact ⟨hcon, by simp⟩
  | dnsIgnored _ => exact ⟨hcon, hst⟩
  | connectCb m =>
    rw [Event.possible, hcon] at hpos
    exact absurd hpos (by simp)
  | recvData => exact ⟨hcon, hst⟩
  | recvConnack hs => exact absurd hs hst.1
  | recvRefused hs => exact absurd hs hst.1
  | reconCb => exact ⟨(congrArg (List.erase · _) hcon).trans rfl, by simp⟩
  | disconCb =>
    refine ⟨hcon, ?_⟩
    rcases Control.afterDiscon_cases c.connState with h | h | h <;> simp [h]
  | _ => exact ⟨hcon, by simp⟩

theorem LinkStep.offline {answers : Answers} {l l' : Link} {e : Event} {out : List Effect}
    (h : LinkStep answers l e out l') (hl : l.control.security ≠ 0 → Offline l)
    (hsec : l'.control.security ≠ 0) : Offline l' := by
  have hsec : l.control.security ≠ 0 := h.move.security ▸ hsec
  exact (hl hsec).keep hsec h

theorem setup_offline (u : Setup) : Offline u.world.link := by
  refine ⟨rfl, ?_⟩
  rw [show u.world.link.control.connState = .wifiInit from rfl]
  simp

/-! ## Silence -/

def Effect.isSend : Effect → Bool
  | .espconnSend .. => true
  | _ => false

def tick (k : Record) : Bool := k.input.1.isTick

/-- The step hands a packet to `espconn_send`. -/
def sends (k : Record) : Bool := k.output.any Effect.isSend

/-- The step uses the connection, in either direction. -/
def uses (k : Record) : Bool := sends k || k.input.1.isSegment

structure Counted (w : World) (tr : List Record) : Prop where
  offline : w.client.security ≠ 0 → Offline w.link
  limit : w.client.connectInfo.keepalive < 4294967295
  silence : since tick uses tr ≤ w.client.connectInfo.keepalive + 1
  count : w.client.connState = .mqttData →
    since tick uses tr ≤ w.client.keepAliveTick ∧
      w.client.keepAliveTick ≤ w.client.connectInfo.keepalive

theorem Counted.keep {w w' : World} {tr : List Record} {i : Event × Answers} {out : List Effect}
    (hw : Counted w tr) (h : step w i = some (w', out))
    (hk : i.1.isTick = true → w.client.connState = .mqttData) :
    Counted w' (tr ++ [⟨w, i, out, w'⟩]) := by
  have hlink := step_link h
  obtain ⟨hkeep, hcount⟩ := handle_kept (step_handle h).2.1
  refine ⟨hlink.offline hw.offline, hkeep ▸ hw.limit, ?_, fun hst => ?_⟩
  · rw [since_snoc, hkeep]
    split
    · exact Nat.zero_le _
    · split
      · next ht =>
        obtain ⟨hsince, htick⟩ := hw.count (hk ht)
        exact Nat.succ_le_succ (Nat.le_trans hsince htick)
      · exact hw.silence
  · rw [since_snoc, hkeep]
    obtain ⟨e, answers⟩ := i
    cases hcount hst with
    | tick hfrom hc hle =>
      obtain ⟨hsince, htick⟩ := hw.count hfrom
      have hlimit := hw.limit
      rw [Nat.mod_eq_of_lt (by omega)] at hc
      refine ⟨?_, hle⟩
      rw [hc]
      split
      · exact Nat.zero_le _
      · exact Nat.succ_le_succ hsince
    | stay he hfrom hc =>
      rw [hc]
      refine ⟨?_, (hw.count hfrom).2⟩
      split
      · exact Nat.zero_le _
      · rw [if_neg (by simp [tick, he])]
        exact (hw.count hfrom).1
    | segment hc =>
      rw [if_pos (by simp [uses, Event.isSegment]), hc]
      exact ⟨Nat.le_refl _, Nat.zero_le _⟩
    | pingreq hfrom hc hout =>
      rw [hc]
      refine ⟨?_, Nat.zero_le _⟩
      have hplain : w.client.security = 0 := by
        refine Decidable.not_not.mp fun hne => ?_
        exact (hw.offline hne).state.2.2 hfrom
      obtain ⟨m, r, hout⟩ := hout
      have hsent : sends ⟨w, (.task, answers), out, w'⟩ = true := by
        refine List.any_eq_true.mpr ⟨.espconnSend w.client.pCon m r, hout _ ?_, rfl⟩
        simp [MqttClient.plain, hplain]
      refine Nat.le_of_eq (if_pos ?_)
      simp [uses, hsent]

theorem setup_counted {u : Setup} (hu : u.keepAliveTime.toNat < 4294967295) :
    Counted u.world [] := by
  refine ⟨fun _ => setup_offline u, hu, Nat.zero_le _, fun h => ?_⟩
  exact absurd h (setup_offline u).state.2.1

/-- While every tick comes in `MQTT_DATA`, there are at most `keepalive + 1` of them
between two uses of the connection. -/
theorem silence_le {u : Setup} (hu : u.keepAliveTime.toNat < 4294967295) {tr : List Record}
    {w : World} (h : ClientRun u tr w)
    (hticks : ∀ k ∈ tr, k.input.1.isTick = true → k.before.client.connState = .mqttData) :
    since tick uses tr ≤ w.client.connectInfo.keepalive + 1 :=
  (h.history Counted (setup_counted hu) Counted.keep hticks).silence

/-- The task runs between any two ticks; `ticked` says that it has not run since the
last one. -/
def paced (ticked : Bool) : List Record → Bool
  | [] => true
  | k :: tr =>
    match k.input.1 with
    | .timer => !ticked && paced true tr
    | .task => paced false tr
    | _ => paced ticked tr

/-- The broker sends a PINGRESP before every tick. -/
def sampleHeard : List (Event × Answers) :=
  sampleConnect ++ (List.replicate 4
    [(.recv 0 [0xd0, 0x00], sampleAnswers), (.timer, sampleAnswers), (.task, sampleAnswers)]).flatten

theorem sampleHeard_isSome : (exec step sampleSetup.world sampleHeard).isSome := by decide

/-- A client that hears from its broker does not send. -/
theorem sent_silence_unbounded :
    ∃ tr w, ClientRun sampleSetup tr w ∧
      (∀ k ∈ tr, k.input.1.isTick = true → k.before.client.connState = .mqttData) ∧
      paced false tr = true ∧ (∀ k ∈ tr, k.input.2.send = espconnOk) ∧
      w.client.connectInfo.keepalive + 1 < since tick sends tr :=
  ⟨_, _, exec_get sampleHeard_isSome, by decide, by decide, by decide, by decide +kernel⟩

/-- The broker is silent. -/
def sampleUnheard : List (Event × Answers) :=
  sampleConnect ++ (List.replicate 3 [(.timer, sampleAnswers), (.task, sampleAnswers)]).flatten

theorem sampleUnheard_isSome : (exec step sampleSetup.world sampleUnheard).isSome := by decide

theorem silence_le_sampleUnheard :
    ∃ tr w, ClientRun sampleSetup tr w ∧ tr.length = 9 ∧ w.client.connState = .mqttData ∧
      since tick uses tr ≤ w.client.connectInfo.keepalive + 1 := by
  have hrun : ClientRun sampleSetup _ _ := exec_get sampleUnheard_isSome
  exact ⟨_, _, hrun, by decide, by decide, silence_le (by decide) hrun (by decide)⟩

end Mqtt
end EspMisc
