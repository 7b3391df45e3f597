/-
The pace of the sender.

Every send sets `sendTimeout`, the timer counts it down and the callback of a sent
packet clears it.  The branch of `MQTT_DATA` waits for it, so two sends are apart by
such a callback or by `MQTT_SEND_TIMOUT` ticks; `mqtt_send_keepalive` does not wait.
`paced_iff` says that a run keeps the pace exactly when its keepalives find nothing to
wait for.
-/
import EspMisc.Mqtt.Keepalive

namespace EspMisc
namespace Mqtt

open Machine

/-! ## What a step makes of the timeout -/

def Event.isSent : Event → Bool
  | .sentCb _ => true
  | _ => false

theorem isConnected_of_isSent {e : Event} (h : e.isSent = true) : e.isConnected = false := by
  cases e <;> first | rfl | exact absurd h Bool.false_ne_true

/-- The calls of `espconn_send` in a log. -/
def sendCalls (out : List Effect) : List Effect := out.filter Effect.isSend

theorem sendCalls_append (a b : List Effect) :
    sendCalls (a ++ b) = sendCalls a ++ sendCalls b := List.filter_append ..

/-- A call of `espconn_send` is one of the calls that a move lists. -/
theorem sendCalls_calls (out : List Effect) : sendCalls (calls out) = sendCalls out := by
  unfold sendCalls calls
  rw [List.filter_filter]
  congr 1
  funext e
  cases e <;> simp [Effect.isSend, Effect.isCall]

/-- The steps that send whatever the timeout is. -/
def Unguarded (client : MqttClient) (e : Event) : Prop :=
  e.isConnected = true ∨ e = .task ∧ client.connState = .mqttKeepaliveSend

/-- What a step does to the timeout, and how it sends. -/
inductive Times (client c : MqttClient) (out : List Effect) (e : Event) : Prop
  | send (hout : (sendCalls out).length = 1) (hc : c.sendTimeout = mqttSendTimout)
      (hguard : Unguarded client e ∨ client.sendTimeout = 0)
  | sent (he : e.isSent = true) (hout : sendCalls out = []) (hc : c.sendTimeout = 0)
  | tick (he : e = .timer) (hout : sendCalls out = [])
      (hc : c.sendTimeout = client.sendTimeout - 1)
  | stay (he : e.isTick = false ∧ e.isSent = false) (hguard : ¬ Unguarded client e)
      (hout : sendCalls out = []) (hc : c.sendTimeout = client.sendTimeout)

theorem Times.length_le {client c : MqttClient} {out : List Effect} {e : Event}
    (h : Times client c out e) : (sendCalls out).length ≤ 1 := by
  cases h with
  | send hout _ _ => exact Nat.le_of_eq hout
  | _ => simp_all

/-- A step that has to send sends, and any other one sends with no timeout running. -/
theorem Times.length_pos {client c : MqttClient} {out : List Effect} {e : Event}
    (h : Times client c out e) :
    (Unguarded client e → 0 < (sendCalls out).length) ∧
      (0 < (sendCalls out).length → Unguarded client e ∨ client.sendTimeout = 0) := by
  cases h with
  | send hout _ hguard =>
    rw [hout]
    exact ⟨fun _ => Nat.one_pos, fun _ => hguard⟩
  | stay _ hguard hout _ =>
    rw [hout]
    exact ⟨fun hu => absurd hu hguard, fun hlt => absurd hlt (by simp)⟩
  | sent he hout _ =>
    rw [hout]
    refine ⟨fun hu => ?_, fun hlt => absurd hlt (by simp)⟩
    rcases hu with hu | ⟨rfl, -⟩
    · exact absurd hu (Bool.eq_false_iff.mp (isConnected_of_isSent he))
    · exact absurd he (by simp [Event.isSent])
  | tick he hout _ =>
    rw [hout, he]
    exact ⟨fun hu => by simp [Unguarded, Event.isConnected] at hu, fun hlt => absurd hlt (by simp)⟩

/-- A move of any other event or state sends nothing. -/
theorem Move.sendCalls_eq_nil {fresh : Nat} {answers : Answers} {c c' : Control} {e : Event}
    {out : List Effect} (h : Move fresh answers c e out c') (he : e.isConnected = false)
    (hst : e = .task → c.connState ≠ .mqttData ∧ c.connState ≠ .mqttKeepaliveSend) :
    sendCalls out = [] := by
  have hplain : ∀ x : Effect, x.isSend = false → sendCalls (c.plain x) = [] := by
    intro x hx
    unfold Control.plain sendCalls
    split
    · rfl
    · simp [hx]
  have hfree : sendCalls c.free = [] := by
    unfold Control.free
    cases c.pCon <;> rfl
  cases h with
  | connectAddress _ _ => rw [sendCalls_append, hfree, hplain _ rfl]; rfl
  | connectHost _ _ host => rw [sendCalls_append, hfree]; rfl
  | taskDisconnect _ => exact hplain _ rfl
  | taskFree _ => exact hfree
  | taskDelete _ => exact hfree
  | taskKeepalive hk => exact absurd hk (hst rfl).2
  | taskSend hd => exact absurd hd (hst rfl).1
  | dnsFound _ _ _ => exact hplain _ rfl
  | connectCb m => exact absurd he (by simp [Event.isConnected])
  | recvConnack _ _ hout =>
    refine List.filter_eq_nil_iff.mpr fun x hx => ?_
    rw [hout x hx]
    exact Bool.false_ne_true
  | recvRefused _ => exact hplain _ rfl
  | _ => rfl

theorem length_sendCalls_plain {client : MqttClient} (hsec : client.security = 0) (p : Option Nat)
    (m : Bytes) (r : Int) : (sendCalls (client.plain (.espconnSend p m r))).length = 1 := by
  rw [MqttClient.plain, if_neg (fun hne => hne hsec)]
  rfl

theorem mqttSendKeepalive_times {client : MqttClient} (hsec : client.security = 0)
    (hst : client.connState = .mqttKeepaliveSend) (answers : Answers) :
    Times client (mqttSendKeepalive client answers).1 (mqttSendKeepalive client answers).2
      .task := by
  simp only [mqttSendKeepalive]
  split <;>
  · refine .send ?_ rfl (Or.inl (Or.inr ⟨rfl, hst⟩))
    rw [sendCalls_append, List.length_append]
    exact congrArg (· + 0) (length_sendCalls_plain hsec ..)

theorem sendQueued_times {client : MqttClient} (hsec : client.security = 0)
    (hst : client.connState = .mqttData) (answers : Answers) :
    Times client (sendQueued client answers).1 (sendQueued client answers).2 .task := by
  have hguard : ¬ Unguarded client .task := by
    rintro (h | ⟨-, h⟩)
    · exact absurd h (by simp [Event.isConnected])
    · exact absurd (hst.symm.trans h) (by simp)
  simp only [sendQueued]
  split
  · exact .stay ⟨rfl, rfl⟩ hguard rfl rfl
  · next hskip =>
    split
    · refine .send (length_sendCalls_plain hsec ..) rfl (Or.inr ?_)
      exact Decidable.not_not.mp fun hne => hskip (Or.inr hne)
    · exact .stay ⟨rfl, rfl⟩ hguard rfl rfl

/-- The handlers that do not send leave the timeout alone. -/
theorem handle_sendTimeout {client c : MqttClient} {fresh : Nat} {answers : Answers} {e : Event}
    {out : List Effect} (h : e.handle client fresh answers = some (c, out))
    (he : e.isTick = false ∧ e.isSent = false ∧ e.isConnected = false)
    (hst : e = .task →
      client.connState ≠ .mqttData ∧ client.connState ≠ .mqttKeepaliveSend) :
    c.sendTimeout = client.sendTimeout := by
  have hrequest : Requested client c out → c.sendTimeout = client.sendTimeout := by
    rintro ⟨st, q, rfl, -, -⟩
    rfl
  have hconnect : ConnectCase client fresh answers c out → c.sendTimeout = client.sendTimeout := by
    intro hcase
    cases hcase <;> rfl
  cases e with
  | connect => exact hconnect (mqttConnect_cases h)
  | task =>
    cases mqttTask_cases h with
    | reconnect _ hcase => exact hconnect hcase
    | keepalive hk => exact absurd hk (hst rfl).2
    | data hd => exact absurd hd (hst rfl).1
    | _ => rfl
  | recv arg segment =>
    cases (mqttTcpclientRecv_cases h).1 with
    | data st q hc => rw [hc]; rfl
    | connack st _ _ _ _ hc => rw [hc]
    | refused st _ hc => rw [hc]
  | publish topic data qos retain =>
    obtain ⟨b, hr⟩ := request_returned h
    exact hrequest (mqttPublish_requested hr)
  | subscribe topic qos =>
    obtain ⟨b, hr⟩ := request_returned h
    exact hrequest (mqttSubscribe_requested hr)
  | unSubscribe topic =>
    obtain ⟨b, hr⟩ := request_returned h
    exact hrequest (mqttUnSubscribe_requested hr)
  | ping =>
    obtain ⟨b, hr⟩ := request_returned h
    exact hrequest (mqttPing_requested hr)
  | dnsFound arg ipaddr => cases mqttDnsFound_cases h <;> rfl
  | timer => exact absurd he.1 (by simp [Event.isTick])
  | sentCb => exact absurd he.2.1 (by simp [Event.isSent])
  | connectCb => exact absurd he.2.2 (by simp [Event.isConnected])
  | disconnect | deleteClient | reconCb | disconCb | initLWT | on =>
    obtain ⟨rfl, rfl⟩ := Prod.mk.inj (Option.some.inj h)
    rfl

theorem mqttTimer_sendTimeout (client : MqttClient) :
    (mqttTimer client).1.sendTimeout = client.sendTimeout - 1 := by
  simp only [mqttTimer]
  split
  · split <;> rfl
  · split <;> rfl
  · rfl

/-- A client that wants SSL has no session to send in. -/
theorem handle_times {client c : MqttClient} {fresh : Nat} {answers : Answers} {e : Event}
    {out : List Effect} (h : e.handle client fresh answers = some (c, out))
    (hssl : client.security ≠ 0 → e.isConnected = false ∧
      client.connState ≠ .mqttData ∧ client.connState ≠ .mqttKeepaliveSend) :
    Times client c out e := by
  have hplain : (e.isConnected = true ∨ client.connState = .mqttData ∨
      client.connState = .mqttKeepaliveSend) → client.security = 0 := by
    intro hs
    refine Decidable.not_not.mp fun hne => ?_
    obtain ⟨h1, h2, h3⟩ := hssl hne
    rcases hs with hs | hs | hs
    · exact absurd (hs.symm.trans h1) (by simp)
    · exact h2 hs
    · exact h3 hs
  have hquiet : e.isConnected = false → (e = .task →
      client.connState ≠ .mqttData ∧ client.connState ≠ .mqttKeepaliveSend) →
      sendCalls out = [] := by
    intro he hst
    rw [← sendCalls_calls]
    exact (handle_move h).1.sendCalls_eq_nil he hst
  have hstay : (e.isTick = false ∧ e.isSent = false ∧ e.isConnected = false) → (e = .task →
      client.connState ≠ .mqttData ∧ client.connState ≠ .mqttKeepaliveSend) →
      Times client c out e := by
    intro he hst
    refine .stay ⟨he.1, he.2.1⟩ ?_ (hquiet he.2.2 hst) (handle_sendTimeout h he hst)
    rintro (hc | ⟨ht, hk⟩)
    · exact absurd (hc.symm.trans he.2.2) (by simp)
    · exact (hst ht).2 hk
  cases e with
  | task =>
    by_cases hd : client.connState = .mqttData
    · obtain ⟨rfl, rfl⟩ := Prod.mk.inj (Option.some.inj ((mqttTask_data hd ..).symm.trans h))
      exact sendQueued_times (hplain (Or.inr (Or.inl hd))) hd answers
    · by_cases hk : client.connState = .mqttKeepaliveSend
      · obtain ⟨rfl, rfl⟩ :=
          Prod.mk.inj (Option.some.inj ((mqttTask_keepalive hk ..).symm.trans h))
        exact mqttSendKeepalive_times (hplain (Or.inr (Or.inr hk))) hk answers
      · exact hstay ⟨rfl, rfl, rfl⟩ fun _ => ⟨hd, hk⟩
  | connectCb arg =>
    obtain ⟨rfl, rfl⟩ := Prod.mk.inj (Option.some.inj h)
    refine .send ?_ rfl (Or.inl (Or.inl rfl))
    rw [sendCalls_append, List.length_append]
    exact congrArg (· + 0) (length_sendCalls_plain (hplain (Or.inl rfl)) ..)
  | timer =>
    obtain ⟨rfl, rfl⟩ := Prod.mk.inj (Option.some.inj h)
    exact .tick rfl (hquiet rfl (by simp)) (mqttTimer_sendTimeout client)
  | sentCb arg =>
    obtain ⟨rfl, rfl⟩ := Prod.mk.inj (Option.some.inj h)
    exact .sent rfl (hquiet rfl (by simp)) rfl
  | _ => exact hstay ⟨rfl, rfl, rfl⟩ (by simp)

/-! ## Runs -/

def sent (k : Record) : Bool := k.input.1.isSent

/-- The step begins a TCP connection. -/
def opens (k : Record) : Bool := k.input.1.isConnected

/-- A step sends at most once, and between a send and the next one on the same TCP
connection there is a callback of a sent packet, or there are `MQTT_SEND_TIMOUT` ticks. -/
structure Paced (tr : List Record) : Prop where
  single : ∀ k ∈ tr, (sendCalls k.output).length ≤ 1
  apart : ∀ a k b, tr = a ++ k :: b → sends k = true → opens k = false →
    ∀ between, sinceLast sends a = some between → between.any opens = false →
      between.any sent = true ∨ mqttSendTimout ≤ between.countP tick

/-- The timeout is what is left of the wait since the last send. -/
structure Timed (w : World) (tr : List Record) : Prop where
  offline : w.link.control.security ≠ 0 → Offline w.link
  wait : ∀ between, sinceLast sends tr = some between →
    between.any sent = true ∨ mqttSendTimout ≤ between.countP tick + w.client.sendTimeout
  pending : w.client.sendTimeout ≠ 0 → ∃ between, sinceLast sends tr = some between ∧
    between.any opens = false ∧ between.any sent = false ∧
    between.countP tick + w.client.sendTimeout = mqttSendTimout

theorem Timed.times {w w' : World} {tr : List Record} {i : Event × Answers} {out : List Effect}
    (hw : Timed w tr) (h : step w i = some (w', out)) : Times w.client w'.client out i.1 := by
  obtain ⟨hen, hrun, -⟩ := step_handle h
  refine handle_times hrun fun hsec => ?_
  obtain ⟨hcon, -, hdata, hkeep⟩ := hw.offline hsec
  refine ⟨Bool.eq_false_iff.mpr fun he => ?_, hdata, hkeep⟩
  obtain ⟨arg, he⟩ := Event.eq_connectCb he
  rw [he] at hen
  exact absurd (hcon ▸ of_decide_eq_true hen) List.not_mem_nil

theorem sends_eq (k : Record) : sends k = decide (0 < (sendCalls k.output).length) := by
  rw [Bool.eq_iff_iff, decide_eq_true_iff, sendCalls, List.length_filter_pos_iff]
  exact List.any_eq_true

/-- What a step adds to the steps since the last send. -/
theorem sinceLast_quiet {tr : List Record} {k : Record} (hout : sendCalls k.output = []) :
    sinceLast sends (tr ++ [k]) = (sinceLast sends tr).map (· ++ [k]) := by
  rw [sinceLast_snoc, sends_eq, hout, if_neg (by simp)]

theorem sinceLast_send {tr : List Record} {k : Record}
    (hout : (sendCalls k.output).length = 1) : sinceLast sends (tr ++ [k]) = some [] := by
  rw [sinceLast_snoc, sends_eq, hout, if_pos (by simp)]

theorem Timed.wait_keep {w w' : World} {tr : List Record} {i : Event × Answers}
    {out : List Effect} (hw : Timed w tr) (h : step w i = some (w', out)) (between : List Record)
    (hb : sinceLast sends (tr ++ [⟨w, i, out, w'⟩]) = some between) :
    between.any sent = true ∨
      mqttSendTimout ≤ between.countP tick + w'.client.sendTimeout := by
  cases hw.times h with
  | send hout hc hguard =>
    rw [sinceLast_send hout] at hb
    obtain rfl := Option.some.inj hb
    refine Or.inr ?_
    rw [hc]
    exact Nat.le_add_left ..
  | sent he hout hc =>
    rw [sinceLast_quiet hout] at hb
    obtain ⟨b, -, rfl⟩ := Option.map_eq_some_iff.mp hb
    refine Or.inl ?_
    simp [sent, he]
  | tick he hout hc =>
    rw [sinceLast_quiet hout] at hb
    obtain ⟨b, hbefore, rfl⟩ := Option.map_eq_some_iff.mp hb
    rw [List.any_append, List.countP_append, List.countP_singleton,
      if_pos (by simp [tick, Event.isTick, he]), hc]
    rcases hw.wait b hbefore with hsent | hticks
    · rw [hsent]
      exact Or.inl rfl
    · exact Or.inr (by omega)
  | stay he hguard hout hc =>
    rw [sinceLast_quiet hout] at hb
    obtain ⟨b, hbefore, rfl⟩ := Option.map_eq_some_iff.mp hb
    rw [List.any_append, List.countP_append, hc]
    rcases hw.wait b hbefore with hsent | hticks
    · rw [hsent]
      exact Or.inl rfl
    · exact Or.inr (by omega)

theorem Timed.pending_keep {w w' : World} {tr : List Record} {i : Event × Answers}
    {out : List Effect} (hw : Timed w tr) (h : step w i = some (w', out))
    (hne : w'.client.sendTimeout ≠ 0) :
    ∃ between, sinceLast sends (tr ++ [⟨w, i, out, w'⟩]) = some between ∧
      between.any opens = false ∧ between.any sent = false ∧
      between.countP tick + w'.client.sendTimeout = mqttSendTimout := by
  cases hw.times h with
  | send hout hc hguard =>
    exact ⟨[], sinceLast_send hout, rfl, rfl, by rw [hc]; exact Nat.zero_add _⟩
  | sent he hout hc => exact absurd hc hne
  | tick he hout hc =>
    obtain ⟨b, hb, hopen, hsent, hticks⟩ := hw.pending (by omega)
    refine ⟨_, by rw [sinceLast_quiet hout, hb]; rfl, ?_, ?_, ?_⟩
    · rw [List.any_append, hopen]
      simp [opens, Event.isConnected, he]
    · rw [List.any_append, hsent]
      simp [sent, Event.isSent, he]
    · rw [List.countP_append, List.countP_singleton, if_pos (by simp [tick, Event.isTick, he])]
      omega
  | stay he hguard hout hc =>
    obtain ⟨b, hb, hopen, hsent, hticks⟩ := hw.pending (hc ▸ hne)
    have hno : i.1.isConnected = false :=
      Bool.eq_false_iff.mpr fun hcon => hguard (Or.inl hcon)
    refine ⟨_, by rw [sinceLast_quiet hout, hb]; rfl, ?_, ?_, ?_⟩
    · rw [List.any_append, hopen]
      simp [opens, hno]
    · rw [List.any_append, hsent]
      simp [sent, he.2]
    · rw [List.countP_append, List.countP_singleton, if_neg (by simp [tick, he.1])]
      omega

theorem Timed.keep {w w' : World} {tr : List Record} {i : Event × Answers} {out : List Effect}
    (hw : Timed w tr) (h : step w i = some (w', out)) :
    Timed w' (tr ++ [⟨w, i, out, w'⟩]) :=
  ⟨(step_link h).offline hw.offline, hw.wait_keep h, hw.pending_keep h⟩

theorem ClientRun.timed {u : Setup} {tr : List Record} {w : World} (h : ClientRun u tr w) :
    Timed w tr := by
  have hinit : Timed u.world [] := by
    refine ⟨fun _ => setup_offline u, fun between hb => ?_, fun hne => ?_⟩
    · exact absurd hb (by simp [sinceLast])
    · exact absurd rfl hne
  exact h.always_history Timed hinit Timed.keep

/-- A run keeps the pace exactly when every keepalive is sent with no timeout running. -/
theorem paced_iff {u : Setup} {tr : List Record} {w : World} (h : ClientRun u tr w) :
    Paced tr ↔ ∀ k ∈ tr, k.input.1 = .task → k.before.client.connState = .mqttKeepaliveSend →
      k.before.client.sendTimeout = 0 := by
  constructor
  · intro hpaced k hk htask hst
    obtain ⟨a, b, rfl⟩ := List.append_of_mem hk
    obtain ⟨hrun, hstep⟩ := h.taken a b k rfl
    have htimed := ClientRun.timed hrun
    have hsends : sends k = true := by
      rw [sends_eq, decide_eq_true_iff]
      exact (htimed.times hstep).length_pos.1 (Or.inr ⟨htask, hst⟩)
    refine Decidable.not_not.mp fun hne => ?_
    -- the last send is still waited for when the keepalive is sent
    obtain ⟨between, hb, hopen, hsent, hticks⟩ := htimed.pending hne
    rcases hpaced.apart a k b rfl hsends (by simp [opens, htask, Event.isConnected]) between hb
      hopen with hs | ht
    · exact absurd (hs.symm.trans hsent) (by simp)
    · omega
  · intro hok
    constructor
    · intro k hk
      obtain ⟨a, b, rfl⟩ := List.append_of_mem hk
      obtain ⟨hrun, hstep⟩ := h.taken a b k rfl
      exact ((ClientRun.timed hrun).times hstep).length_le
    · rintro a k b rfl hsends hopens between hb -
      obtain ⟨hrun, hstep⟩ := h.taken a b k rfl
      have htimed := ClientRun.timed hrun
      rw [sends_eq, decide_eq_true_iff] at hsends
      have hzero : k.before.client.sendTimeout = 0 := by
        rcases (htimed.times hstep).length_pos.2 hsends with (hcb | ⟨htask, hst⟩) | hzero
        · exact absurd hopens (by simp [opens, hcb])
        · exact hok k (List.mem_append_right _ List.mem_cons_self) htask hst
        · exact hzero
      have hwait := htimed.wait between hb
      rwa [hzero, Nat.add_zero] at hwait

theorem sampleUnheard_sends : (exec step sampleSetup.world sampleUnheard.dropLast).isSome := by
  decide

def sampleUnheardWorld : World :=
  ((exec step sampleSetup.world sampleUnheard.dropLast).get sampleUnheard_sends).2

theorem sampleUnheard_task_isSome :
    (step sampleUnheardWorld (.task, sampleAnswers)).isSome := by decide

/-- A PINGREQ follows the CONNECT after three ticks, without a callback. -/
theorem keepalive_not_paced : ∃ tr w, ClientRun sampleSetup tr w ∧ ¬ Paced tr := by
  have hrun : ClientRun sampleSetup _ sampleUnheardWorld := exec_get sampleUnheard_sends
  refine ⟨_, _, hrun.snoc_get sampleUnheard_task_isSome, fun hpaced => ?_⟩
  have hlast : ((sinceLast sends ((exec step sampleSetup.world sampleUnheard.dropLast).get
      sampleUnheard_sends).1).map fun b => (b.any opens, b.any sent, b.countP tick)) =
        some (false, false, 3) := by
    decide +kernel
  obtain ⟨between, hb, hcount⟩ := Option.map_eq_some_iff.mp hlast
  obtain ⟨hopen, hcount⟩ := Prod.mk.inj hcount
  obtain ⟨hsent, hticks⟩ := Prod.mk.inj hcount
  rcases hpaced.apart _ _ [] rfl (by decide +kernel) rfl between hb hopen with hs | ht
  · exact absurd (hs.symm.trans hsent) (by decide)
  · exact absurd (hticks ▸ ht) (by decide)

/-- On the sample the message waits for the callback of the CONNECT. -/
theorem paced_iff_sample :
    ∃ tr w, ClientRun sampleSetup tr w ∧ tr.countP sends = 2 ∧ Paced tr := by
  have hrun : ClientRun sampleSetup _ sampleQueuedWorld := exec_get sampleQueued_isSome
  have hsend := hrun.snoc_get sampleQueued_send_isSome
  have hnone : ∀ k ∈ ((exec step sampleSetup.world sampleQueued).get sampleQueued_isSome).1,
      k.before.client.connState ≠ .mqttKeepaliveSend := by
    decide
  refine ⟨_, _, hsend, by decide +kernel, (paced_iff hsend).mpr ?_⟩
  refine List.forall_mem_append.mpr ⟨fun k hk _ hst => absurd hst (hnone k hk), ?_⟩
  exact List.forall_mem_singleton.mpr fun _ hst => absurd hst (by decide)

end Mqtt
end EspMisc
