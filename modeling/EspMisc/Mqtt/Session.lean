/-
Sessions.

A session begins with `mqtt_tcpclient_connect_cb` and is accepted by a CONNACK whose
return code is 0.  The client looks at the type of the packet and not at the code,
so it takes any CONNACK for an acceptance.  `session_accepted` says that this is the
only way to a message on a session that was not accepted.
-/
import EspMisc.Mqtt.Link

namespace EspMisc
namespace Mqtt

open Machine

/-- A segment that starts with a CONNACK of return code 0. -/
def acceptsConnection : Bytes → Bool
  | 0x20 :: 0x02 :: _ :: 0x00 :: _ => true
  | _ => false

/-- The last `mqtt_tcpclient_connect_cb` of these steps was for the object `p`. -/
def LastConnected (p : Nat) (tr : List Record) : Prop :=
  ∃ a k b, tr = a ++ k :: b ∧ k.input.1 = .connectCb p ∧
    ∀ k' ∈ b, k'.input.1.isConnected = false

/-- Since the last `mqtt_tcpclient_connect_cb` of these steps an accepting CONNACK has
been received on that connection. -/
def AcceptedSince (tr : List Record) : Prop :=
  ∃ p segment a k b, tr = a ++ k :: b ∧ LastConnected p a ∧
    k.input.1 = .recv p segment ∧ acceptsConnection (received segment) = true ∧
    ∀ k' ∈ b, k'.input.1.isConnected = false

theorem forall_mem_snoc {b : List Record} {k : Record}
    (hb : ∀ k' ∈ b, k'.input.1.isConnected = false) (hk : k.input.1.isConnected = false) :
    ∀ k' ∈ b ++ [k], k'.input.1.isConnected = false :=
  List.forall_mem_append.mpr ⟨hb, List.forall_mem_singleton.mpr hk⟩

theorem LastConnected.snoc {p : Nat} {tr : List Record} (h : LastConnected p tr) {k : Record}
    (hk : k.input.1.isConnected = false) : LastConnected p (tr ++ [k]) := by
  obtain ⟨a, j, b, rfl, hj, hb⟩ := h
  exact ⟨a, j, b ++ [k], by simp, hj, forall_mem_snoc hb hk⟩

theorem AcceptedSince.snoc {tr : List Record} (h : AcceptedSince tr) {k : Record}
    (hk : k.input.1.isConnected = false) : AcceptedSince (tr ++ [k]) := by
  obtain ⟨p, segment, a, j, b, rfl, hp, hj, hacc, hb⟩ := h
  exact ⟨p, segment, a, j, b ++ [k], by simp, hp, hj, hacc, forall_mem_snoc hb hk⟩

theorem LastConnected.accepted {p : Nat} {tr : List Record} (h : LastConnected p tr) {k : Record}
    {segment : Bytes} (hk : k.input.1 = .recv p segment)
    (hacc : acceptsConnection (received segment) = true) : AcceptedSince (tr ++ [k]) :=
  ⟨p, segment, tr, k, [], rfl, h, hk, hacc, fun _ hk => absurd hk List.not_mem_nil⟩

/-- The segment ends the wait for a CONNACK. -/
def endsWait (client : MqttClient) (segment : Bytes) : Prop :=
  client.connState = .mqttConnectSending ∧
    client.mqttState.pendingMsgType = MessageType.connect.code ∧
    (received segment).length < mqttBufSize ∧
    mqttGetType (received segment) = MessageType.connack.code

instance (client : MqttClient) (segment : Bytes) : Decidable (endsWait client segment) :=
  inferInstanceAs (Decidable (_ ∧ _ ∧ _ ∧ _))

/-- A CONNACK that ends the wait for one is an acceptance, and comes on the connection
that was established last. -/
def connackAccepts (w : World) : Event → Bool
  | .recv arg segment =>
    !decide (endsWait w.client segment) ||
      acceptsConnection (received segment) && decide (w.net.connected.head? = some arg)
  | _ => true

/-- The states that only a CONNACK leads to. -/
def Control.InSession (c : Control) : Prop :=
  c.connState = .mqttData ∨ c.connState = .mqttKeepaliveSend

theorem Move.inSession {fresh : Nat} {answers : Answers} {c c' : Control} {e : Event}
    {out : List Effect} (h : Move fresh answers c e out c') (hs : c'.InSession) :
    e.isConnected = false ∧ (c.InSession ∨ ∃ arg segment, e = .recv arg segment) := by
  unfold Control.InSession at hs ⊢
  cases h with
  | @request e he => exact ⟨by cases e <;> first | rfl | simp [Event.isRequest] at he, Or.inl hs⟩
  | disconCb => rcases Control.afterDiscon_cases c.connState with h | h | h <;> simp [h] at hs
  | connectAddress he ha => simp at hs
  | connectHost he ha host => simp at hs
  | _ => simp_all [Event.isConnected]

/-- No call establishes a connection. -/
theorem applyAll_connected (net : Net) (out : List Effect) :
    (net.applyAll out).connected = net.connected := by
  induction out generalizing net with
  | nil => rfl
  | cons e out ih =>
    have happ : (net.apply e).connected = net.connected := by
      cases e with
      | espconnConnect p r => simp only [Net.apply]; split <;> rfl
      | espconnGethostbyname p host r => simp only [Net.apply]; split <;> rfl
      | _ => rfl
    exact (ih (net.apply e)).trans happ

/-- What the history says about the state: whose connection was the last, and whether it
has been accepted. -/
structure Told (w : World) (tr : List Record) : Prop where
  connected : ∀ p, w.net.connected.head? = some p → LastConnected p tr
  session : w.client.control.InSession → AcceptedSince tr

/-- What a step adds to the history keeps it in line with the state. -/
theorem Told.keep {w w' : World} {tr : List Record} {i : Event × Answers} {out : List Effect}
    (hw : Told w tr) (h : step w i = some (w', out)) (hk : connackAccepts w i.1 = true) :
    Told w' (tr ++ [⟨w, i, out, w'⟩]) := by
  obtain ⟨e, answers⟩ := i
  constructor
  · intro p hp
    obtain ⟨-, -, hnet⟩ := step_handle h
    rw [hnet] at hp
    replace hp : (e.fire w.net).connected.head? = some p := (applyAll_connected ..) ▸ hp
    cases e with
    | connectCb arg =>
      obtain rfl := Option.some.inj hp
      exact ⟨tr, _, [], rfl, rfl, fun _ hk => absurd hk List.not_mem_nil⟩
    | _ => exact (hw.connected p hp).snoc rfl
  · intro hs
    obtain ⟨hne, hfrom⟩ := (step_link h).move.inSession hs
    rcases hfrom with hin | ⟨arg, segment, rfl⟩
    · exact (hw.session hin).snoc hne
    · have hrecv := (step_handle h).2.1
      cases (mqttTcpclientRecv_cases hrecv).1 with
      | data st q hc hout =>
        rw [hc] at hs
        exact (hw.session hs).snoc hne
      | connack st hst hpend hlen htype hc hout =>
        have hends : endsWait w.client segment := ⟨hst, hpend, hlen, htype⟩
        simp only [connackAccepts, hends, decide_true, Bool.not_true, Bool.false_or,
          Bool.and_eq_true, decide_eq_true_iff] at hk
        exact (hw.connected arg hk.2).accepted rfl hk.1
      | refused st hst hc hout =>
        rw [hc] at hs
        exact (hw.session hs).snoc hne

/-- `connectedCb` is called by a CONNACK. -/
theorem Move.connected {fresh : Nat} {answers : Answers} {c c' : Control} {e : Event}
    {out : List Effect} (h : Move fresh answers c e out c')
    (hcb : .callback .connected ∈ out) : c'.connState = .mqttData := by
  cases h <;> simp_all [Control.plain, Control.free]

/-- If every CONNACK that ends the wait for one is an acceptance of the last connection,
messages of the queue are sent and `connectedCb` is called on accepted sessions only. -/
theorem session_accepted {u : Setup} {tr : List Record} {w : World} (h : ClientRun u tr w)
    (hok : ∀ k ∈ tr, connackAccepts k.before k.input.1 = true) (a b : List Record)
    (k : Record) (htr : tr = a ++ k :: b) :
    (k.input.1 = .task → k.before.client.connState = .mqttData →
      ∀ p m r, .espconnSend p m r ∈ k.output → AcceptedSince a) ∧
    (.callback .connected ∈ k.output → AcceptedSince (a ++ [k])) := by
  subst htr
  obtain ⟨hrun, hstep⟩ := h.taken a b k rfl
  have htold : Told k.before a := by
    refine hrun.history Told ?_ Told.keep fun k' hk' => hok k' (List.mem_append_left _ hk')
    refine ⟨fun p hp => absurd hp (by simp [Setup.world, Net.start]), fun hs => ?_⟩
    exact nomatch (show ConnState.wifiInit = .mqttData ∨
      ConnState.wifiInit = .mqttKeepaliveSend from hs)
  refine ⟨fun _ hst _ _ _ _ => htold.session (Or.inl hst), fun hcb => ?_⟩
  have hdata := (step_link hstep).move.connected ((mem_calls rfl).mpr hcb)
  refine (htold.keep hstep (hok k ?_)).session (Or.inl hdata)
  exact List.mem_append_right _ List.mem_cons_self

/-- The broker refuses the client, which goes on to publish. -/
def sampleRefused : List (Event × Answers) :=
  [(.connect, sampleAnswers), (.connectCb 0, sampleAnswers),
    (.recv 0 [0x20, 0x02, 0x00, 0x05], sampleAnswers), (.sentCb 0, sampleAnswers),
    (.publish (some sampleName) [0x62] 0 0, sampleAnswers)]

theorem sampleRefused_isSome : (exec step sampleSetup.world sampleRefused).isSome := by decide

def sampleRefusedWorld : World :=
  ((exec step sampleSetup.world sampleRefused).get sampleRefused_isSome).2

theorem sampleRefused_task_isSome : (step sampleRefusedWorld (.task, sampleAnswers)).isSome := by
  decide

/-- A message is sent on a session that the broker refused. -/
theorem session_not_accepted :
    ∃ a k w, ClientRun sampleSetup (a ++ [k]) w ∧ k.input.1 = .task ∧
      k.before.client.connState = .mqttData ∧
      .espconnSend (some 0) [0x30, 0x04, 0x00, 0x01, 0x61, 0x62] espconnOk ∈ k.output ∧
      ¬ AcceptedSince a := by
  have hrun : ClientRun sampleSetup _ sampleRefusedWorld := exec_get sampleRefused_isSome
  refine ⟨_, _, _, hrun.snoc_get sampleRefused_task_isSome, rfl, by decide, by decide +kernel, ?_⟩
  rintro ⟨p, segment, a, k, b, htr, -, hk, hacc, -⟩
  have hmem := input_mem_of_exec sampleRefused_isSome
    (htr ▸ List.mem_append_right _ List.mem_cons_self : k ∈ _)
  -- the only segment of the run is the refusal
  obtain rfl : segment = [0x20, 0x02, 0x00, 0x05] := by
    rw [show k.input = (.recv p segment, k.input.2) from Prod.ext hk rfl] at hmem
    simp only [sampleRefused, List.mem_cons, Prod.mk.injEq, reduceCtorEq, false_and, false_or,
      Event.recv.injEq, List.not_mem_nil, or_false] at hmem
    exact hmem.1.2
  exact absurd hacc (by decide)

/-- On the sample the broker accepts, and then the message is sent. -/
theorem session_accepted_sample :
    ∃ a k w, ClientRun sampleSetup (a ++ [k]) w ∧
      .espconnSend (some 0) [0x30, 0x04, 0x00, 0x01, 0x61, 0x62] espconnOk ∈ k.output ∧
      AcceptedSince a := by
  have hrun : ClientRun sampleSetup _ sampleQueuedWorld := exec_get sampleQueued_isSome
  have hsent : .espconnSend (some 0) [0x30, 0x04, 0x00, 0x01, 0x61, 0x62] espconnOk ∈
      ((step sampleQueuedWorld (.task, sampleAnswers)).get sampleQueued_send_isSome).2 := by
    decide +kernel
  have hsend := hrun.snoc_get sampleQueued_send_isSome
  refine ⟨_, _, _, hsend, hsent,
    (session_accepted hsend ?_ _ [] _ rfl).1 rfl (by decide) _ _ _ hsent⟩
  exact List.forall_mem_append.mpr ⟨by decide, List.forall_mem_singleton.mpr rfl⟩

end Mqtt
end EspMisc
