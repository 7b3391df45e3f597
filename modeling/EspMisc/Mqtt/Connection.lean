/-
The connection object of a client.

Two results about runs.  A client that is connecting waits for a callback that comes,
exactly when the SDK takes up what it is asked for wherever nothing else is outstanding
(`connecting_waits_iff`).  The calls on a connection object are on one that exists, if
the application stops only clients that have one (`calls_live`).
-/
import EspMisc.Mqtt.Link

namespace EspMisc
namespace Mqtt

open Machine

/-! ## Waiting -/

/-- The callback of a connect or of a query is to come, for whatever object. -/
def Net.Outstanding (net : Net) : Prop := net.connecting ≠ [] ∨ net.resolving ≠ []

instance (net : Net) : Decidable net.Outstanding := inferInstanceAs (Decidable (_ ∨ _))

/-- A client that is connecting has a callback to wait for. -/
def Pending (l : Link) : Prop := l.control.connState = .tcpConnecting → l.net.Outstanding

/-- The SDK takes up what `MQTT_Connect` asks it for. -/
def Control.dialled (c : Control) (answers : Answers) : Bool :=
  if c.addressed then decide (answers.connect = espconnOk)
  else decide (answers.lookup = .inprogress)

/-- The SDK takes up what the step asks it for, or something is outstanding besides.  An
answer without a usable address comes only to a client that does not wait for it. -/
def takenUp (l : Link) (answers : Answers) : Event → Bool
  | .connect => l.control.dialled answers || decide l.net.Outstanding
  | .task =>
    l.control.connState != .tcpReconnect || l.control.dialled answers ||
      decide l.net.Outstanding
  | .dnsFound arg (some addr) =>
    (if l.control.ip = 0 ∧ addr ≠ 0 then decide (answers.connect = espconnOk)
      else l.control.connState != .tcpConnecting) ||
      decide ((Event.dnsFound arg (some addr)).fire l.net).Outstanding
  | _ => true

theorem takenUp_connects {l : Link} {e : Event} (he : l.control.Connects e) (answers : Answers) :
    takenUp l answers e = (l.control.dialled answers || decide l.net.Outstanding) := by
  rcases he with rfl | ⟨rfl, hst⟩
  · rfl
  · simp [takenUp, hst]

theorem takenUp_task {l : Link} (hst : l.control.connState ≠ .tcpReconnect) (answers : Answers) :
    takenUp l answers .task = true := by
  simp [takenUp, hst]

theorem takenUp_request {e : Event} (he : e.isRequest = true) (l : Link) (answers : Answers) :
    takenUp l answers e = true := by
  cases e <;> first | rfl | exact absurd he (by simp [Event.isRequest])

/-- A connect that is accepted is outstanding, and a refused one changes nothing. -/
theorem outstanding_connect (net : Net) (p : Nat) (r : Int) :
    (net.applyAll [.espconnConnect (some p) r]).Outstanding ↔
      r = espconnOk ∨ net.Outstanding := by
  simp only [Net.applyAll, List.foldl_cons, List.foldl_nil, Net.apply, Option.toList_some]
  split
  · next h => exact iff_of_true (Or.inl (List.cons_ne_nil _ _)) (Or.inl h)
  · next h => exact (or_iff_right h).symm

theorem outstanding_lookup (net : Net) (p : Nat) (host : Bytes) (r : Lookup) :
    (net.applyAll [.espconnGethostbyname p host r]).Outstanding ↔
      r = .inprogress ∨ net.Outstanding := by
  simp only [Net.applyAll, List.foldl_cons, List.foldl_nil, Net.apply]
  split
  · next h => exact iff_of_true (Or.inr (List.cons_ne_nil _ _)) (Or.inl h)
  · next h => exact (or_iff_right h).symm

/-- A step that starts with a client that waits for a callback leaves one exactly when
the SDK takes up what the step asks it for, or there is another. -/
theorem pending_step_iff {answers : Answers} {l l' : Link} {e : Event} {out : List Effect}
    (hsec : l.control.security = 0) (hp : Pending l) (h : LinkStep answers l e out l') :
    Pending l' ↔ takenUp l answers e = true := by
  obtain ⟨c, net⟩ := l
  obtain ⟨c', net'⟩ := l'
  obtain ⟨hpos, hmove, hnet⟩ := h
  simp only at hmove hnet hsec hp
  subst hnet
  have hother : ∀ {l' : Link}, l'.control.connState ≠ .tcpConnecting →
      takenUp ⟨c, net⟩ answers e = true → (Pending l' ↔ takenUp ⟨c, net⟩ answers e = true) :=
    fun hne ht => iff_of_true (fun hst => absurd hst hne) ht
  -- the state is `tcpConnecting`, so only what is outstanding counts
  have hwaits : ∀ {c' : Control} {net' : Net}, c'.connState = .tcpConnecting →
      (Pending ⟨c', { net' with fresh := net.fresh + 1 }⟩ ↔ net'.Outstanding) :=
    fun hst => ⟨fun h => h hst, fun h _ => h⟩
  cases hmove with
  | request he =>
    rw [fire_request he]
    exact iff_of_true hp (takenUp_request he _ answers)
  | connectAddress he ha =>
    rw [takenUp_connects he, fire_connects he, applyAll_append, applyAll_free,
      Control.plain_eq hsec, hwaits rfl, outstanding_connect, Bool.or_eq_true, decide_eq_true_iff]
    exact or_congr_left (by simp [Control.dialled, ha])
  | connectHost he ha host =>
    rw [takenUp_connects he, fire_connects he, applyAll_append, applyAll_free, hwaits rfl,
      outstanding_lookup, Bool.or_eq_true, decide_eq_true_iff]
    exact or_congr_left (by simp [Control.dialled, ha])
  | dnsFound hip haddr hsome =>
    obtain ⟨p, hpc⟩ := Option.ne_none_iff_exists'.mp hsome
    rw [takenUp, if_pos ⟨hip, haddr⟩, Control.plain_eq hsec, hpc, hwaits rfl,
      outstanding_connect, Bool.or_eq_true, decide_eq_true_iff, decide_eq_true_iff]
  | dnsIgnored hno =>
    rw [takenUp, if_neg hno, Bool.or_eq_true, decide_eq_true_iff, bne_iff_ne, ← imp_iff_not_or]
    rfl
  | taskIdle hst => exact iff_of_true hp (takenUp_task hst answers)
  | timerIdle => exact iff_of_true hp rfl
  | recvData => exact iff_of_true hp rfl
  | taskDisconnect hst =>
    have hne : c.connState ≠ .tcpConnecting ∧ c.connState ≠ .tcpReconnect := by
      rcases hst with hst | hst | hst <;> simp [hst]
    exact hother hne.1 (takenUp_task hne.2 answers)
  | taskKeepalive hst m st hnext =>
    refine hother ?_ (takenUp_task (by simp [hst]) answers)
    rcases hnext with rfl | rfl <;> simp
  | taskFree hst => exact hother (by simp [hst]) (takenUp_task (by simp [hst]) answers)
  | taskDelete hst => exact hother (by simp [hst]) (takenUp_task (by simp [hst]) answers)
  | taskSend hst m => exact hother (by simp [hst]) (takenUp_task (by simp [hst]) answers)
  | recvRefused hst => exact hother (by simp [hst]) rfl
  | disconCb =>
    refine hother ?_ rfl
    rcases Control.afterDiscon_cases c.connState with hst | hst | hst <;> simp [hst]
  | _ => exact hother (by simp) rfl

/-- A run of the task or a tick of the timer leaves the state. -/
def LeavesConnecting (w : World) : Prop :=
  ∃ e answers w' out, (e = .task ∨ e = .timer) ∧ step w (e, answers) = some (w', out) ∧
    w'.client.connState ≠ .tcpConnecting

/-- A client that is connecting has a callback to wait for, or does something about it
itself. -/
def Waits (w : World) : Prop :=
  w.client.connState = .tcpConnecting →
    w.net.connecting ≠ [] ∨ w.net.resolving ≠ [] ∨ LeavesConnecting w

/-- Neither the task nor the timer does anything for a client that is connecting. -/
theorem Move.connecting {fresh : Nat} {answers : Answers} {c c' : Control} {e : Event}
    {out : List Effect} (h : Move fresh answers c e out c') (he : e = .task ∨ e = .timer)
    (hst : c.connState = .tcpConnecting) : c'.connState = .tcpConnecting := by
  rcases he with rfl | rfl <;> cases h <;> simp_all [Control.Connects, Event.isRequest]

theorem not_leavesConnecting {w : World} (hst : w.client.connState = .tcpConnecting) :
    ¬ LeavesConnecting w := by
  rintro ⟨e, answers, w', out, he, hstep, hne⟩
  exact hne ((step_link hstep).move.connecting he hst)

theorem waits_iff (w : World) : Waits w ↔ Pending w.link := by
  constructor
  · intro h hst
    rcases h hst with h | h | h
    · exact Or.inl h
    · exact Or.inr h
    · exact absurd h (not_leavesConnecting hst)
  · intro h hst
    exact (h hst).imp_right Or.inl

/-- A client that looks its broker up, is told to connect again when no more lookups are
taken, and is answered for the object that it freed. -/
def sampleLookup : List (Event × Answers) :=
  [(.connect, sampleAnswers), (.connect, { sampleAnswers with lookup := .error }),
    (.dnsFound 0 (some 1), sampleAnswers), (.connectCb 1, sampleAnswers)]

theorem sampleLookup_isSome : (exec step namedSetup.world sampleLookup).isSome := by decide

/-- The resolver knows the name already, so it calls nobody back. -/
def resolvedAnswers : Answers := { sampleAnswers with lookup := .ok 1 }

theorem namedSetup_connect_isSome :
    (step namedSetup.world (.connect, resolvedAnswers)).isSome := by decide

/-- The call is on a connection object that exists. -/
def LiveCall (freed : List Nat) : Effect → Prop
  | .espconnSend p _ _ => ∃ id, p = some id ∧ id ∉ freed
  | .espconnDisconnect p => ∃ id, p = some id ∧ id ∉ freed
  | .espconnConnect p _ => ∃ id, p = some id ∧ id ∉ freed
  | _ => True

/-- A client without SSL that has no connection object is in a state that asks for
none. -/
structure Attached (l : Link) : Prop where
  coherent : Coherent l
  state : l.control.security = 0 → l.control.pCon = none →
    l.control.connState = .wifiInit ∨ l.control.connState = .tcpDisconnected ∨
      l.control.connState = .mqttDeleted

/-- If the event is a callback, it is for the client's own connection object. -/
def Event.ofLive (c : Control) (e : Event) : Bool :=
  e.object.all fun arg => decide (c.pCon = some arg)

/-- The client is told to stop only while it has a connection object. -/
def stopsAttached (c : Control) (e : Event) : Bool :=
  !e.isStop || c.security != 0 || c.pCon.isSome

theorem Attached.exists {c : Control} {net : Net} (h : Attached ⟨c, net⟩)
    (hsec : c.security = 0) (hst : c.connState ≠ .wifiInit ∧ c.connState ≠ .tcpDisconnected ∧
      c.connState ≠ .mqttDeleted) : c.pCon ≠ none := by
  intro hp
  rcases h.state hsec hp with h | h | h
  · exact hst.1 h
  · exact hst.2.1 h
  · exact hst.2.2 h

theorem stopsAttached_exists {c : Control} {e : Event} (h : stopsAttached c e = true)
    (he : e.isStop = true) (hsec : c.security = 0) : c.pCon ≠ none := by
  intro hp
  simp [stopsAttached, he, hsec, hp] at h

theorem ofLive_exists {c : Control} {arg : Nat} (h : decide (c.pCon = some arg) = true) :
    c.pCon ≠ none := by
  simp [of_decide_eq_true h]

theorem liveCall_free (c : Control) (freed : List Nat) : ∀ x ∈ c.free, LiveCall freed x := by
  intro x hx
  unfold Control.free at hx
  cases hp : c.pCon with
  | none => simp [hp] at hx
  | some p =>
    rw [hp] at hx
    rw [List.mem_singleton.mp hx]
    exact trivial

/-- A call on the client's object is on an object that exists. -/
theorem liveCall_plain {c c' : Control} {net' : Net} (h' : Coherent ⟨c', net'⟩)
    (hp : c'.pCon = c.pCon) (hsome : c.security = 0 → c.pCon ≠ none) {y : Effect}
    (hy : (∃ id, c.pCon = some id ∧ id ∉ net'.freed) → LiveCall net'.freed y) :
    ∀ x ∈ c.plain y, LiveCall net'.freed x := by
  intro x hx
  obtain ⟨hsec, rfl⟩ := Control.mem_plain.mp hx
  obtain ⟨id, hid⟩ := Option.ne_none_iff_exists'.mp (hsome hsec)
  exact hy ⟨id, hid, (h'.live id (hp.trans hid)).2⟩

theorem Attached.keep {answers : Answers} {l l' : Link} {e : Event} {out : List Effect}
    (hl : Attached l) (h : LinkStep answers l e out l') (hlive : e.ofLive l.control = true)
    (hk : stopsAttached l.control e = true) :
    Attached l' ∧ ∀ x ∈ out, LiveCall l'.net.freed x := by
  have hcoh := hl.coherent.keep h
  obtain ⟨c, net⟩ := l
  obtain ⟨c', net'⟩ := l'
  obtain ⟨hpos, hmove, -⟩ := h
  simp only at hmove hlive hk
  have hnone : ∀ x ∈ ([] : List Effect), LiveCall net'.freed x :=
    fun _ hx => absurd hx List.not_mem_nil
  -- a client with a connection object may be in any state
  have hsome : (c'.security = 0 → c'.pCon ≠ none) → Attached ⟨c', net'⟩ :=
    fun hp => ⟨hcoh, fun hsec hn => absurd hn (hp hsec)⟩
  cases hmove with
  | request _ => exact ⟨⟨hcoh, hl.state⟩, hnone⟩
  | taskIdle _ => exact ⟨⟨hcoh, hl.state⟩, hnone⟩
  | timerIdle => exact ⟨⟨hcoh, hl.state⟩, hnone⟩
  | dnsIgnored _ => exact ⟨⟨hcoh, hl.state⟩, hnone⟩
  | recvData => exact ⟨⟨hcoh, hl.state⟩, hnone⟩
  | disconnect => exact ⟨hsome (stopsAttached_exists hk rfl), hnone⟩
  | deleteClient => exact ⟨hsome (stopsAttached_exists hk rfl), hnone⟩
  | connectAddress he ha =>
    refine ⟨hsome fun _ => by simp, List.forall_mem_append.mpr ⟨liveCall_free c _, ?_⟩⟩
    intro x hx
    rw [(Control.mem_plain.mp hx).2]
    exact ⟨net.fresh, rfl, (hcoh.live _ rfl).2⟩
  | connectHost he ha host =>
    refine ⟨hsome fun _ => by simp, List.forall_mem_append.mpr ⟨liveCall_free c _, ?_⟩⟩
    exact List.forall_mem_singleton.mpr trivial
  | taskDisconnect hst =>
    have hp : c.security = 0 → c.pCon ≠ none := fun hsec =>
      hl.exists hsec (by rcases hst with hst | hst | hst <;> simp [hst])
    exact ⟨hsome hp, liveCall_plain hcoh rfl hp id⟩
  | taskFree hst => exact ⟨⟨hcoh, fun _ _ => Or.inr (Or.inl hst)⟩, liveCall_free c _⟩
  | taskDelete hst => exact ⟨⟨hcoh, fun _ _ => Or.inr (Or.inr hst)⟩, liveCall_free c _⟩
  | taskKeepalive hst m st hnext =>
    have hp : c.security = 0 → c.pCon ≠ none := fun hsec => hl.exists hsec (by simp [hst])
    exact ⟨hsome hp, liveCall_plain hcoh rfl hp id⟩
  | taskSend hst m =>
    have hp : c.security = 0 → c.pCon ≠ none := fun hsec => hl.exists hsec (by simp [hst])
    exact ⟨hsome hp, liveCall_plain hcoh rfl hp id⟩
  | timerKeepalive hst => exact ⟨hsome fun hsec => hl.exists hsec (by simp [hst]), hnone⟩
  | timerReconnect hst => exact ⟨hsome fun hsec => hl.exists hsec (by simp [hst]), hnone⟩
  | dnsFailed => exact ⟨hsome fun _ => ofLive_exists hlive, hnone⟩
  | dnsFound hip haddr hp =>
    exact ⟨hsome fun _ => hp, liveCall_plain hcoh rfl (fun _ => hp) id⟩
  | connectCb m =>
    have hp := ofLive_exists hlive
    exact ⟨hsome fun _ => hp, liveCall_plain hcoh rfl (fun _ => hp) id⟩
  | recvConnack hst htype hout =>
    refine ⟨hsome fun _ => ofLive_exists hlive, fun x hx => ?_⟩
    rw [hout x hx]
    exact trivial
  | recvRefused hst =>
    have hp := ofLive_exists hlive
    exact ⟨hsome fun _ => hp, liveCall_plain hcoh rfl (fun _ => hp) id⟩
  | reconCb => exact ⟨hsome fun _ => ofLive_exists hlive, hnone⟩
  | disconCb => exact ⟨hsome fun _ => ofLive_exists hlive, hnone⟩

/-- If the callbacks that come are those of the live connection, and the client is told to
stop only while it has a connection object, every call on such an object is made with
one that exists and has not been freed. -/
theorem calls_live {u : Setup} {tr : List Record} {w : World} (h : ClientRun u tr w)
    (hlive : ∀ k ∈ tr, k.input.1.ofLive k.before.client.control = true)
    (hok : ∀ k ∈ tr, stopsAttached k.before.client.control k.input.1 = true) :
    ∀ k ∈ tr, ∀ x ∈ k.output, LiveCall k.after.net.freed x := by
  intro k hk x hx
  obtain ⟨tr', hrun, hsub, hstep⟩ := h.taken_of_mem hk
  have hbefore : Attached k.before.link := by
    have hboth : ∀ k' ∈ tr', k'.input.1.ofLive k'.before.client.control = true ∧
        stopsAttached k'.before.client.control k'.input.1 = true :=
      fun k' hk' => ⟨hlive k' (hsub k' hk'), hok k' (hsub k' hk')⟩
    refine hrun.invariant (fun w => Attached w.link)
      ⟨setup_coherent u, fun _ _ => Or.inl rfl⟩ ?_ hboth
    intro s i t out hs hstep hk
    exact (hs.keep (step_link hstep) hk.1 hk.2).1
  by_cases hcall : x.isCall = true
  · exact (hbefore.keep (step_link hstep) (hlive k hk) (hok k hk)).2 x ((mem_calls hcall).mpr hx)
  · cases x with
    | espconnSend _ _ _ => exact absurd rfl hcall
    | espconnDisconnect _ => exact absurd rfl hcall
    | espconnConnect _ _ => exact absurd rfl hcall
    | _ => exact trivial

/-- The client connects, is told to stop, and frees its object. -/
def sampleStop : List (Event × Answers) :=
  sampleConnect ++ [(.disconnect, sampleAnswers), (.task, sampleAnswers),
    (.disconCb 0, sampleAnswers), (.task, sampleAnswers)]

theorem sampleStop_isSome : (exec step sampleSetup.world sampleStop).isSome := by decide

theorem calls_live_sampleStop :
    ∃ tr w, ClientRun sampleSetup tr w ∧ (∃ k ∈ tr, .espconnDisconnect (some 0) ∈ k.output) ∧
      ∀ k ∈ tr, ∀ x ∈ k.output, LiveCall k.after.net.freed x := by
  have hrun : ClientRun sampleSetup _ _ := exec_get sampleStop_isSome
  exact ⟨_, _, hrun, by decide +kernel, calls_live hrun (by decide) (by decide)⟩

theorem sampleStopTwice_isSome :
    (exec step sampleSetup.world
      (sampleStop ++ [(.disconnect, sampleAnswers), (.task, sampleAnswers)])).isSome := by decide

/-- The client is told to stop once more, and disconnects NULL. -/
theorem calls_not_live :
    ∃ tr w, ClientRun sampleSetup tr w ∧ ∃ k ∈ tr, .espconnDisconnect none ∈ k.output :=
  ⟨_, _, exec_get sampleStopTwice_isSome, by decide +kernel⟩

end Mqtt
end EspMisc
