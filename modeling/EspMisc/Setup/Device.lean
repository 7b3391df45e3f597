/-
The monitor of `setup/setup_event.c` with the client of `mqtt_setup/app.c`.

Whenever the station gets an address the monitor looks up the broker, and the answer
initialises the static client and connects it.  Nothing looks at what the client was
doing before.  An initialised client reconnects by itself and is never stopped, so its
timer stays armed, and `reinit_safe_iff` says that the client is cleared under its own
connection exactly when a run answers a second lookup.

A device is the monitor, the client with what the SDK keeps for it, and the number of
lookups without an answer.  A connection object that the client let go without deleting
it is an orphan: it still names the client, and its callbacks still come.
-/
import EspMisc.Mqtt.Link
import EspMisc.Setup.Wifi

namespace EspMisc
namespace Setup

open Machine
open Mqtt (Bytes CString MqttClient Answers Lookup Net World)

/-! ## The address as text -/

/-- The loop that fills `inv`, which has room for `room` digits. -/
def inv : Nat → Nat → Bytes
  | 0, _ => []
  | room + 1, ap => UInt8.ofNat (48 + ap % 10) :: if ap / 10 = 0 then [] else inv room (ap / 10)

/-- The digits of the `n`-th byte, and a dot. -/
def octet (addr : UInt32) (n : Nat) : Bytes := (inv 3 (addr.toNat / 256 ^ n % 256)).reverse ++ [46]

def octets (addr : UInt32) : Bytes := (List.range 4).flatMap (octet addr)

theorem inv_spec (room ap : Nat) : 0 ∉ inv room ap ∧ (inv room ap).length ≤ room := by
  induction room generalizing ap with
  | zero => exact ⟨List.not_mem_nil, le_rfl⟩
  | succ room ih =>
    have hdigit : (0 : UInt8) ≠ UInt8.ofNat (48 + ap % 10) := by
      intro h
      have hnat := congrArg UInt8.toNat h
      rw [UInt8.toNat_ofNat'] at hnat
      change 0 = _ at hnat
      omega
    unfold inv
    split
    · exact ⟨List.not_mem_cons_of_ne_of_not_mem hdigit List.not_mem_nil,
        Nat.succ_le_succ (Nat.zero_le _)⟩
    · obtain ⟨hnul, hlen⟩ := ih (ap / 10)
      exact ⟨List.not_mem_cons_of_ne_of_not_mem hdigit hnul, Nat.succ_le_succ hlen⟩

theorem octet_spec (addr : UInt32) (n : Nat) : 0 ∉ octet addr n ∧ (octet addr n).length ≤ 4 := by
  obtain ⟨hnul, hlen⟩ := inv_spec 3 (addr.toNat / 256 ^ n % 256)
  unfold octet
  constructor
  · simpa using hnul
  · rw [List.length_append, List.length_reverse]
    exact Nat.succ_le_succ hlen

theorem octets_spec (addr : UInt32) : 0 ∉ octets addr ∧ (octets addr).length ≤ 16 := by
  constructor
  · intro h
    obtain ⟨n, -, hn⟩ := List.mem_flatMap.mp h
    exact (octet_spec addr n).1 hn
  · have h0 := (octet_spec addr 0).2
    have h1 := (octet_spec addr 1).2
    have h2 := (octet_spec addr 2).2
    have h3 := (octet_spec addr 3).2
    rw [show octets addr = octet addr 0 ++ (octet addr 1 ++ (octet addr 2 ++ (octet addr 3 ++ [])))
      from rfl]
    simp only [List.length_append, List.length_nil]
    omega

/-- The last dot is overwritten by the NUL. -/
def ipaddrNtoaR (addr : UInt32) (buflen : Nat) : Option CString :=
  if buflen < (octets addr).length then none
  else some
    { bytes := (octets addr).dropLast
      noNul := fun h => (octets_spec addr).1 (List.dropLast_subset _ h)
      short := by
        have hlen := (octets_spec addr).2
        rw [List.length_dropLast]
        omega }

theorem ipaddrNtoaR_isSome (addr : UInt32) : (ipaddrNtoaR addr 17).isSome = true := by
  have hlen := (octets_spec addr).2
  unfold ipaddrNtoaR
  rw [if_neg (by omega)]
  rfl

/-! ## The client of the application -/

/-- What the build and the chip's address decide.  The topics are those of
`SETUP_INC_TEST_TOPICS`, to publish to and to subscribe to. -/
structure AppConfig where
  clientId : CString
  user : Option CString
  pass : Option CString
  testTopics : Option (CString × CString)

def MQTT_KEEPALIVE : UInt32 := 20

theorem lwtTopic_ok : (0 : UInt8) ∉ [47, 108, 119, 116] ∧ [47, 108, 119, 116].length < 2 ^ 30 := by
  decide

theorem lwtMessage_ok : (0 : UInt8) ∉ [111, 102, 102, 108, 105, 110, 101, 45, 49, 50, 51, 53] ∧
    [111, 102, 102, 108, 105, 110, 101, 45, 49, 50, 51, 53].length < 2 ^ 30 := by decide

/-- `/lwt`. -/
def lwtTopic : CString := ⟨[47, 108, 119, 116], lwtTopic_ok.1, lwtTopic_ok.2⟩

/-- `offline-1235`. -/
def lwtMessage : CString :=
  ⟨[111, 102, 102, 108, 105, 110, 101, 45, 49, 50, 51, 53], lwtMessage_ok.1, lwtMessage_ok.2⟩

def mqttAttachTestCbs (client : MqttClient) : MqttClient :=
  Mqtt.mqttOn (Mqtt.mqttOn client .connected true) .data true

def mqttAppInit (cfg : AppConfig) (mqttHostIp : CString) : MqttClient :=
  let client := Mqtt.mqttInitConnection mqttHostIp 0
  let client := Mqtt.mqttInitClient client cfg.clientId cfg.user cfg.pass MQTT_KEEPALIVE 1
  let client := Mqtt.mqttInitLWT client lwtTopic lwtMessage 0 0
  let client := if cfg.testTopics.isSome then mqttAttachTestCbs client else client
  Mqtt.mqttOn (Mqtt.mqttOn (Mqtt.mqttOn client .disconnected true) .published true) .timeout true

def mqttSetconn (state : UInt8) (client : MqttClient) (fresh : Nat) (answers : Answers) :
    Option (MqttClient × List Mqtt.Effect) :=
  if state = 1 then Mqtt.mqttConnect client fresh answers else some (client, [])

/-- A static variable before anything is stored in it. -/
def clearedClient : MqttClient where
  pCon := none
  security := 0
  host := none
  ip := 0
  mqttState :=
    { inBuffer := [], inBufferLength := 0, outBufferLength := 0, messageLength := 0,
      messageLengthRead := 0, mqttConnection := Mqtt.mqttMsgInit [] 0, pendingMsgId := 0,
      pendingMsgType := 0 }
  connectInfo :=
    { clientId := none, username := none, password := none, willTopic := none,
      willMessage := none, keepalive := 0, willQos := 0, willRetain := 0, cleanSession := 0 }
  callbacks := fun _ => false
  mqttTimer := false
  keepAliveTick := 0
  reconnectTick := 0
  sendTimeout := 0
  connState := .wifiInit
  msgQueue := ⟨⟨[], 0, 0, 0, 0⟩⟩

/-- Something on the heap is reached through the client. -/
def Owns (client : MqttClient) : Prop :=
  client.pCon ≠ none ∨ client.host ≠ none ∨ client.connectInfo.clientId ≠ none ∨
    client.connectInfo.username ≠ none ∨ client.connectInfo.password ≠ none ∨
    client.connectInfo.willTopic ≠ none ∨ client.connectInfo.willMessage ≠ none ∨
    client.mqttState.inBuffer ≠ [] ∨ client.mqttState.mqttConnection.buffer ≠ [] ∨
    client.msgQueue.rb.buf ≠ []

/-! ## The device -/

structure Device where
  monitor : Monitor
  world : World
  /-- Lookups of `netutil_nslookup` whose callback has not come. -/
  lookups : Nat
  /-- `mqtt_app_init` has attached `setup_mqtt` and registered the task. -/
  started : Bool
  orphans : List Nat

inductive DeviceEvent
  | wifi (e : WifiEvent) (now : UInt32) (lookup : Lookup)
  | timer (ts : UInt32) (gotIp : Bool)
  | nslookup (ip : Option UInt32) (answers : Answers)
  | pubTemp (msg : Bytes) (answers : Answers)
  | mqtt (e : Mqtt.Event) (answers : Answers)
  | orphan (e : Mqtt.Event) (answers : Answers)

inductive DeviceEffect
  | setup (e : Effect)
  | mqttInitConnection (host : CString)
  | mqtt (e : Mqtt.Effect)

/-- The events of a client that the SDK makes by itself.  The application of this file
connects and never disconnects. -/
def ofSdk : Mqtt.Event → Bool
  | .task | .timer => true
  | e => e.object.isSome

/-- The object that a client had, when it has it no longer and no call deleted it. -/
def dropped (client client' : MqttClient) (out : List Mqtt.Effect) : List Nat :=
  client.pCon.toList.filter fun pCon =>
    decide (client'.pCon ≠ some pCon ∧ .espconnDelete pCon ∉ out)

/-- `mqttConnectedTestCb`, if the client called it. -/
def mqttConnectedTestCb (cfg : AppConfig) (out : List Mqtt.Effect) (d : Device)
    (answers : Answers) : Option (Device × List Mqtt.Effect) :=
  if .callback .connected ∈ out then
    (Mqtt.mqttSubscribe d.world.client (cfg.testTopics.map Prod.snd) 1 answers).map fun r =>
      ({ d with
          world := { d.world with client := r.1 }
          monitor := if r.2.2 then setupApiUpdateConnState 3 d.monitor else d.monitor }, r.2.1)
  else some (d, [])

/-- The client handles an event, which leaves `net` of what the SDK keeps. -/
def deliver (cfg : AppConfig) (e : Mqtt.Event) (net : Net) (d : Device) (answers : Answers) :
    Option (Device × List DeviceEffect) :=
  (e.handle d.world.client d.world.net.fresh answers).bind fun r =>
    let handled : Device :=
      { d with
        world :=
          { client := r.1
            net := { net.applyAll r.2 with fresh := d.world.net.fresh + 1 } }
        orphans := dropped d.world.client r.1 r.2 ++ d.orphans }
    (mqttConnectedTestCb cfg r.2 handled answers).map fun c => (c.1, (r.2 ++ c.2).map .mqtt)

/-- `nslookup_cb` of `setup_event.c`. -/
def nslookupCb (cfg : AppConfig) (ip : Option UInt32) (d : Device) (answers : Answers) :
    Option (Device × List DeviceEffect) :=
  match ip.bind (ipaddrNtoaR · 17) with
  | none => some (d, [])
  | some ipstr =>
    (mqttSetconn 1 (mqttAppInit cfg ipstr) d.world.net.fresh answers).map fun r =>
      ({ d with
          world :=
            { client := r.1
              net := { d.world.net.applyAll r.2 with fresh := d.world.net.fresh + 1 } }
          started := true
          orphans := dropped d.world.client r.1 r.2 ++ d.orphans },
        .mqttInitConnection ipstr :: r.2.map .mqtt)

/-- A lookup that is answered from the cache, or refused, is only reported. -/
def netutilNslookup (lookup : Lookup) (d : Device) : Device :=
  match lookup with
  | .inprogress => { d with lookups := d.lookups + 1 }
  | .ok _ | .error => d

def deviceStep (cfg : AppConfig) (d : Device) : DeviceEvent → Option (Device × List DeviceEffect)
  | .wifi e now lookup =>
    let handled := wifiHandleEventCb e now d.monitor
    let d := { d with monitor := handled.1 }
    some (if .netutilNslookup ∈ handled.2 then netutilNslookup lookup d else d,
      handled.2.map .setup)
  | .timer ts gotIp =>
    if d.monitor.timer.isSome then
      let called := setupTimerCb ts gotIp d.monitor
      some ({ d with monitor := called.1 }, called.2.map .setup)
    else none
  | .nslookup ip answers =>
    if 0 < d.lookups then nslookupCb cfg ip { d with lookups := d.lookups - 1 } answers else none
  | .pubTemp msg answers =>
    if d.started then
      deliver cfg (.publish (cfg.testTopics.map Prod.fst) msg 1 0) d.world.net d answers
    else none
  | .mqtt e answers =>
    if d.started ∧ ofSdk e ∧ e.enabled d.world then deliver cfg e (e.fire d.world.net) d answers
    else none
  | .orphan e answers =>
    if e.object.any (· ∈ d.orphans) then deliver cfg e (e.fire d.world.net) d answers
    else none

def Device.start : Device := ⟨.start, ⟨clearedClient, .start⟩, 0, false, []⟩

abbrev DeviceRecord := Taken Device DeviceEvent DeviceEffect

abbrev DeviceRun (cfg : AppConfig) (tr : List DeviceRecord) (d : Device) : Prop :=
  Run (deviceStep cfg) Device.start tr d

/-! ## What a client keeps -/

section Client

open Mqtt (Control Move)

variable {fresh : Nat} {answers : Answers} {e : Mqtt.Event} {client c : MqttClient}
  {out : List Mqtt.Effect}

theorem move_timer {c c' : Control} (h : Move fresh answers c e out c') (he : e.isStop = false)
    (htimer : c.mqttTimer = true) : c'.mqttTimer = true := by
  cases h <;> first | exact htimer | rfl | exact absurd he nofun

theorem mem_free {c : Control} {pCon : Nat} (h : c.pCon = some pCon) :
    .espconnDelete pCon ∈ c.free := by
  unfold Control.free
  rw [h]
  exact List.mem_singleton_self _

/-- A connection object that the client lets go is deleted. -/
theorem move_pCon {c c' : Control} (h : Move fresh answers c e out c') {pCon : Nat}
    (hp : c.pCon = some pCon) : c'.pCon = some pCon ∨ .espconnDelete pCon ∈ out := by
  have hfree := mem_free hp
  cases h with
  | connectAddress => exact .inr (List.mem_append_left _ hfree)
  | connectHost => exact .inr (List.mem_append_left _ hfree)
  | taskFree => exact .inr hfree
  | taskDelete => exact .inr hfree
  | _ => exact .inl hp

theorem handle_dropped (h : e.handle client fresh answers = some (c, out)) :
    dropped client c out = [] := by
  have hmove := (Mqtt.handle_move h).1
  refine List.filter_eq_nil_iff.mpr ?_
  intro pCon hp hdropped
  obtain ⟨hgone, hkept⟩ := of_decide_eq_true hdropped
  rcases move_pCon hmove (Option.mem_toList.mp hp) with hsame | hdeleted
  · exact hgone hsame
  · exact hkept ((Mqtt.mem_calls rfl).mp hdeleted)

theorem handle_timer (h : e.handle client fresh answers = some (c, out)) (he : e.isStop = false)
    (htimer : client.mqttTimer = true) : c.mqttTimer = true :=
  move_timer (Mqtt.handle_move h).1 he htimer

theorem mqttConnect_timer (h : Mqtt.mqttConnect client fresh answers = some (c, out)) :
    c.mqttTimer = true := by
  cases Mqtt.mqttConnect_cases h <;> rfl

theorem clearedClient_not_owns : ¬Owns clearedClient := by
  rintro (h | h | h | h | h | h | h | h | h | h) <;> exact h rfl

end Client

/-! ## One step -/

def DeviceEvent.isAnswer : DeviceEvent → Bool
  | .nslookup (some _) _ => true
  | _ => false

structure Unused (d : Device) : Prop where
  started : d.started = false
  client : d.world.client = clearedClient
  orphans : d.orphans = []

structure Used (d : Device) : Prop where
  mqttTimer : d.world.client.mqttTimer = true
  orphans : d.orphans = []

variable {cfg : AppConfig} {d d' : Device} {i : DeviceEvent} {out : List DeviceEffect}

/-- A step that is the monitor's alone. -/
structure SameClient (d d' : Device) : Prop where
  started : d'.started = d.started
  client : d'.world.client = d.world.client
  orphans : d'.orphans = d.orphans

theorem SameClient.keeps (h : SameClient d d') : (Unused d → Unused d') ∧ (Used d → Used d') := by
  constructor
  · intro hunused
    exact ⟨h.started.trans hunused.started, h.client.trans hunused.client,
      h.orphans.trans hunused.orphans⟩
  · intro hused
    refine ⟨?_, h.orphans.trans hused.orphans⟩
    rw [h.client]
    exact hused.mqttTimer

theorem mqttConnectedTestCb_spec {called : List Mqtt.Effect} {answers : Answers}
    {posts : List Mqtt.Effect} (h : mqttConnectedTestCb cfg called d answers = some (d', posts)) :
    d'.world.client.mqttTimer = d.world.client.mqttTimer ∧ d'.orphans = d.orphans := by
  unfold mqttConnectedTestCb at h
  split at h
  · obtain ⟨r, hr, heq⟩ := Option.map_eq_some_iff.mp h
    obtain ⟨rfl, rfl⟩ := Prod.mk.inj heq
    obtain ⟨st, q, hclient, -⟩ := Mqtt.mqttSubscribe_requested hr
    have htimer : r.1.mqttTimer = d.world.client.mqttTimer := by rw [hclient]; rfl
    exact ⟨htimer, rfl⟩
  · obtain ⟨rfl, rfl⟩ := Prod.mk.inj (Option.some.inj h)
    exact ⟨rfl, rfl⟩

theorem deliver_spec {e : Mqtt.Event} {net : Net} {answers : Answers}
    (h : deliver cfg e net d answers = some (d', out)) (he : e.isStop = false) :
    (∀ host, .mqttInitConnection host ∉ out) ∧ (Used d → Used d') := by
  obtain ⟨⟨client, called⟩, hr, h⟩ := Option.bind_eq_some_iff.mp h
  obtain ⟨c, hc, heq⟩ := Option.map_eq_some_iff.mp h
  obtain ⟨rfl, rfl⟩ := Prod.mk.inj heq
  obtain ⟨htimer, horphans⟩ := mqttConnectedTestCb_spec hc
  constructor
  · intro host hmem
    obtain ⟨x, -, hx⟩ := List.mem_map.mp hmem
    exact absurd hx nofun
  · intro hused
    constructor
    · rw [htimer]
      exact handle_timer hr he hused.mqttTimer
    · rw [horphans, handle_dropped hr, List.nil_append]
      exact hused.orphans

theorem ofSdk_isStop {e : Mqtt.Event} (h : ofSdk e = true) : e.isStop = false := by
  cases e <;> first | rfl | exact absurd h nofun

theorem netutilNslookup_same (lookup : Lookup) (d : Device) :
    SameClient d (netutilNslookup lookup d) := by
  cases lookup <;> exact ⟨rfl, rfl, rfl⟩

theorem setup_not_inits (effects : List Effect) (host : CString) :
    .mqttInitConnection host ∉ effects.map DeviceEffect.setup := by
  intro hmem
  obtain ⟨x, -, hx⟩ := List.mem_map.mp hmem
  exact absurd hx nofun

/-- Without an answer nothing is initialised. -/
theorem deviceStep_quiet (h : deviceStep cfg d i = some (d', out)) (hi : i.isAnswer = false) :
    (∀ host, .mqttInitConnection host ∉ out) ∧ (Unused d → Unused d') ∧ (Used d → Used d') := by
  cases i with
  | wifi e now lookup =>
    obtain ⟨rfl, rfl⟩ := Prod.mk.inj (Option.some.inj h)
    refine ⟨setup_not_inits _, SameClient.keeps ?_⟩
    split
    · obtain ⟨hstarted, hclient, horphans⟩ := netutilNslookup_same lookup
        { d with monitor := (wifiHandleEventCb e now d.monitor).1 }
      exact ⟨hstarted, hclient, horphans⟩
    · exact ⟨rfl, rfl, rfl⟩
  | timer ts gotIp =>
    obtain ⟨-, heq⟩ := Option.ite_none_right_eq_some.mp h
    obtain ⟨rfl, rfl⟩ := Prod.mk.inj (Option.some.inj heq)
    exact ⟨setup_not_inits _, SameClient.keeps ⟨rfl, rfl, rfl⟩⟩
  | nslookup ip answers =>
    obtain ⟨-, heq⟩ := Option.ite_none_right_eq_some.mp h
    cases ip with
    | some addr => exact absurd hi nofun
    | none =>
      obtain ⟨rfl, rfl⟩ := Prod.mk.inj (Option.some.inj heq)
      exact ⟨fun host => List.not_mem_nil, SameClient.keeps ⟨rfl, rfl, rfl⟩⟩
  | pubTemp msg answers =>
    obtain ⟨hstarted, heq⟩ := Option.ite_none_right_eq_some.mp h
    obtain ⟨hinits, hused⟩ := deliver_spec heq rfl
    refine ⟨hinits, fun hunused => ?_, hused⟩
    exact absurd (hunused.started.symm.trans hstarted) nofun
  | mqtt e answers =>
    obtain ⟨⟨hstarted, he, -⟩, heq⟩ := Option.ite_none_right_eq_some.mp h
    obtain ⟨hinits, hused⟩ := deliver_spec heq (ofSdk_isStop he)
    refine ⟨hinits, fun hunused => ?_, hused⟩
    exact absurd (hunused.started.symm.trans hstarted) nofun
  | orphan e answers =>
    obtain ⟨he, heq⟩ := Option.ite_none_right_eq_some.mp h
    obtain ⟨arg, hobject, harg⟩ := (Option.any_eq_true _ _).mp he
    have hstop : e.isStop = false := by cases e <;> first | rfl | exact absurd hobject nofun
    obtain ⟨hinits, hused⟩ := deliver_spec heq hstop
    have horphans := List.ne_nil_of_mem (of_decide_eq_true harg)
    exact ⟨hinits, fun hunused => absurd hunused.orphans horphans, hused⟩

/-- An answer initialises the client, whatever it was doing. -/
theorem deviceStep_answer (h : deviceStep cfg d i = some (d', out)) (hi : i.isAnswer = true) :
    (∃ host, .mqttInitConnection host ∈ out) ∧ (Unused d → Used d') := by
  cases i with
  | nslookup ip answers =>
    obtain ⟨-, heq⟩ := Option.ite_none_right_eq_some.mp h
    cases ip with
    | none => exact absurd hi nofun
    | some addr =>
      obtain ⟨ipstr, hip⟩ := Option.isSome_iff_exists.mp (ipaddrNtoaR_isSome addr)
      unfold nslookupCb at heq
      rw [show (some addr).bind (ipaddrNtoaR · 17) = some ipstr from hip] at heq
      obtain ⟨r, hr, heq⟩ := Option.map_eq_some_iff.mp heq
      obtain ⟨rfl, rfl⟩ := Prod.mk.inj heq
      refine ⟨⟨ipstr, List.mem_cons_self⟩, ?_⟩
      intro hunused
      refine ⟨mqttConnect_timer hr, ?_⟩
      change dropped d.world.client r.1 r.2 ++ d.orphans = []
      rw [hunused.client, hunused.orphans]
      rfl
  | _ => exact absurd hi nofun

/-! ## Every run -/

def answered (tr : List DeviceRecord) : Nat := tr.countP fun k => k.input.isAnswer

theorem answered_split (a : List DeviceRecord) (k : DeviceRecord) (b : List DeviceRecord) :
    answered (a ++ k :: b) = answered a + (if k.input.isAnswer then 1 else 0) + answered b := by
  unfold answered
  rw [List.countP_append, List.countP_cons]
  omega

theorem DeviceRun.phase {tr : List DeviceRecord} (h : DeviceRun cfg tr d) :
    (answered tr = 0 → Unused d) ∧ (answered tr = 1 → Used d) := by
  refine h.always_history
    (fun d tr => (answered tr = 0 → Unused d) ∧ (answered tr = 1 → Used d)) ?_ ?_
  · exact ⟨fun _ => ⟨rfl, rfl, rfl⟩, nofun⟩
  · intro d tr i d' out hinv hstep
    rw [answered_split, show answered [] = 0 from rfl, Nat.add_zero]
    by_cases hi : i.isAnswer = true
    · rw [if_pos hi]
      refine ⟨nofun, fun hone => ?_⟩
      exact (deviceStep_answer hstep hi).2 (hinv.1 (Nat.succ.inj hone))
    · rw [if_neg hi]
      obtain ⟨-, hunused, hused⟩ := deviceStep_quiet hstep (Bool.eq_false_iff.mpr hi)
      exact ⟨fun hzero => hunused (hinv.1 hzero), fun hone => hused (hinv.2 hone)⟩

/-- The connection objects that name the client. -/
def referring (d : Device) : List Nat := d.world.client.pCon.toList ++ d.orphans

def Inits (k : DeviceRecord) : Prop := ∃ host, .mqttInitConnection host ∈ k.output

/-- The client is initialised only when it has no connection and no armed timer, at most
one connection object names it, and nothing on the heap is reached through it when it is
cleared. -/
structure ReinitSafe (tr : List DeviceRecord) : Prop where
  idle : ∀ k ∈ tr, Inits k →
    k.before.world.client.pCon = none ∧ k.before.world.client.mqttTimer = false
  single : ∀ k ∈ tr, (referring k.after).length ≤ 1
  kept : ∀ k ∈ tr, Inits k → ¬Owns k.before.world.client

theorem length_toList_le (pCon : Option Nat) : pCon.toList.length ≤ 1 := by
  cases pCon <;> simp

theorem referring_length {n : Nat} (hn : n ≤ 1) (hunused : n = 0 → Unused d)
    (hused : n = 1 → Used d) : (referring d).length ≤ 1 := by
  have horphans : d.orphans = [] := by
    rcases Nat.le_one_iff_eq_zero_or_eq_one.mp hn with h | h
    · exact (hunused h).orphans
    · exact (hused h).orphans
  unfold referring
  rw [horphans, List.append_nil]
  exact length_toList_le _

variable {tr : List DeviceRecord}

theorem DeviceRun.not_started (hrun : DeviceRun cfg tr d) (hone : answered tr ≤ 1)
    {k : DeviceRecord} (hk : k ∈ tr) (hinits : Inits k) : Unused k.before := by
  obtain ⟨a, b, rfl⟩ := List.append_of_mem hk
  obtain ⟨hbefore, hstep⟩ := hrun.taken a b k rfl
  cases hi : k.input.isAnswer with
  | false =>
    obtain ⟨host, hhost⟩ := hinits
    exact absurd hhost ((deviceStep_quiet hstep hi).1 host)
  | true =>
    rw [answered_split, if_pos hi] at hone
    exact (DeviceRun.phase hbefore).1 (by omega)

theorem DeviceRun.single (hrun : DeviceRun cfg tr d) (hone : answered tr ≤ 1)
    {k : DeviceRecord} (hk : k ∈ tr) : (referring k.after).length ≤ 1 := by
  obtain ⟨a, b, rfl⟩ := List.append_of_mem hk
  obtain ⟨hbefore, hstep⟩ := hrun.taken a b k rfl
  obtain ⟨hunused, hused⟩ := DeviceRun.phase (hbefore.snoc hstep)
  refine referring_length ?_ hunused hused
  rw [answered_split] at hone ⊢
  exact Nat.le_trans (Nat.le_add_right _ _) hone

/-- In every run the client is initialised safely, exactly when at most one lookup is
answered with an address. -/
theorem reinit_safe_iff (hrun : DeviceRun cfg tr d) : ReinitSafe tr ↔ answered tr ≤ 1 := by
  constructor
  · intro hsafe
    refine Nat.le_of_not_lt fun htwo => ?_
    -- the second answer finds the timer that the first one armed
    obtain ⟨a, k, b, rfl, hk, hone⟩ := exists_nth htwo
    obtain ⟨hbefore, hstep⟩ := hrun.taken a b k rfl
    have hinits := (deviceStep_answer hstep hk).1
    have hidle := (hsafe.idle k (List.mem_append_right _ List.mem_cons_self) hinits).2
    have harmed := ((DeviceRun.phase hbefore).2 hone).mqttTimer
    exact absurd (hidle.symm.trans harmed) nofun
  · intro hone
    constructor
    · intro k hk hinits
      rw [(hrun.not_started hone hk hinits).client]
      exact ⟨rfl, rfl⟩
    · intro k hk
      exact hrun.single hone hk
    · intro k hk hinits
      rw [(hrun.not_started hone hk hinits).client]
      exact clearedClient_not_owns

/-! ## Sample runs -/

def sampleApp : AppConfig := ⟨Mqtt.sampleName, none, none, some (Mqtt.sampleName, Mqtt.sampleName)⟩

def sampleArrival : List DeviceEvent :=
  [.wifi .connected 7 .inprogress, .wifi .gotIp 8 .inprogress,
    .nslookup (some 16777226) Mqtt.sampleAnswers]

/-- The client connects, the station is lost, and the next lookup is answered from the
cache. -/
def sampleReturn : List DeviceEvent :=
  sampleArrival ++
    [.mqtt (.connectCb 0) Mqtt.sampleAnswers,
      .mqtt (.recv 0 [0x20, 0x02, 0x00, 0x00]) Mqtt.sampleAnswers,
      .wifi (.disconnected 200) 9 .inprogress, .wifi .gotIp 10 (.ok 16777226),
      .mqtt (.disconCb 0) Mqtt.sampleAnswers]

theorem sampleReturn_isSome : (exec (deviceStep sampleApp) .start sampleReturn).isSome = true := by
  decide +kernel

theorem sampleReturn_safe :
    ReinitSafe ((exec (deviceStep sampleApp) .start sampleReturn).get sampleReturn_isSome).1 := by
  refine (reinit_safe_iff (exec_get sampleReturn_isSome)).mpr ?_
  decide +kernel

/-- The station is lost after it was connected, and the broker is looked up again. -/
def sampleLookups : List DeviceEvent :=
  sampleArrival ++ [.wifi (.disconnected 200) 9 .inprogress, .wifi .gotIp 10 .inprogress,
    .nslookup (some 16777226) Mqtt.sampleAnswers]

theorem sampleLookups_isSome :
    (exec (deviceStep sampleApp) .start sampleLookups).isSome = true := by
  decide +kernel

def secondAnswer : DeviceRecord :=
  ((exec (deviceStep sampleApp) .start sampleLookups).get sampleLookups_isSome).1.getLast
    (by decide +kernel)

/-- The second answer finds a connection object and the armed timer, and then two objects
name the client. -/
theorem secondAnswer_unsafe : ∃ tr d, DeviceRun sampleApp tr d ∧ secondAnswer ∈ tr ∧
    Inits secondAnswer ∧ secondAnswer.before.world.client.pCon = some 0 ∧
    secondAnswer.before.world.client.mqttTimer = true ∧ (referring d).length = 2 ∧
    ¬ReinitSafe tr := by
  have hrun := exec_get sampleLookups_isSome
  have hmem : secondAnswer ∈
      ((exec (deviceStep sampleApp) .start sampleLookups).get sampleLookups_isSome).1 :=
    List.getLast_mem _
  obtain ⟨-, -, -, hstep⟩ := hrun.taken_of_mem hmem
  have hinits : Inits secondAnswer := (deviceStep_answer hstep (by decide +kernel)).1
  have hpCon : secondAnswer.before.world.client.pCon = some 0 := by decide +kernel
  refine ⟨_, _, hrun, hmem, hinits, hpCon, by decide +kernel, by decide +kernel, ?_⟩
  intro hsafe
  exact absurd (hpCon.symm.trans (hsafe.idle _ hmem hinits).1) nofun

end Setup
end EspMisc
