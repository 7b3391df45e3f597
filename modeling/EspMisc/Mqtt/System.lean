/-
The client among its callers.

A world is a client with what the SDK keeps for it: the connection objects that
were freed, and the callbacks that are still to come.  An event is a call of the
application, a callback of the SDK, a tick of the timer or a run of the task, and a
callback is possible only while the SDK has a reason to make it.

`espconn_delete` takes no DNS query back and closes no connection, so a callback
carries the object it was asked for, which may have been freed since.  It finds its
client in the memory of that object, which is taken to be as it was, or to be that of
the next object.
-/
import EspMisc.Lib.Run
import EspMisc.Mqtt.Client

namespace EspMisc
namespace Mqtt

open Machine

/-- What the SDK keeps.  The three lists hold connection objects, and an object is in
one as often as there are callbacks to come for it. -/
structure Net where
  /-- The address of the next object. -/
  fresh : Nat
  freed : List Nat
  /-- An `espconn_connect` was accepted and neither callback has come. -/
  connecting : List Nat
  /-- A DNS query was accepted and its callback has not come. -/
  resolving : List Nat
  /-- The connection was established; the last one stands first. -/
  connected : List Nat

namespace Net

def start : Net := ⟨0, [], [], [], []⟩

def apply (net : Net) : Effect → Net
  | .espconnConnect pCon result =>
    if result = espconnOk then { net with connecting := pCon.toList ++ net.connecting } else net
  | .espconnGethostbyname pCon _ result =>
    if result = .inprogress then { net with resolving := pCon :: net.resolving } else net
  | .espconnDelete pCon => { net with freed := pCon :: net.freed }
  | _ => net

def applyAll (net : Net) (out : List Effect) : Net := out.foldl apply net

end Net

structure World where
  client : MqttClient
  net : Net

inductive Event where
  | connect
  | disconnect
  | deleteClient
  | publish (topic : Option CString) (data : Bytes) (qos retain : Int)
  | subscribe (topic : Option CString) (qos : Nat)
  | unSubscribe (topic : Option CString)
  | ping
  | task
  | timer
  | dnsFound (arg : Nat) (ipaddr : Option Nat)
  | connectCb (arg : Nat)
  | recv (arg : Nat) (segment : Bytes)
  | sentCb (arg : Nat)
  | reconCb (arg : Nat)
  | disconCb (arg : Nat)
  | initLWT (willTopic willMsg : CString) (willQos willRetain : UInt8)
  | on (cb : Callback) (set : Bool)

namespace Event

/-- The connection object that a callback is for. -/
def object : Event → Option Nat
  | .dnsFound arg _ => some arg
  | .connectCb arg => some arg
  | .recv arg _ => some arg
  | .sentCb arg => some arg
  | .reconCb arg => some arg
  | .disconCb arg => some arg
  | _ => none

def enabled (w : World) : Event → Bool
  | .timer => w.client.mqttTimer
  | .dnsFound arg _ => decide (arg ∈ w.net.resolving)
  | .connectCb arg => decide (arg ∈ w.net.connecting)
  | .recv arg _ => decide (arg ∈ w.net.connected)
  | .sentCb arg => decide (arg ∈ w.net.connected)
  | .disconCb arg => decide (arg ∈ w.net.connected)
  | .reconCb arg => decide (w.client.pCon = some arg ∨ arg ∈ w.net.freed)
  | _ => true

/-- A callback ends what it reports on. -/
def fire (net : Net) : Event → Net
  | .dnsFound arg _ => { net with resolving := net.resolving.erase arg }
  | .connectCb arg =>
    { net with connecting := net.connecting.erase arg, connected := arg :: net.connected }
  | .reconCb arg => { net with connecting := net.connecting.erase arg }
  | _ => net

/-- The code that runs.  The result is `none` when it does not return. -/
def handle (client : MqttClient) (fresh : Nat) (answers : Answers) :
    Event → Option (MqttClient × List Effect)
  | .connect => mqttConnect client fresh answers
  | .disconnect => some (mqttDisconnect client)
  | .deleteClient => some (mqttDeleteClient client)
  | .publish topic data qos retain =>
    (mqttPublish client topic data qos retain answers).map fun r => (r.1, r.2.1)
  | .subscribe topic qos => (mqttSubscribe client topic qos answers).map fun r => (r.1, r.2.1)
  | .unSubscribe topic => (mqttUnSubscribe client topic answers).map fun r => (r.1, r.2.1)
  | .ping => (mqttPing client answers).map fun r => (r.1, r.2.1)
  | .task => mqttTask client fresh answers
  | .timer => some (Mqtt.mqttTimer client)
  | .dnsFound _ ipaddr => mqttDnsFound client ipaddr answers
  | .connectCb _ => some (mqttTcpclientConnectCb client answers)
  | .recv _ segment => mqttTcpclientRecv client segment
  | .sentCb _ => some (mqttTcpclientSentCb client)
  | .reconCb _ => some (mqttTcpclientReconCb client)
  | .disconCb _ => some (mqttTcpclientDisconCb client)
  | .initLWT willTopic willMsg willQos willRetain =>
    some (mqttInitLWT client willTopic willMsg willQos willRetain, [])
  | .on cb set => some (mqttOn client cb set, [])

end Event

/-- One event, with the answers it gets.  Every step has an address of its own for
the object it may allocate. -/
def step (w : World) (i : Event × Answers) : Option (World × List Effect) :=
  if i.1.enabled w then
    (i.1.handle w.client w.net.fresh i.2).map fun r =>
      ({ client := r.1
         net := { (i.1.fire w.net).applyAll r.2 with fresh := w.net.fresh + 1 } }, r.2)
  else none

theorem step_eq {w : World} {e : Event} (answers : Answers) (hen : e.enabled w = true)
    {c : MqttClient} {out : List Effect}
    (h : e.handle w.client w.net.fresh answers = some (c, out)) :
    step w (e, answers) = some
      ({ client := c
         net := { (e.fire w.net).applyAll out with fresh := w.net.fresh + 1 } }, out) := by
  unfold step
  rw [if_pos hen, h]
  rfl

theorem step_handle {w w' : World} {i : Event × Answers} {out : List Effect}
    (h : step w i = some (w', out)) :
    i.1.enabled w = true ∧ i.1.handle w.client w.net.fresh i.2 = some (w'.client, out) ∧
      w'.net = { (i.1.fire w.net).applyAll out with fresh := w.net.fresh + 1 } := by
  unfold step at h
  split at h
  · next hen =>
    obtain ⟨r, hr, hw⟩ := Option.map_eq_some_iff.mp h
    obtain ⟨rfl, rfl⟩ := Prod.mk.inj hw
    exact ⟨hen, hr, rfl⟩
  · exact absurd h (by simp)

/-- The arguments of `MQTT_InitConnection` and `MQTT_InitClient`. -/
structure Setup where
  host : CString
  security : UInt8
  clientId : CString
  clientUser : Option CString
  clientPass : Option CString
  keepAliveTime : UInt32
  cleanSession : UInt8

/-- The world after `MQTT_InitConnection` and `MQTT_InitClient`. -/
def Setup.world (u : Setup) : World where
  client := mqttInitClient (mqttInitConnection u.host u.security) u.clientId u.clientUser
    u.clientPass u.keepAliveTime u.cleanSession
  net := .start

abbrev Record := Taken World (Event × Answers) Effect

/-- A run of a client that was set up. -/
abbrev ClientRun (u : Setup) (tr : List Record) (w : World) : Prop := Run step u.world tr w

/-! ## Sample runs -/

theorem sampleAddress_ok : (0 : UInt8) ∉ [49, 48, 46, 48, 46, 48, 46, 49] ∧
    [49, 48, 46, 48, 46, 48, 46, 49].length < 2 ^ 30 := by decide

theorem sampleName_ok : (0 : UInt8) ∉ [0x61] ∧ [0x61].length < 2 ^ 30 := by decide

/-- `10.0.0.1`. -/
def sampleAddress : CString :=
  ⟨[49, 48, 46, 48, 46, 48, 46, 49], sampleAddress_ok.1, sampleAddress_ok.2⟩

/-- `a`. -/
def sampleName : CString := ⟨[0x61], sampleName_ok.1, sampleName_ok.2⟩

/-- A client of a broker that is known by its address. -/
def sampleSetup : Setup where
  host := sampleAddress
  security := 0
  clientId := sampleName
  clientUser := none
  clientPass := none
  keepAliveTime := 2
  cleanSession := 1

/-- A client of a broker that is known by its name. -/
def namedSetup : Setup := { sampleSetup with host := sampleName }

/-- The SDK accepts what it is asked. -/
def sampleAnswers : Answers where
  send := espconnOk
  connect := espconnOk
  lookup := .inprogress
  dataBuffer := List.replicate mqttBufSize 0
  length_dataBuffer := List.length_replicate
  isBegin := fun _ => 0

/-- From the start to `MQTT_DATA`. -/
def sampleConnect : List (Event × Answers) :=
  [(.connect, sampleAnswers), (.connectCb 0, sampleAnswers),
    (.recv 0 [0x20, 0x02, 0x00, 0x00], sampleAnswers)]

theorem sampleConnect_isSome : (exec step sampleSetup.world sampleConnect).isSome := by decide

/-- A client that the broker has accepted. -/
def sampleConnected : World :=
  ((exec step sampleSetup.world sampleConnect).get sampleConnect_isSome).2

theorem sampleConnected_run : ∃ tr, ClientRun sampleSetup tr sampleConnected :=
  ⟨_, exec_get sampleConnect_isSome⟩

/-- Connected, with the CONNECT sent and a message in the queue. -/
def sampleQueued : List (Event × Answers) :=
  sampleConnect ++ [(.sentCb 0, sampleAnswers),
    (.publish (some sampleName) [0x62] 0 0, sampleAnswers)]

theorem sampleQueued_isSome : (exec step sampleSetup.world sampleQueued).isSome := by decide

def sampleQueuedWorld : World :=
  ((exec step sampleSetup.world sampleQueued).get sampleQueued_isSome).2

theorem sampleQueued_send_isSome : (step sampleQueuedWorld (.task, sampleAnswers)).isSome := by
  decide

end Mqtt
end EspMisc
