/-
The lookup of the broker, `netutil_nslookup` of `util/netutil.c` with its caller
`wifiHandleEventCb` of `setup/setup_event.c`.

The lookup is asked for a callback, which starts MQTT.  When the answer comes later, the
SDK calls it.  When the answer is there at once, `netutil_nslookup` calls the callback of
the same name in its own file, which only prints the address.  `lookup_starts_iff` says
that every address starts MQTT exactly when no lookup is answered at once.
-/
import EspMisc.Setup.Device

namespace EspMisc
namespace Setup

open Machine
open Mqtt (CString Answers)

/-- The address that a lookup yields in a step, at once or through the callback. -/
def DeviceEvent.yields : DeviceEvent → Option UInt32
  | .wifi .gotIp _ (.ok addr) => some (UInt32.ofNat addr)
  | .nslookup (some addr) _ => some addr
  | _ => none

/-- The hosts that the client is initialised with. -/
def hosts (out : List DeviceEffect) : List CString :=
  out.filterMap fun
    | .mqttInitConnection host => some host
    | _ => none

/-- The client is initialised once, with the text of the address, and connected. -/
def StartsMqtt (cfg : AppConfig) (k : DeviceRecord) (addr : UInt32) : Prop :=
  ∃ ipstr answers r, ipaddrNtoaR addr 17 = some ipstr ∧ hosts k.output = [ipstr] ∧
    mqttSetconn 1 (mqttAppInit cfg ipstr) k.before.world.net.fresh answers = some r ∧
    k.after.world.client = r.1

/-- An address that is yielded starts MQTT, and nothing else does. -/
def Served (cfg : AppConfig) (k : DeviceRecord) : Prop :=
  match k.input.yields with
  | none => hosts k.output = []
  | some addr => StartsMqtt cfg k addr

/-- A GOT_IP event whose lookup is in progress, and the call of its callback. -/
def DeviceEvent.asks : DeviceEvent → Bool
  | .wifi .gotIp _ .inprogress => true
  | _ => false

def DeviceEvent.isCallback : DeviceEvent → Bool
  | .nslookup _ _ => true
  | _ => false

/-- Every lookup in progress has one call of the callback, now or later, and every address
starts MQTT. -/
structure LookupsServed (cfg : AppConfig) (tr : List DeviceRecord) (d : Device) : Prop where
  calls : tr.countP (·.input.isCallback) + d.lookups = tr.countP (·.input.asks)
  served : ∀ k ∈ tr, Served cfg k

/-- A GOT_IP event whose lookup is answered at once. -/
def DeviceEvent.AtOnce (i : DeviceEvent) : Prop := ∃ now addr, i = .wifi .gotIp now (.ok addr)

/-! ## One step -/

variable {cfg : AppConfig} {d d' : Device} {i : DeviceEvent} {out : List DeviceEffect}

theorem hosts_setup (effects : List Effect) : hosts (effects.map .setup) = [] := by
  unfold hosts
  rw [List.filterMap_map]
  exact List.filterMap_eq_nil_iff.mpr fun _ _ => rfl

theorem hosts_mqtt (effects : List Mqtt.Effect) : hosts (effects.map .mqtt) = [] := by
  unfold hosts
  rw [List.filterMap_map]
  exact List.filterMap_eq_nil_iff.mpr fun _ _ => rfl

/-- Only a GOT_IP event looks up the broker. -/
theorem wifi_looksUp_iff (e : WifiEvent) (now : UInt32) (m : Monitor) :
    .netutilNslookup ∈ (wifiHandleEventCb e now m).2 ↔ e = .gotIp := by
  have hupdate (state : WifiState) (m : Monitor) :
      .netutilNslookup ∉ (statusWifiUpdate state now m).2 := by
    unfold statusWifiUpdate
    dsimp only
    repeat' split
    all_goals simp
  cases e with
  | gotIp => exact iff_of_true (List.mem_append_right _ (List.mem_singleton_self _)) rfl
  | connected => exact iff_of_false (hupdate _ _) nofun
  | disconnected reason => exact iff_of_false (hupdate _ _) nofun
  | authmodeChange => exact iff_of_false List.not_mem_nil nofun
  | softapStaConnected => exact iff_of_false List.not_mem_nil nofun
  | softapStaDisconnected => exact iff_of_false List.not_mem_nil nofun
  | other => exact iff_of_false List.not_mem_nil nofun

theorem mqttConnectedTestCb_lookups {called : List Mqtt.Effect} {answers : Answers}
    {posts : List Mqtt.Effect} (h : mqttConnectedTestCb cfg called d answers = some (d', posts)) :
    d'.lookups = d.lookups := by
  unfold mqttConnectedTestCb at h
  split at h
  · obtain ⟨r, -, heq⟩ := Option.map_eq_some_iff.mp h
    obtain ⟨rfl, rfl⟩ := Prod.mk.inj heq
    rfl
  · obtain ⟨rfl, rfl⟩ := Prod.mk.inj (Option.some.inj h)
    rfl

theorem deliver_quiet {e : Mqtt.Event} {net : Mqtt.Net} {answers : Answers}
    (h : deliver cfg e net d answers = some (d', out)) :
    hosts out = [] ∧ d'.lookups = d.lookups := by
  obtain ⟨r, -, h⟩ := Option.bind_eq_some_iff.mp h
  obtain ⟨c, hc, heq⟩ := Option.map_eq_some_iff.mp h
  obtain ⟨rfl, rfl⟩ := Prod.mk.inj heq
  have hlookups := mqttConnectedTestCb_lookups hc
  exact ⟨hosts_mqtt _, hlookups⟩

theorem nslookupCb_starts {addr : UInt32} {answers : Answers}
    (h : nslookupCb cfg (some addr) d answers = some (d', out)) :
    d'.lookups = d.lookups ∧
      ∃ ipstr r, ipaddrNtoaR addr 17 = some ipstr ∧ hosts out = [ipstr] ∧
        mqttSetconn 1 (mqttAppInit cfg ipstr) d.world.net.fresh answers = some r ∧
        d'.world.client = r.1 := by
  obtain ⟨ipstr, hip⟩ := Option.isSome_iff_exists.mp (ipaddrNtoaR_isSome addr)
  unfold nslookupCb at h
  rw [Option.bind_some, hip] at h
  obtain ⟨r, hr, heq⟩ := Option.map_eq_some_iff.mp h
  obtain ⟨rfl, rfl⟩ := Prod.mk.inj heq
  refine ⟨rfl, ipstr, r, hip, ?_, hr, rfl⟩
  change ipstr :: hosts (r.2.map .mqtt) = [ipstr]
  rw [hosts_mqtt]

/-- An event that neither looks up the broker nor answers a lookup. -/
structure DeviceEvent.Elsewhere (i : DeviceEvent) : Prop where
  wifi : ∀ now lookup, i ≠ .wifi .gotIp now lookup
  callback : i.isCallback = false

theorem DeviceEvent.Elsewhere.events (h : i.Elsewhere) :
    i.yields = none ∧ i.asks = false ∧ ¬i.AtOnce := by
  refine ⟨?_, ?_, fun ⟨now, addr, heq⟩ => h.wifi now _ heq⟩
  · cases i with
    | wifi e now lookup => cases e <;> first | rfl | exact absurd rfl (h.wifi _ _)
    | nslookup ip answers => exact absurd h.callback nofun
    | _ => rfl
  · cases i with
    | wifi e now lookup => cases e <;> first | rfl | exact absurd rfl (h.wifi _ _)
    | _ => rfl

theorem deviceStep_elsewhere (h : deviceStep cfg d i = some (d', out)) (hi : i.Elsewhere) :
    hosts out = [] ∧ d'.lookups = d.lookups := by
  cases i with
  | wifi e now lookup =>
    obtain ⟨rfl, rfl⟩ := Prod.mk.inj (Option.some.inj h)
    refine ⟨hosts_setup _, ?_⟩
    rw [if_neg]
    rw [wifi_looksUp_iff]
    rintro rfl
    exact hi.wifi now lookup rfl
  | timer ts gotIp =>
    obtain ⟨-, heq⟩ := Option.ite_none_right_eq_some.mp h
    obtain ⟨rfl, rfl⟩ := Prod.mk.inj (Option.some.inj heq)
    exact ⟨hosts_setup _, rfl⟩
  | nslookup ip answers => exact absurd hi.callback nofun
  | pubTemp msg answers => exact deliver_quiet (Option.ite_none_right_eq_some.mp h).2
  | mqtt e answers => exact deliver_quiet (Option.ite_none_right_eq_some.mp h).2
  | orphan e answers => exact deliver_quiet (Option.ite_none_right_eq_some.mp h).2

theorem deviceStep_gotIp {now : UInt32} {lookup : Mqtt.Lookup}
    (h : deviceStep cfg d (.wifi .gotIp now lookup) = some (d', out)) :
    hosts out = [] ∧ d'.lookups = d.lookups + if lookup = .inprogress then 1 else 0 := by
  obtain ⟨rfl, rfl⟩ := Prod.mk.inj (Option.some.inj h)
  refine ⟨hosts_setup _, ?_⟩
  rw [if_pos ((wifi_looksUp_iff .gotIp now d.monitor).mpr rfl)]
  cases lookup <;> rfl

/-- The callback is called for one of the lookups in progress. -/
theorem deviceStep_callback {ip : Option UInt32} {answers : Answers}
    (h : deviceStep cfg d (.nslookup ip answers) = some (d', out)) :
    d'.lookups + 1 = d.lookups ∧ Served cfg ⟨d, .nslookup ip answers, out, d'⟩ := by
  obtain ⟨hpos, heq⟩ := Option.ite_none_right_eq_some.mp h
  cases ip with
  | none =>
    obtain ⟨rfl, rfl⟩ := Prod.mk.inj (Option.some.inj heq)
    exact ⟨Nat.sub_add_cancel hpos, rfl⟩
  | some addr =>
    obtain ⟨hlookups, ipstr, r, hip, hhosts, hr, hclient⟩ := nslookupCb_starts heq
    rw [hlookups]
    exact ⟨Nat.sub_add_cancel hpos, ipstr, answers, r, hip, hhosts, hr, hclient⟩

theorem DeviceEvent.cases_lookup (i : DeviceEvent) :
    (∃ now lookup, i = .wifi .gotIp now lookup) ∨ (∃ ip answers, i = .nslookup ip answers) ∨
      i.Elsewhere := by
  by_cases hgot : ∃ now lookup, i = .wifi .gotIp now lookup
  · exact .inl hgot
  · refine .inr ?_
    cases i with
    | nslookup ip answers => exact .inl ⟨ip, answers, rfl⟩
    | _ => exact .inr ⟨fun now lookup heq => hgot ⟨now, lookup, heq⟩, rfl⟩

theorem deviceStep_served (h : deviceStep cfg d i = some (d', out)) :
    Served cfg ⟨d, i, out, d'⟩ ↔ ¬i.AtOnce := by
  rcases i.cases_lookup with ⟨now, lookup, rfl⟩ | ⟨ip, answers, rfl⟩ | hi
  · have hquiet := (deviceStep_gotIp h).1
    cases lookup with
    | ok addr =>
      refine iff_of_false ?_ (not_not.mpr ⟨now, addr, rfl⟩)
      rintro ⟨ipstr, answers, r, -, hhosts, -⟩
      exact absurd (hquiet.symm.trans hhosts) nofun
    | inprogress => exact iff_of_true hquiet fun ⟨_, _, heq⟩ => absurd heq nofun
    | error => exact iff_of_true hquiet fun ⟨_, _, heq⟩ => absurd heq nofun
  · exact iff_of_true (deviceStep_callback h).2 fun ⟨_, _, heq⟩ => absurd heq nofun
  · refine iff_of_true ?_ hi.events.2.2
    unfold Served
    dsimp only
    rw [hi.events.1]
    exact (deviceStep_elsewhere h hi).1

theorem deviceStep_calls (h : deviceStep cfg d i = some (d', out)) :
    (if i.isCallback then 1 else 0) + d'.lookups = d.lookups + if i.asks then 1 else 0 := by
  rcases i.cases_lookup with ⟨now, lookup, rfl⟩ | ⟨ip, answers, rfl⟩ | hi
  · rw [(deviceStep_gotIp h).2]
    cases lookup <;> exact Nat.zero_add _
  · have hcall := (deviceStep_callback h).1
    rw [← hcall, Nat.add_comm]
    rfl
  · rw [(deviceStep_elsewhere h hi).2, hi.callback, hi.events.2.1]
    exact Nat.zero_add _

/-! ## Every run -/

variable {tr : List DeviceRecord}

theorem DeviceRun.calls (h : DeviceRun cfg tr d) :
    tr.countP (·.input.isCallback) + d.lookups = tr.countP (·.input.asks) := by
  refine h.always_history
    (fun d tr => tr.countP (·.input.isCallback) + d.lookups = tr.countP (·.input.asks)) rfl ?_
  intro d tr i d' out hinv hstep
  have hcalls := deviceStep_calls hstep
  rw [List.countP_append, List.countP_append, List.countP_singleton, List.countP_singleton]
  dsimp only
  omega

/-- In every run every address that a lookup yields starts MQTT, exactly when no lookup is
answered at once. -/
theorem lookup_starts_iff (hrun : DeviceRun cfg tr d) :
    LookupsServed cfg tr d ↔ ∀ k ∈ tr, ¬k.input.AtOnce := by
  have hlaw : (∀ k ∈ tr, Served cfg k) ↔ ∀ k ∈ tr, ¬k.input.AtOnce :=
    hrun.law_iff (fun _ => True) trivial (fun _ _ _ => trivial)
      fun _ hstep => deviceStep_served hstep
  exact ⟨fun h => hlaw.mp h.served, fun h => ⟨hrun.calls, hlaw.mpr h⟩⟩

theorem sampleLookups_served :
    LookupsServed sampleApp ((exec (deviceStep sampleApp) .start sampleLookups).get
      sampleLookups_isSome).1 ((exec (deviceStep sampleApp) .start sampleLookups).get
      sampleLookups_isSome).2 := by
  refine (lookup_starts_iff (exec_get sampleLookups_isSome)).mpr ?_
  rintro k hk ⟨now, addr, hinput⟩
  have hmem := input_mem_of_exec sampleLookups_isSome hk
  rw [hinput] at hmem
  simp [sampleLookups, sampleArrival] at hmem

/-- The host is an address already, `10.0.0.1`. -/
def sampleAtOnce : List DeviceEvent :=
  [.wifi .connected 7 .inprogress, .wifi .gotIp 8 (.ok 16777226)]

theorem sampleAtOnce_isSome :
    (exec (deviceStep sampleApp) .start sampleAtOnce).isSome = true := by
  decide +kernel

/-- The address is there, and nothing is started with it. -/
theorem atOnce_not_served : ∃ tr d, DeviceRun sampleApp tr d ∧ ¬LookupsServed sampleApp tr d := by
  have hrun := exec_get sampleAtOnce_isSome
  refine ⟨_, _, hrun, fun hserved => ?_⟩
  have hmem := List.getLast_mem (l := ((exec (deviceStep sampleApp) .start sampleAtOnce).get
    sampleAtOnce_isSome).1) (by decide +kernel)
  obtain ⟨-, -, -, hstep⟩ := hrun.taken_of_mem hmem
  exact (deviceStep_served hstep).mp (hserved.served _ hmem) ⟨8, 16777226, rfl⟩

end Setup
end EspMisc
