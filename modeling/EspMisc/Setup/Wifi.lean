/-
The WiFi monitor of `setup/setup_event.c`.

One timer is shared by three callbacks that swap each other in.  The handler of the WiFi
events arms it with `setup_reconnect_cb` when the station loses its access point, and
the SDK does not reconnect by itself, so without that timer nothing does.

`reconnects_iff` says when the timer is there after every disconnect.  It is not when
the station was never connected, because `wifiState` starts as disconnected, and it is
not after the timer found the state of MQTT set in the meantime.
-/
import EspMisc.Lib.Run

namespace EspMisc
namespace Setup

inductive WifiState
  | isDisconnected | isConnected | gotIP
deriving DecidableEq, Repr

/-- The values of `conn_state`, below `SETUP_CONN_MAX`. -/
inductive ConnState
  | invalid | disconnected | gotIp | mqtt | http
deriving DecidableEq, Repr

def ConnState.ofCode : UInt8 → Option ConnState
  | 0 => some .invalid
  | 1 => some .disconnected
  | 2 => some .gotIp
  | 3 => some .mqtt
  | 4 => some .http
  | _ => none

/-- The functions that `timeout_cb` points to. -/
inductive TimeoutCb
  | setupTs | setupState | setupReconnect
deriving DecidableEq, Repr

def SNTP_TIMEOUT : Nat := 3523
def RECONNECT_TIMOUT : Nat := 4732
def DISCONNECTED_REBOOT_TIMOUT : UInt32 := 300000

/-- `SETUP_MON_T` with the static variables of the file.  `timer` is the delay that the
timer is armed with. -/
structure Monitor where
  timer : Option Nat
  timeoutCb : TimeoutCb
  connState : ConnState
  wifiState : WifiState
  wifiReason : UInt8
  wifiStatusMq : UInt8
  lastwifiStatusMq : UInt8
  disconnectedTime : UInt32
  gotSntpTs : Bool
deriving DecidableEq, Repr

inductive Effect
  | wifiStationConnect
  | netutilNslookup
  | systemRestart
deriving DecidableEq, Repr

inductive WifiEvent
  | connected
  | disconnected (reason : UInt8)
  | authmodeChange
  | gotIp
  | softapStaConnected
  | softapStaDisconnected
  | other
deriving DecidableEq, Repr

def armStateTimer (m : Monitor) : Monitor :=
  { m with timeoutCb := .setupState, timer := some 15021 }

def armSntpTimer (m : Monitor) : Monitor :=
  { m with timeoutCb := .setupTs, timer := some SNTP_TIMEOUT }

def armReconnectTimer (delay : Nat) (m : Monitor) : Monitor :=
  { m with timeoutCb := .setupReconnect, timer := some delay }

/-- `gotIp` is whether `wifi_station_get_connect_status` is `STATION_GOT_IP`. -/
def setupStateTimeoutCb (gotIp : Bool) (m : Monitor) : Monitor :=
  let m := { m with timer := none }
  if gotIp = false then armReconnectTimer 5000 m else m

/-- `ts` is what `sntp_get_current_timestamp` returns. -/
def setupTsTimeoutCb (ts : UInt32) (m : Monitor) : Monitor :=
  let m := { m with timer := none }
  if ts ≠ 0 then armStateTimer { m with gotSntpTs := true } else { m with timer := some 1053 }

def setupReconnectCb (m : Monitor) : Monitor × List Effect :=
  let m := { m with timer := none }
  if m.connState ≠ .mqtt then
    ({ m with timer := some RECONNECT_TIMOUT }, [.wifiStationConnect])
  else (armSntpTimer m, [])

def setupTimerCb (ts : UInt32) (gotIp : Bool) (m : Monitor) : Monitor × List Effect :=
  let m := { m with timer := none }
  match m.timeoutCb with
  | .setupTs => (setupTsTimeoutCb ts m, [])
  | .setupState => (setupStateTimeoutCb gotIp m, [])
  | .setupReconnect => setupReconnectCb m

def setupApiUpdateConnState (state : UInt8) (m : Monitor) : Monitor :=
  match ConnState.ofCode state with
  | some connState => { m with connState := connState }
  | none => m

/-- `now` is the time in milliseconds. -/
def statusWifiUpdate (state : WifiState) (now : UInt32) (m : Monitor) : Monitor × List Effect :=
  let m := { m with wifiState := state }
  if m.wifiState ≠ .gotIP then
    if m.disconnectedTime = 0 then ({ m with disconnectedTime := now }, [])
    else if now - m.disconnectedTime > DISCONNECTED_REBOOT_TIMOUT then (m, [.systemRestart])
    else (m, [])
  else ({ m with disconnectedTime := 0 }, [])

def wifiHandleEventCb (e : WifiEvent) (now : UInt32) (m : Monitor) : Monitor × List Effect :=
  let m := { m with lastwifiStatusMq := m.wifiStatusMq }
  match e with
  | .connected =>
    let m := { m with wifiState := .isConnected, wifiReason := 0 }
    statusWifiUpdate m.wifiState now m
  | .disconnected reason =>
    let m :=
      if m.wifiState ≠ .isDisconnected then
        armReconnectTimer 5000
          { m with
            wifiState := .isDisconnected, connState := .disconnected, wifiReason := reason
            wifiStatusMq := 0 }
      else m
    statusWifiUpdate m.wifiState now m
  | .gotIp =>
    let m := { m with wifiState := .gotIP, wifiReason := 0 }
    let updated := statusWifiUpdate m.wifiState now m
    (armReconnectTimer 1234 { updated.1 with wifiStatusMq := 2 }, updated.2 ++ [.netutilNslookup])
  | .authmodeChange | .softapStaConnected | .softapStaDisconnected | .other => (m, [])

/-- After `setup_app_init` and `setup_event_init`. -/
def Monitor.start : Monitor where
  timer := none
  timeoutCb := .setupTs
  connState := .disconnected
  wifiState := .isDisconnected
  wifiReason := 0
  wifiStatusMq := 0
  lastwifiStatusMq := 0
  disconnectedTime := 0
  gotSntpTs := false

/-! ## Runs -/

inductive SetupEvent
  | wifi (e : WifiEvent) (now : UInt32)
  | timer (ts : UInt32) (gotIp : Bool)
  | connState (state : UInt8)
deriving DecidableEq, Repr

/-- The monitor with the last of the events that connect or disconnect the station, which
the code does not keep. -/
structure Watched where
  monitor : Monitor
  last : Option WifiState
deriving DecidableEq, Repr

def WifiEvent.station : WifiEvent → Option WifiState
  | .connected => some .isConnected
  | .disconnected _ => some .isDisconnected
  | .gotIp => some .gotIP
  | .authmodeChange | .softapStaConnected | .softapStaDisconnected | .other => none

def watch (s : Watched) : SetupEvent → Option (Watched × List Effect)
  | .wifi e now =>
    let handled := wifiHandleEventCb e now s.monitor
    some (⟨handled.1, e.station.or s.last⟩, handled.2)
  | .timer ts gotIp =>
    if s.monitor.timer.isSome then
      let called := setupTimerCb ts gotIp s.monitor
      some ({ s with monitor := called.1 }, called.2)
    else none
  | .connState state =>
    some ({ s with monitor := setupApiUpdateConnState state s.monitor }, [])

def watched : Watched := ⟨.start, none⟩

def Monitor.Armed (m : Monitor) : Prop := m.timer.isSome = true ∧ m.timeoutCb = .setupReconnect

/-- When the station was disconnected last, the timer is armed to reconnect it. -/
def Reconnects (s : Watched) : Prop := s.last = some .isDisconnected → s.monitor.Armed

/-- The steps after which nothing reconnects the station: it is disconnected before it
was ever connected, or the timer expires while it is disconnected and MQTT is said to be
connected. -/
def GivesUp (s : Watched) : SetupEvent → Prop
  | .wifi (.disconnected _) _ => s.last = none
  | .timer _ _ => s.monitor.wifiState = .isDisconnected ∧ s.monitor.connState = .mqtt
  | _ => False

instance (s : Watched) (e : SetupEvent) : Decidable (GivesUp s e) :=
  match e with
  | .wifi (.disconnected _) _ => inferInstanceAs (Decidable (_ = _))
  | .timer _ _ => inferInstanceAs (Decidable (_ ∧ _))
  | .wifi .connected _ | .wifi .gotIp _ | .wifi .authmodeChange _ | .wifi .softapStaConnected _
  | .wifi .softapStaDisconnected _ | .wifi .other _ | .connState _ =>
    inferInstanceAs (Decidable False)

structure Follows (s : Watched) : Prop where
  wifiState : s.monitor.wifiState = s.last.getD .isDisconnected
  timer : s.last = none → s.monitor.timer = none

/-! ## One step -/

theorem statusWifiUpdate_spec (state : WifiState) (now : UInt32) (m : Monitor) :
    (statusWifiUpdate state now m).1.wifiState = state ∧
      (statusWifiUpdate state now m).1.timer = m.timer ∧
      (statusWifiUpdate state now m).1.timeoutCb = m.timeoutCb := by
  unfold statusWifiUpdate
  dsimp only
  repeat' split
  all_goals exact ⟨rfl, rfl, rfl⟩

theorem setupTimerCb_wifiState (ts : UInt32) (gotIp : Bool) (m : Monitor) :
    (setupTimerCb ts gotIp m).1.wifiState = m.wifiState := by
  unfold setupTimerCb setupTsTimeoutCb setupStateTimeoutCb setupReconnectCb
  dsimp only
  repeat' split
  all_goals rfl

theorem setupApiUpdateConnState_spec (state : UInt8) (m : Monitor) :
    (setupApiUpdateConnState state m).wifiState = m.wifiState ∧
      (setupApiUpdateConnState state m).timer = m.timer ∧
      (setupApiUpdateConnState state m).timeoutCb = m.timeoutCb := by
  unfold setupApiUpdateConnState
  split <;> exact ⟨rfl, rfl, rfl⟩

theorem wifiHandleEventCb_wifiState (e : WifiEvent) (now : UInt32) (m : Monitor) :
    (wifiHandleEventCb e now m).1.wifiState = e.station.getD m.wifiState := by
  cases e with
  | connected => exact (statusWifiUpdate_spec _ _ _).1
  | gotIp => exact (statusWifiUpdate_spec _ _ _).1
  | disconnected reason =>
    refine (statusWifiUpdate_spec _ _ _).1.trans ?_
    dsimp only
    split
    · rfl
    · rename_i h
      exact not_not.mp h
  | authmodeChange => rfl
  | softapStaConnected => rfl
  | softapStaDisconnected => rfl
  | other => rfl

def SameTimer (m m' : Monitor) : Prop := m'.timer = m.timer ∧ m'.timeoutCb = m.timeoutCb

theorem SameTimer.armed_iff {m m' : Monitor} (h : SameTimer m m') : m'.Armed ↔ m.Armed := by
  unfold Monitor.Armed
  rw [h.1, h.2]

theorem quiet_sameTimer {e : WifiEvent} (h : e.station = none) (now : UInt32) (m : Monitor) :
    SameTimer m (wifiHandleEventCb e now m).1 := by
  cases e <;> first | exact ⟨rfl, rfl⟩ | exact absurd h nofun

theorem disconnected_again (reason : UInt8) (now : UInt32) {m : Monitor}
    (h : m.wifiState = .isDisconnected) :
    SameTimer m (wifiHandleEventCb (.disconnected reason) now m).1 := by
  unfold wifiHandleEventCb
  dsimp only
  rw [if_neg (not_not.mpr h)]
  exact (statusWifiUpdate_spec _ _ _).2

theorem disconnected_first (reason : UInt8) (now : UInt32) {m : Monitor}
    (h : m.wifiState ≠ .isDisconnected) :
    (wifiHandleEventCb (.disconnected reason) now m).1.Armed := by
  unfold wifiHandleEventCb
  dsimp only
  rw [if_pos h]
  obtain ⟨-, hsame⟩ := statusWifiUpdate_spec .isDisconnected now (armReconnectTimer 5000
    { m with
      lastwifiStatusMq := m.wifiStatusMq, wifiState := .isDisconnected
      connState := .disconnected, wifiReason := reason, wifiStatusMq := 0 })
  exact (SameTimer.armed_iff hsame).mpr ⟨rfl, rfl⟩

variable {s t : Watched} {e : SetupEvent} {out : List Effect}

theorem watch_follows (h : Follows s) (hstep : watch s e = some (t, out)) : Follows t := by
  cases e with
  | wifi e now =>
    obtain rfl := congrArg Prod.fst (Option.some.inj hstep)
    constructor
    · change (wifiHandleEventCb e now s.monitor).1.wifiState = _
      rw [wifiHandleEventCb_wifiState, h.wifiState]
      cases e.station <;> rfl
    · intro hnone
      obtain ⟨hstation, hlast⟩ := Option.or_eq_none_iff.mp hnone
      exact (quiet_sameTimer hstation now s.monitor).1.trans (h.timer hlast)
  | timer ts gotIp =>
    obtain ⟨hsome, heq⟩ := Option.ite_none_right_eq_some.mp hstep
    obtain rfl := congrArg Prod.fst (Option.some.inj heq)
    constructor
    · exact (setupTimerCb_wifiState ts gotIp s.monitor).trans h.wifiState
    · intro hnone
      rw [h.timer hnone] at hsome
      exact absurd hsome nofun
  | connState state =>
    obtain rfl := congrArg Prod.fst (Option.some.inj hstep)
    obtain ⟨hwifi, htimer, -⟩ := setupApiUpdateConnState_spec state s.monitor
    exact ⟨hwifi.trans h.wifiState, fun hnone => htimer.trans (h.timer hnone)⟩

theorem disconnected_reconnects (hfollows : Follows s) (h : Reconnects s) (reason : UInt8)
    (now : UInt32) :
    Reconnects ⟨(wifiHandleEventCb (.disconnected reason) now s.monitor).1, some .isDisconnected⟩ ↔
      s.last ≠ none := by
  unfold Reconnects
  rw [forall_prop_of_true rfl]
  by_cases hwifi : s.monitor.wifiState = .isDisconnected
  · rw [(disconnected_again reason now hwifi).armed_iff]
    rw [hfollows.wifiState] at hwifi
    cases hlast : s.last with
    | none =>
      refine iff_of_false ?_ (not_not.mpr rfl)
      rintro ⟨harmed, -⟩
      rw [hfollows.timer hlast] at harmed
      exact absurd harmed nofun
    | some state =>
      rw [hlast] at hwifi
      exact iff_of_true (h (hlast.trans (congrArg some hwifi))) nofun
  · refine iff_of_true (disconnected_first reason now hwifi) ?_
    intro hnone
    rw [hfollows.wifiState, hnone] at hwifi
    exact hwifi rfl

/-- The timer goes on reconnecting, unless it finds MQTT connected. -/
theorem timer_reconnects (hfollows : Follows s) (h : Reconnects s)
    (harmed : s.monitor.timer.isSome = true) (ts : UInt32) (gotIp : Bool) :
    Reconnects { s with monitor := (setupTimerCb ts gotIp s.monitor).1 } ↔
      ¬(s.monitor.wifiState = .isDisconnected ∧ s.monitor.connState = .mqtt) := by
  by_cases hlast : s.last = some .isDisconnected
  · have hwifi : s.monitor.wifiState = .isDisconnected := by rw [hfollows.wifiState, hlast]; rfl
    have hcb := (h hlast).2
    rw [and_iff_right hwifi]
    unfold Reconnects setupTimerCb
    dsimp only
    rw [hcb]
    unfold setupReconnectCb
    dsimp only
    split
    · rename_i hmqtt
      exact iff_of_true (fun _ => ⟨rfl, rfl⟩) hmqtt
    · rename_i hmqtt
      refine iff_of_false ?_ hmqtt
      intro hreconnects
      exact absurd (hreconnects hlast).2 nofun
  · refine iff_of_true (fun hdisconnected => absurd hdisconnected hlast) ?_
    rintro ⟨hwifi, -⟩
    rw [hfollows.wifiState] at hwifi
    cases hstate : s.last with
    | none =>
      rw [hfollows.timer hstate] at harmed
      exact absurd harmed nofun
    | some state =>
      rw [hstate] at hwifi hlast
      exact hlast (congrArg some hwifi)

theorem watch_reconnects (hfollows : Follows s) (h : Reconnects s)
    (hstep : watch s e = some (t, out)) : Reconnects t ↔ ¬GivesUp s e := by
  cases e with
  | timer ts gotIp =>
    obtain ⟨hsome, heq⟩ := Option.ite_none_right_eq_some.mp hstep
    obtain rfl := congrArg Prod.fst (Option.some.inj heq)
    exact timer_reconnects hfollows h hsome ts gotIp
  | connState state =>
    obtain rfl := congrArg Prod.fst (Option.some.inj hstep)
    have hsame := (setupApiUpdateConnState_spec state s.monitor).2
    exact iff_of_true (fun hlast => (SameTimer.armed_iff hsame).mpr (h hlast)) id
  | wifi e now =>
    obtain rfl := congrArg Prod.fst (Option.some.inj hstep)
    have hquiet (he : e.station = none) :
        Reconnects ⟨(wifiHandleEventCb e now s.monitor).1, e.station.or s.last⟩ := by
      rw [he, Option.none_or]
      exact fun hlast => (quiet_sameTimer he now s.monitor).armed_iff.mpr (h hlast)
    cases e with
    | disconnected reason => exact disconnected_reconnects hfollows h reason now
    | connected => exact iff_of_true nofun id
    | gotIp => exact iff_of_true nofun id
    | authmodeChange => exact iff_of_true (hquiet rfl) id
    | softapStaConnected => exact iff_of_true (hquiet rfl) id
    | softapStaDisconnected => exact iff_of_true (hquiet rfl) id
    | other => exact iff_of_true (hquiet rfl) id

/-- In every run the timer is armed to reconnect the station whenever it was disconnected
last, exactly when no step gives up. -/
theorem reconnects_iff {tr : List (Machine.Taken Watched SetupEvent Effect)}
    (hrun : Machine.Run watch watched tr s) :
    (Reconnects watched ∧ ∀ k ∈ tr, Reconnects k.after) ↔
      ∀ k ∈ tr, ¬GivesUp k.before k.input := by
  have hstart : Reconnects watched := nofun
  rw [and_iff_right hstart]
  refine hrun.always_iff Follows Reconnects ⟨rfl, fun _ => rfl⟩ hstart ?_ ?_
  · intro s e t out hfollows hstep
    exact watch_follows hfollows hstep
  · intro s e t out hfollows h hstep
    exact watch_reconnects hfollows h hstep

/-- No access point at boot. -/
theorem missing_not_reconnects : ∃ tr s, Machine.Run watch watched tr s ∧
    ¬(Reconnects watched ∧ ∀ k ∈ tr, Reconnects k.after) := by
  have hstep : watch watched (.wifi (.disconnected 201) 7) = some (_, _) := rfl
  refine ⟨_, _, .single hstep, ?_⟩
  rintro ⟨-, hall⟩
  have hreconnects := hall _ (List.mem_singleton_self _)
  exact absurd (hreconnects rfl).1 nofun

def sampleLoss : List SetupEvent :=
  [.wifi .connected 7, .wifi .gotIp 8, .wifi (.disconnected 200) 9, .timer 0 false, .timer 0 false]

theorem sampleLoss_isSome : (Machine.exec watch watched sampleLoss).isSome = true := by
  decide +kernel

theorem sampleLoss_reconnects :
    Reconnects watched ∧
      ∀ k ∈ ((Machine.exec watch watched sampleLoss).get sampleLoss_isSome).1,
        Reconnects k.after := by
  refine (reconnects_iff (Machine.exec_get sampleLoss_isSome)).mpr ?_
  decide +kernel

end Setup
end EspMisc
