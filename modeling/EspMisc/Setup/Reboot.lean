/-
The reboot of a station that stays without an address, `statusWifiUpdate` of
`setup/setup_event.c` and of `main/main_event.c`.

The time since the station lost its address is measured with a counter of microseconds
that has 32 bits.  The counter is divided down to milliseconds before the difference is
taken, so the difference does not wrap around together with the counter, and a start in
the first millisecond of a round is not kept, because 0 stands for no start.
`reboot_iff` says which updates of a sequence are decided as the time since the loss
demands.
-/
import EspMisc.Setup.Wifi
import Mathlib.Data.List.Induction

namespace EspMisc
namespace Setup

/-- The two applications, which differ in the timeout. -/
inductive App
  | setup | main
deriving DecidableEq, Repr

/-- `DISCONNECTED_REBOOT_TIMOUT`, in milliseconds. -/
def App.rebootTimeout : App → UInt32
  | .setup => DISCONNECTED_REBOOT_TIMOUT
  | .main => 1800000

def WifiState.code : WifiState → UInt8
  | .isDisconnected => 0
  | .isConnected => 1
  | .gotIP => 2

/-- `system_get_time`, at a time since boot in microseconds. -/
def systemGetTime (time : Nat) : UInt32 := UInt32.ofNat time

/-- The counter in milliseconds. -/
def reading (time : Nat) : UInt32 := systemGetTime time / 1000

/-- A call of `statusWifiUpdate`. -/
structure Update where
  state : UInt8
  time : Nat
deriving DecidableEq, Repr

/-- What a call leaves in `disconnected_time`, and whether it calls `system_restart`. -/
def updateStatus (app : App) (disconnectedTime : UInt32) (u : Update) : UInt32 × Bool :=
  if u.state ≠ WifiState.gotIP.code then
    if disconnectedTime = 0 then (reading u.time, false)
    else (disconnectedTime, decide (reading u.time - disconnectedTime > app.rebootTimeout))
  else (0, false)

/-- This is what the function of the monitor does with its static variable. -/
theorem statusWifiUpdate_eq (state : WifiState) (time : Nat) (m : Monitor) :
    let updated := statusWifiUpdate state (reading time) m
    let status := updateStatus .setup m.disconnectedTime ⟨state.code, time⟩
    updated.1.disconnectedTime = status.1 ∧ (.systemRestart ∈ updated.2 ↔ status.2 = true) := by
  have hstate : state.code ≠ WifiState.gotIP.code ↔ state ≠ .gotIP := by cases state <;> decide
  dsimp only [statusWifiUpdate, updateStatus]
  by_cases hgot : state = .gotIP
  · rw [if_neg (not_not.mpr hgot), if_neg (fun h => hstate.mp h hgot)]
    exact ⟨rfl, by simp⟩
  · rw [if_pos hgot, if_pos (hstate.mpr hgot)]
    by_cases hzero : m.disconnectedTime = 0
    · rw [if_pos hzero, if_pos hzero]
      exact ⟨rfl, by simp⟩
    · rw [if_neg hzero, if_neg hzero, App.rebootTimeout]
      split
      · rename_i hlate
        exact ⟨rfl, by simp [hlate]⟩
      · rename_i hlate
        exact ⟨rfl, by simp [hlate]⟩

/-! ## Sequences of updates -/

/-- `disconnected_time` after a sequence of calls. -/
def disconnectedTime (app : App) (past : List Update) : UInt32 :=
  past.foldl (fun d u => (updateStatus app d u).1) 0

def restarts (app : App) (past : List Update) (u : Update) : Bool :=
  (updateStatus app (disconnectedTime app past) u).2

/-- The updates without an address since the last one with an address, or since boot. -/
def lost (past : List Update) : List Update :=
  past.foldl (fun run u => if u.state = WifiState.gotIP.code then [] else run ++ [u]) []

/-- The time at which the address was lost, as an update without an address sees it. -/
def lostAt (past : List Update) (u : Update) : Nat := ((lost past ++ [u]).head (by simp)).time

/-- The station is restarted when it was without an address for longer than the timeout,
up to a millisecond. -/
structure Decided (app : App) (past : List Update) (u : Update) : Prop where
  late : restarts app past u = true →
    u.state ≠ WifiState.gotIP.code ∧ app.rebootTimeout.toNat * 1000 < u.time - lostAt past u
  prompt : u.state ≠ WifiState.gotIP.code →
    (app.rebootTimeout.toNat + 1) * 1000 ≤ u.time - lostAt past u → restarts app past u = true

/-- The first of the updates since the loss that the code can take for the start. -/
def recorded (past : List Update) : Option Update := (lost past).find? fun v => reading v.time ≠ 0

/-- Within the timeout the counter has not gone round since the start.  After it there is a
start, and the counter is not in the timeout after it, round or not. -/
structure Measured (app : App) (past : List Update) (u : Update) : Prop where
  within : u.time - lostAt past u ≤ app.rebootTimeout.toNat * 1000 →
    ∀ v ∈ recorded past, v.time / 4294967296 = u.time / 4294967296
  after : (app.rebootTimeout.toNat + 1) * 1000 ≤ u.time - lostAt past u →
    ∃ v ∈ recorded past, reading u.time < reading v.time ∨
      (reading v.time).toNat + app.rebootTimeout.toNat < (reading u.time).toNat

/-! ## The static variable -/

theorem lost_snoc (past : List Update) (u : Update) :
    lost (past ++ [u]) = if u.state = WifiState.gotIP.code then [] else lost past ++ [u] :=
  List.foldl_concat ..

theorem lost_suffix (past : List Update) : lost past <:+ past := by
  induction past using List.reverseRecOn with
  | nil => exact List.suffix_rfl
  | append_singleton past u ih =>
    rw [lost_snoc]
    split
    · exact List.nil_suffix
    · obtain ⟨before, hbefore⟩ := ih
      exact ⟨before, by rw [← List.append_assoc, hbefore]⟩

theorem recorded_ne_zero {past : List Update} {v : Update} (hv : recorded past = some v) :
    reading v.time ≠ 0 := by
  have hfound := List.find?_some hv
  exact of_decide_eq_true hfound

theorem recorded_snoc (past : List Update) (u : Update) :
    recorded (past ++ [u]) =
      if u.state = WifiState.gotIP.code then none
      else (recorded past).or (if reading u.time ≠ 0 then some u else none) := by
  unfold recorded
  rw [lost_snoc]
  split
  · rfl
  · rw [List.find?_append, List.find?_singleton]
    simp

/-- `disconnected_time` is the first reading since the loss that is not 0. -/
theorem disconnectedTime_eq (app : App) (past : List Update) :
    disconnectedTime app past = (recorded past).elim 0 fun v => reading v.time := by
  induction past using List.reverseRecOn with
  | nil => rfl
  | append_singleton past u ih =>
    have hstep : disconnectedTime app (past ++ [u]) =
        (updateStatus app (disconnectedTime app past) u).1 := List.foldl_concat ..
    rw [hstep, ih, recorded_snoc, updateStatus]
    by_cases hgot : u.state = WifiState.gotIP.code
    · rw [if_neg (not_not.mpr hgot), if_pos hgot]
      rfl
    · rw [if_pos hgot, if_neg hgot]
      cases hv : recorded past with
      | none =>
        rw [Option.elim_none, if_pos rfl, Option.none_or]
        by_cases hzero : reading u.time = 0
        · rw [if_neg (not_not.mpr hzero)]
          exact hzero
        · rw [if_pos hzero]
          rfl
      | some v =>
        rw [Option.elim_some, if_neg (recorded_ne_zero hv), Option.some_or]
        rfl

theorem restarts_iff (app : App) (past : List Update) (u : Update) :
    restarts app past u = true ↔ u.state ≠ WifiState.gotIP.code ∧
      ∃ v ∈ recorded past, reading u.time - reading v.time > app.rebootTimeout := by
  unfold restarts updateStatus
  rw [disconnectedTime_eq]
  by_cases hgot : u.state = WifiState.gotIP.code
  · rw [if_neg (not_not.mpr hgot)]
    exact iff_of_false nofun fun h => h.1 hgot
  · rw [if_pos hgot, and_iff_right hgot]
    cases hv : recorded past with
    | none =>
      rw [Option.elim_none, if_pos rfl]
      exact iff_of_false nofun (by simp)
    | some v =>
      rw [Option.elim_some, if_neg (recorded_ne_zero hv)]
      simp

/-! ## The counter -/

theorem reading_toNat (time : Nat) : (reading time).toNat = time % 4294967296 / 1000 := by
  unfold reading systemGetTime
  rw [UInt32.toNat_div, UInt32.toNat_ofNat']
  rfl

theorem rebootTimeout_le (app : App) : app.rebootTimeout.toNat ≤ 1800000 := by
  cases app <;> decide

/-- A difference of readings that wraps around is above every timeout. -/
theorem reading_sub (app : App) (start time : Nat) :
    reading time - reading start > app.rebootTimeout ↔ reading time < reading start ∨
      (reading start).toNat + app.rebootTimeout.toNat < (reading time).toNat := by
  have hle := rebootTimeout_le app
  have hstart := reading_toNat start
  have htime := reading_toNat time
  rw [gt_iff_lt, UInt32.lt_iff_toNat_lt, UInt32.lt_iff_toNat_lt, UInt32.toNat_sub]
  omega

/-- As long as the timeout is not over, the counter tells when it goes round and nothing
else. -/
theorem reading_within (app : App) {start time : Nat} (h : start ≤ time)
    (hwithin : time - start ≤ app.rebootTimeout.toNat * 1000) :
    reading time - reading start > app.rebootTimeout ↔ start / 4294967296 ≠ time / 4294967296 := by
  have hle := rebootTimeout_le app
  have hstart := reading_toNat start
  have htime := reading_toNat time
  rw [reading_sub, UInt32.lt_iff_toNat_lt]
  omega

/-! ## Every sequence -/

section Decided

variable {app : App} {past : List Update} {u : Update}

theorem recorded_between (h : (past ++ [u]).Pairwise fun a b => a.time ≤ b.time) {v : Update}
    (hv : v ∈ recorded past) : lostAt past u ≤ v.time ∧ v.time ≤ u.time := by
  have hmem : v ∈ lost past := List.mem_of_find?_eq_some hv
  have hsuffix : (lost past ++ [u]) <:+ (past ++ [u]) := by
    obtain ⟨before, hbefore⟩ := lost_suffix past
    exact ⟨before, by rw [← List.append_assoc, hbefore]⟩
  have hsorted := h.sublist hsuffix.sublist
  constructor
  · obtain ⟨first, rest, hlost⟩ := List.exists_cons_of_ne_nil (List.ne_nil_of_mem hmem)
    have hat : lostAt past u = first.time := by simp [lostAt, hlost]
    rw [hlost, List.cons_append] at hsorted
    rw [hlost] at hmem
    rw [hat]
    rcases List.mem_cons.mp hmem with rfl | hmem
    · exact Nat.le_refl _
    · exact (List.pairwise_cons.mp hsorted).1 v (List.mem_append_left _ hmem)
  · exact (List.pairwise_append.mp hsorted).2.2 v hmem u (List.mem_singleton_self u)

/-- An update is decided as the time since the loss demands exactly when it has an address
or that time is measured. -/
theorem reboot_iff (h : (past ++ [u]).Pairwise fun a b => a.time ≤ b.time) :
    Decided app past u ↔ (u.state ≠ WifiState.gotIP.code → Measured app past u) := by
  constructor
  · intro hdecided hgot
    constructor
    · intro hwithin v hv
      obtain ⟨hfrom, hto⟩ := recorded_between h hv
      by_contra hround
      have hover := (reading_within app hto (by omega)).mpr hround
      have hlate := (hdecided.late ((restarts_iff app past u).mpr ⟨hgot, v, hv, hover⟩)).2
      omega
    · intro hafter
      obtain ⟨-, v, hv, hover⟩ := (restarts_iff app past u).mp (hdecided.prompt hgot hafter)
      exact ⟨v, hv, (reading_sub app v.time u.time).mp hover⟩
  · intro hmeasured
    constructor
    · intro hrestarts
      obtain ⟨hgot, v, hv, hover⟩ := (restarts_iff app past u).mp hrestarts
      refine ⟨hgot, Nat.not_le.mp fun hwithin => ?_⟩
      obtain ⟨hfrom, hto⟩ := recorded_between h hv
      exact (reading_within app hto (by omega)).mp hover ((hmeasured hgot).within hwithin v hv)
    · intro hgot hafter
      obtain ⟨v, hv, hover⟩ := (hmeasured hgot).after hafter
      exact (restarts_iff app past u).mpr
        ⟨hgot, v, hv, (reading_sub app v.time u.time).mpr hover⟩

end Decided

/-- The address is lost one second before the counter goes round. -/
def sampleLost : Update := ⟨0, 4294967296 - 1000000⟩

/-- An update before the counter goes round, and one that comes after the timeout and
restarts. -/
theorem reboot_iff_sample : Decided .setup [sampleLost] ⟨0, 4294967296 - 1⟩ ∧
    Decided .setup [⟨0, 1000000⟩] ⟨0, 302000000⟩ ∧
    restarts .setup [⟨0, 1000000⟩] ⟨0, 302000000⟩ = true := by
  refine ⟨?_, ?_, by decide⟩
  · refine (reboot_iff (by decide)).mpr fun _ => ⟨fun _ v hv => ?_, fun hafter => ?_⟩
    · obtain rfl := Option.some.inj hv
      decide
    · exact absurd hafter (by decide)
  · refine (reboot_iff (by decide)).mpr fun _ => ⟨fun hwithin => ?_, fun _ => ?_⟩
    · exact absurd hwithin (by decide)
    · exact ⟨⟨0, 1000000⟩, rfl, .inr (by decide)⟩

/-- The station is restarted two seconds after the loss. -/
theorem reboot_early : restarts .setup [sampleLost] ⟨0, 4294967296 + 1000000⟩ = true ∧
    ¬Decided .setup [sampleLost] ⟨0, 4294967296 + 1000000⟩ := by
  have hrestarts : restarts .setup [sampleLost] ⟨0, 4294967296 + 1000000⟩ = true := by decide
  refine ⟨hrestarts, fun hdecided => ?_⟩
  exact absurd (hdecided.late hrestarts).2 (by decide)

end Setup
end EspMisc
