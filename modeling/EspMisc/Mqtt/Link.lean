/-
The abstract machine under the client.

A link is the control of a client with what the SDK keeps for it, and its steps are
the moves.  `step_link` is the refinement: every step of the client is a step of this
machine.  The results about connections are proved from it, and from the one fact
that holds of every link, `Coherent`: the client's connection object is not one of
those that were freed.
-/
import EspMisc.Mqtt.Control

namespace EspMisc
namespace Mqtt

open Machine

/-- The control of a client with what the SDK keeps for it. -/
structure Link where
  control : Control
  net : Net

def World.link (w : World) : Link := ⟨w.client.control, w.net⟩

def Event.possible (l : Link) : Event → Bool
  | .timer => l.control.mqttTimer
  | .dnsFound arg _ => decide (arg ∈ l.net.resolving)
  | .connectCb arg => decide (arg ∈ l.net.connecting)
  | .recv arg _ => decide (arg ∈ l.net.connected)
  | .sentCb arg => decide (arg ∈ l.net.connected)
  | .disconCb arg => decide (arg ∈ l.net.connected)
  | .reconCb arg => decide (l.control.pCon = some arg ∨ arg ∈ l.net.freed)
  | _ => true

/-- A step of the abstract machine: a move, and what the SDK makes of its calls. -/
structure LinkStep (answers : Answers) (l : Link) (e : Event) (out : List Effect) (l' : Link) :
    Prop where
  possible : e.possible l = true
  move : Move l.net.fresh answers l.control e out l'.control
  net : l'.net = { (e.fire l.net).applyAll out with fresh := l.net.fresh + 1 }

/-- Every step of the client is one of the abstract machine. -/
theorem step_link {w w' : World} {i : Event × Answers} {out : List Effect}
    (h : step w i = some (w', out)) : LinkStep i.2 w.link i.1 (calls out) w'.link := by
  obtain ⟨hen, hr, hnet⟩ := step_handle h
  refine ⟨?_, (handle_move hr).1, ?_⟩
  · obtain ⟨e, answers⟩ := i
    cases e <;> exact hen
  · rw [applyAll_calls]
    exact hnet

theorem step_ready {w w' : World} {i : Event × Answers} {out : List Effect}
    (hw : Ready w.client) (h : step w i = some (w', out)) : Ready w'.client :=
  (handle_move (step_handle h).2.1).2 hw

theorem ClientRun.ready {u : Setup} {tr : List Record} {w : World} (h : ClientRun u tr w) :
    Ready w.client :=
  h.always (fun w => Ready w.client) (mqttInitClient_ready ..) step_ready

theorem Move.security {fresh : Nat} {answers : Answers} {c c' : Control} {e : Event}
    {out : List Effect} (h : Move fresh answers c e out c') : c'.security = c.security := by
  cases h <;> rfl

/-! ## Calls and what is kept -/

theorem Control.mem_plain {c : Control} {x y : Effect} :
    x ∈ c.plain y ↔ c.security = 0 ∧ x = y := by
  unfold Control.plain
  by_cases h : c.security = 0 <;> simp [h]

theorem Control.not_mem_free (c : Control) (p : Option Nat) (r : Int) :
    .espconnConnect p r ∉ c.free := by
  unfold Control.free
  cases c.pCon <;> simp

theorem Control.plain_eq_nil {c : Control} (h : c.security ≠ 0) (e : Effect) : c.plain e = [] :=
  if_pos h

theorem Control.plain_eq {c : Control} (h : c.security = 0) (e : Effect) : c.plain e = [e] :=
  if_neg (fun hne => hne h)

theorem fire_request {e : Event} (he : e.isRequest = true) (net : Net) : e.fire net = net := by
  cases e <;> first | rfl | exact absurd he (by simp [Event.isRequest])

theorem fire_connects {c : Control} {e : Event} (he : c.Connects e) (net : Net) :
    e.fire net = net := by
  rcases he with rfl | ⟨rfl, -⟩ <;> rfl

@[simp] theorem applyAll_nil (net : Net) : net.applyAll [] = net := rfl

theorem applyAll_append (net : Net) (a b : List Effect) :
    net.applyAll (a ++ b) = (net.applyAll a).applyAll b := List.foldl_append

@[simp] theorem applyAll_send (c : Control) (net : Net) (p : Option Nat) (m : Bytes) (r : Int) :
    net.applyAll (c.plain (.espconnSend p m r)) = net := by
  unfold Control.plain
  split <;> rfl

@[simp] theorem applyAll_disconnect (c : Control) (net : Net) (p : Option Nat) :
    net.applyAll (c.plain (.espconnDisconnect p)) = net := by
  unfold Control.plain
  split <;> rfl

theorem applyAll_callbacks {out : List Effect} (h : ∀ e ∈ out, e = .callback .connected)
    (net : Net) : net.applyAll out = net := by
  induction out with
  | nil => rfl
  | cons e out ih =>
    rw [h e List.mem_cons_self]
    exact ih fun x hx => h x (List.mem_cons_of_mem _ hx)

/-- The application tells the client to stop. -/
def Event.isStop : Event → Bool
  | .disconnect => true
  | .deleteClient => true
  | _ => false

/-- A TCP connection was established. -/
def Event.isConnected : Event → Bool
  | .connectCb _ => true
  | _ => false

theorem Event.eq_connectCb {e : Event} (h : e.isConnected = true) : ∃ arg, e = .connectCb arg := by
  cases e with
  | connectCb arg => exact ⟨arg, rfl⟩
  | _ => exact absurd h Bool.false_ne_true

/-! ## Connection objects -/

/-- The client's connection object has not been freed, and none has the address that the
next one gets. -/
structure Coherent (l : Link) : Prop where
  live : ∀ p, l.control.pCon = some p → p < l.net.fresh ∧ p ∉ l.net.freed
  old : ∀ p ∈ l.net.freed, p < l.net.fresh

/-- Freeing an object leaves the callbacks that are to come for it. -/
theorem applyAll_free (c : Control) (net : Net) :
    net.applyAll c.free = { net with freed := c.pCon.toList ++ net.freed } := by
  unfold Control.free
  cases c.pCon <;> rfl

@[simp] theorem freed_connect (c : Control) (net : Net) (p : Option Nat) (r : Int) :
    (net.applyAll (c.plain (.espconnConnect p r))).freed = net.freed := by
  unfold Control.plain
  split
  · rfl
  · simp only [Net.applyAll, List.foldl_cons, List.foldl_nil, Net.apply]
    split <;> rfl

@[simp] theorem freed_lookup (net : Net) (p : Nat) (host : Bytes) (r : Lookup) :
    (net.applyAll [.espconnGethostbyname p host r]).freed = net.freed := by
  simp only [Net.applyAll, List.foldl_cons, List.foldl_nil, Net.apply]
  split <;> rfl

/-- A query is no connect. -/
theorem connecting_lookup (net : Net) (p : Nat) (host : Bytes) (r : Lookup) :
    (net.applyAll [.espconnGethostbyname p host r]).connecting = net.connecting := by
  simp only [Net.applyAll, List.foldl_cons, List.foldl_nil, Net.apply]
  split <;> rfl

/-- Other calls leave the objects alone. -/
theorem Coherent.same {c c' : Control} {net net' : Net} (h : Coherent ⟨c, net⟩)
    (hp : c'.pCon = c.pCon) (hfresh : net'.fresh = net.fresh + 1)
    (hfreed : net'.freed = net.freed) : Coherent ⟨c', net'⟩ := by
  refine ⟨fun p hn => ?_, fun p hm => ?_⟩
  · obtain ⟨hlt, hnot⟩ := h.live p (hp ▸ hn)
    exact ⟨hfresh ▸ Nat.lt_succ_of_lt hlt, hfreed ▸ hnot⟩
  · exact hfresh ▸ Nat.lt_succ_of_lt (h.old p (hfreed ▸ hm))

/-- The client's object was freed, and perhaps another was allocated. -/
theorem Coherent.renew {c c' : Control} {net net' : Net} (h : Coherent ⟨c, net⟩)
    (hp : ∀ p, c'.pCon = some p → p = net.fresh) (hfresh : net'.fresh = net.fresh + 1)
    (hfreed : net'.freed = c.pCon.toList ++ net.freed) : Coherent ⟨c', net'⟩ := by
  have hold : ∀ p ∈ net'.freed, p < net.fresh := by
    rw [hfreed]
    refine List.forall_mem_append.mpr ⟨fun p hm => ?_, h.old⟩
    exact (h.live p (Option.mem_toList.mp hm)).1
  refine ⟨fun p hn => ?_, fun p hm => hfresh ▸ Nat.lt_succ_of_lt (hold p hm)⟩
  obtain rfl := hp p hn
  exact ⟨hfresh ▸ Nat.lt_succ_self _, fun hm => Nat.lt_irrefl _ (hold _ hm)⟩

theorem Coherent.keep {answers : Answers} {l l' : Link} {e : Event} {out : List Effect}
    (hl : Coherent l) (h : LinkStep answers l e out l') : Coherent l' := by
  obtain ⟨c, net⟩ := l
  obtain ⟨c', net'⟩ := l'
  obtain ⟨hpos, hmove, hnet⟩ := h
  simp only at hmove hnet
  subst hnet
  cases hmove with
  | request he =>
    rw [fire_request he]
    exact hl.same rfl rfl rfl
  | connectAddress he ha =>
    rw [fire_connects he, applyAll_append, applyAll_free]
    exact hl.renew (fun p hp => (Option.some.inj hp).symm) rfl (by simp)
  | connectHost he ha host =>
    rw [fire_connects he, applyAll_append, applyAll_free]
    exact hl.renew (fun p hp => (Option.some.inj hp).symm) rfl (by simp)
  | taskFree _ =>
    rw [applyAll_free]
    exact hl.renew (fun p hp => nomatch hp) rfl rfl
  | taskDelete _ =>
    rw [applyAll_free]
    exact hl.renew (fun p hp => nomatch hp) rfl rfl
  | taskDisconnect _ =>
    rw [applyAll_disconnect]
    exact hl.same rfl rfl rfl
  | taskKeepalive _ m =>
    rw [applyAll_send]
    exact hl.same rfl rfl rfl
  | taskSend _ m =>
    rw [applyAll_send]
    exact hl.same rfl rfl rfl
  | dnsFound hip haddr hp => exact hl.same rfl rfl (freed_connect ..)
  | connectCb m =>
    rw [applyAll_send]
    exact hl.same rfl rfl rfl
  | recvConnack _ _ hout =>
    rw [applyAll_callbacks hout]
    exact hl.same rfl rfl rfl
  | recvRefused _ =>
    rw [applyAll_disconnect]
    exact hl.same rfl rfl rfl
  | _ => exact hl.same rfl rfl rfl

theorem setup_coherent (u : Setup) : Coherent u.world.link :=
  ⟨fun _ h => (nomatch h), fun _ h => (nomatch h)⟩

end Mqtt
end EspMisc
