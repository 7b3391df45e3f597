/-
Byte stuffing over an unreliable writer.

A message is framed between a start and a stop symbol.  The two delimiters and
the escape symbol are written inside a frame as the escape symbol followed by a
flipped copy, so a delimiter in the stream is always a real delimiter.

A writer that runs out of room may abandon a frame at any symbol, and the next
frame then follows the debris directly.  `Framed c ms` says that the stream `c`
is made of complete frames, carrying the messages `ms` in order, and of debris
that contains no stop symbol.  The receiver needs no more than that: whatever
state it starts in, `Framed.next` says it returns the first message of the
stream and leaves a framed rest.
-/
import Mathlib.Data.List.Basic

namespace EspMisc
namespace Stuffing

/-- A stuffing code: two delimiters, an escape symbol, and the flip that turns
the three of them into ordinary symbols and back. -/
structure Code (α : Type) where
  start : α
  stop : α
  esc : α
  flip : α → α
  start_ne_stop : start ≠ stop
  start_ne_esc : start ≠ esc
  stop_ne_esc : stop ≠ esc
  flip_plain : ∀ x, x = start ∨ x = stop ∨ x = esc →
    ¬ (flip x = start ∨ flip x = stop ∨ flip x = esc)
  flip_flip : ∀ x, x = start ∨ x = stop ∨ x = esc → flip (flip x) = x

variable {α : Type} [DecidableEq α] (k : Code α)

namespace Code

/-- The symbols that may not stand for themselves inside a frame. -/
def Special (x : α) : Prop := x = k.start ∨ x = k.stop ∨ x = k.esc

instance (x : α) : Decidable (k.Special x) :=
  inferInstanceAs (Decidable (x = k.start ∨ x = k.stop ∨ x = k.esc))

def escape (x : α) : List α := if k.Special x then [k.esc, k.flip x] else [x]

def body (m : List α) : List α := m.flatMap k.escape

def frame (m : List α) : List α := k.start :: (k.body m ++ [k.stop])

@[simp] theorem body_nil : k.body [] = [] := rfl

@[simp] theorem body_cons (x : α) (m : List α) : k.body (x :: m) = k.escape x ++ k.body m := rfl

theorem body_append (a b : List α) : k.body (a ++ b) = k.body a ++ k.body b :=
  List.flatMap_append

theorem length_body_replicate (n : Nat) (x : α) :
    (k.body (List.replicate n x)).length = n * (k.escape x).length := by
  induction n with
  | zero => rw [Nat.zero_mul]; rfl
  | succ n ih =>
    rw [List.replicate_succ, body_cons, List.length_append, ih, Nat.succ_mul]
    omega

theorem stop_not_mem_escape (x : α) : k.stop ∉ k.escape x := by
  unfold escape
  by_cases hx : k.Special x
  · rw [if_pos hx]
    intro h
    simp only [List.mem_cons, List.not_mem_nil, or_false] at h
    rcases h with h | h
    · exact k.stop_ne_esc h
    · exact k.flip_plain x hx (Or.inr (Or.inl h.symm))
  · rw [if_neg hx]
    intro h
    simp only [List.mem_cons, List.not_mem_nil, or_false] at h
    exact hx (Or.inr (Or.inl h.symm))

theorem stop_not_mem_body (m : List α) : k.stop ∉ k.body m := by
  intro h
  obtain ⟨x, -, hx⟩ := List.mem_flatMap.mp h
  exact k.stop_not_mem_escape x hx

theorem length_escape_pos (x : α) : 0 < (k.escape x).length := by
  unfold escape
  split <;> simp

theorem length_escape_le (x : α) : (k.escape x).length ≤ 2 := by
  unfold escape
  split <;> simp

theorem length_body_le (m : List α) : (k.body m).length ≤ 2 * m.length := by
  induction m with
  | nil => exact Nat.le_refl 0
  | cons x m ih =>
    have hx := k.length_escape_le x
    rw [body_cons, List.length_append, List.length_cons]
    omega

theorem length_le_length_body (m : List α) : m.length ≤ (k.body m).length := by
  induction m with
  | nil => exact Nat.le_refl 0
  | cons x m ih =>
    have hx := k.length_escape_pos x
    rw [body_cons, List.length_append, List.length_cons]
    omega

theorem length_frame (m : List α) : (k.frame m).length = (k.body m).length + 2 := by
  simp [frame]

theorem stop_not_mem_start_body (m : List α) : k.stop ∉ k.start :: k.body m := by
  intro h
  rcases List.mem_cons.mp h with h | h
  · exact k.start_ne_stop h.symm
  · exact k.stop_not_mem_body m h

theorem frame_append (m rest : List α) :
    k.frame m ++ rest = (k.start :: k.body m) ++ k.stop :: rest := by
  simp [frame]

/-- A frame cut before its end holds no stop symbol. -/
theorem stop_not_mem_take_frame {m : List α} {n : Nat} (hn : n < (k.frame m).length) :
    k.stop ∉ (k.frame m).take n := by
  rw [length_frame] at hn
  have ht : (k.frame m).take n <+: k.start :: k.body m := by
    have hp : (k.frame m).take n <+: k.frame m := List.take_prefix n _
    refine List.prefix_of_prefix_length_le hp ?_ ?_
    · exact ⟨[k.stop], rfl⟩
    · simp only [List.length_take, List.length_cons]
      omega
  intro h
  exact k.stop_not_mem_start_body m (ht.subset h)

end Code

/-! ## The receiver -/

/-- What the receiver remembers of the frame it is in. -/
structure Rx (α : Type) where
  begun : Bool
  escaped : Bool
  data : List α

variable {k}

/-- One symbol other than the stop symbol. -/
def Rx.feed (k : Code α) (st : Rx α) (x : α) : Rx α :=
  if x = k.esc then { st with escaped := true }
  else if x = k.start then ⟨true, false, []⟩
  else if st.begun = false then st
  else if st.escaped = true then ⟨true, false, st.data ++ [k.flip x]⟩
  else { st with data := st.data ++ [x] }

/-- Read up to the first stop symbol: the message and the rest of the stream. -/
def next (k : Code α) : Rx α → List α → Option (List α × List α)
  | _, [] => none
  | st, x :: xs => if x = k.stop then some (st.data, xs) else next k (st.feed k x) xs

/-- Every message of a stream, in order. -/
def unframe (k : Code α) : Rx α → List α → List (List α)
  | _, [] => []
  | st, x :: xs =>
    if x = k.stop then st.data :: unframe k ⟨false, st.escaped, st.data⟩ xs
    else unframe k (st.feed k x) xs

theorem feed_esc (st : Rx α) : st.feed k k.esc = { st with escaped := true } := by
  simp [Rx.feed]

theorem feed_start (st : Rx α) : st.feed k k.start = ⟨true, false, []⟩ := by
  simp [Rx.feed, k.start_ne_esc]

theorem feed_plain {x : α} (hx : ¬ k.Special x) (e : Bool) (d : List α) :
    Rx.feed k ⟨true, e, d⟩ x = ⟨true, false, d ++ [if e then k.flip x else x]⟩ := by
  have he : x ≠ k.esc := fun h => hx (Or.inr (Or.inr h))
  have hs : x ≠ k.start := fun h => hx (Or.inl h)
  cases e <;> simp [Rx.feed, he, hs]

theorem feed_escape (x : α) (d : List α) :
    (k.escape x).foldl (Rx.feed k) ⟨true, false, d⟩ = ⟨true, false, d ++ [x]⟩ := by
  by_cases hx : k.Special x
  · have hp : ¬ k.Special (k.flip x) := k.flip_plain x hx
    simp only [Code.escape, if_pos hx, List.foldl_cons, List.foldl_nil, feed_esc,
      feed_plain hp, if_true, k.flip_flip x hx]
  · simp only [Code.escape, if_neg hx, List.foldl_cons, List.foldl_nil, feed_plain hx,
      Bool.false_eq_true, if_false]

theorem feed_body (m d : List α) :
    (k.body m).foldl (Rx.feed k) ⟨true, false, d⟩ = ⟨true, false, d ++ m⟩ := by
  induction m generalizing d with
  | nil => simp
  | cons x m ih =>
    rw [Code.body_cons, List.foldl_append, feed_escape, ih, List.append_assoc,
      List.singleton_append]

theorem next_append {q : List α} (hq : k.stop ∉ q) (st : Rx α) (rest : List α) :
    next k st (q ++ rest) = next k (q.foldl (Rx.feed k) st) rest := by
  induction q generalizing st with
  | nil => rfl
  | cons x q ih =>
    have hx : x ≠ k.stop := fun h => hq (h ▸ List.mem_cons_self)
    have hq' : k.stop ∉ q := fun h => hq (List.mem_cons_of_mem x h)
    rw [List.cons_append, next, if_neg hx, ih hq', List.foldl_cons]

theorem unframe_append {q : List α} (hq : k.stop ∉ q) (st : Rx α) (rest : List α) :
    unframe k st (q ++ rest) = unframe k (q.foldl (Rx.feed k) st) rest := by
  induction q generalizing st with
  | nil => rfl
  | cons x q ih =>
    have hx : x ≠ k.stop := fun h => hq (h ▸ List.mem_cons_self)
    have hq' : k.stop ∉ q := fun h => hq (List.mem_cons_of_mem x h)
    rw [List.cons_append, unframe, if_neg hx, ih hq', List.foldl_cons]

theorem next_frame (st : Rx α) (m rest : List α) :
    next k st (k.frame m ++ rest) = some (m, rest) := by
  rw [k.frame_append, next_append (k.stop_not_mem_start_body m), List.foldl_cons, feed_start,
    feed_body, next, if_pos rfl, List.nil_append]

/-! ## How far a read goes -/

/-- The lengths of the pieces of a stream that end with a stop symbol; `n` symbols of
the first piece came before. -/
def strides (k : Code α) : Nat → List α → List Nat
  | _, [] => []
  | n, x :: xs => if x = k.stop then (n + 1) :: strides k 0 xs else strides k (n + 1) xs

theorem strides_append {q : List α} (hq : k.stop ∉ q) (n : Nat) (rest : List α) :
    strides k n (q ++ rest) = strides k (n + q.length) rest := by
  induction q generalizing n with
  | nil => rfl
  | cons x q ih =>
    have hx : x ≠ k.stop := fun h => hq (h ▸ List.mem_cons_self)
    have hq' : k.stop ∉ q := fun h => hq (List.mem_cons_of_mem x h)
    rw [List.cons_append, strides, if_neg hx, ih hq', List.length_cons,
      show n + 1 + q.length = n + (q.length + 1) by omega]

/-- Symbols that hold no stop symbol end no piece. -/
theorem strides_debris (c : List α) {q : List α} (hq : k.stop ∉ q) (n : Nat) :
    strides k n (c ++ q) = strides k n c := by
  induction c generalizing n with
  | nil =>
    have h := strides_append hq n []
    rwa [List.append_nil] at h
  | cons x c ih =>
    rw [List.cons_append, strides, strides]
    by_cases hx : x = k.stop
    · rw [if_pos hx, if_pos hx, ih]
    · rw [if_neg hx, if_neg hx, ih]

theorem strides_frame (m rest : List α) :
    strides k 0 (k.frame m ++ rest) = (k.frame m).length :: strides k 0 rest := by
  rw [k.frame_append, strides_append (k.stop_not_mem_start_body m), strides, if_pos rfl,
    k.length_frame, List.length_cons, show 0 + ((k.body m).length + 1) + 1 =
      (k.body m).length + 2 by omega]

/-- A read goes over the first piece, or over everything when no piece ends. -/
theorem next_strides (st : Rx α) (c : List α) (n : Nat) :
    (next k st c = none ∧ strides k n c = []) ∨
    ∃ m rest d, next k st c = some (m, rest) ∧ c.length = d + rest.length ∧
      strides k n c = (n + d) :: strides k 0 rest := by
  induction c generalizing st n with
  | nil => exact Or.inl ⟨rfl, rfl⟩
  | cons x c ih =>
    rw [next, strides]
    by_cases hx : x = k.stop
    · rw [if_pos hx, if_pos hx]
      exact Or.inr ⟨st.data, c, 1, rfl, by rw [List.length_cons]; omega, rfl⟩
    · rw [if_neg hx, if_neg hx]
      rcases ih (st.feed k x) (n + 1) with hnone | ⟨m, rest, d, hn, hlen, hs⟩
      · exact Or.inl hnone
      · refine Or.inr ⟨m, rest, d + 1, hn, by rw [List.length_cons]; omega, ?_⟩
        rw [hs, show n + 1 + d = n + (d + 1) by omega]

/-! ## Streams of frames and debris -/

/-- The stream is made of frames carrying these messages, with debris between. -/
inductive Framed (k : Code α) : List α → List (List α) → Prop
  | nil : Framed k [] []
  | frame (m : List α) {rest : List α} {ms : List (List α)} :
      Framed k rest ms → Framed k (k.frame m ++ rest) (m :: ms)
  | debris (x : α) {rest : List α} {ms : List (List α)} :
      x ≠ k.stop → Framed k rest ms → Framed k (x :: rest) ms

namespace Framed

theorem append {a b : List α} {ms ns : List (List α)} (ha : Framed k a ms)
    (hb : Framed k b ns) : Framed k (a ++ b) (ms ++ ns) := by
  induction ha with
  | nil => exact hb
  | frame m _ ih =>
    rw [List.append_assoc, List.cons_append]
    exact .frame m ih
  | debris x hx _ ih => exact .debris x hx ih

theorem of_debris {p : List α} (hp : k.stop ∉ p) : Framed k p [] := by
  induction p with
  | nil => exact .nil
  | cons x p ih =>
    exact .debris x (fun h => hp (h ▸ List.mem_cons_self))
      (ih fun h => hp (List.mem_cons_of_mem x h))

theorem push {c : List α} {ms : List (List α)} (h : Framed k c ms) (m : List α) :
    Framed k (c ++ k.frame m) (ms ++ [m]) := by
  have hm : Framed k (k.frame m ++ []) [m] := .frame m .nil
  rw [List.append_nil] at hm
  exact h.append hm

/-- A further frame, abandoned after `n` symbols. -/
theorem abandon {c : List α} {ms : List (List α)} (h : Framed k c ms) {m : List α} {n : Nat}
    (hn : n < (k.frame m).length) : Framed k (c ++ (k.frame m).take n) ms := by
  have := h.append (of_debris (k.stop_not_mem_take_frame hn))
  rwa [List.append_nil] at this

/-- The receiver returns the first message, or reads to the end when there is
none. -/
theorem next {c : List α} {ms : List (List α)} (h : Framed k c ms) :
    ∀ st : Rx α,
      (ms = [] ∧ Stuffing.next k st c = none) ∨
      (∃ m rest ns, ms = m :: ns ∧ Stuffing.next k st c = some (m, rest) ∧
        rest.length < c.length ∧ Framed k rest ns) := by
  induction h with
  | nil =>
    intro _
    exact Or.inl ⟨rfl, rfl⟩
  | @frame m rest ms hrest _ =>
    intro st
    refine Or.inr ⟨m, rest, ms, rfl, next_frame st m rest, ?_, hrest⟩
    rw [List.length_append, k.length_frame]
    omega
  | debris x hx _ ih =>
    intro st
    rcases ih (st.feed k x) with ⟨he, hn⟩ | ⟨m, r, ns, he, hn, hl, hf⟩
    · exact Or.inl ⟨he, by rw [Stuffing.next, if_neg hx, hn]⟩
    · refine Or.inr ⟨m, r, ns, he, by rw [Stuffing.next, if_neg hx, hn], ?_, hf⟩
      rw [List.length_cons]
      omega

/-- The messages of a framed stream are determined by the stream. -/
theorem unframe_eq {c : List α} {ms : List (List α)} (h : Framed k c ms) :
    ∀ st : Rx α, unframe k st c = ms := by
  induction h with
  | nil =>
    intro _
    exact rfl
  | @frame m rest ms _ ih =>
    intro st
    rw [k.frame_append, unframe_append (k.stop_not_mem_start_body m), List.foldl_cons,
      feed_start, feed_body, unframe, if_pos rfl, List.nil_append, ih]
  | debris x hx _ ih =>
    intro st
    rw [unframe, if_neg hx, ih]

/-- Each message takes at least two symbols of the stream. -/
theorem length_le {c : List α} {ms : List (List α)} (h : Framed k c ms) :
    2 * ms.length ≤ c.length := by
  induction h with
  | nil => exact Nat.le_refl 0
  | frame m _ ih =>
    rw [List.length_append, k.length_frame, List.length_cons]
    omega
  | debris x _ _ ih =>
    rw [List.length_cons]
    omega

theorem length_mem_lt {c : List α} {ms : List (List α)} (h : Framed k c ms) :
    ∀ m ∈ ms, m.length + 2 ≤ c.length := by
  induction h with
  | nil =>
    intro m hm
    exact absurd hm (List.not_mem_nil)
  | @frame m rest ms _ ih =>
    intro m' hm'
    have hb := k.length_le_length_body m
    rw [List.length_append, k.length_frame]
    rcases List.mem_cons.mp hm' with rfl | hm'
    · omega
    · have := ih m' hm'
      omega
  | debris x _ _ ih =>
    intro m hm
    have := ih m hm
    rw [List.length_cons]
    omega

end Framed

end Stuffing
end EspMisc
