/-
Where `mqtt_get_id` looks for the identifier of a packet.

It is given the length of `in_buffer` where the other readers are given the length of what
was received.  `IdKnown b` says that the bytes `b` at the front of `in_buffer` settle what it
finds, and `mqttGetId_leftWith` that otherwise bytes behind them do.
-/
import EspMisc.Mqtt.Turns

namespace EspMisc
namespace Mqtt

/-! ## The place of the identifier -/

/-- The packets whose answer repeats their identifier. -/
def NeedsId (b : Bytes) : Prop :=
  (IsPublish b ∧ (mqttGetQos b = 1 ∨ mqttGetQos b = 2)) ∨
    mqttGetType b = MessageType.pubrec.code ∨ mqttGetType b = MessageType.pubrel.code

/-- The index behind the remaining length, for a reader that may look at all of `in_buffer`.
Bytes behind the end of `b` read as zero. -/
def idScan (b : Bytes) : Nat := (lengthLoop b (mqttBufSize - 1) 1 0).1

/-- Where `mqtt_get_id` looks for the identifier. -/
def idAt (b : Bytes) : Nat :=
  if IsPublish b then idScan b + 2 + wordAt b (idScan b) else 2

/-- `mqtt_get_id` gives up: the identifier would end `in_buffer`, or the remaining length
has more than one byte. -/
def NoId (b : Bytes) : Prop :=
  if IsPublish b then mqttBufSize ≤ idAt b + 2 else byteAt b 1 &&& 0x80 ≠ 0

/-- What `mqtt_get_id` finds depends on `b` alone. -/
def IdKnown (b : Bytes) : Prop := idAt b + 2 ≤ b.length ∨ NoId b

instance (b : Bytes) : Decidable (NoId b) :=
  inferInstanceAs (Decidable (if IsPublish b then _ else _))

instance (b : Bytes) : Decidable (IdKnown b) := inferInstanceAs (Decidable (_ ∨ _))

theorem NeedsId.mqttGetId {b : Bytes} (h : NeedsId b) :
    mqttGetId b mqttBufSize = if NoId b then 0 else wordAt b (idAt b) := by
  by_cases hpub : IsPublish b
  · have hof := (isPublish_iff b).mp hpub
    have hqos : mqttGetQos b > 0 := by
      rcases h with ⟨-, hq⟩ | hrec | hrel
      · omega
      · exact absurd (hpub.symm.trans hrec) (by decide)
      · exact absurd (hpub.symm.trans hrel) (by decide)
    have hat : idAt b = idScan b + 2 + wordAt b (idScan b) := if_pos hpub
    have hno : NoId b ↔ mqttBufSize ≤ idAt b + 2 := by rw [NoId, if_pos hpub]
    rw [Mqtt.mqttGetId, if_neg (by decide), hof]
    simp only [if_pos hqos]
    rw [show (lengthLoop b (mqttBufSize - 1) 1 0).1 = idScan b from rfl, ← hat]
    by_cases hgive : NoId b
    · rw [if_pos hgive]
      have hle := hno.mp hgive
      by_cases h1 : idScan b + 2 ≥ mqttBufSize
      · rw [if_pos h1]
      · by_cases h2 : idAt b ≥ mqttBufSize
        · rw [if_neg h1, if_pos h2]
        · rw [if_neg h1, if_neg h2, if_pos hle]
    · rw [if_neg hgive]
      have hlt := mt hno.mpr hgive
      rw [if_neg (by omega), if_neg (by omega), if_neg hlt]
  · have hat : idAt b = 2 := if_neg hpub
    have hno : NoId b ↔ byteAt b 1 &&& 0x80 ≠ 0 := by rw [NoId, if_neg hpub]
    have hread : Mqtt.mqttGetId b mqttBufSize =
        if mqttBufSize ≥ 4 ∧ byteAt b 1 &&& 0x80 = 0 then wordAt b 2 else 0 := by
      rcases h with ⟨hp, -⟩ | hrec | hrel
      · exact absurd hp hpub
      · rw [Mqtt.mqttGetId, if_neg (by decide), hrec]
        rfl
      · rw [Mqtt.mqttGetId, if_neg (by decide), hrel]
        rfl
    rw [hread, hat]
    by_cases hgive : NoId b
    · rw [if_pos hgive, if_neg fun hall => hno.mp hgive hall.2]
    · rw [if_neg hgive, if_pos ⟨by decide, Decidable.not_not.mp (mt hno.mpr hgive)⟩]

/-! ## What the place depends on -/

theorem le_lengthLoop (b : Bytes) (n i : Nat) (totlen : Int) :
    i ≤ (lengthLoop b n i totlen).1 := by
  induction n generalizing i totlen with
  | zero => exact Nat.le_refl i
  | succ n ih =>
    simp only [lengthLoop]
    split
    · exact Nat.le_succ i
    · exact Nat.le_trans (Nat.le_succ i) (ih ..)

/-- The loop depends on the bytes before the index it ends at. -/
theorem lengthLoop_congr {b b' : Bytes} {n i : Nat} {totlen : Int}
    (h : ∀ j < (lengthLoop b n i totlen).1, byteAt b' j = byteAt b j) :
    lengthLoop b' n i totlen = lengthLoop b n i totlen := by
  induction n generalizing i totlen with
  | zero => rfl
  | succ n ih =>
    have hi : byteAt b' i = byteAt b i := by
      refine h i ?_
      simp only [lengthLoop]
      split
      · exact Nat.lt_succ_self i
      · exact le_lengthLoop ..
    simp only [lengthLoop] at h ⊢
    rw [hi]
    split
    · rfl
    · next hmore =>
      rw [if_neg hmore] at h
      exact ih h

theorem two_le_idAt (b : Bytes) : 2 ≤ idAt b := by
  unfold idAt
  split <;> omega

theorem isPublish_congr {b b' : Bytes} (h : byteAt b' 0 = byteAt b 0) :
    IsPublish b' ↔ IsPublish b := by
  rw [IsPublish, IsPublish, mqttGetType, mqttGetType, h]

theorem wordAt_congr {b b' : Bytes} {i : Nat} (h : byteAt b' i = byteAt b i)
    (h' : byteAt b' (i + 1) = byteAt b (i + 1)) : wordAt b' i = wordAt b i := by
  rw [wordAt, wordAt, h, h']

/-- So does the place of the identifier. -/
theorem idAt_congr {b b' : Bytes} (h : ∀ j < idAt b, byteAt b' j = byteAt b j) :
    idAt b' = idAt b := by
  have htwo := two_le_idAt b
  have hpub := isPublish_congr (h 0 (by omega))
  by_cases hp : IsPublish b
  · have hat : idAt b = idScan b + 2 + wordAt b (idScan b) := if_pos hp
    have hscan : idScan b' = idScan b :=
      congrArg Prod.fst (lengthLoop_congr fun j (hj : j < idScan b) => h j (by omega))
    rw [hat, idAt, if_pos (hpub.mpr hp), hscan,
      wordAt_congr (h _ (by omega)) (h _ (by omega))]
  · rw [idAt, idAt, if_neg hp, if_neg (mt hpub.mp hp)]

theorem noId_congr {b b' : Bytes} (h : ∀ j < idAt b, byteAt b' j = byteAt b j) :
    NoId b' ↔ NoId b := by
  have htwo := two_le_idAt b
  have hpub := isPublish_congr (h 0 (by omega))
  by_cases hp : IsPublish b
  · rw [NoId, NoId, if_pos hp, if_pos (hpub.mpr hp), idAt_congr h]
  · rw [NoId, NoId, if_neg hp, if_neg (mt hpub.mp hp), h 1 (by omega)]

theorem needsId_congr {b b' : Bytes} (h : byteAt b' 0 = byteAt b 0) : NeedsId b' ↔ NeedsId b := by
  rw [NeedsId, NeedsId, IsPublish, IsPublish, mqttGetType, mqttGetType, mqttGetQos, mqttGetQos, h]

theorem byteAt_of_le {b : Bytes} {j : Nat} (h : b.length ≤ j) : byteAt b j = 0 := by
  rw [byteAt, List.getD_eq_getElem?_getD, List.getElem?_eq_none h]
  rfl

/-- Bytes that were read as zero end the loop, so other bytes in their place do not end it
earlier. -/
theorem lengthLoop_le (b x : Bytes) (n i : Nat) (totlen totlen' : Int) :
    (lengthLoop b n i totlen).1 ≤ (lengthLoop (b ++ x) n i totlen').1 := by
  induction n generalizing i totlen totlen' with
  | zero => exact Nat.le_refl i
  | succ n ih =>
    by_cases hi : i < b.length
    · simp only [lengthLoop, byteAt_append_left hi]
      split
      · exact Nat.le_refl _
      · exact ih ..
    · have hzero : byteAt b i &&& 0x80 = 0 := by
        rw [byteAt_of_le (by omega)]
        rfl
      simp only [lengthLoop, if_pos hzero]
      split
      · exact Nat.le_refl _
      · exact le_lengthLoop ..

theorem lengthLoop_append_of_le {b : Bytes} {n i : Nat} {totlen : Int} (x : Bytes)
    (h : (lengthLoop b n i totlen).1 ≤ b.length) :
    lengthLoop (b ++ x) n i totlen = lengthLoop b n i totlen :=
  lengthLoop_congr fun _ hj => byteAt_append_left (by omega) x

theorem byteAt_le_append (b x : Bytes) (j : Nat) :
    (byteAt b j).toNat ≤ (byteAt (b ++ x) j).toNat := by
  by_cases hj : j < b.length
  · rw [byteAt_append_left hj]
  · rw [byteAt_of_le (by omega)]
    exact Nat.zero_le _

theorem wordAt_eq (b : Bytes) (i : Nat) :
    wordAt b i = (byteAt b i).toNat * 256 + (byteAt b (i + 1)).toNat := by
  have hlo := (byteAt b (i + 1)).toNat_lt
  rw [wordAt, ← Nat.shiftLeft_add_eq_or_of_lt hlo, Nat.shiftLeft_eq]

theorem wordAt_le_append (b x : Bytes) (i : Nat) : wordAt b i ≤ wordAt (b ++ x) i := by
  have hhi := byteAt_le_append b x i
  have hlo := byteAt_le_append b x (i + 1)
  rw [wordAt_eq, wordAt_eq]
  omega

theorem idAt_le_append {b : Bytes} (hb : b ≠ []) (x : Bytes) : idAt b ≤ idAt (b ++ x) := by
  have hpub := isPublish_congr (byteAt_append_left (List.length_pos_of_ne_nil hb) x)
  by_cases hp : IsPublish b
  · rw [idAt, idAt, if_pos hp, if_pos (hpub.mpr hp)]
    have hscan : idScan b ≤ idScan (b ++ x) := lengthLoop_le ..
    by_cases hin : idScan b ≤ b.length
    · rw [show idScan (b ++ x) = idScan b from congrArg Prod.fst (lengthLoop_append_of_le x hin)]
      have hword := wordAt_le_append b x (idScan b)
      omega
    · have hzero : wordAt b (idScan b) = 0 := by
        rw [wordAt_eq, byteAt_of_le (by omega), byteAt_of_le (by omega)]
        rfl
      omega
  · rw [idAt, idAt, if_neg hp, if_neg (mt hpub.mp hp)]

/-- An identifier that is known is the same whatever follows. -/
theorem IdKnown.mqttGetId {b : Bytes} (hb : b ≠ []) (h : IdKnown b) (hneeds : NeedsId b)
    (x : Bytes) : mqttGetId (b ++ x) mqttBufSize = mqttGetId b mqttBufSize := by
  have hzero : byteAt (b ++ x) 0 = byteAt b 0 :=
    byteAt_append_left (List.length_pos_of_ne_nil hb) x
  rw [((needsId_congr hzero).mpr hneeds).mqttGetId, hneeds.mqttGetId]
  rcases h with hin | hno
  · have hsame : ∀ j < idAt b, byteAt (b ++ x) j = byteAt b j :=
      fun j hj => byteAt_append_left (by omega) x
    rw [idAt_congr hsame, wordAt_append_left (by omega)]
    exact if_congr (noId_congr hsame) rfl rfl
  · have hno' : NoId (b ++ x) := by
      by_cases hp : IsPublish b
      · have hle := idAt_le_append hb x
        rw [NoId, if_pos hp] at hno
        rw [NoId, if_pos ((isPublish_congr hzero).mpr hp)]
        omega
      · rw [NoId, if_neg hp] at hno
        rw [NoId, if_neg (mt (isPublish_congr hzero).mp hp)]
        have hone : 1 < b.length := by
          refine Decidable.byContradiction fun hle => hno ?_
          rw [byteAt_of_le (by omega)]
          rfl
        rw [byteAt_append_left hone]
        exact hno
    rw [if_pos hno, if_pos hno']

/-! ## Bytes that were left -/

/-- An `in_buffer` of zeros, but for one byte. -/
def leftWith (i : Nat) (v : UInt8) : Bytes := (List.replicate mqttBufSize 0).set i v

theorem length_leftWith (i : Nat) (v : UInt8) : (leftWith i v).length = mqttBufSize := by
  rw [leftWith, List.length_set, List.length_replicate]

theorem byteAt_leftWith {b : Bytes} {i j : Nat} (hi : b.length ≤ i) (hlt : i < mqttBufSize)
    (v : UInt8) :
    byteAt (b ++ (leftWith i v).drop b.length) j = if j = i then v else byteAt b j := by
  by_cases hj : j < b.length
  · rw [byteAt_append_left hj, if_neg (by omega)]
  · have hdrop : byteAt (b ++ (leftWith i v).drop b.length) j = byteAt (leftWith i v) j := by
      rw [byteAt, byteAt, List.getD_eq_getElem?_getD, List.getD_eq_getElem?_getD,
        List.getElem?_append_right (by omega), List.getElem?_drop,
        show b.length + (j - b.length) = j by omega]
    rw [hdrop, byteAt, List.getD_eq_getElem?_getD, leftWith, List.getElem?_set,
      List.length_replicate, if_pos hlt, byteAt_of_le (by omega)]
    by_cases hji : j = i
    · rw [if_pos hji, if_pos hji.symm]
      rfl
    · rw [if_neg hji, if_neg (Ne.symm hji), List.getElem?_replicate]
      split <;> rfl

/-- The identifier with `v` left in its second byte. -/
def leftId (b : Bytes) (v : UInt8) : Nat := (byteAt b (idAt b)).toNat * 256 + v.toNat

theorem leftId_lt (b : Bytes) (v : UInt8) : leftId b v < 65536 := by
  have hhi := (byteAt b (idAt b)).toNat_lt
  have hlo := v.toNat_lt
  unfold leftId
  omega

theorem leftId_pos (b : Bytes) {v : UInt8} (hv : v ≠ 0) : 0 < leftId b v := by
  have hpos : 0 < v.toNat := Nat.pos_of_ne_zero fun hz => hv (UInt8.toNat_inj.mp hz)
  unfold leftId
  omega

/-- An identifier that is not known is read from what was left. -/
theorem mqttGetId_leftWith {b : Bytes} (hneeds : NeedsId b) (h : ¬IdKnown b) (v : UInt8) :
    mqttGetId (b ++ (leftWith (idAt b + 1) v).drop b.length) mqttBufSize = leftId b v := by
  have hout : b.length ≤ idAt b + 1 := by
    have := mt Or.inl h
    omega
  have hno : ¬NoId b := mt Or.inr h
  have htwo := two_le_idAt b
  have hlt : idAt b + 1 < mqttBufSize := by
    by_cases hp : IsPublish b
    · rw [NoId, if_pos hp] at hno
      omega
    · rw [idAt, if_neg hp]
      decide
  have hbyte := fun j => byteAt_leftWith (j := j) hout hlt v
  generalize b ++ (leftWith (idAt b + 1) v).drop b.length = b' at hbyte ⊢
  have hsame : ∀ j < idAt b, byteAt b' j = byteAt b j := by
    intro j hj
    rw [hbyte, if_neg (by omega)]
  rw [((needsId_congr (hsame 0 (by omega))).mpr hneeds).mqttGetId,
    if_neg (mt (noId_congr hsame).mp hno), idAt_congr hsame, wordAt_eq, hbyte, hbyte,
    if_neg (by omega), if_pos rfl, leftId]

end Mqtt
end EspMisc
