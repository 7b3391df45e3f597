/-
Messages that leave the queue.

The task takes the next message out of the ring before it hands it to
`espconn_send`, and it does not look at the result.  `Lossless` is what a sender
should do, and `task_lossless_iff` says over whole runs when the task does it.
-/
import EspMisc.Mqtt.Link

namespace EspMisc
namespace Mqtt

open Machine

/-- What the branch of `MQTT_DATA` does to the queue. -/
theorem sendQueued_spec {client : MqttClient} (h : Ready client) (answers : Answers) :
    ((sendQueued client answers).1.msgQueue.messages = client.msgQueue.messages ∧
        (sendQueued client answers).2 = [] ∧
        ¬ (client.sendTimeout = 0 ∧ client.msgQueue.messages ≠ [])) ∨
      (client.sendTimeout = 0 ∧
        ∃ m, client.msgQueue.messages = m :: (sendQueued client answers).1.msgQueue.messages ∧
          (sendQueued client answers).2 =
            client.plain (.espconnSend client.pCon m answers.send)) := by
  unfold sendQueued
  by_cases hskip : queueIsEmpty client.msgQueue = true ∨ client.sendTimeout ≠ 0
  · rw [if_pos hskip]
    refine Or.inl ⟨rfl, rfl, fun hsend => ?_⟩
    rcases hskip with hempty | htimeout
    · exact hsend.2 (h.queue.messages_eq_nil hempty)
    · exact htimeout hsend.1
  · rw [if_neg hskip]
    have htimeout : client.sendTimeout = 0 := Decidable.not_not.mp fun hn => hskip (Or.inr hn)
    rcases h.queue.messages_gets answers (answers.isBegin 0) with
      ⟨hnil, hret, hnil'⟩ | ⟨hret, hcons⟩
    · simp only [hret, show ¬ (-1 : Int) = 0 by decide, if_false]
      exact Or.inl ⟨hnil'.trans hnil.symm, trivial, fun hsend => hsend.2 hnil⟩
    · simp only [hret, if_true]
      exact Or.inr ⟨htimeout, _, hcons, rfl⟩

/-- The task in `MQTT_DATA` removes a message only when `espconn_send` has accepted
it, and a message that was refused is still the next one. -/
def Lossless (k : Record) : Prop :=
  k.input.1 = .task → k.before.client.connState = .mqttData →
    (k.after.client.msgQueue.messages ≠ k.before.client.msgQueue.messages →
      ∃ m p, k.before.client.msgQueue.messages = m :: k.after.client.msgQueue.messages ∧
        .espconnSend p m espconnOk ∈ k.output) ∧
    ∀ p m result, .espconnSend p m result ∈ k.output → result ≠ espconnOk →
      k.after.client.msgQueue.messages.head? = some m

/-- Whenever the task has a message to send, it sends it in the clear and
`espconn_send` accepts it. -/
def Accepted (k : Record) : Prop :=
  k.input.1 = .task → k.before.client.connState = .mqttData →
    k.before.client.sendTimeout = 0 → k.before.client.msgQueue.messages ≠ [] →
    k.before.client.security = 0 ∧ k.input.2.send = espconnOk

theorem mem_plain {client : MqttClient} {e e' : Effect} :
    e ∈ client.plain e' ↔ client.security = 0 ∧ e = e' :=
  Control.mem_plain (c := client.control)

/-- One step loses nothing exactly when what it takes is accepted. -/
theorem step_lossless_iff {k : Record} (hr : Ready k.before.client)
    (h : step k.before k.input = some (k.after, k.output)) : Lossless k ↔ Accepted k := by
  unfold Lossless Accepted
  refine imp_congr_right fun htask => imp_congr_right fun hst => ?_
  have hrun := (step_handle h).2.1
  rw [htask] at hrun
  have hsend := Option.some.inj ((mqttTask_data hst _ _).symm.trans hrun)
  have hspec := sendQueued_spec hr k.input.2
  simp only [hsend] at hspec
  rcases hspec with ⟨hsame, hout, hidle⟩ | ⟨htimeout, m, hcons, hout⟩
  · constructor
    · intro _ h0 hne
      exact absurd ⟨h0, hne⟩ hidle
    · intro _
      refine ⟨fun hne => absurd hsame hne, fun p m r hmem => ?_⟩
      rw [hout] at hmem
      exact absurd hmem List.not_mem_nil
  · have hmem : ∀ p m' r, .espconnSend p m' r ∈ k.output ↔ k.before.client.security = 0 ∧
        p = k.before.client.pCon ∧ m' = m ∧ r = k.input.2.send := by
      intro p m' r
      rw [hout, mem_plain, Effect.espconnSend.injEq]
    have hne : k.after.client.msgQueue.messages ≠ k.before.client.msgQueue.messages := by
      rw [hcons]
      exact (List.cons_ne_self m _).symm
    constructor
    · intro hloss _ _
      obtain ⟨m', p, -, hsent⟩ := hloss.1 hne
      obtain ⟨hsec, -, -, hres⟩ := (hmem _ _ _).mp hsent
      exact ⟨hsec, hres.symm⟩
    · intro hacc
      obtain ⟨hsec, hres⟩ := hacc htimeout (by rw [hcons]; exact List.cons_ne_nil _ _)
      refine ⟨fun _ => ⟨m, _, hcons, (hmem _ _ _).mpr ⟨hsec, rfl, rfl, hres.symm⟩⟩, ?_⟩
      intro p m' r hsent hbad
      exact absurd (((hmem _ _ _).mp hsent).2.2.2.trans hres) hbad

/-- A run loses no message of the queue exactly when `espconn_send` accepts every
message that its tasks take out. -/
theorem task_lossless_iff {u : Setup} {tr : List Record} {w : World} (h : ClientRun u tr w) :
    (∀ k ∈ tr, Lossless k) ↔ ∀ k ∈ tr, Accepted k := by
  refine forall_congr' fun k => imp_congr_right fun hk => ?_
  obtain ⟨tr', hrun, -, hstep⟩ := h.taken_of_mem hk
  exact step_lossless_iff (ClientRun.ready hrun) hstep

/-- The SDK refuses to send. -/
def refusal : Answers := { sampleAnswers with send := -11 }

theorem sampleQueued_task_isSome : (step sampleQueuedWorld (.task, refusal)).isSome := by decide

/-- A message that `espconn_send` refuses is gone. -/
theorem task_not_lossless :
    ∃ tr w, ClientRun sampleSetup tr w ∧ ¬ ∀ k ∈ tr, Lossless k := by
  have hrun : ClientRun sampleSetup _ sampleQueuedWorld := exec_get sampleQueued_isSome
  refine ⟨_, _, hrun.snoc_get sampleQueued_task_isSome, fun hall => ?_⟩
  have hloss := hall _ (List.mem_append_right _ (List.mem_singleton_self _))
  have hstep := (Option.some_get sampleQueued_task_isSome).symm
  have hacc := (step_lossless_iff (ClientRun.ready hrun) hstep).mp hloss
  have hok := (hacc rfl (by decide) (by decide) (by decide +kernel)).2
  exact absurd hok (by decide)

/-- With every answer `ESPCONN_OK` the task sends the message of the sample, and nothing
is lost. -/
theorem task_lossless_iff_sample :
    ∃ tr w, ClientRun sampleSetup tr w ∧
      (∃ k ∈ tr, .espconnSend (some 0) [0x30, 0x04, 0x00, 0x01, 0x61, 0x62] espconnOk ∈ k.output) ∧
      ∀ k ∈ tr, Lossless k := by
  have hrun : ClientRun sampleSetup _ sampleQueuedWorld := exec_get sampleQueued_isSome
  have hsend := hrun.snoc_get sampleQueued_send_isSome
  have hsent : .espconnSend (some 0) [0x30, 0x04, 0x00, 0x01, 0x61, 0x62] espconnOk ∈
      ((step sampleQueuedWorld (.task, sampleAnswers)).get sampleQueued_send_isSome).2 := by
    decide +kernel
  refine ⟨_, _, hsend, ⟨_, List.mem_append_right _ (List.mem_singleton_self _), hsent⟩,
    (task_lossless_iff hsend).mpr ?_⟩
  refine List.forall_mem_append.mpr ⟨fun k hk htask => ?_, ?_⟩
  · have hmem := input_mem_of_exec sampleQueued_isSome hk
    rw [show k.input = (.task, k.input.2) from Prod.ext htask rfl] at hmem
    simp [sampleQueued, sampleConnect] at hmem
  · exact List.forall_mem_singleton.mpr fun _ _ _ _ => ⟨by decide, rfl⟩

end Mqtt
end EspMisc
