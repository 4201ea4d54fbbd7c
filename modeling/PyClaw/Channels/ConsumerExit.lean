import PyClaw.Channels.Consumers

/-!
# Channels.ConsumerExit

What a consumer leaves behind. Its exit drops the queue of its conversation, with the messages that
came after the end of its wait, that were there when its timer fired or that a cancelled handler was
ahead of. Without such messages a run loses nothing: `Consumers.served_of_admitted`.
-/

namespace PyClaw

namespace Consumers

variable {μ : Type}

section
variable (w : Consumers μ)

/-- Every accepted message was handled, or it waits in the queue. -/
def Kept : Prop := ∀ conv, w.accepted conv = w.started conv ++ w.pending conv

/-- A consumer that is leaving has nothing in its queue. -/
def Settled : Prop :=
  ∀ task c q, w.tasks task = some c → c.phase.leaving = some q → w.items q = []

/-- The conversation whose queue the step drops, because its consumer exits. -/
def exiting : ConsumerStep μ → Option String
  | .task task .resumes =>
    match w.tasks task with
    | some { conversationId, phase := .timedOut _ } => some conversationId
    | some { conversationId, phase := .cancelled (some _) } => some conversationId
    | _ => none
  | .task task (.finishes .cancelled) =>
    match w.tasks task with
    | some { conversationId, phase := .handling _ _ } => some conversationId
    | _ => none
  | _ => none

/-- No consumer exits while a message is in its queue. -/
def DropsNothing (a : ConsumerStep μ) : Prop := ∀ conv, w.exiting a = some conv → w.pending conv = []

def consumerPhase (conv : String) : Option (ConsumerPhase μ) :=
  ((w.consumers conv).bind w.tasks).map Consumer.phase

/-- No message arrives between the end of a consumer's wait and its exit, no wait is ended by its
timer or by a cancellation while a message is in its queue, and no handler is cancelled with messages
behind it. -/
def Admitted : ConsumerStep μ → Prop
  | .enqueues conv _ => ∀ phase ∈ w.consumerPhase conv, phase.leaving = none
  | .task task .timesOut | .task task .cancels =>
    ∀ c ∈ w.tasks task, ∀ q ∈ c.phase.waits, w.items q = []
  | .task task (.finishes .cancelled) => ∀ c ∈ w.tasks task, ∀ q ∈ c.phase.handles, w.items q = []
  | .manages | .task _ _ => True

instance [DecidableEq μ] (a : ConsumerStep μ) : Decidable (w.Admitted a) :=
  match a with
  | .enqueues conv _ =>
    inferInstanceAs (Decidable (∀ phase ∈ w.consumerPhase conv, phase.leaving = none))
  | .task task .timesOut | .task task .cancels =>
    inferInstanceAs (Decidable (∀ c ∈ w.tasks task, ∀ q ∈ c.phase.waits, w.items q = []))
  | .task task (.finishes .cancelled) =>
    inferInstanceAs (Decidable (∀ c ∈ w.tasks task, ∀ q ∈ c.phase.handles, w.items q = []))
  | .manages | .task _ .begins | .task _ .takes | .task _ .resumes | .task _ (.finishes .returns)
  | .task _ (.finishes .fails) => .isTrue trivial

end

section
variable {w : Consumers μ} {task : Nat} {c : Consumer μ} {q : Nat} {conv : String} {msg : μ}
  {rest : List μ} {p : ConsumerPhase μ}

theorem Inv.task_unique (h : w.Inv) {t : Nat} {d : Consumer μ} (hc : w.tasks task = some c)
    (hd : w.tasks t = some d) (hq : c.phase.queue = some q) (hq' : d.phase.queue = some q) :
    t = task := by
  have hconv := h.distinct _ _ q (h.queue t d q hd hq') (h.queue task c q hc hq)
  have htask := h.consumer t d hd (ConsumerPhase.live_of_queue hq')
  rw [hconv, h.consumer task c hc (ConsumerPhase.live_of_queue hq)] at htask
  exact (Option.some.inj htask).symm

theorem Settled.moves (h : w.Settled) (hp : ∀ q, p.leaving = some q → w.items q = []) :
    (w.moves task c p).Settled := by
  intro t d q hd hq
  rcases update_eq_some.mp hd with ⟨-, hnew⟩ | ⟨-, hold⟩
  · cases hnew
    exact hp q hq
  · exact h t d q hold hq

/-- A message that is taken has been begun. -/
theorem Kept.take (h : w.Kept) (hinv : w.Inv) (hq : w.queues c.conversationId = some q)
    (hitems : w.items q = msg :: rest) : (w.take c q msg rest).Kept := by
  intro conv'
  rw [pending_take hinv hq]
  have hold := h conv'
  by_cases he : conv' = c.conversationId
  · rw [he, pending_of_queue hq, hitems] at hold
    rw [if_pos he, he]
    simpa [Consumers.take, Consumers.setBusy] using hold
  · rw [if_neg he]
    simpa [Consumers.take, Consumers.setBusy, Function.update_of_ne he] using hold

/-- Taking a message leaves the other consumers' queues alone. -/
theorem Settled.take (h : w.Settled) (hinv : w.Inv) (hc : w.tasks task = some c)
    (hphase : c.phase = .waiting q) :
    ((w.take c q msg rest).moves task c (.handling q msg)).Settled := by
  intro t d q' hd hq'
  rcases update_eq_some.mp hd with ⟨-, hnew⟩ | ⟨hne, hold⟩
  · cases hnew
    cases hq'
  · have hqne : q' ≠ q := by
      rintro rfl
      exact hne (hinv.task_unique hc hold (by rw [hphase]; rfl) (ConsumerPhase.queue_of_leaving hq'))
    exact (Function.update_of_ne hqne ..).trans (h t d q' hold hq')

theorem ensureQueue_frame (w : Consumers μ) (conv : String) :
    (w.ensureQueue conv).tasks = w.tasks ∧ (w.ensureQueue conv).consumers = w.consumers ∧
      (w.ensureQueue conv).items = w.items ∧ (w.ensureQueue conv).accepted = w.accepted ∧
        (w.ensureQueue conv).started = w.started := by
  unfold ensureQueue
  split <;> exact ⟨rfl, rfl, rfl, rfl, rfl⟩

theorem Kept.put (hinv : w.Inv) (h : w.Kept) (hq : w.queues conv = some q) (msg : μ) :
    (w.put conv msg).Kept := by
  intro conv'
  rw [pending_put hinv hq]
  have hold := h conv'
  simp only [Consumers.put, hq]
  by_cases he : conv' = conv
  · rw [he, pending_of_queue hq] at hold
    rw [if_pos he, he, Function.update_self, hold, List.append_assoc]
  · rw [if_neg he, Function.update_of_ne he]
    exact hold

theorem Settled.put (hinv : w.Inv) (h : w.Settled) (hq : w.queues conv = some q)
    (hphase : ∀ phase ∈ w.consumerPhase conv, phase.leaving = none) (msg : μ) :
    (w.put conv msg).Settled := by
  intro t d q' hd hq'
  simp only [Consumers.put, hq] at hd ⊢
  have hqueue := ConsumerPhase.queue_of_leaving hq'
  have hne : q' ≠ q := by
    rintro rfl
    have hconv := hinv.distinct _ _ q' (hinv.queue t d q' hd hqueue) hq
    have htask := hinv.consumer t d hd (ConsumerPhase.live_of_queue hqueue)
    rw [hconv] at htask
    have hnow : w.consumerPhase conv = some d.phase := by
      simp only [consumerPhase, htask, Option.bind_some, hd, Option.map_some]
    have hnone := hphase d.phase hnow
    rw [hq'] at hnone
    cases hnone
  exact (Function.update_of_ne hne ..).trans (h t d q' hd hq')

theorem Settled.spawn (h : w.Settled) (conv : String) : (w.spawn conv).Settled := by
  intro t d q hd hq
  rcases update_eq_some.mp hd with ⟨-, hnew⟩ | ⟨-, hold⟩
  · cases hnew
    cases hq
  · exact h t d q hold hq

theorem settled_enqueue (hinv : w.Inv) (hkept : w.Kept) (hsettled : w.Settled)
    (hphase : ∀ phase ∈ w.consumerPhase conv, phase.leaving = none) (msg : μ) :
    (w.enqueue conv msg).1.Kept ∧ (w.enqueue conv msg).1.Settled := by
  obtain ⟨hensured, hpending, q, hq⟩ := hinv.ensureQueue conv
  obtain ⟨htasks, hconsumers, hitems, haccepted, hstarted⟩ := ensureQueue_frame w conv
  have hkept' : (w.ensureQueue conv).Kept := by
    intro conv'
    rw [haccepted, hstarted, hpending]
    exact hkept conv'
  have hsettled' : (w.ensureQueue conv).Settled := by
    intro t d q' hd hq'
    rw [hitems]
    exact hsettled t d q' (htasks ▸ hd) hq'
  have hphase' : ∀ phase ∈ (w.ensureQueue conv).consumerPhase conv, phase.leaving = none := by
    intro phase h
    refine hphase phase ?_
    rw [consumerPhase, hconsumers, htasks] at h
    exact h
  have hput := hkept'.put hensured hq msg
  have hput' := hsettled'.put hensured hq hphase' msg
  simp only [Consumers.enqueue]
  split
  · exact ⟨hput, hput'.spawn conv⟩
  · exact ⟨hput, hput'⟩

theorem Kept.exits (h : w.Kept) (hempty : w.pending c.conversationId = []) :
    (w.exits task c).Kept := by
  intro conv'
  rw [pending_exits]
  have hold := h conv'
  by_cases he : conv' = c.conversationId
  · rw [he, hempty] at hold
    rw [if_pos he, he]
    exact hold
  · rw [if_neg he]
    exact hold

/-- The queue of a consumer that exits in an admitted step is empty. -/
theorem dropsNothing_of_admitted (hinv : w.Inv) (hsettled : w.Settled) {a : ConsumerStep μ}
    (ha : w.Admitted a) : w.DropsNothing a := by
  have hleaving : ∀ t d q, w.tasks t = some d → d.phase.leaving = some q →
      w.pending d.conversationId = [] := by
    intro t d q hd hq
    rw [pending_of_queue (hinv.queue t d q hd (ConsumerPhase.queue_of_leaving hq))]
    exact hsettled t d q hd hq
  intro conv hexit
  unfold exiting at hexit
  split at hexit
  · split at hexit
    · rename_i hd
      cases hexit
      exact hleaving _ _ _ hd rfl
    · rename_i hd
      cases hexit
      exact hleaving _ _ _ hd rfl
    · cases hexit
  · split at hexit
    · rename_i q msg hd
      cases hexit
      rw [pending_of_queue (hinv.queue _ _ q hd rfl)]
      exact ha _ hd q rfl
    · cases hexit
  · cases hexit

theorem kept_stepTask (hinv : w.Inv) (hkept : w.Kept) (hsettled : w.Settled)
    (hc : w.tasks task = some c) {event : ConsumerEvent} (ha : w.Admitted (.task task event)) :
    (w.stepTask task c event).Kept ∧ (w.stepTask task c event).Settled := by
  have hstay : w.Kept ∧ w.Settled := ⟨hkept, hsettled⟩
  have hdrops := dropsNothing_of_admitted hinv hsettled ha
  obtain ⟨conv, phase⟩ := c
  have hended : (w.moves task ⟨conv, phase⟩ .ended).Settled :=
    hsettled.moves fun q hq => by cases hq
  cases event with
  | begins =>
    simp only [stepTask]
    split
    · split
      · exact ⟨hkept, hsettled.moves fun q hq => by cases hq⟩
      · exact ⟨hkept, hended⟩
    · exact hstay
  | takes =>
    simp only [stepTask]
    split
    · rename_i q
      split
      · rename_i msg rest hitems
        have hq := hinv.queue task _ q hc rfl
        exact ⟨hkept.take hinv hq hitems, hsettled.take hinv hc rfl⟩
      · exact hstay
    · exact hstay
  | timesOut =>
    simp only [stepTask]
    split
    · rename_i q
      refine ⟨hkept, hsettled.moves fun q' hq => ?_⟩
      cases hq
      exact ha _ hc q rfl
    · exact hstay
  | cancels =>
    refine ⟨hkept, hsettled.moves fun q hq => ?_⟩
    cases phase with
    | waiting q' =>
      cases hq
      exact ha _ hc q rfl
    | timedOut q' =>
      cases hq
      exact hsettled task _ q hc rfl
    | cancelled q' => exact hsettled task _ q hc hq
    | spawned => cases hq
    | handling q' msg => cases hq
    | ended => cases hq
  | resumes =>
    simp only [DropsNothing, exiting, hc] at hdrops
    simp only [stepTask]
    split
    · exact ⟨hkept.exits (hdrops conv rfl), hended⟩
    · exact ⟨hkept.exits (hdrops conv rfl), hended⟩
    · exact ⟨hkept, hended⟩
    · exact hstay
  | finishes how =>
    simp only [stepTask]
    split
    · split
      · simp only [DropsNothing, exiting, hc] at hdrops
        exact ⟨hkept.exits (hdrops conv rfl), hended⟩
      all_goals exact ⟨hkept, hsettled.moves fun q hq => by cases hq⟩
    · exact hstay

theorem kept_step (hinv : w.Inv) (hkept : w.Kept) (hsettled : w.Settled) {a : ConsumerStep μ}
    (ha : w.Admitted a) : (w.step a).Kept ∧ (w.step a).Settled := by
  cases a with
  | manages => exact ⟨hkept, hsettled⟩
  | enqueues conv msg => exact settled_enqueue hinv hkept hsettled ha msg
  | task task event =>
    simp only [step]
    split
    · rename_i c hc
      exact kept_stepTask hinv hkept hsettled hc ha
    · exact ⟨hkept, hsettled⟩

/-- Every run handles the messages of a conversation one at a time and in order; a run whose steps
are all admitted also keeps every accepted message until it is handled, and none of its consumers
drops a queue with a message in it. -/
theorem served_of_admitted (steps : List (ConsumerStep μ)) :
    (runFrom step {} steps).Serial ∧
      (Along step Admitted {} steps →
        (runFrom step {} steps).Kept ∧ Along step DropsNothing {} steps) := by
  refine ⟨serial steps, fun hsteps => ?_⟩
  have hstep : ∀ (w : Consumers μ) a, w.Inv ∧ w.Kept ∧ w.Settled → w.Admitted a →
      (w.step a).Inv ∧ (w.step a).Kept ∧ (w.step a).Settled :=
    fun w a h ha => ⟨h.1.step a, kept_step h.1 h.2.1 h.2.2 ha⟩
  have hstart : Inv ({} : Consumers μ) ∧ Kept ({} : Consumers μ) ∧ Settled ({} : Consumers μ) :=
    ⟨start_inv, fun _ => rfl, fun _ _ _ h => by cases h⟩
  refine ⟨(hsteps.invariant hstep hstart).2.1, Along.of_invariant
    (I := fun w : Consumers μ => w.Inv ∧ w.Kept ∧ w.Settled) (fun w a h ha => ?_) hstart hsteps⟩
  exact ⟨hstep w a h ha, dropsNothing_of_admitted h.1 h.2.2 ha⟩

/-- Two messages, and a third after the cancellation of the second one's handler. -/
def cancelledRun : List (ConsumerStep Nat) :=
  [.manages, .enqueues "c1" 0, .task 0 .begins, .enqueues "c1" 1, .task 0 .takes,
    .task 0 (.finishes .returns), .task 0 .takes, .task 0 (.finishes .cancelled), .enqueues "c1" 2]

theorem cancelledRun_kept : (runFrom step {} cancelledRun).Kept :=
  ((served_of_admitted cancelledRun).2 (by decide)).1

/-! ## A message at a consumer that is leaving -/

/-- The second message arrives when the wait has timed out and the consumer has not resumed. -/
def lateMessage : List (ConsumerStep Nat) :=
  [.manages, .enqueues "c1" 0, .task 0 .begins, .task 0 .takes, .task 0 (.finishes .returns),
    .task 0 .timesOut, .enqueues "c1" 1, .task 0 .resumes]

theorem lateMessage_lost :
    ¬ (∀ steps : List (ConsumerStep Nat), (runFrom step {} steps).Serial ∧
      (runFrom step {} steps).Kept ∧ Along step DropsNothing {} steps) := by
  intro h
  have hkept := (h lateMessage).2.1 "c1"
  revert hkept
  decide

end

end Consumers

end PyClaw
