import PyClaw.Lib.Machine
import PyClaw.Lib.Table

/-!
# Channels.Consumers

The queues of the web `SessionQueue` and the tasks that consume them. `_consume` reads its queue from
the table once and drops the table's entry when it exits; a wait that has timed out is over before
the task resumes. The handlers of a conversation run one at a time and in order in every run
(`Consumers.serial`), and nothing is lost when no message arrives at a consumer that is leaving
(`served_of_admitted`).
-/

namespace PyClaw

/-- How a handler ends: an exception is logged, a cancellation ends the consumer. -/
inductive HandlerEnd where
  | returns
  | fails
  | cancelled
  deriving DecidableEq, Repr

/-- Where a consumer task is, with the queue object that it has read from the table. -/
inductive ConsumerPhase (μ : Type) where
  | spawned
  /-- In `wait_for(q.get())`. -/
  | waiting (q : Nat)
  /-- The wait is over, the task has not resumed. -/
  | timedOut (q : Nat)
  | cancelled (q : Option Nat)
  | handling (q : Nat) (msg : μ)
  | ended
  deriving DecidableEq, Repr

namespace ConsumerPhase

variable {μ : Type}

def live : ConsumerPhase μ → Bool
  | .ended => false
  | _ => true

def queue : ConsumerPhase μ → Option Nat
  | .waiting q | .timedOut q | .handling q _ => some q
  | .cancelled q => q
  | .spawned | .ended => none

/-- The queue that the task drops as soon as it resumes. -/
def leaving : ConsumerPhase μ → Option Nat
  | .timedOut q => some q
  | .cancelled q => q
  | _ => none

def waits : ConsumerPhase μ → Option Nat
  | .waiting q => some q
  | _ => none

def handles : ConsumerPhase μ → Option Nat
  | .handling q _ => some q
  | _ => none

def cancel : ConsumerPhase μ → ConsumerPhase μ
  | .spawned => .cancelled none
  | .waiting q | .timedOut q => .cancelled (some q)
  | phase => phase

theorem queue_of_leaving {p : ConsumerPhase μ} {q : Nat} (h : p.leaving = some q) :
    p.queue = some q := by
  cases p <;> first | exact h | cases h

theorem live_of_queue {p : ConsumerPhase μ} {q : Nat} (h : p.queue = some q) : p.live = true := by
  cases p <;> first | rfl | cases h

end ConsumerPhase

structure Consumer (μ : Type) where
  conversationId : String
  phase : ConsumerPhase μ
  deriving DecidableEq, Repr

/-- The tables of the queue, the queue objects and the tasks, both numbered in the order of their
creation, and the messages of each conversation that were accepted and that a handler began. -/
structure Consumers (μ : Type) where
  managed : Bool := false
  queues : String → Option Nat := fun _ => none
  items : Nat → List μ := fun _ => []
  consumers : String → Option Nat := fun _ => none
  busy : String → Bool := fun _ => false
  tasks : Nat → Option (Consumer μ) := fun _ => none
  queueCount : Nat := 0
  taskCount : Nat := 0
  accepted : String → List μ := fun _ => []
  started : String → List μ := fun _ => []

inductive ConsumerEvent where
  /-- The task runs for the first time. -/
  | begins
  | takes
  /-- The timer of `wait_for` fires. -/
  | timesOut
  /-- `task.cancel()`. A handler that is cancelled ends in its own way (`finishes`). -/
  | cancels
  /-- The task resumes after its wait is over. -/
  | resumes
  | finishes (how : HandlerEnd)
  deriving DecidableEq, Repr

inductive ConsumerStep (μ : Type) where
  /-- `set_task_manager`. -/
  | manages
  | enqueues (conversationId : String) (msg : μ)
  | task (task : Nat) (event : ConsumerEvent)

namespace Consumers

variable {μ : Type}

section
variable (w : Consumers μ)

/-- `get_state(task) == "running"`. -/
def running (task : Nat) : Bool :=
  match w.tasks task with
  | some c => c.phase.live
  | none => false

def consumerRunning (conversationId : String) : Bool :=
  match w.consumers conversationId with
  | some task => w.managed && w.running task
  | none => false

/-- The messages in the queue of a conversation. -/
def pending (conversationId : String) : List μ :=
  match w.queues conversationId with
  | some q => w.items q
  | none => []

def queuePosition (conversationId : String) : Nat :=
  (w.pending conversationId).length + if w.busy conversationId then 1 else 0

def ensureQueue (conversationId : String) : Consumers μ :=
  match w.queues conversationId with
  | some _ => w
  | none =>
    { w with
      queues := Function.update w.queues conversationId (some w.queueCount)
      queueCount := w.queueCount + 1 }

def put (conversationId : String) (msg : μ) : Consumers μ :=
  match w.queues conversationId with
  | some q =>
    { w with
      items := Function.update w.items q (w.items q ++ [msg])
      accepted := Function.update w.accepted conversationId (w.accepted conversationId ++ [msg]) }
  | none => w

def spawn (conversationId : String) : Consumers μ :=
  { w with
    tasks := Function.update w.tasks w.taskCount (some { conversationId, phase := .spawned })
    consumers := Function.update w.consumers conversationId (some w.taskCount)
    taskCount := w.taskCount + 1 }

/-- The state after `enqueue`, and the position that it returns. -/
def enqueue (conversationId : String) (msg : μ) : Consumers μ × Nat :=
  let w := w.ensureQueue conversationId
  let position := w.queuePosition conversationId
  let w := w.put conversationId msg
  if !w.consumerRunning conversationId && w.managed then (w.spawn conversationId, position)
  else (w, position)

def moves (task : Nat) (c : Consumer μ) (phase : ConsumerPhase μ) : Consumers μ :=
  { w with tasks := Function.update w.tasks task (some { c with phase }) }

/-- The `finally` of `_consume`. -/
def exits (task : Nat) (c : Consumer μ) : Consumers μ :=
  { w with
    queues := Function.update w.queues c.conversationId none
    consumers := Function.update w.consumers c.conversationId none
    busy := Function.update w.busy c.conversationId false }.moves task c .ended

def setBusy (conversationId : String) (busy : Bool) : Consumers μ :=
  { w with busy := Function.update w.busy conversationId busy }

/-- The handler of the first message of the queue begins. -/
def take (c : Consumer μ) (q : Nat) (msg : μ) (rest : List μ) : Consumers μ :=
  { w with
    items := Function.update w.items q rest
    started :=
      Function.update w.started c.conversationId (w.started c.conversationId ++ [msg]) }.setBusy
    c.conversationId true

def stepTask (task : Nat) (c : Consumer μ) : ConsumerEvent → Consumers μ
  | .begins =>
    match c.phase with
    | .spawned =>
      match w.queues c.conversationId with
      | some q => w.moves task c (.waiting q)
      -- the KeyError is raised before the `try`
      | none => w.moves task c .ended
    | _ => w
  | .takes =>
    match c.phase with
    | .waiting q =>
      match w.items q with
      | msg :: rest => (w.take c q msg rest).moves task c (.handling q msg)
      | [] => w
    | _ => w
  | .timesOut =>
    match c.phase with
    -- also when an item has arrived for which the task has not resumed: `q.get()` is cancelled and
    -- leaves it in the queue
    | .waiting q => w.moves task c (.timedOut q)
    | _ => w
  | .cancels => w.moves task c c.phase.cancel
  | .resumes =>
    match c.phase with
    | .timedOut _ | .cancelled (some _) => w.exits task c
    | .cancelled none => w.moves task c .ended
    | _ => w
  | .finishes how =>
    match c.phase with
    | .handling q _ =>
      match how with
      | .cancelled => w.exits task c
      | .returns | .fails => (w.setBusy c.conversationId false).moves task c (.waiting q)
    | _ => w

def step : ConsumerStep μ → Consumers μ
  | .manages => { w with managed := true }
  | .enqueues conversationId msg => (w.enqueue conversationId msg).1
  | .task task event =>
    match w.tasks task with
    | some c => w.stepTask task c event
    | none => w

/-! ## What a run keeps -/

/-- The tables name the one live task of a conversation and the queue that it reads, and the messages
begun, followed by those that wait, are in the order of their acceptance. -/
structure Inv : Prop where
  consumer : ∀ task c, w.tasks task = some c → c.phase.live = true →
    w.consumers c.conversationId = some task
  queue : ∀ task c q, w.tasks task = some c → c.phase.queue = some q →
    w.queues c.conversationId = some q
  distinct : ∀ conv conv' q, w.queues conv = some q → w.queues conv' = some q → conv = conv'
  freshQueue : ∀ conv q, w.queues conv = some q → q < w.queueCount
  freshItems : ∀ q, w.queueCount ≤ q → w.items q = []
  freshTask : ∀ task, w.taskCount ≤ task → w.tasks task = none
  order : ∀ conv, List.Sublist (w.started conv ++ w.pending conv) (w.accepted conv)

end

section
variable {w : Consumers μ} {task : Nat} {c : Consumer μ} {q : Nat} {conv : String} {msg : μ}
  {rest : List μ} {p : ConsumerPhase μ}

theorem pending_of_queue (h : w.queues conv = some q) : w.pending conv = w.items q := by
  simp only [pending, h]

/-- Changing the items of one queue object changes what waits for one conversation. -/
theorem Inv.pending_items (h : w.Inv) (hq : w.queues conv = some q) (l : List μ) (conv' : String) :
    ({ w with items := Function.update w.items q l } : Consumers μ).pending conv' =
      if conv' = conv then l else w.pending conv' := by
  by_cases hconv : conv' = conv
  · rw [if_pos hconv, hconv]
    exact (pending_of_queue (w := { w with items := Function.update w.items q l }) hq).trans
      (Function.update_self ..)
  · rw [if_neg hconv]
    unfold pending
    cases hq' : w.queues conv' with
    | none => rfl
    | some q' =>
      have hne : q' ≠ q := by
        rintro rfl
        exact hconv (h.distinct conv' conv q' hq' hq)
      exact Function.update_of_ne hne ..

/-! ### Operations -/

theorem Inv.ensureQueue (h : w.Inv) (conv : String) :
    (w.ensureQueue conv).Inv ∧ (∀ conv', (w.ensureQueue conv).pending conv' = w.pending conv') ∧
      ∃ q, (w.ensureQueue conv).queues conv = some q := by
  unfold Consumers.ensureQueue
  cases hconv : w.queues conv with
  | some q => exact ⟨h, fun _ => rfl, q, hconv⟩
  | none =>
    have hpending : ∀ conv', Consumers.pending { w with
        queues := Function.update w.queues conv (some w.queueCount)
        queueCount := w.queueCount + 1 } conv' = w.pending conv' := by
      intro conv'
      by_cases he : conv' = conv
      · subst he
        rw [pending_of_queue (Function.update_self ..), pending, hconv]
        exact h.freshItems _ (Nat.le_refl _)
      · simp only [pending, Function.update_of_ne he]
    refine ⟨⟨h.consumer, ?_, ?_, ?_, ?_, h.freshTask, ?_⟩, hpending, _, Function.update_self ..⟩
    · intro task c q hc hq
      have hold := h.queue task c q hc hq
      refine update_eq_some.mpr (.inr ⟨?_, hold⟩)
      intro he
      rw [he, hconv] at hold
      cases hold
    · intro a b q ha hb
      rcases update_eq_some.mp ha with ⟨rfl, hqa⟩ | ⟨hane, hqa⟩
      · rcases update_eq_some.mp hb with ⟨rfl, -⟩ | ⟨-, hqb⟩
        · rfl
        · cases hqa
          exact absurd (h.freshQueue b _ hqb) (Nat.lt_irrefl _)
      · rcases update_eq_some.mp hb with ⟨rfl, hqb⟩ | ⟨-, hqb⟩
        · cases hqb
          exact absurd (h.freshQueue a _ hqa) (Nat.lt_irrefl _)
        · exact h.distinct a b q hqa hqb
    · intro a q ha
      rcases update_eq_some.mp ha with ⟨-, hq⟩ | ⟨-, hq⟩
      · cases hq
        exact Nat.lt_succ_self _
      · exact Nat.lt_succ_of_lt (h.freshQueue a q hq)
    · intro q hq
      exact h.freshItems q (Nat.le_of_succ_le hq)
    · intro conv'
      rw [hpending]
      exact h.order conv'

theorem pending_put (h : w.Inv) (hq : w.queues conv = some q) (msg : μ) (conv' : String) :
    (w.put conv msg).pending conv' = if conv' = conv then w.items q ++ [msg] else w.pending conv' := by
  simp only [put, hq]
  exact h.pending_items hq _ conv'

theorem Inv.put (h : w.Inv) (hq : w.queues conv = some q) (msg : μ) : (w.put conv msg).Inv := by
  have hpending := pending_put h hq msg
  simp only [Consumers.put, hq] at hpending ⊢
  refine ⟨h.consumer, h.queue, h.distinct, h.freshQueue, ?_, h.freshTask, ?_⟩
  · intro q' hq'
    have hne : q' ≠ q := Nat.ne_of_gt (Nat.lt_of_lt_of_le (h.freshQueue conv q hq) hq')
    exact (Function.update_of_ne hne ..).trans (h.freshItems q' hq')
  · intro conv'
    rw [hpending]
    by_cases he : conv' = conv
    · subst he
      have hold := h.order conv'
      rw [pending_of_queue hq] at hold
      simp only [if_true, Function.update_self, ← List.append_assoc]
      exact hold.append_right [msg]
    · simp only [if_neg he, Function.update_of_ne he]
      exact h.order conv'

/-- No task of the conversation is running when one is spawned. -/
theorem Inv.spawn (h : w.Inv) (hidle : ∀ task c, w.tasks task = some c → c.phase.live = true →
    c.conversationId ≠ conv) : (w.spawn conv).Inv := by
  refine ⟨?_, ?_, h.distinct, h.freshQueue, h.freshItems, ?_, h.order⟩
  · intro task c hc hlive
    rcases update_eq_some.mp hc with ⟨rfl, hnew⟩ | ⟨-, hold⟩
    · cases hnew
      exact Function.update_self ..
    · exact (Function.update_of_ne (hidle task c hold hlive) ..).trans (h.consumer task c hold hlive)
  · intro task c q hc hq
    rcases update_eq_some.mp hc with ⟨rfl, hnew⟩ | ⟨-, hold⟩
    · cases hnew
      cases hq
    · exact h.queue task c q hold hq
  · intro task htask
    have hne : task ≠ w.taskCount := Nat.ne_of_gt htask
    exact (Function.update_of_ne hne ..).trans (h.freshTask task (Nat.le_of_succ_le htask))

theorem Inv.moves (h : w.Inv) (hc : w.tasks task = some c)
    (hlive : p.live = true → c.phase.live = true)
    (hqueue : ∀ q, p.queue = some q → w.queues c.conversationId = some q) :
    (w.moves task c p).Inv := by
  refine ⟨?_, ?_, h.distinct, h.freshQueue, h.freshItems, ?_, h.order⟩
  · intro t d hd hdlive
    rcases update_eq_some.mp hd with ⟨rfl, hnew⟩ | ⟨-, hold⟩
    · cases hnew
      exact h.consumer t c hc (hlive hdlive)
    · exact h.consumer t d hold hdlive
  · intro t d q hd hdq
    rcases update_eq_some.mp hd with ⟨rfl, hnew⟩ | ⟨-, hold⟩
    · cases hnew
      exact hqueue q hdq
    · exact h.queue t d q hold hdq
  · intro t ht
    have hne : t ≠ task := by
      rintro rfl
      rw [h.freshTask t ht] at hc
      cases hc
    exact (Function.update_of_ne hne ..).trans (h.freshTask t ht)

theorem Inv.setBusy (h : w.Inv) (conv : String) (b : Bool) : (w.setBusy conv b).Inv :=
  ⟨h.consumer, h.queue, h.distinct, h.freshQueue, h.freshItems, h.freshTask, h.order⟩

theorem pending_take (h : w.Inv) (hq : w.queues c.conversationId = some q) (msg : μ)
    (rest : List μ) (conv' : String) : (w.take c q msg rest).pending conv' =
      if conv' = c.conversationId then rest else w.pending conv' :=
  h.pending_items hq rest conv'

theorem Inv.take (h : w.Inv) (hq : w.queues c.conversationId = some q)
    (hitems : w.items q = msg :: rest) : (w.take c q msg rest).Inv := by
  refine ⟨h.consumer, h.queue, h.distinct, h.freshQueue, ?_, h.freshTask, ?_⟩
  · intro q' hq'
    have hne : q' ≠ q := Nat.ne_of_gt (Nat.lt_of_lt_of_le (h.freshQueue _ q hq) hq')
    exact (Function.update_of_ne hne ..).trans (h.freshItems q' hq')
  · intro conv'
    rw [pending_take h hq]
    have hold := h.order conv'
    by_cases he : conv' = c.conversationId
    · rw [he, pending_of_queue hq, hitems] at hold
      rw [if_pos he, he]
      simpa [Consumers.take, Consumers.setBusy] using hold
    · rw [if_neg he]
      simpa [Consumers.take, Consumers.setBusy, Function.update_of_ne he] using hold

theorem pending_exits (w : Consumers μ) (task : Nat) (c : Consumer μ) (conv' : String) :
    (w.exits task c).pending conv' = if conv' = c.conversationId then [] else w.pending conv' := by
  by_cases he : conv' = c.conversationId
  · subst he
    simp [pending, exits, moves]
  · simp [pending, exits, moves, he]

theorem Inv.exits (h : w.Inv) (hc : w.tasks task = some c) (hlive : c.phase.live = true) :
    (w.exits task c).Inv := by
  -- any other live task is of another conversation
  have hother : ∀ t d, t ≠ task → w.tasks t = some d → d.phase.live = true →
      d.conversationId ≠ c.conversationId := by
    intro t d hne hd hdlive he
    have htask := h.consumer t d hd hdlive
    rw [he, h.consumer task c hc hlive] at htask
    exact hne (Option.some.inj htask).symm
  refine ⟨?_, ?_, ?_, ?_, h.freshItems, ?_, ?_⟩
  · intro t d hd hdlive
    rcases update_eq_some.mp hd with ⟨rfl, hnew⟩ | ⟨hne, hold⟩
    · cases hnew
      cases hdlive
    · exact update_none_eq_some.mpr
        ⟨hother t d hne hold hdlive, h.consumer t d hold hdlive⟩
  · intro t d q hd hdq
    rcases update_eq_some.mp hd with ⟨rfl, hnew⟩ | ⟨hne, hold⟩
    · cases hnew
      cases hdq
    · exact update_none_eq_some.mpr ⟨hother t d hne hold (ConsumerPhase.live_of_queue hdq),
        h.queue t d q hold hdq⟩
  · intro a b q ha hb
    exact h.distinct a b q (update_none_eq_some.mp ha).2 (update_none_eq_some.mp hb).2
  · intro a q ha
    exact h.freshQueue a q (update_none_eq_some.mp ha).2
  · intro t ht
    have hne : t ≠ task := by
      rintro rfl
      rw [h.freshTask t ht] at hc
      cases hc
    exact (Function.update_of_ne hne ..).trans (h.freshTask t ht)
  · intro conv'
    rw [pending_exits]
    refine List.Sublist.trans ?_ (h.order conv')
    refine (List.Sublist.refl _).append ?_
    split
    · exact List.nil_sublist _
    · exact List.Sublist.refl _

/-! ### Steps -/

theorem Inv.consumerRunning (h : w.Inv) (hmanaged : w.managed = true)
    (hidle : w.consumerRunning conv = false) (task : Nat) (c : Consumer μ)
    (hc : w.tasks task = some c) (hlive : c.phase.live = true) : c.conversationId ≠ conv := by
  rintro rfl
  simp only [Consumers.consumerRunning, h.consumer task c hc hlive, running, hc, hmanaged, hlive] at hidle
  cases hidle

theorem Inv.enqueue (h : w.Inv) (conv : String) (msg : μ) : (w.enqueue conv msg).1.Inv := by
  obtain ⟨hensured, -, q, hq⟩ := h.ensureQueue conv
  have hput := hensured.put hq msg
  simp only [Consumers.enqueue]
  split
  · rename_i hspawn
    obtain ⟨hidle, hmanaged⟩ := Bool.and_eq_true_iff.mp hspawn
    exact hput.spawn (hput.consumerRunning hmanaged (by simpa using hidle))
  · exact hput

theorem live_of_cancel (h : p.cancel.live = true) : p.live = true := by
  cases p <;> first | rfl | cases h

theorem queue_of_cancel (h : p.cancel.queue = some q) : p.queue = some q := by
  cases p <;> exact h

theorem Inv.stepTask (h : w.Inv) (hc : w.tasks task = some c) (event : ConsumerEvent) :
    (w.stepTask task c event).Inv := by
  cases event with
  | begins =>
    simp only [Consumers.stepTask]
    split
    · rename_i hphase
      split
      · rename_i q hq
        exact h.moves hc (fun _ => by rw [hphase]; rfl) fun q' hq' => by cases hq'; exact hq
      · exact h.moves hc (fun hlive => by cases hlive) fun q' hq' => by cases hq'
    · exact h
  | takes =>
    simp only [Consumers.stepTask]
    split
    · rename_i q hphase
      have hq := h.queue task c q hc (by rw [hphase]; rfl)
      split
      · rename_i msg rest hitems
        refine (h.take hq hitems).moves hc (fun _ => by rw [hphase]; rfl) fun q' hq' => ?_
        cases hq'
        exact hq
      · exact h
    · exact h
  | timesOut =>
    simp only [Consumers.stepTask]
    split
    · rename_i q hphase
      refine h.moves hc (fun _ => by rw [hphase]; rfl) fun q' hq' => ?_
      cases hq'
      exact h.queue task c q hc (by rw [hphase]; rfl)
    · exact h
  | cancels =>
    exact h.moves hc live_of_cancel fun q' hq' => h.queue task c q' hc (queue_of_cancel hq')
  | resumes =>
    simp only [Consumers.stepTask]
    split
    · rename_i hphase
      exact h.exits hc (by rw [hphase]; rfl)
    · rename_i hphase
      exact h.exits hc (by rw [hphase]; rfl)
    · exact h.moves hc (fun hlive => by cases hlive) fun q' hq' => by cases hq'
    · exact h
  | finishes how =>
    simp only [Consumers.stepTask]
    split
    · rename_i q m hphase
      split
      · exact h.exits hc (by rw [hphase]; rfl)
      all_goals
        refine (h.setBusy c.conversationId false).moves hc (fun _ => by rw [hphase]; rfl) fun q' hq' => ?_
        cases hq'
        exact h.queue task c q hc (by rw [hphase]; rfl)
    · exact h

theorem Inv.step (h : w.Inv) (a : ConsumerStep μ) : (w.step a).Inv := by
  cases a with
  | manages =>
    exact ⟨h.consumer, h.queue, h.distinct, h.freshQueue, h.freshItems, h.freshTask, h.order⟩
  | enqueues conv msg => exact h.enqueue conv msg
  | task task event =>
    simp only [Consumers.step]
    split
    · rename_i c hc
      exact h.stepTask hc event
    · exact h

theorem start_inv : ({} : Consumers μ).Inv where
  consumer _ _ h := by cases h
  queue _ _ _ h := by cases h
  distinct _ _ _ h := by cases h
  freshQueue _ _ h := by cases h
  freshItems _ _ := rfl
  freshTask _ _ := rfl
  order _ := List.Sublist.refl _

end

/-! ## Serial handling -/

section
variable (w : Consumers μ)

/-- The task is in a handler of the conversation. -/
def Handles (task : Nat) (conv : String) : Prop :=
  ∃ q msg, w.tasks task = some { conversationId := conv, phase := .handling q msg }

/-- The handlers of a conversation run one at a time, in the order of its messages. -/
structure Serial : Prop where
  oneAtATime : ∀ conv task task', w.Handles task conv → w.Handles task' conv → task = task'
  ordered : ∀ conv, List.Sublist (w.started conv) (w.accepted conv)

end

section
variable {w : Consumers μ}

theorem Inv.serial (h : w.Inv) : w.Serial where
  oneAtATime := by
    rintro conv task task' ⟨q, msg, hc⟩ ⟨q', msg', hc'⟩
    have htask := h.consumer task _ hc rfl
    rw [h.consumer task' _ hc' rfl] at htask
    exact (Option.some.inj htask).symm
  ordered conv := (List.sublist_append_left _ _).trans (h.order conv)

/-- The handlers of every run are serial. -/
theorem serial (steps : List (ConsumerStep μ)) : (runFrom step ({} : Consumers μ) steps).Serial :=
  (runFrom_invariant (I := Inv) (fun _ a h => h.step a) start_inv).serial

end

end Consumers

end PyClaw
