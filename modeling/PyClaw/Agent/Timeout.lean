import PyClaw.Lib.Machine
import PyClaw.Lib.PyFloat

/-!
# Agent.Timeout

`run_with_timeout` (`core/agent/runtime_util.py`) on an event loop: the wrapped task, the task that waits
for the abort event, the timer of `asyncio.wait` and a cancellation of the caller. What happens outside
comes at any time; the callbacks of the call itself run in the order in which they were scheduled.

* `run_wf`: the invariant of every run.
* `runWithTimeout_sound_iff`: a call that has ended did so as it should exactly when no step of the run
  lost a cancellation (`Kept`): the caller was not cancelled during the second wait, a cancellation during
  the first one found the task finished, and a coroutine awaited directly did not suppress one.
* `ended_of_idle`: once the task is finished and the callbacks have run, the call has ended.
* `withSafetyTimeout_fst`: `with_safety_timeout` ends the same way.
-/

namespace PyClaw
namespace Timeout

/-- How the wrapped coroutine ends. -/
inductive TaskEnd (α ε : Type) where
  | returned (v : α)
  | raised (e : ε)
  | cancelled

/-- How `run_with_timeout` ends. -/
inductive CallEnd (α ε : Type) where
  | own (e : TaskEnd α ε)
  | abortError (kind : String)
  | timeoutError (kind : String) (limitSeconds : PyFloat)
  | cancelled

/-- A `CancelledError` leaves the call. -/
def CallEnd.isCancelled {α ε : Type} : CallEnd α ε → Bool
  | .own .cancelled => true
  | .own (.returned _) => false
  | .own (.raised _) => false
  | .abortError _ => false
  | .timeoutError _ _ => false
  | .cancelled => true

/-- The arguments. -/
structure Call where
  timeoutS : PyFloat
  hasAbortEvent : Bool := false
  kind : String := "run"

namespace Call

variable (c : Call)

/-- `timeout_s <= 0 and abort_event is None`: the coroutine is awaited as it is. -/
def direct : Bool := c.timeoutS.le (.finite 0) && !c.hasAbortEvent

/-- `timeout_s > 0`. -/
def hasTimer : Bool := PyFloat.lt (.finite 0) c.timeoutS

end Call

/-! ## The event loop -/

inductive Callback where
  /-- A step of `abort_task`. -/
  | abortTask
  /-- `_on_completion` of `asyncio.wait`. -/
  | completed
  /-- The caller goes on. -/
  | caller
  deriving DecidableEq, Repr

inductive AbortTask where
  | unstarted
  | waiting
  | done
  deriving DecidableEq, Repr

inductive Phase (α ε : Type) where
  | direct
  /-- In `asyncio.wait`. -/
  | waiting
  /-- In `await main_task`, after `abort_task in done` or not. -/
  | draining (aborted : Bool)
  /-- With whether the wrapped task was finished by then. -/
  | ended (e : CallEnd α ε) (taskFinished : Bool)

/-- What happens outside the call. -/
inductive Event (α ε : Type) where
  | taskEnds (e : TaskEnd α ε)
  | elapsed
  | abortSet
  | callerCancelled

inductive Act (α ε : Type) where
  | happens (e : Event α ε)
  | runsNext

/-- `log` holds what has happened during the call. -/
structure State (α ε : Type) where
  phase : Phase α ε
  task : Option (TaskEnd α ε) := none
  /-- `main_task.cancel()` was called. -/
  taskCancelled : Bool := false
  event : Bool := false
  abortTask : AbortTask := .unstarted
  /-- The future that `asyncio.wait` awaits. -/
  waiterDone : Bool := false
  callerCancelled : Bool := false
  ready : List Callback := []
  log : List (Event α ε) := []

namespace State

variable {α ε : Type} (s : State α ε)

def schedule (callback : Callback) : State α ε := { s with ready := s.ready ++ [callback] }

def note (e : Event α ε) : State α ε := { s with log := s.log ++ [e] }

/-- The waiter of `asyncio.wait` is done; its awaiter goes on in a later callback. -/
def releaseWaiter : State α ε :=
  if s.waiterDone then s else { s.schedule .caller with waiterDone := true }

end State

namespace Call

variable {α ε : Type} (c : Call)

/-- An event that is set before the call is one that is set before anything else. -/
def start : State α ε where
  phase := if c.direct then .direct else .waiting
  ready := if c.hasAbortEvent then [.abortTask] else []

def taskEnds (s : State α ε) (e : TaskEnd α ε) : State α ε :=
  if s.task.isSome then s
  else
    match s.phase with
    | .direct => { s.note (.taskEnds e) with task := some e, phase := .ended (.own e) true }
    | .waiting => { (s.note (.taskEnds e)).schedule .completed with task := some e }
    | .draining _ => { (s.note (.taskEnds e)).schedule .caller with task := some e }
    | .ended _ _ => { s with task := some e }

def elapse (s : State α ε) : State α ε :=
  match s.phase with
  | .waiting => if c.hasTimer && !s.waiterDone then (s.note .elapsed).releaseWaiter else s
  | .direct => s
  | .draining _ => s
  | .ended _ _ => s

/-- `abort_event.set()`, which also wakes `abort_task`. -/
def setAbort (s : State α ε) : State α ε :=
  match s.phase with
  | .ended _ _ => s
  | _ =>
    if c.hasAbortEvent && !s.event then
      { s.note .abortSet with
        event := true
        ready := if s.abortTask = .waiting then s.ready ++ [.abortTask] else s.ready }
    else s

/-- `cancel()` of the caller's task. That of a task which awaits another one goes to that one. -/
def cancelCaller (s : State α ε) : State α ε :=
  match s.phase with
  | .direct => { s.note .callerCancelled with callerCancelled := true, taskCancelled := true }
  | .waiting => { (s.note .callerCancelled).releaseWaiter with callerCancelled := true }
  | .draining _ => { s.note .callerCancelled with callerCancelled := true, taskCancelled := true }
  | .ended _ _ => s

def happens (s : State α ε) : Event α ε → State α ε
  | .taskEnds e => taskEnds s e
  | .elapsed => c.elapse s
  | .abortSet => c.setAbort s
  | .callerCancelled => cancelCaller s

/-- `run_with_timeout` from one of its awaits on. -/
def resume (s : State α ε) : State α ε :=
  match s.phase with
  | .waiting =>
    if s.callerCancelled then { s with phase := .ended .cancelled s.task.isSome, taskCancelled := true }
    else
      match s.task with
      | some e => { s with phase := .ended (.own e) true }
      | none => { s with phase := .draining (s.abortTask = .done), taskCancelled := true }
  | .draining true => { s with phase := .ended (.abortError c.kind) s.task.isSome }
  | .draining false => { s with phase := .ended (.timeoutError c.kind c.timeoutS) s.task.isSome }
  | .direct => s
  | .ended _ _ => s

def runNext (s : State α ε) : State α ε :=
  match s.ready with
  | [] => s
  | .abortTask :: rest =>
    if s.event then { s with ready := rest ++ [.completed], abortTask := .done }
    else { s with ready := rest, abortTask := .waiting }
  | .completed :: rest => State.releaseWaiter { s with ready := rest }
  | .caller :: rest => c.resume { s with ready := rest }

def step (s : State α ε) : Act α ε → State α ε
  | .happens e => c.happens s e
  | .runsNext => c.runNext s

def run (acts : List (Act α ε)) : State α ε := runFrom c.step c.start acts

end Call

/-! ## How a call should end -/

section
variable {α ε : Type}

/-- The timeout elapsed before the abort event was set. -/
def ElapsedFirst (log : List (Event α ε)) : Prop :=
  ∃ before after, log = before ++ .elapsed :: after ∧ .abortSet ∉ before

/-- What the end of the call says about what happened. -/
structure Attributed (log : List (Event α ε)) (e : CallEnd α ε) : Prop where
  own : ∀ o after, log = .taskEnds o :: after → .callerCancelled ∉ log → e = .own o
  abortError : ∀ kind, e = .abortError kind → .abortSet ∈ log
  timeoutError : ∀ kind limit, e = .timeoutError kind limit → ElapsedFirst log

structure Sound (log : List (Event α ε)) (e : CallEnd α ε) (taskFinished : Bool) : Prop
    extends Attributed log e where
  finished : taskFinished = true
  cancelled : .callerCancelled ∈ log → e.isCancelled = true

/-- The step loses no cancellation. -/
def Kept (s : State α ε) : Act α ε → Prop
  | .happens (.taskEnds e) => s.phase = .direct → s.callerCancelled = true → e = .cancelled
  | .happens .callerCancelled => ∀ aborted, s.phase ≠ .draining aborted
  | .happens .elapsed => True
  | .happens .abortSet => True
  | .runsNext => s.ready.head? = some .caller → s.phase = .waiting → s.callerCancelled = true →
      s.task.isSome = true

end

/-! ## The invariant -/

section
variable {α ε : Type}

/-- Why the waiter is done. An abort event that was set before the timeout elapsed is seen, since
`abort_task` goes on before the caller. -/
def Released (s : State α ε) : Prop :=
  s.callerCancelled = true ∨ s.task.isSome = true ∨ s.abortTask = .done ∨ ElapsedFirst s.log ∨
    s.event = true ∧ .abortTask ∈ s.ready.takeWhile (· ≠ .caller)

def PhaseWf (s : State α ε) : Prop :=
  match s.phase with
  | .direct => s.task = none
  | .waiting =>
    if s.waiterDone then s.ready.count .caller = 1 ∧ Released s
    else s.ready.count .caller = 0 ∧ s.callerCancelled = false ∧
      (s.task.isSome = true → .completed ∈ s.ready)
  | .draining aborted =>
    s.waiterDone = true ∧ s.ready.count .caller = (if s.task.isSome then 1 else 0) ∧
      (∀ o after, s.log ≠ .taskEnds o :: after) ∧
      (if aborted then .abortSet ∈ s.log else ElapsedFirst s.log)
  | .ended e finished =>
    Attributed s.log e ∧ (finished = true → s.task.isSome = true) ∧
      (finished = false → s.taskCancelled = true)

/-- The log, the flags and the callbacks that are due. -/
structure Base (c : Call) (s : State α ε) : Prop where
  cancelled : .callerCancelled ∈ s.log ↔ s.callerCancelled = true
  abort : .abortSet ∈ s.log ↔ s.event = true
  task : ∀ o, .taskEnds o ∈ s.log → s.task = some o
  unstarted : s.abortTask = .unstarted → c.hasAbortEvent = true → .abortTask ∈ s.ready
  woken : s.event = true → s.abortTask = .done ∨ .abortTask ∈ s.ready
  abortDone : s.abortTask = .done → s.event = true
  completed : .completed ∈ s.ready → s.task.isSome = true ∨ s.abortTask = .done

structure Wf (c : Call) (s : State α ε) : Prop extends Base c s where
  phase : PhaseWf s

variable {c : Call} {s : State α ε} {log : List (Event α ε)} {e : Event α ε}

theorem ElapsedFirst.append (h : ElapsedFirst log) : ElapsedFirst (log ++ [e]) := by
  obtain ⟨before, after, rfl, hbefore⟩ := h
  exact ⟨before, after ++ [e], by simp, hbefore⟩

theorem ElapsedFirst.of_last (h : .abortSet ∉ log) : ElapsedFirst (log ++ [.elapsed]) :=
  ⟨log, [], rfl, h⟩

theorem Released.of_completed (h : s.task.isSome = true ∨ s.abortTask = .done) : Released s := by
  cases h with
  | inl htask => exact .inr (.inl htask)
  | inr hseen => exact .inr (.inr (.inl hseen))

theorem start_wf : Wf c (c.start : State α ε) := by
  unfold Call.start
  refine ⟨⟨?_, ?_, ?_, ?_, ?_, ?_, ?_⟩, ?_⟩
  · simp
  · simp
  · simp
  · intro _ h
    simp [h]
  · simp
  · simp
  · cases c.hasAbortEvent <;> simp
  · unfold PhaseWf
    cases c.direct <;> cases c.hasAbortEvent <;> simp

theorem attributed_own {o : TaskEnd α ε} (h : ∀ o', .taskEnds o' ∈ log → o' = o) :
    Attributed log (.own o) where
  own := by
    rintro o' after rfl -
    rw [h o' List.mem_cons_self]
  abortError := by
    intro kind h
    cases h
  timeoutError := by
    intro kind limit h
    cases h

theorem attributed_cancelled (h : .callerCancelled ∈ log) : Attributed log .cancelled where
  own := by
    intro o after _ hnot
    exact absurd h hnot
  abortError := by
    intro kind h
    cases h
  timeoutError := by
    intro kind limit h
    cases h

theorem attributed_abortError {kind : String} (hhead : ∀ o after, log ≠ .taskEnds o :: after)
    (h : .abortSet ∈ log) : Attributed log (.abortError kind) where
  own := by
    intro o after hlog
    exact absurd hlog (hhead o after)
  abortError := by
    intro _ _
    exact h
  timeoutError := by
    intro kind limit h
    cases h

theorem attributed_timeoutError {kind : String} {limit : PyFloat}
    (hhead : ∀ o after, log ≠ .taskEnds o :: after) (h : ElapsedFirst log) :
    Attributed log (.timeoutError kind limit) where
  own := by
    intro o after hlog
    exact absurd hlog (hhead o after)
  abortError := by
    intro kind h
    cases h
  timeoutError := by
    intro _ _ _
    exact h

theorem head_concat (hhead : ∀ o after, log ≠ .taskEnds o :: after) (hne : log ≠ []) :
    ∀ o after, log ++ [e] ≠ .taskEnds o :: after := by
  intro o after hlog
  cases log with
  | nil => exact hne rfl
  | cons x rest =>
    injection hlog with hx
    subst hx
    exact hhead o rest rfl

theorem PhaseWf.log_ne_nil {aborted : Bool}
    (h : if aborted then .abortSet ∈ log else ElapsedFirst log) : log ≠ [] := by
  cases aborted with
  | true =>
    simp only [if_true] at h
    exact List.ne_nil_of_mem h
  | false =>
    simp only [Bool.false_eq_true, if_false] at h
    obtain ⟨before, after, rfl, -⟩ := h
    simp

/-- What happens in the second wait changes nothing in how the call will end. -/
theorem draining_log {aborted : Bool} (hhead : ∀ o after, log ≠ .taskEnds o :: after)
    (h : if aborted then .abortSet ∈ log else ElapsedFirst log) :
    (∀ o after, log ++ [e] ≠ .taskEnds o :: after) ∧
      if aborted then .abortSet ∈ log ++ [e] else ElapsedFirst (log ++ [e]) := by
  refine ⟨head_concat hhead (PhaseWf.log_ne_nil h), ?_⟩
  cases aborted with
  | true =>
    simp only [if_true] at h ⊢
    exact List.mem_append_left _ h
  | false =>
    simp only [Bool.false_eq_true, if_false] at h ⊢
    exact h.append

theorem Base.taskEnds (h : Base c s) (o : TaskEnd α ε) : Base c (Call.taskEnds s o) := by
  unfold Call.taskEnds
  split
  · exact h
  · obtain ⟨h1, h2, h3, h4, h5, h6, h7⟩ := h
    split <;> constructor <;> grind [State.note, State.schedule]

theorem Base.elapse (h : Base c s) : Base c (c.elapse s) := by
  obtain ⟨h1, h2, h3, h4, h5, h6, h7⟩ := h
  unfold Call.elapse
  split <;> constructor <;> grind [State.note, State.schedule, State.releaseWaiter]

theorem Base.setAbort (h : Base c s) : Base c (c.setAbort s) := by
  have hset : c.hasAbortEvent = true → Base c { s.note .abortSet with
      event := true
      ready := if s.abortTask = .waiting then s.ready ++ [.abortTask] else s.ready } := by
    intro habort
    obtain ⟨h1, h2, h3, h4, h5, h6, h7⟩ := h
    -- `abort_task` has yet to begin, or waits and is woken, or has seen the event before.
    cases htask : s.abortTask <;> constructor <;> grind [State.note]
  unfold Call.setAbort
  split
  · exact h
  · split
    · rename_i habort
      simp only [Bool.and_eq_true] at habort
      exact hset habort.1
    · exact h

theorem Base.cancelCaller (h : Base c s) : Base c (Call.cancelCaller s) := by
  obtain ⟨h1, h2, h3, h4, h5, h6, h7⟩ := h
  unfold Call.cancelCaller
  split <;> constructor <;> grind [State.note, State.schedule, State.releaseWaiter]

theorem Base.runNext (h : Base c s) : Base c (c.runNext s) := by
  obtain ⟨h1, h2, h3, h4, h5, h6, h7⟩ := h
  unfold Call.runNext
  split <;> constructor <;> grind [Call.resume, State.releaseWaiter, State.schedule]

theorem Wf.taskEnds (h : Wf c s) (o : TaskEnd α ε) : Wf c (Call.taskEnds s o) := by
  refine ⟨h.toBase.taskEnds o, ?_⟩
  have hphase := h.phase
  unfold Call.taskEnds
  unfold PhaseWf at hphase
  split
  · exact h.phase
  · rename_i htask
    have hnone : s.task = none := by simpa using htask
    have hnew : ∀ o', .taskEnds o' ∉ s.log := by
      intro o' ho'
      rw [h.task o' ho'] at hnone
      cases hnone
    split
    · -- awaited directly
      refine ⟨attributed_own ?_, ?_, ?_⟩
      · intro o' ho'
        simpa [State.note, hnew] using ho'
      · simp
      · simp
    · rename_i heq
      simp only [heq] at hphase
      unfold PhaseWf
      simp only [State.note, State.schedule, heq]
      split at hphase
      · rename_i hdone
        rw [if_pos hdone]
        exact ⟨by simpa using hphase.1, .inr (.inl rfl)⟩
      · rename_i hopen
        rw [if_neg hopen]
        exact ⟨by simpa using hphase.1, hphase.2.1, by simp⟩
    · rename_i aborted heq
      simp only [heq, hnone] at hphase
      obtain ⟨hwaiter, hcount, hhead, hlog⟩ := hphase
      obtain ⟨hhead, hlog⟩ := @draining_log _ _ _ (.taskEnds o) _ hhead hlog
      unfold PhaseWf
      simp only [State.note, State.schedule, heq]
      refine ⟨hwaiter, ?_, hhead, hlog⟩
      simpa using hcount
    · rename_i heq
      simp only [heq] at hphase
      unfold PhaseWf
      simp only [heq]
      exact ⟨hphase.1, by simp, hphase.2.2⟩

/-- An abort event that is set is seen by `abort_task` before a caller that is woken now goes on. -/
theorem Base.released_of_elapsed (h : Base c s) (hcount : s.ready.count .caller = 0) :
    s.abortTask = .done ∨ ElapsedFirst (s.log ++ [.elapsed]) ∨
      s.event = true ∧ Callback.abortTask ∈
        (s.ready ++ [Callback.caller]).takeWhile (· ≠ Callback.caller) := by
  by_cases hevent : s.event = true
  · cases h.woken hevent with
    | inl hdone => exact .inl hdone
    | inr hready =>
      refine .inr (.inr ⟨hevent, ?_⟩)
      rw [List.takeWhile_append_of_pos]
      · exact List.mem_append_left _ hready
      · intro callback hcallback
        simp only [decide_eq_true_eq, ne_eq]
        rintro rfl
        exact List.count_eq_zero.mp hcount hcallback
  · exact .inr (.inl (ElapsedFirst.of_last fun habort => hevent (h.abort.mp habort)))

theorem Wf.elapse (h : Wf c s) : Wf c (c.elapse s) := by
  refine ⟨h.toBase.elapse, ?_⟩
  have hphase := h.phase
  unfold Call.elapse
  split
  · rename_i heq
    split
    · rename_i htimer
      simp only [Bool.and_eq_true, Bool.not_eq_true'] at htimer
      simp only [PhaseWf, heq, htimer.2, Bool.false_eq_true, if_false] at hphase
      simp only [PhaseWf, State.note, State.schedule, State.releaseWaiter, heq, htimer.2,
        Bool.false_eq_true, if_false, if_true]
      refine ⟨by simpa using hphase.1, ?_⟩
      exact .inr (.inr (h.toBase.released_of_elapsed hphase.1))
    · exact h.phase
  · exact h.phase
  · exact h.phase
  · exact h.phase

theorem Wf.setAbort (h : Wf c s) : Wf c (c.setAbort s) := by
  refine ⟨h.toBase.setAbort, ?_⟩
  have hphase := h.phase
  unfold Call.setAbort
  split
  · exact h.phase
  · rename_i hnotEnded
    split
    · rename_i habort
      simp only [Bool.and_eq_true, Bool.not_eq_true'] at habort
      have hcount : (if s.abortTask = .waiting then s.ready ++ [.abortTask] else s.ready).count
          Callback.caller = s.ready.count .caller := by
        split <;> simp
      unfold PhaseWf at hphase ⊢
      cases heq : s.phase with
      | direct =>
        simp only [heq] at hphase
        simpa [State.note, heq] using hphase
      | waiting =>
        simp only [heq] at hphase
        simp only [State.note, heq, hcount]
        split at hphase
        · rename_i hdone
          rw [if_pos hdone]
          refine ⟨hphase.1, ?_⟩
          obtain hcancelled | htask | hdone | helapsed | ⟨hevent, -⟩ := hphase.2
          · exact .inl hcancelled
          · exact .inr (.inl htask)
          · exact .inr (.inr (.inl hdone))
          · exact .inr (.inr (.inr (.inl helapsed.append)))
          · rw [habort.2] at hevent
            cases hevent
        · rename_i hopen
          rw [if_neg hopen]
          refine ⟨hphase.1, hphase.2.1, fun htask => ?_⟩
          have := hphase.2.2 htask
          split
          · exact List.mem_append_left _ this
          · exact this
      | draining aborted =>
        simp only [heq] at hphase
        simp only [State.note, heq, hcount]
        exact ⟨hphase.1, hphase.2.1, draining_log hphase.2.2.1 hphase.2.2.2⟩
      | ended e finished => exact absurd heq (hnotEnded e finished)
    · exact h.phase

theorem Wf.cancelCaller (h : Wf c s) : Wf c (Call.cancelCaller s) := by
  refine ⟨h.toBase.cancelCaller, ?_⟩
  have hphase := h.phase
  unfold PhaseWf at hphase
  unfold Call.cancelCaller
  split
  · rename_i heq
    simp only [heq] at hphase
    simpa [PhaseWf, State.note, heq] using hphase
  · rename_i heq
    simp only [heq] at hphase
    simp only [PhaseWf, State.releaseWaiter, State.note, State.schedule]
    split at hphase
    · rename_i hdone
      simp only [hdone, if_true, heq]
      exact ⟨hphase.1, .inl rfl⟩
    · rename_i hopen
      simp only [hopen, heq]
      exact ⟨by simpa using hphase.1, .inl rfl⟩
  · rename_i aborted heq
    simp only [heq] at hphase
    simp only [PhaseWf, State.note, heq]
    exact ⟨hphase.1, hphase.2.1, draining_log hphase.2.2.1 hphase.2.2.2⟩
  · exact h.phase

/-- The other callbacks matter in the first wait only. -/
theorem PhaseWf.frame (h : PhaseWf s) (hwaiting : s.phase ≠ .waiting) {t : State α ε}
    (hphase : t.phase = s.phase) (htask : t.task = s.task) (hlog : t.log = s.log)
    (htaskCancelled : t.taskCancelled = s.taskCancelled)
    (hdraining : s.waiterDone = true → t.waiterDone = true ∧
      t.ready.count .caller = s.ready.count .caller) : PhaseWf t := by
  unfold PhaseWf at h ⊢
  rw [hphase, htask, hlog, htaskCancelled]
  cases heq : s.phase with
  | direct => simpa only [heq] using h
  | waiting => exact absurd heq hwaiting
  | draining aborted =>
    simp only [heq] at h ⊢
    obtain ⟨hwaiter, hcount, hrest⟩ := h
    exact ⟨(hdraining hwaiter).1, (hdraining hwaiter).2.trans hcount, hrest⟩
  | ended e finished => simpa only [heq] using h

theorem Wf.runNext_abortTask (h : Wf c s) {rest : List Callback} (hready : s.ready = .abortTask :: rest) :
    PhaseWf (c.runNext s) := by
  have hphase := h.phase
  simp only [Call.runNext, hready]
  by_cases hwaiting : s.phase = .waiting
  · simp only [PhaseWf, hwaiting, hready] at hphase
    split
    · rename_i hevent
      simp only [PhaseWf, hwaiting]
      split at hphase
      · rename_i hdone
        rw [if_pos hdone]
        exact ⟨by simpa using hphase.1, .inr (.inr (.inl rfl))⟩
      · rename_i hopen
        rw [if_neg hopen]
        exact ⟨by simpa using hphase.1, hphase.2.1, by simp⟩
    · rename_i hevent
      simp only [PhaseWf, hwaiting]
      split at hphase
      · rename_i hdone
        rw [if_pos hdone]
        refine ⟨by simpa using hphase.1, ?_⟩
        obtain hcancelled | htask | hseen | helapsed | ⟨hset, -⟩ := hphase.2
        · exact .inl hcancelled
        · exact .inr (.inl htask)
        · exact absurd (h.abortDone hseen) hevent
        · exact .inr (.inr (.inr (.inl helapsed)))
        · exact absurd hset hevent
      · rename_i hopen
        rw [if_neg hopen]
        refine ⟨by simpa using hphase.1, hphase.2.1, fun htask => ?_⟩
        simpa using hphase.2.2 htask
  · split
    · refine hphase.frame hwaiting rfl rfl rfl rfl fun hdone => ⟨hdone, ?_⟩
      simp [hready]
    · refine hphase.frame hwaiting rfl rfl rfl rfl fun hdone => ⟨hdone, ?_⟩
      simp [hready]

theorem Wf.runNext_completed (h : Wf c s) {rest : List Callback} (hready : s.ready = .completed :: rest) :
    PhaseWf (c.runNext s) := by
  have hphase := h.phase
  have hcause := h.completed (by simp [hready])
  simp only [Call.runNext, hready, State.releaseWaiter]
  by_cases hwaiting : s.phase = .waiting
  · simp only [PhaseWf, hwaiting, hready] at hphase
    split
    · rename_i hdone
      rw [if_pos hdone] at hphase
      simp only [PhaseWf, hwaiting, hdone, if_true]
      exact ⟨by simpa using hphase.1, .of_completed hcause⟩
    · rename_i hopen
      rw [if_neg hopen] at hphase
      simp only [PhaseWf, State.schedule, hwaiting, if_true]
      exact ⟨by simpa using hphase.1, .of_completed hcause⟩
  · split
    · refine hphase.frame hwaiting rfl rfl rfl rfl fun hdone => ⟨hdone, ?_⟩
      simp [hready]
    · rename_i hopen
      refine hphase.frame hwaiting rfl rfl rfl rfl fun hdone => ?_
      exact absurd hdone hopen

/-- The end of the first wait without the task, a cancellation or `abort_task`: the timeout elapsed. -/
theorem Released.elapsedFirst (hreleased : Released s) {rest : List Callback}
    (hready : s.ready = .caller :: rest) (hcancelled : s.callerCancelled = false) (htask : s.task = none)
    (habort : s.abortTask ≠ .done) : ElapsedFirst s.log := by
  obtain h | h | h | h | ⟨-, h⟩ := hreleased
  · rw [hcancelled] at h
    cases h
  · rw [htask] at h
    cases h
  · exact absurd h habort
  · exact h
  · rw [hready] at h
    simp at h

theorem Wf.runNext_caller (h : Wf c s) {rest : List Callback} (hready : s.ready = .caller :: rest) :
    PhaseWf (c.runNext s) := by
  have hphase := h.phase
  simp only [Call.runNext, hready, Call.resume]
  cases heq : s.phase with
  | direct => simpa only [PhaseWf, heq] using hphase
  | waiting =>
    simp only [PhaseWf, heq, hready, List.count_cons_self] at hphase
    split at hphase
    · rename_i hdone
      obtain ⟨hcount, hreleased⟩ := hphase
      cases hcancelled : s.callerCancelled with
      | true =>
        exact ⟨attributed_cancelled (h.cancelled.mpr hcancelled), id, fun _ => rfl⟩
      | false =>
        cases htask : s.task with
        | some o =>
          refine ⟨attributed_own fun o' ho' => ?_, ?_, ?_⟩
          · have := h.task o' ho'
            rw [htask] at this
            cases this
            rfl
          · intro _
            rfl
          · simp
        | none =>
          simp only [PhaseWf, Bool.false_eq_true, if_false]
          refine ⟨hdone, ?_, ?_, ?_⟩
          · simpa [htask] using hcount
          · rintro o after hlog
            have := h.task o (by simp [hlog])
            rw [htask] at this
            cases this
          · by_cases hseen : s.abortTask = .done
            · simp only [hseen, decide_true, if_true]
              exact h.abort.mpr (h.abortDone hseen)
            · simp only [hseen, decide_false, Bool.false_eq_true, if_false]
              exact hreleased.elapsedFirst hready hcancelled htask hseen
    · have := hphase.1
      omega
  | draining aborted =>
    simp only [PhaseWf, heq, hready, List.count_cons_self] at hphase
    obtain ⟨-, hcount, hhead, hlog⟩ := hphase
    have htask : s.task.isSome = true := by
      by_contra hnone
      rw [if_neg hnone] at hcount
      omega
    cases aborted with
    | true => exact ⟨attributed_abortError hhead hlog, id, by simp [htask]⟩
    | false => exact ⟨attributed_timeoutError hhead hlog, id, by simp [htask]⟩
  | ended e finished => simpa only [PhaseWf, heq] using hphase

theorem Wf.step (h : Wf c s) (a : Act α ε) : Wf c (c.step s a) := by
  cases a with
  | happens e =>
    cases e with
    | taskEnds o => exact h.taskEnds o
    | elapsed => exact h.elapse
    | abortSet => exact h.setAbort
    | callerCancelled => exact h.cancelCaller
  | runsNext =>
    refine ⟨h.toBase.runNext, ?_⟩
    cases hready : s.ready with
    | nil =>
      simp only [Call.step, Call.runNext, hready]
      exact h.phase
    | cons callback rest =>
      cases callback with
      | abortTask => exact h.runNext_abortTask hready
      | completed => exact h.runNext_completed hready
      | caller => exact h.runNext_caller hready

theorem run_wf (c : Call) (acts : List (Act α ε)) : Wf c (c.run acts) :=
  runFrom_invariant (fun _ a h => h.step a) start_wf

/-! ## Ends -/

/-- Once the task is finished, the callbacks that are left end the call. -/
theorem ended_of_idle (acts : List (Act α ε)) (hready : (c.run acts).ready = [])
    (htask : (c.run acts).task.isSome = true) :
    ∃ e finished, (c.run acts).phase = .ended e finished := by
  have h := (run_wf c acts).phase
  unfold PhaseWf at h
  cases heq : (c.run acts).phase with
  | direct =>
    simp only [heq] at h
    simp [h] at htask
  | waiting =>
    simp only [heq, hready, List.count_nil] at h
    split at h
    · have := h.1
      omega
    · have := h.2.2 htask
      simp at this
  | draining aborted =>
    simp only [heq, hready, htask, List.count_nil, if_true] at h
    have := h.2.1
    omega
  | ended e finished => exact ⟨e, finished, rfl⟩

/-- A cancellation has been lost, or will have been once the call ends. -/
def Lost (s : State α ε) : Prop :=
  match s.phase with
  | .direct => False
  | .waiting => False
  | .draining _ => s.callerCancelled = true
  | .ended e finished => ¬ (finished = true ∧ (s.callerCancelled = true → e.isCancelled = true))

theorem own_isCancelled {o : TaskEnd α ε} : (CallEnd.own o).isCancelled = true ↔ o = .cancelled := by
  cases o <;> simp [CallEnd.isCancelled]

theorem lost_congr {t : State α ε} (hphase : t.phase = s.phase)
    (hcancelled : t.callerCancelled = s.callerCancelled) : Lost t ↔ Lost s := by
  unfold Lost
  rw [hphase, hcancelled]

theorem lost_elapse : Lost (c.elapse s) ↔ Lost s := by
  have hframe : (c.elapse s).phase = s.phase ∧ (c.elapse s).callerCancelled = s.callerCancelled := by
    unfold Call.elapse State.releaseWaiter
    split
    · split
      · split <;> exact ⟨rfl, rfl⟩
      · exact ⟨rfl, rfl⟩
    all_goals exact ⟨rfl, rfl⟩
  exact lost_congr hframe.1 hframe.2

theorem lost_setAbort : Lost (c.setAbort s) ↔ Lost s := by
  have hframe : (c.setAbort s).phase = s.phase ∧
      (c.setAbort s).callerCancelled = s.callerCancelled := by
    unfold Call.setAbort
    split
    · exact ⟨rfl, rfl⟩
    · split <;> exact ⟨rfl, rfl⟩
  exact lost_congr hframe.1 hframe.2

theorem lost_runNext (h : s.ready.head? ≠ some .caller) : Lost (c.runNext s) ↔ Lost s := by
  have hframe : (c.runNext s).phase = s.phase ∧
      (c.runNext s).callerCancelled = s.callerCancelled := by
    unfold Call.runNext State.releaseWaiter
    split
    · exact ⟨rfl, rfl⟩
    · split <;> exact ⟨rfl, rfl⟩
    · split <;> exact ⟨rfl, rfl⟩
    · rename_i hready
      simp [hready] at h
  exact lost_congr hframe.1 hframe.2

/-- A lost cancellation stays lost. -/
theorem lost_step (a : Act α ε) (h : Lost s) : Lost (c.step s a) := by
  cases a with
  | happens e =>
    cases e with
    | taskEnds o =>
      simp only [Call.step, Call.happens, Call.taskEnds]
      split
      · exact h
      · cases hphase : s.phase with
        | direct => simp [Lost, hphase] at h
        | waiting => simp [Lost, hphase] at h
        | draining aborted => simpa [Lost, State.schedule, State.note, hphase] using h
        | ended e finished => simpa [Lost, hphase] using h
    | elapsed => exact lost_elapse.mpr h
    | abortSet => exact lost_setAbort.mpr h
    | callerCancelled =>
      simp only [Call.step, Call.happens, Call.cancelCaller]
      cases hphase : s.phase with
      | direct => simp [Lost, hphase] at h
      | waiting => simp [Lost, hphase] at h
      | draining aborted => simp [Lost, State.note, hphase]
      | ended e finished => simpa [Lost, hphase] using h
  | runsNext =>
    by_cases hcaller : s.ready.head? = some .caller
    · obtain ⟨rest, hready⟩ := List.head?_eq_some_iff.mp hcaller
      simp only [Call.step, Call.runNext, hready, Call.resume]
      cases hphase : s.phase with
      | direct => simp [Lost, hphase] at h
      | waiting => simp [Lost, hphase] at h
      | draining aborted =>
        simp only [Lost, hphase] at h
        cases aborted <;> simp [Lost, CallEnd.isCancelled, h]
      | ended e finished => simpa [Lost, hphase] using h
    · exact (lost_runNext hcaller).mpr h

theorem kept_taskEnds_iff (h : Wf c s) (hlost : ¬ Lost s) (o : TaskEnd α ε) :
    Kept s (.happens (.taskEnds o)) ↔ ¬ Lost (Call.taskEnds s o) := by
  have hwf := h.phase
  unfold PhaseWf at hwf
  unfold Kept Call.taskEnds
  cases hphase : s.phase with
  | direct =>
    simp only [hphase] at hwf
    simp [Lost, State.note, hwf, own_isCancelled]
  | waiting => cases htask : s.task <;> simp [Lost, State.schedule, State.note, hphase]
  | draining aborted =>
    simp only [Lost, hphase] at hlost
    cases htask : s.task <;> simp [Lost, State.schedule, State.note, hphase, hlost]
  | ended e finished =>
    simp only [Lost, hphase] at hlost
    refine iff_of_true (by simp) ?_
    split <;> simpa only [Lost, hphase] using hlost

theorem kept_cancelCaller_iff (hlost : ¬ Lost s) :
    Kept s (.happens .callerCancelled : Act α ε) ↔ ¬ Lost (Call.cancelCaller s) := by
  simp only [Kept, Call.cancelCaller]
  cases hphase : s.phase with
  | direct => simp [Lost, State.note, hphase]
  | waiting => cases hdone : s.waiterDone <;>
      simp [Lost, State.releaseWaiter, State.schedule, State.note, hphase, hdone]
  | draining aborted => simp [Lost, State.note, hphase]
  | ended e finished =>
    refine iff_of_true (by simp) ?_
    simpa only [Lost, hphase] using hlost

theorem kept_caller_iff (h : Wf c s) (hlost : ¬ Lost s) {rest : List Callback}
    (hready : s.ready = .caller :: rest) :
    Kept s (.runsNext : Act α ε) ↔ ¬ Lost (c.runNext s) := by
  have hwf := h.phase
  simp only [Kept, Call.runNext, hready, Call.resume, List.head?_cons, forall_const]
  cases hphase : s.phase with
  | direct => simp [Lost]
  | waiting =>
    cases hcancelled : s.callerCancelled with
    | true => cases htask : s.task <;> simp [Lost, CallEnd.isCancelled]
    | false => cases htask : s.task <;> simp [Lost]
  | draining aborted =>
    -- The caller goes on here only when the task it awaits is finished.
    simp only [PhaseWf, hphase, hready, List.count_cons_self] at hwf
    have htask : s.task.isSome = true := by
      by_contra hnone
      rw [if_neg hnone] at hwf
      omega
    simp only [Lost, hphase] at hlost
    cases aborted <;> simp [Lost, htask, hlost]
  | ended e finished =>
    refine iff_of_true (by simp) ?_
    simpa only [Lost, hphase] using hlost

/-- The steps that lose a cancellation are those that are not `Kept`. -/
theorem kept_iff (h : Wf c s) (hlost : ¬ Lost s) (a : Act α ε) : Kept s a ↔ ¬ Lost (c.step s a) := by
  cases a with
  | happens e =>
    cases e with
    | taskEnds o => exact kept_taskEnds_iff h hlost o
    | elapsed => exact iff_of_true trivial fun h' => hlost (lost_elapse.mp h')
    | abortSet => exact iff_of_true trivial fun h' => hlost (lost_setAbort.mp h')
    | callerCancelled => exact kept_cancelCaller_iff hlost
  | runsNext =>
    by_cases hcaller : s.ready.head? = some .caller
    · obtain ⟨rest, hready⟩ := List.head?_eq_some_iff.mp hcaller
      exact kept_caller_iff h hlost hready
    · exact iff_of_true (fun h' => absurd h' hcaller) fun h' => hlost ((lost_runNext hcaller).mp h')

theorem Wf.sound_iff (h : Wf c s) {e : CallEnd α ε} {finished : Bool}
    (hended : s.phase = .ended e finished) : Sound s.log e finished ↔ ¬ Lost s := by
  have hphase := h.phase
  simp only [PhaseWf, hended] at hphase
  simp only [Lost, hended, not_not]
  constructor
  · intro hsound
    exact ⟨hsound.finished, fun hcancelled => hsound.cancelled (h.cancelled.mpr hcancelled)⟩
  · intro hkept
    exact ⟨hphase.1, hkept.1, fun hcancelled => hkept.2 (h.cancelled.mp hcancelled)⟩

/-- **The end of a call.** -/
theorem runWithTimeout_sound_iff (c : Call) (acts : List (Act α ε)) (e : CallEnd α ε) (finished : Bool)
    (hended : (c.run acts).phase = .ended e finished) :
    Sound (c.run acts).log e finished ↔ Along c.step Kept c.start acts := by
  have hstart : ¬ Lost (c.start : State α ε) := by
    unfold Lost Call.start
    cases c.direct <;> simp
  have hiff : Along c.step Kept c.start acts ↔ ¬ Lost (c.run acts) :=
    along_iff_not_of_absorbing (fun _ a h => h.step a) (fun _ a => lost_step a)
      (fun _ a h hlost => kept_iff h hlost a) start_wf hstart
  rw [hiff]
  exact (run_wf c acts).sound_iff hended

end

/-! ## With a callback -/

/-- How `on_cancel()` ends. -/
inductive OnCancelEnd where
  | returns
  | raises
  | baseException

section
variable {α ε : Type} (isGivenUp : ε → Bool)

/-- `except (AgentTimeoutError, AgentAbortedError)`; `isGivenUp` says it of the task's exceptions. -/
def CallEnd.givesUp : CallEnd α ε → Bool
  | .own (.returned _) => false
  | .own (.raised e) => isGivenUp e
  | .own .cancelled => false
  | .abortError _ => true
  | .timeoutError _ _ => true
  | .cancelled => false

/-- `with_safety_timeout`: its end, `none` for a `BaseException` of `on_cancel`, and whether `on_cancel`
was called. -/
def withSafetyTimeout (onCancel : Option OnCancelEnd) (e : CallEnd α ε) :
    Option (CallEnd α ε) × Bool :=
  match onCancel, e.givesUp isGivenUp with
  | some .baseException, true => (none, true)
  | some _, true => (some e, true)
  | some _, false => (some e, false)
  | none, _ => (some e, false)

theorem withSafetyTimeout_fst {onCancel : Option OnCancelEnd} (h : onCancel ≠ some .baseException)
    (e : CallEnd α ε) : (withSafetyTimeout isGivenUp onCancel e).1 = some e := by
  unfold withSafetyTimeout
  split
  · exact absurd rfl h
  · rfl
  · rfl
  · rfl

end

/-! ## Sample calls -/

def limited : Call where
  timeoutS := .finite 30
  kind := "tool"

def timedOut : List (Act Unit Unit) :=
  [.happens .elapsed, .runsNext, .happens (.taskEnds .cancelled), .runsNext]

theorem timedOut_sound_iff :
    Sound (limited.run timedOut).log (.timeoutError "tool" (.finite 30)) true ↔
      Along limited.step Kept limited.start timedOut :=
  runWithTimeout_sound_iff limited timedOut _ _ rfl

def cancelledInFirstWait : List (Act Unit Unit) := [.happens .callerCancelled, .runsNext]

def cancelledInSecondWait : List (Act Unit Unit) :=
  [.happens .elapsed, .runsNext, .happens .callerCancelled, .happens (.taskEnds .cancelled), .runsNext]

theorem limited_loses_cancellation :
    ((limited.run cancelledInFirstWait).phase = .ended .cancelled false ∧
      ¬ Sound (limited.run cancelledInFirstWait).log .cancelled false) ∧
    (limited.run cancelledInSecondWait).phase = .ended (.timeoutError "tool" (.finite 30)) true ∧
      ¬ Sound (limited.run cancelledInSecondWait).log (.timeoutError "tool" (.finite 30)) true := by
  have hlog : (limited.run cancelledInSecondWait).log =
      [.elapsed, .callerCancelled, .taskEnds .cancelled] := rfl
  refine ⟨⟨rfl, fun h => ?_⟩, rfl, fun h => ?_⟩
  · have := h.finished
    cases this
  · have := h.cancelled (by simp [hlog])
    cases this

end Timeout
end PyClaw
