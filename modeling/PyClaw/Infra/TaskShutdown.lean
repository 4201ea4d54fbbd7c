import PyClaw.Infra.TaskLedger

/-!
# Infra.TaskShutdown

What the ledger says of the manager's own state: which tasks an id still finds (`getState_taskManager`), and
that a shutdown reaches every task (`shutdown_taskManager`).
-/

namespace PyClaw

/-! ## What the table forgets -/

/-- The state of the manager after some steps. -/
def TaskManager.after (m : TaskManager) (steps : List TaskManagerStep) : TaskManager :=
  runFrom (fun m a => (m.step a).2) m steps

def TaskLedger.after (l : TaskLedger) (steps : List TaskManagerStep) : TaskLedger :=
  runFrom (fun l a => (l.step a).2) l steps

theorem TaskManager.Follows.after {kept : Nat → Bool} {m : TaskManager} {l : TaskLedger}
    (h : m.Follows kept l) (steps : List TaskManagerStep) :
    ∃ kept', (m.after steps).Follows kept' (l.after steps) := by
  induction steps generalizing kept m l with
  | nil => exact ⟨kept, h⟩
  | cons a steps ih =>
    obtain ⟨-, kept', hnext⟩ := h.step a
    exact ih hnext

/-- The id of every task that was ever spawned gives the state of that task, until it has ended and is
old. -/
theorem getState_taskManager (steps : List TaskManagerStep) (n : Nat) (t : SpawnedTask)
    (hn : (TaskLedger.after {} steps).spawned[n]? = some t) :
    (TaskManager.after {} steps).getState (taskIdOf n) = some t.task.state ∨
      (TaskManager.after {} steps).getState (taskIdOf n) = none ∧ t.task.ended ≠ none ∧
        t.createdAt < (TaskManager.after {} steps).now - pruneAgeS := by
  obtain ⟨kept, h⟩ := TaskManager.follows_start.after steps
  cases hkept : kept n with
  | true =>
    left
    rw [TaskManager.getState, h.get?_of_kept hn hkept, Option.map_some, TaskManager.taskState,
      h.asyncioTask hn _ rfl]
  | false =>
    right
    refine ⟨?_, h.now ▸ h.forgotten n t hn hkept⟩
    rw [TaskManager.getState, Option.map_eq_none_iff, Option.eq_none_iff_forall_not_mem]
    intro x hx
    obtain ⟨n', -, -, hkept', hid, -⟩ := h.get?_eq_some.mp hx
    rw [taskIdOf_injective hid, hkept'] at hkept
    cases hkept

/-- A failed task that is not yet pruned. -/
theorem getState_taskManager_failed :
    let steps : List TaskManagerStep :=
      [.spawns "curator" .curator none, .ends 0 (.raised "ValueError: no index"), .passes 400]
    (TaskManager.after {} steps).getState (taskIdOf 0) = some .failed ∨
      (TaskManager.after {} steps).getState (taskIdOf 0) = none ∧
        0 < (TaskManager.after {} steps).now - pruneAgeS := by
  rcases getState_taskManager
      [.spawns "curator" .curator none, .ends 0 (.raised "ValueError: no index"), .passes 400] 0
      { name := "curator", category := .curator, createdAt := 0, owner := none,
        task := { ended := some (.raised "ValueError: no index") } } rfl with h | ⟨h, -, hold⟩
  · exact .inl h
  · exact .inr ⟨h, hold⟩

/-! ## Shutdown -/

theorem zipIdx_filter_fst {α : Type} (p : α → Bool) (l : List α) :
    (l.zipIdx.filter fun e => p e.1).map Prod.snd = (List.range l.length).filter fun n => l[n]?.any p := by
  have hsame : l.zipIdx.filter (fun e => p e.1) = l.zipIdx.filter ((fun n => l[n]?.any p) ∘ Prod.snd) := by
    refine List.filter_congr fun e he => ?_
    rw [Function.comp, List.mem_zipIdx_iff_getElem?.mp he, Option.any_some]
  rw [hsame, ← List.filter_map, List.zipIdx_map_snd, List.range_eq_range']

theorem countP_eq_range {α : Type} (p : α → Bool) (l : List α) :
    l.countP p = (List.range l.length).countP fun n => l[n]?.any p := by
  rw [List.countP_eq_length_filter, List.countP_eq_length_filter, ← zipIdx_filter_fst, List.length_map,
    ← List.countP_eq_length_filter, ← List.countP_eq_length_filter]
  conv_lhs => rw [← List.zipIdx_map_fst 0 l]
  rw [List.countP_map]
  rfl

/-- Every task is counted once. -/
theorem countEnds_total (ends : List (Option TaskExit)) :
    (countEnds ends).completed + (countEnds ends).cancelled + (countEnds ends).timedOut +
      (countEnds ends).failed = ends.length := by
  induction ends with
  | nil => rfl
  | cons e ends ih =>
    rw [countEnds] at ih ⊢
    simp only [List.countP_cons, List.length_cons] at ih ⊢
    match e with
    | none | some .returned | some .cancelled | some (.raised _) =>
      simp only [reduceCtorEq, decide_true, decide_false, if_true, if_false, Bool.false_eq_true,
        Option.bind_none, Option.bind_some, TaskExit.exception?, Option.isSome_none, Option.isSome_some,
        Option.some.injEq]
      omega

theorem TaskLedger.step_reports {l : TaskLedger} {running : List Nat} (h : l.draining = some running) :
    (l.step .reports).1 = .report (countEnds (running.map l.ended)) := by
  rw [TaskLedger.step, h]

/-- From the shutdown in the state `start` on, until it reports. -/
structure TaskLedger.Drains (start l : TaskLedger) : Prop where
  closed : l.closed = true
  draining : l.draining = some start.running
  length : l.spawned.length = start.spawned.length
  asked : ∀ n t, l.spawned[n]? = some t → t.task.ended = none →
    t.task.cancelRequested = true ∧ n ∈ start.running

theorem TaskLedger.mem_running {l : TaskLedger} {n : Nat} :
    n ∈ l.running ↔ ∃ t, l.spawned[n]? = some t ∧ t.task.ended = none := by
  simp [TaskLedger.running, List.mem_zipIdx_iff_getElem?]

theorem TaskLedger.Drains.modify {start l : TaskLedger} (h : Drains start l) (n : Nat)
    {f : AsyncioTask → AsyncioTask}
    (hf : ∀ t, (f t).ended = none → t.ended = none ∧ (t.cancelRequested → (f t).cancelRequested)) :
    Drains start (l.modify n f) where
  closed := h.closed
  draining := h.draining
  length := by simp [h.length]
  asked i t hi hrun := by
    rw [TaskLedger.modify_spawned, List.getElem?_modify] at hi
    obtain ⟨t', hi', rfl⟩ := Option.map_eq_some_iff.mp hi
    by_cases hni : n = i
    · rw [if_pos hni] at hrun ⊢
      obtain ⟨hrun', hasked⟩ := hf t'.task hrun
      obtain ⟨hc, hmem⟩ := h.asked i t' hi' hrun'
      exact ⟨hasked hc, hmem⟩
    · rw [if_neg hni] at hrun ⊢
      exact h.asked i t' hi' hrun

theorem AsyncioTask.finish_running {t : AsyncioTask} {how : TaskExit} (h : (t.finish how).ended = none) :
    t.ended = none ∧ (t.cancelRequested → (t.finish how).cancelRequested) := by
  rw [AsyncioTask.finish] at h ⊢
  split at h
  · cases h
  · rename_i hended
    exact absurd h hended

theorem AsyncioTask.cancel_running {t : AsyncioTask} (h : t.cancel.ended = none) :
    t.ended = none ∧ (t.cancelRequested → t.cancel.cancelRequested) := by
  rw [AsyncioTask.cancel_ended] at h
  exact ⟨h, fun _ => by rw [AsyncioTask.cancel, if_pos h]⟩

theorem TaskLedger.Drains.step {start l : TaskLedger} (h : Drains start l) {a : TaskManagerStep}
    (ha : a ≠ .reports) : Drains start (l.step a).2 := by
  cases a with
  | spawns name category owner =>
    rw [TaskLedger.step, if_pos h.closed]
    exact h
  | ends n how => exact h.modify n fun t ht => AsyncioTask.finish_running ht
  | cancels taskId =>
    rw [TaskLedger.step]
    split
    · exact h
    · exact h.modify _ fun t ht => AsyncioTask.cancel_running ht
  | lists category owner => exact h
  | shutsDown =>
    rw [TaskLedger.step, if_pos h.closed]
    exact h
  | reports => exact absurd rfl ha
  | passes s => exact { h with }

theorem TaskLedger.drains_shutdown {l : TaskLedger} (hopen : l.closed = false) :
    Drains l (l.step .shutsDown).2 := by
  rw [TaskLedger.step, hopen]
  refine ⟨rfl, rfl, List.length_map _, fun n t hn hrun => ?_⟩
  obtain ⟨t', hn', rfl⟩ := List.getElem?_map ▸ hn |> Option.map_eq_some_iff.mp
  have hrun' : t'.task.ended = none := by simpa using hrun
  exact ⟨by simp [AsyncioTask.cancel, hrun'], TaskLedger.mem_running.mpr ⟨t', hn', hrun'⟩⟩

theorem TaskLedger.Drains.after {start l : TaskLedger} (h : Drains start l) {steps : List TaskManagerStep}
    (hsteps : .reports ∉ steps) : Drains start (l.after steps) := by
  induction steps generalizing l with
  | nil => exact h
  | cons a steps ih =>
    rw [List.mem_cons, not_or] at hsteps
    exact ih (h.step fun e => hsteps.1 e.symm) hsteps.2

theorem TaskLedger.running_eq_range (l : TaskLedger) : l.running =
    (List.range l.spawned.length).filter fun n => l.spawned[n]?.any fun t => t.task.ended = none :=
  zipIdx_filter_fst (fun t : SpawnedTask => decide (t.task.ended = none)) l.spawned

theorem TaskLedger.length_running (l : TaskLedger) :
    l.running.length = l.spawned.countP (·.task.ended = none) := by
  rw [countP_eq_range, List.countP_eq_length_filter, TaskLedger.running_eq_range]

/-- The tasks that the report finds running are the tasks of the loop that still run. -/
theorem TaskLedger.Drains.report {start l : TaskLedger} (h : Drains start l) :
    (countEnds (start.running.map l.ended)).timedOut = l.spawned.countP (·.task.ended = none) := by
  have hcount : (countEnds (start.running.map l.ended)).timedOut =
      start.running.countP ((· = none) ∘ l.ended) := List.countP_map
  rw [hcount, TaskLedger.running_eq_range, List.countP_filter, ← h.length, countP_eq_range _ l.spawned]
  refine List.countP_congr fun n hn => ?_
  have hn : n < l.spawned.length := List.mem_range.mp hn
  have hget : l.spawned[n]? = some l.spawned[n] := List.getElem?_eq_getElem hn
  simp only [Function.comp, TaskLedger.ended, hget, Option.bind_some, Option.any_some, Bool.and_eq_true,
    decide_eq_true_eq]
  refine ⟨And.left, fun hrun => ⟨hrun, ?_⟩⟩
  obtain ⟨t, ht, htrun⟩ := TaskLedger.mem_running.mp (h.asked n _ hget hrun).2
  rw [ht, Option.any_some, decide_eq_true htrun]

/-- A shutdown, with whatever happens while it waits: no task starts after it, every task that still runs was
asked to stop, and the report counts each task that ran at its start once, those that still run as timed
out. -/
theorem shutdown_taskManager (before waiting : List TaskManagerStep)
    (hopen : (TaskManager.after {} before).closed = false) (hwaiting : .reports ∉ waiting) :
    let start := TaskManager.after {} before
    let m := (start.step .shutsDown).2.after waiting
    m.loop.length = start.loop.length ∧
      (∀ t ∈ m.loop, t.ended = none → t.cancelRequested = true) ∧
      ∃ r, (m.step .reports).1 = .report r ∧ r.timedOut = m.loop.countP (·.ended = none) ∧
        r.completed + r.cancelled + r.timedOut + r.failed = start.loop.countP (·.ended = none) := by
  obtain ⟨kept, h⟩ := TaskManager.follows_start.after before
  obtain ⟨kept', hm⟩ := h.shutdown.2.after waiting
  have hd := (TaskLedger.drains_shutdown (h.closed ▸ hopen)).after hwaiting
  have hreport := hm.shutdownReport.1.trans (TaskLedger.step_reports hd.draining)
  refine ⟨?_, fun t ht hrun => ?_, _, hreport, ?_, ?_⟩
  · rw [TaskManager.step, hm.loop, h.loop, List.length_map, List.length_map, hd.length]
  · obtain ⟨n, hn⟩ := List.mem_iff_getElem?.mp ht
    rw [TaskManager.step, hm.loop, List.getElem?_map] at hn
    obtain ⟨t', hn', rfl⟩ := Option.map_eq_some_iff.mp hn
    exact (hd.asked n t' hn' hrun).1
  · rw [TaskManager.step, hm.loop, List.countP_map]
    exact hd.report
  · rw [countEnds_total, List.length_map, TaskLedger.length_running, h.loop, List.countP_map]
    rfl

theorem shutdown_taskManager_two :
    ((TaskManager.after {} [.spawns "heartbeat" .heartbeat none, .spawns "nudge" .nudge none]).step
        .shutsDown).2.loop.length = 2 :=
  (shutdown_taskManager [.spawns "heartbeat" .heartbeat none, .spawns "nudge" .nudge none] [] (by decide)
    (by decide)).1

end PyClaw
