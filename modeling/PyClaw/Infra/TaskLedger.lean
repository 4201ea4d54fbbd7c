import PyClaw.Infra.TaskManager

/-!
# Infra.TaskLedger

What the task manager is for: a `TaskLedger` numbers the tasks and forgets none of them. The manager
that prunes its table gives every caller the same answers (`outputs_manager`), since only ended
tasks are pruned.
-/

namespace PyClaw

/-- A task from its spawn on. -/
structure SpawnedTask where
  name : String
  category : TaskCategory
  createdAt : Int
  owner : Option String
  task : AsyncioTask := {}
  deriving DecidableEq, Repr

/-- All tasks that were ever spawned, by their numbers. -/
structure TaskLedger where
  spawned : List SpawnedTask := []
  closed : Bool := false
  /-- The numbers of the tasks that the shutdown waits for. -/
  draining : Option (List Nat) := none
  now : Int := 0

/-- The handle of the task number `n`. -/
def SpawnedTask.handle (n : Nat) (t : SpawnedTask) : TaskHandle where
  taskId := taskIdOf n
  name := t.name
  category := t.category
  asyncioTask := n
  createdAt := t.createdAt
  exception := t.task.ended.bind TaskExit.exception?
  owner := t.owner

namespace TaskLedger

variable (l : TaskLedger)

def modify (n : Nat) (f : AsyncioTask → AsyncioTask) : TaskLedger :=
  { l with spawned := l.spawned.modify n fun t => { t with task := f t.task } }

def info (n : Nat) (t : SpawnedTask) : TaskInfo where
  taskId := taskIdOf n
  name := t.name
  category := t.category
  state := t.task.state
  createdAt := t.createdAt
  durationS := l.now - t.createdAt
  exception := t.task.ended.bind TaskExit.exception?
  owner := t.owner

/-- The numbers of the tasks that run. -/
def running : List Nat := (l.spawned.zipIdx.filter fun p => p.1.task.ended = none).map Prod.snd

def ended (n : Nat) : Option TaskExit := l.spawned[n]?.bind fun t => t.task.ended

def step : TaskManagerStep → TaskManagerAnswer × TaskLedger
  | .spawns name category owner =>
    if l.closed then (.closed ("TaskManager closed, cannot spawn '" ++ name ++ "'"), l)
    else
      (.spawned (taskIdOf l.spawned.length),
        { l with spawned := l.spawned ++ [{ name, category, createdAt := l.now, owner }] })
  | .ends n how => (.nothing, l.modify n (·.finish how))
  | .cancels taskId =>
    match l.running.find? (taskIdOf · = taskId) with
    | none => (.cancelled false, l)
    | some n => (.cancelled true, l.modify n .cancel)
  | .lists category owner =>
    (.listed ((l.spawned.zipIdx.filter fun p =>
      p.1.task.ended = none && category.all (p.1.category = ·) && owner.all (p.1.owner = some ·)).map
        fun p => l.info p.2 p.1), l)
  | .shutsDown =>
    if l.closed then (.report {}, l)
    else
      (.nothing,
        { l with
          closed := true
          draining := some l.running
          spawned := l.spawned.map fun t => { t with task := t.task.cancel } })
  | .reports =>
    match l.draining with
    | none => (.nothing, l)
    | some running => (.report (countEnds (running.map l.ended)), { l with draining := none })
  | .passes s => (.nothing, { l with now := l.now + s })

end TaskLedger

/-! ## Numbers and ids -/

theorem taskIdOf_injective : Function.Injective taskIdOf := by
  intro a b h
  have hlist : List.replicate (6 - (Nat.toDigits 10 a).length) '0' ++ Nat.toDigits 10 a =
      List.replicate (6 - (Nat.toDigits 10 b).length) '0' ++ Nat.toDigits 10 b := by
    have := congrArg String.toList h
    simpa [taskIdOf] using this
  have hvalue := congrArg (Nat.ofDigitChars 10 · 0) hlist
  simpa [Nat.ofDigitChars_append, Nat.ofDigitChars_replicate_zero] using hvalue

/-! ## One task changes -/

theorem zipIdx_modify {α : Type} (f : α → α) (n : Nat) (l : List α) :
    (l.modify n f).zipIdx = l.zipIdx.map fun p => (if p.2 = n then f p.1 else p.1, p.2) := by
  apply List.ext_getElem?
  intro i
  rw [List.getElem?_zipIdx, List.getElem?_map, List.getElem?_zipIdx, List.getElem?_modify]
  by_cases h : n = i
  · subst h
    cases l[n]? <;> simp
  · have h' : ¬ i = n := fun e => h e.symm
    cases l[i]? <;> simp [h, h']

@[simp] theorem TaskLedger.modify_spawned (l : TaskLedger) (n : Nat) (f : AsyncioTask → AsyncioTask) :
    (l.modify n f).spawned = l.spawned.modify n fun t => { t with task := f t.task } := rfl

theorem map_modify_task (l : List SpawnedTask) (n : Nat) (f : AsyncioTask → AsyncioTask) :
    (l.modify n fun t => { t with task := f t.task }).map SpawnedTask.task =
      (l.map SpawnedTask.task).modify n f := by
  apply List.ext_getElem?
  intro i
  rw [List.getElem?_map, List.getElem?_modify, List.getElem?_modify, List.getElem?_map]
  by_cases h : n = i
  · subst h
    cases l[n]? <;> simp
  · cases l[i]? <;> simp [h]

@[simp] theorem AsyncioTask.cancel_ended (t : AsyncioTask) : t.cancel.ended = t.ended := by
  unfold AsyncioTask.cancel
  split <;> rfl

@[simp] theorem AsyncioTask.cancel_cancel (t : AsyncioTask) : t.cancel.cancel = t.cancel := by
  rw [cancel, AsyncioTask.cancel_ended, cancel]
  split <;> rfl

theorem AsyncioTask.cancel_of_ended {t : AsyncioTask} (h : t.ended ≠ none) : t.cancel = t := if_neg h

theorem AsyncioTask.finish_of_ended {t : AsyncioTask} (how : TaskExit) (h : t.ended ≠ none) :
    t.finish how = t := if_neg h

/-- Cancelling the tasks of a list, each once or more often. -/
theorem getElem?_cancelAll (ns : List Nat) (loop : List AsyncioTask) (i : Nat) :
    (ns.foldl (fun loop n => loop.modify n .cancel) loop)[i]? =
      loop[i]?.map fun t => if i ∈ ns then t.cancel else t := by
  induction ns generalizing loop with
  | nil => simp
  | cons n ns ih =>
    rw [List.foldl_cons, ih, List.getElem?_modify]
    by_cases h : n = i
    · subst h
      cases loop[n]? <;> simp
    · have h' : ¬ i = n := fun e => h e.symm
      simp [h, h']

/-! ## The two agree -/

/-- The manager knows the tasks of the ledger that `kept` holds of, and every task that runs. -/
structure TaskManager.Follows (kept : Nat → Bool) (m : TaskManager) (l : TaskLedger) : Prop where
  loop : m.loop = l.spawned.map SpawnedTask.task
  nextId : m.nextId = l.spawned.length
  closed : m.closed = l.closed
  now : m.now = l.now
  draining : m.draining.map (List.map TaskHandle.asyncioTask) = l.draining
  items : m.tasks.items =
    (l.spawned.zipIdx.filter fun p => kept p.2).map fun p => (taskIdOf p.2, p.1.handle p.2)
  forgotten : ∀ n t, l.spawned[n]? = some t → kept n = false →
    t.task.ended ≠ none ∧ t.createdAt < l.now - pruneAgeS

section
variable {kept : Nat → Bool} {m : TaskManager} {l : TaskLedger} (h : m.Follows kept l)
include h

theorem TaskManager.Follows.running {n : Nat} {t : SpawnedTask} (hn : l.spawned[n]? = some t)
    (hrun : t.task.ended = none) : kept n = true := by
  cases hkept : kept n with
  | true => rfl
  | false => exact absurd hrun (h.forgotten n t hn hkept).1

theorem TaskManager.Follows.asyncioTask {n : Nat} {t : SpawnedTask} (hn : l.spawned[n]? = some t)
    (x : TaskHandle) (hx : x.asyncioTask = n) : m.asyncioTask x = t.task := by
  simp [TaskManager.asyncioTask, hx, h.loop, hn]

/-- The manager's table, as the handles of the numbered tasks. -/
theorem TaskManager.Follows.values : m.tasks.values =
    (l.spawned.zipIdx.filter fun p => kept p.2).map fun p => p.1.handle p.2 := by
  rw [Dict.values, h.items, List.map_map]
  rfl

theorem TaskManager.Follows.get?_eq_some {taskId : String} {x : TaskHandle} :
    m.tasks.get? taskId = some x ↔
      ∃ n t, l.spawned[n]? = some t ∧ kept n = true ∧ taskId = taskIdOf n ∧ x = t.handle n := by
  rw [Dict.get?_eq_some, h.items, List.mem_map]
  constructor
  · rintro ⟨⟨t, n⟩, hmem, he⟩
    obtain ⟨hmem, hkept⟩ := List.mem_filter.mp hmem
    cases he
    exact ⟨n, t, List.mem_zipIdx_iff_getElem?.mp hmem, hkept, rfl, rfl⟩
  · rintro ⟨n, t, hn, hkept, rfl, rfl⟩
    exact ⟨(t, n), List.mem_filter.mpr ⟨List.mem_zipIdx_iff_getElem?.mpr hn, hkept⟩, rfl⟩

theorem TaskManager.Follows.get?_of_kept {n : Nat} {t : SpawnedTask} (hn : l.spawned[n]? = some t)
    (hkept : kept n = true) : m.tasks.get? (taskIdOf n) = some (t.handle n) :=
  h.get?_eq_some.mpr ⟨n, t, hn, hkept, rfl, rfl⟩

/-- A filter of the table that only running tasks pass is the filter of all tasks. -/
theorem TaskManager.Follows.filter_values {p : TaskHandle → Bool} {q : SpawnedTask × Nat → Bool}
    (hrun : ∀ t n, q (t, n) = true → t.task.ended = none)
    (hpq : ∀ t n, l.spawned[n]? = some t → p (t.handle n) = q (t, n)) :
    m.tasks.values.filter p = (l.spawned.zipIdx.filter q).map fun e => e.1.handle e.2 := by
  rw [h.values, List.filter_map, List.filter_filter]
  congr 1
  refine List.filter_congr ?_
  rintro ⟨t, n⟩ hmem
  have hn := List.mem_zipIdx_iff_getElem?.mp hmem
  simp only [Function.comp, hpq t n hn]
  cases hq : q (t, n) with
  | false => rfl
  | true => simp [h.running hn (hrun t n hq)]

theorem TaskManager.Follows.running_eq : m.running.map TaskHandle.asyncioTask = l.running := by
  rw [TaskManager.running, h.filter_values (q := fun e => e.1.task.ended = none) (by simp)
    (fun t n hn => by rw [h.asyncioTask hn _ rfl]), List.map_map]
  rfl

/-! ## One step -/

/-- The table without the ended old tasks. -/
theorem TaskManager.Follows.maybePrune : ∃ kept', m.maybePrune.Follows kept' l := by
  refine ⟨fun n => kept n && (l.spawned[n]?).all fun t => !prunable m.now t.createdAt t.task.state,
    { h with items := ?_, forgotten := fun n t hn hkept => ?_ }⟩
  · show m.tasks.items.filter (fun e => !prunable m.now e.2.createdAt (m.taskState e.2)) = _
    rw [h.items, List.filter_map, List.filter_filter]
    congr 1
    refine List.filter_congr ?_
    rintro ⟨t, n⟩ hmem
    have hn := List.mem_zipIdx_iff_getElem?.mp hmem
    simp only [Function.comp, TaskManager.taskState, h.asyncioTask hn (t.handle n) rfl, hn, Option.all_some]
    exact Bool.and_comm _ _
  · cases hold : kept n with
    | false => exact h.forgotten n t hn hold
    | true =>
      have hprune : prunable m.now t.createdAt t.task.state = true := by simpa [hold, hn] using hkept
      rw [prunable, Bool.and_eq_true, decide_eq_true_eq, decide_eq_true_eq] at hprune
      refine ⟨fun hrun => hprune.1 ?_, h.now ▸ hprune.2⟩
      rw [AsyncioTask.state, hrun]

/-- A new task under the next number. -/
theorem TaskManager.Follows.spawn (name : String) (category : TaskCategory) (owner : Option String) :
    (m.spawn name category owner).1 = (l.step (.spawns name category owner)).1 ∧
      ∃ kept', (m.spawn name category owner).2.Follows kept' (l.step (.spawns name category owner)).2 := by
  obtain ⟨kept', h'⟩ := h.maybePrune
  have hclosed : m.maybePrune.closed = l.closed := h'.closed
  rw [TaskManager.spawn, TaskLedger.step, hclosed]
  cases l.closed with
  | true => exact ⟨rfl, kept', h'⟩
  | false =>
    refine ⟨congrArg TaskManagerAnswer.spawned (congrArg taskIdOf h'.nextId),
      fun n => kept' n || n = l.spawned.length, ?_, ?_, rfl, h'.now, h'.draining, ?_, ?_⟩
    · simp [h'.loop]
    · simp [h'.nextId]
    · have hfresh : taskIdOf l.spawned.length ∉ m.maybePrune.tasks.keys := by
        rw [← Dict.get?_eq_none, Option.eq_none_iff_forall_not_mem]
        intro x hx
        obtain ⟨n, t, hn, -, hid, -⟩ := h'.get?_eq_some.mp hx
        rw [← taskIdOf_injective hid] at hn
        simp at hn
      have hold : l.spawned.zipIdx.filter (fun p => kept' p.2 || p.2 = l.spawned.length) =
          l.spawned.zipIdx.filter fun p => kept' p.2 := by
        refine List.filter_congr fun p hp => ?_
        have hlt := List.snd_lt_of_mem_zipIdx hp
        have hne : p.2 ≠ l.spawned.length := by omega
        simp [hne]
      have hlength : m.maybePrune.loop.length = l.spawned.length := by simp [h'.loop]
      simp [h'.nextId, Dict.items_set_of_not_mem _ hfresh, h'.items, List.zipIdx_append, hold,
        SpawnedTask.handle, hlength, ← h'.now]
    · intro n t hn hkept
      change (l.spawned ++ [_])[n]? = some t at hn
      rw [Bool.or_eq_false_iff, decide_eq_false_iff_not] at hkept
      rw [List.getElem?_append] at hn
      split at hn
      · exact h'.forgotten n t hn hkept.1
      · rename_i hlt
        obtain ⟨hlt', -⟩ := List.getElem?_eq_some_iff.mp hn
        simp only [List.length_singleton] at hlt'
        omega

/-- A change of one task that leaves its end alone. -/
theorem TaskManager.Follows.modify (n : Nat) (f : AsyncioTask → AsyncioTask)
    (hf : ∀ t, (f t).ended = t.ended) :
    TaskManager.Follows kept { m with loop := m.loop.modify n f } (l.modify n f) where
  loop := by rw [TaskLedger.modify, map_modify_task, h.loop]
  nextId := by simp [TaskLedger.modify, h.nextId]
  closed := h.closed
  now := h.now
  draining := h.draining
  items := by
    rw [TaskLedger.modify, zipIdx_modify, List.filter_map, List.map_map, h.items]
    refine List.map_congr_left fun p _ => ?_
    simp only [Function.comp]
    split <;> simp [SpawnedTask.handle, hf]
  forgotten i t hi hkept := by
    rw [TaskLedger.modify, List.getElem?_modify] at hi
    obtain ⟨t', ht', rfl⟩ := Option.map_eq_some_iff.mp hi
    have hold := h.forgotten i t' ht' hkept
    by_cases hni : n = i
    · rw [if_pos hni, hf]
      exact hold
    · rw [if_neg hni]
      exact hold

theorem TaskManager.Follows.find?_running (taskId : String) :
    l.running.find? (taskIdOf · = taskId) =
      (m.tasks.get? taskId).bind fun x => if (m.asyncioTask x).ended = none then some x.asyncioTask else none := by
  apply Option.ext
  intro n
  rw [Option.bind_eq_some_iff]
  constructor
  · intro hfind
    have hid : taskIdOf n = taskId := by simpa using List.find?_some hfind
    obtain ⟨⟨t, n'⟩, hmem, he⟩ := List.mem_map.mp (List.mem_of_find?_eq_some hfind)
    obtain ⟨hmem, hrun⟩ := List.mem_filter.mp hmem
    cases he
    have hn := List.mem_zipIdx_iff_getElem?.mp hmem
    have hrun : t.task.ended = none := by simpa using hrun
    refine ⟨t.handle n', hid ▸ h.get?_of_kept hn (h.running hn hrun), ?_⟩
    rw [h.asyncioTask hn _ rfl, if_pos hrun]
    rfl
  · rintro ⟨x, hx, hrun⟩
    obtain ⟨n', t, hn, -, rfl, rfl⟩ := h.get?_eq_some.mp hx
    rw [h.asyncioTask hn _ rfl, Option.ite_none_right_eq_some] at hrun
    obtain ⟨hended, he⟩ := hrun
    cases he
    have hmem : n' ∈ l.running :=
      List.mem_map.mpr ⟨(t, n'), List.mem_filter.mpr ⟨List.mem_zipIdx_iff_getElem?.mpr hn, by simpa using hended⟩, rfl⟩
    cases hfind : l.running.find? (taskIdOf · = taskIdOf n') with
    | none => exact absurd (decide_eq_true rfl) (List.find?_eq_none.mp hfind n' hmem)
    | some k =>
      have hid : taskIdOf k = taskIdOf n' := by simpa using List.find?_some hfind
      rw [taskIdOf_injective hid]
      rfl

theorem TaskManager.Follows.cancel (taskId : String) :
    TaskManagerAnswer.cancelled (m.cancel taskId).1 = (l.step (.cancels taskId)).1 ∧
      ∃ kept', (m.cancel taskId).2.Follows kept' (l.step (.cancels taskId)).2 := by
  rw [TaskLedger.step, h.find?_running, TaskManager.cancel]
  cases m.tasks.get? taskId with
  | none => exact ⟨rfl, kept, h⟩
  | some x =>
    by_cases hrun : (m.asyncioTask x).ended = none
    · simp only [ne_eq, hrun, not_true_eq_false, if_false, Option.bind_some, if_true, true_and]
      exact ⟨kept, h.modify x.asyncioTask .cancel AsyncioTask.cancel_ended⟩
    · simp only [ne_eq, hrun, not_false_eq_true, if_true, Option.bind_some, if_false, true_and]
      exact ⟨kept, h⟩

/-- A task ends: `_wrap` finds its handle, since the task ran until now. -/
theorem TaskManager.Follows.finish {n : Nat} {t : SpawnedTask} (hn : l.spawned[n]? = some t)
    (hrun : t.task.ended = none) (how : TaskExit) {tasks : Dict String TaskHandle}
    (htasks : tasks.items = m.tasks.items.map fun p =>
      if p.1 = taskIdOf n then (taskIdOf n, { t.handle n with exception := how.exception? }) else p) :
    TaskManager.Follows kept { m with loop := m.loop.modify n (·.finish how), tasks }
      (l.modify n (·.finish how)) where
  loop := by rw [TaskLedger.modify_spawned, map_modify_task l.spawned n (·.finish how), h.loop]
  nextId := by simp [h.nextId]
  closed := h.closed
  now := h.now
  draining := h.draining
  items := by
    rw [htasks, h.items, TaskLedger.modify_spawned, zipIdx_modify, List.filter_map, List.map_map,
      List.map_map]
    refine List.map_congr_left ?_
    rintro ⟨t', n'⟩ hmem
    have hn' := List.mem_zipIdx_iff_getElem?.mp (List.mem_filter.mp hmem).1
    by_cases he : n' = n
    · subst he
      obtain rfl : t = t' := Option.some.inj (hn.symm.trans hn')
      simp [SpawnedTask.handle, AsyncioTask.finish, hrun]
    · simp [he, taskIdOf_injective.eq_iff]
  forgotten i t' hi hkept := by
    rw [TaskLedger.modify_spawned, List.getElem?_modify] at hi
    obtain ⟨t'', hi', rfl⟩ := Option.map_eq_some_iff.mp hi
    by_cases hni : n = i
    · rw [← hni, h.running hn hrun] at hkept
      cases hkept
    · rw [if_neg hni]
      exact h.forgotten i t'' hi' hkept

theorem TaskManager.Follows.wrapEnds (n : Nat) (how : TaskExit) :
    (m.wrapEnds n how).Follows kept (l.modify n (·.finish how)) := by
  have hloop : m.loop[n]? = l.spawned[n]?.map SpawnedTask.task := by rw [h.loop, List.getElem?_map]
  rw [TaskManager.wrapEnds, hloop]
  by_cases hrun : ∃ t, l.spawned[n]? = some t ∧ t.task.ended = none
  · obtain ⟨t, hn, hrun⟩ := hrun
    have hget := h.get?_of_kept hn (h.running hn hrun)
    have hkey : taskIdOf n ∈ m.tasks.keys := Dict.mem_keys_of_get? hget
    simp only [hn, Option.map_some, Option.all_some, hrun, ne_eq, not_true_eq_false, decide_false,
      Bool.false_eq_true, if_false, hget]
    cases he : how.exception? with
    | none =>
      refine h.finish hn hrun how ?_
      refine ((List.map_congr_left fun p hp => ?_).trans (List.map_id _)).symm
      split
      · rename_i hp'
        have := (Dict.get?_of_mem_items hp).symm.trans (hp' ▸ hget)
        cases p
        simp_all [SpawnedTask.handle]
      · rfl
    | some exception => exact h.finish hn hrun how (by rw [Dict.items_set_of_mem _ hkey, he])
  · have hended : (l.spawned[n]?.map SpawnedTask.task).all (fun t => t.ended ≠ none) = true := by
      cases hn : l.spawned[n]? with
      | none => rfl
      | some t => simpa [hn] using hrun
    have hsame : l.modify n (·.finish how) = l := by
      have hspawned : (l.spawned.modify n fun t => { t with task := t.task.finish how }) = l.spawned := by
        apply List.ext_getElem?
        intro i
        rw [List.getElem?_modify]
        by_cases hni : n = i
        · subst hni
          cases hn : l.spawned[n]? with
          | none => rfl
          | some t =>
            have : t.task.ended ≠ none := fun e => hrun ⟨t, hn, e⟩
            simp [AsyncioTask.finish_of_ended how this]
        · cases l.spawned[i]? <;> simp [hni]
      rw [TaskLedger.modify, hspawned]
    rw [if_pos hended, hsame]
    exact h

/-- `shutdown` finds every task that runs in the table. -/
theorem TaskManager.Follows.shutdown :
    m.shutdown.1 = (l.step .shutsDown).1 ∧ m.shutdown.2.Follows kept (l.step .shutsDown).2 := by
  rw [TaskManager.shutdown, TaskLedger.step, h.closed]
  cases l.closed with
  | true => exact ⟨rfl, h⟩
  | false =>
    refine ⟨rfl, ?_, ?_, rfl, h.now, ?_, ?_, ?_⟩
    · have hfold : m.running.foldl (fun loop x => loop.modify x.asyncioTask .cancel) m.loop =
          l.running.foldl (fun loop n => loop.modify n .cancel) m.loop := by
        rw [← h.running_eq, List.foldl_map]
      show m.running.foldl _ m.loop = (l.spawned.map _).map _
      rw [hfold]
      apply List.ext_getElem?
      intro i
      rw [getElem?_cancelAll, h.loop, List.getElem?_map, List.map_map, List.getElem?_map, Option.map_map]
      cases hi : l.spawned[i]? with
      | none => rfl
      | some t =>
        simp only [Option.map_some, Function.comp, Option.some.injEq, ite_eq_left_iff]
        intro hnot
        refine (AsyncioTask.cancel_of_ended fun hrun => hnot ?_).symm
        exact List.mem_map.mpr
          ⟨(t, i), List.mem_filter.mpr ⟨List.mem_zipIdx_iff_getElem?.mpr hi, by simpa using hrun⟩, rfl⟩
    · simp [h.nextId]
    · simp [h.running_eq]
    · show m.tasks.items = ((l.spawned.map _).zipIdx.filter _).map _
      rw [h.items, List.zipIdx_map, List.filter_map, List.map_map]
      refine List.map_congr_left fun p _ => ?_
      simp [SpawnedTask.handle]
    · intro i t hi hkept
      obtain ⟨t', hi', rfl⟩ := List.getElem?_map ▸ hi |> Option.map_eq_some_iff.mp
      rw [AsyncioTask.cancel_ended]
      exact h.forgotten i t' hi' hkept

theorem TaskManager.Follows.shutdownReport :
    m.shutdownReport.1 = (l.step .reports).1 ∧ m.shutdownReport.2.Follows kept (l.step .reports).2 := by
  have hended : ∀ x : TaskHandle, (m.asyncioTask x).ended = l.ended x.asyncioTask := fun x => by
    rw [TaskManager.asyncioTask, h.loop, List.getElem?_map, TaskLedger.ended]
    cases l.spawned[x.asyncioTask]? <;> rfl
  rw [TaskManager.shutdownReport, TaskLedger.step, ← h.draining]
  cases m.draining with
  | none => exact ⟨rfl, h⟩
  | some running =>
    refine ⟨?_, { h with draining := rfl }⟩
    simp only [Option.map_some, List.map_map, Function.comp_def, hended]

theorem TaskManager.Follows.listTasks (category : Option TaskCategory) (owner : Option String) :
    TaskManagerAnswer.listed (m.listTasks category false owner) = (l.step (.lists category owner)).1 := by
  have hinfo : ∀ t n, l.spawned[n]? = some t → m.info (t.handle n) = l.info n t := fun t n hn => by
    rw [TaskManager.info, TaskManager.taskState, h.asyncioTask hn _ rfl, h.now]
    rfl
  rw [TaskManager.listTasks, h.filter_values (q := fun p => p.1.task.ended = none &&
    category.all (p.1.category = ·) && owner.all (p.1.owner = some ·)), List.map_map, TaskLedger.step]
  · congr 1
    refine List.map_congr_left ?_
    rintro ⟨t, n⟩ hmem
    exact hinfo t n (List.mem_zipIdx_iff_getElem?.mp (List.mem_filter.mp hmem).1)
  · intro t n hq
    simp only [Bool.and_eq_true, decide_eq_true_eq] at hq
    exact hq.1.1
  · intro t n hn
    have hstate : decide (m.taskState (t.handle n) = .running) = decide (t.task.ended = none) := by
      rw [TaskManager.taskState, h.asyncioTask hn (t.handle n) rfl, AsyncioTask.state]
      cases t.task.ended with
      | none => rfl
      | some how => cases how <;> rfl
    rw [Bool.false_or, hstate]
    rfl

end

theorem TaskManager.Follows.step {kept : Nat → Bool} {m : TaskManager} {l : TaskLedger}
    (h : m.Follows kept l) (a : TaskManagerStep) :
    (m.step a).1 = (l.step a).1 ∧ ∃ kept', (m.step a).2.Follows kept' (l.step a).2 := by
  cases a with
  | spawns name category owner => exact h.spawn name category owner
  | ends n how => exact ⟨rfl, kept, h.wrapEnds n how⟩
  | cancels taskId => exact h.cancel taskId
  | lists category owner => exact ⟨h.listTasks category owner, kept, h⟩
  | shutsDown => exact ⟨h.shutdown.1, kept, h.shutdown.2⟩
  | reports => exact ⟨h.shutdownReport.1, kept, h.shutdownReport.2⟩
  | passes s =>
    refine ⟨rfl, kept, { h with now := congrArg (· + (s : Int)) h.now, forgotten := fun n t hn hkept => ?_ }⟩
    obtain ⟨hended, hold⟩ := h.forgotten n t hn hkept
    exact ⟨hended, by simp only [TaskLedger.step]; omega⟩

theorem TaskManager.follows_start : TaskManager.Follows (fun _ => true) {} {} where
  loop := rfl
  nextId := rfl
  closed := rfl
  now := rfl
  draining := rfl
  items := rfl
  forgotten _ _ _ hkept := nomatch hkept

/-- Whatever is spawned, ends, is cancelled or shut down, in any order: that old tasks are forgotten is
not seen in any answer. -/
theorem outputs_taskManager (steps : List TaskManagerStep) :
    outputsFrom TaskManager.step {} steps = outputsFrom TaskLedger.step {} steps := by
  exact outputsFrom_eq_of_related (R := fun m l => ∃ kept, TaskManager.Follows kept m l)
    (C := fun _ _ => True) (fun m l a ⟨kept, h⟩ _ => h.step a) ⟨_, TaskManager.follows_start⟩
    (along_of_forall fun _ _ => trivial)

end PyClaw
