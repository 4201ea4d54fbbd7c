import PyClaw.Infra.TaskShutdown

/-!
# Commands.Tasks

`/tasks list` and `/tasks kill` of all chats that share one task manager. Between the look at a task and
its cancellation a command does not wait, so a command is one step; its reply is its answer.
-/

namespace PyClaw

def TaskCategory.text : TaskCategory → String
  | .heartbeat => "heartbeat"
  | .consumer => "consumer"
  | .archive => "archive"
  | .nudge => "nudge"
  | .evolution => "evolution"
  | .curator => "curator"
  | .mcp => "mcp"
  | .generic => "generic"

def TaskState.text : TaskState → String
  | .running => "running"
  | .done => "done"
  | .cancelled => "cancelled"
  | .failed => "failed"

/-- `_PROTECTED_KILL_CATEGORIES`. -/
def TaskCategory.isProtected : TaskCategory → Bool
  | .consumer | .heartbeat | .archive => true
  | _ => false

/-- A `/tasks` command: what `cmd_tasks` reads of its context, and the words of `args.strip().split()`. -/
structure TasksCommand where
  userId : String
  adminUserIds : List String
  sessionKey : String
  parts : List String
  deriving DecidableEq, Repr

/-- `_is_admin`. -/
def TasksCommand.isAdmin (c : TasksCommand) : Bool := c.adminUserIds.contains c.userId

def ownerLabel (owner : Option String) : String :=
  match owner with
  | none | some "" => "(system)"
  | some owner => owner

/-- `_format_task_line`, for times in whole seconds. -/
def formatTaskLine (info : TaskInfo) : String :=
  "  " ++ info.taskId ++ " " ++ info.name ++ " [" ++ info.category.text ++ "] state=" ++ info.state.text ++
    " owner=" ++ ownerLabel info.owner ++ " duration=" ++ toString info.durationS ++ ".0s"

namespace TaskManager

variable (m : TaskManager)

def describe (taskId : String) : Option TaskInfo :=
  (m.listTasks none true none).find? fun info => info.taskId = taskId

def cmdTasksList (c : TasksCommand) (rest : List String) : String :=
  let showAll := rest.contains "--all"
  if showAll && !c.isAdmin then "❌ --all 仅管理员可用"
  else
    let infos := if showAll then m.listTasks none false none else m.listTasks none false (some c.sessionKey)
    if infos.isEmpty then "📋 当前没有运行中的任务"
    else
      "\n".intercalate
        (("📋 **当前任务**" ++ if showAll then " (所有)" else " (当前会话)") :: infos.map formatTaskLine)

def killPreview (info : TaskInfo) : String :=
  "\n".intercalate
    (["将终止 task " ++ info.taskId, "  name=" ++ info.name, "  category=" ++ info.category.text,
        "  owner=" ++ ownerLabel info.owner, "  state=" ++ info.state.text] ++
      (if info.category.isProtected then
        ["  ⚠️ 此任务类别（" ++ info.category.text ++ "）被保护，kill 会导致数据不一致"] else []) ++
      ["用 /tasks kill " ++ info.taskId ++ " --confirm 执行"])

def cmdTasksKill (c : TasksCommand) (rest : List String) : String × TaskManager :=
  if !c.isAdmin then ("❌ /tasks kill 仅管理员可用", m)
  else
    match rest with
    | [] => ("用法: /tasks kill <task_id> [--confirm]", m)
    | taskId :: flags =>
      match m.describe taskId with
      | none => ("❌ 任务不存在: " ++ taskId, m)
      | some info =>
        if !flags.contains "--confirm" then (killPreview info, m)
        else if info.category.isProtected then
          ("❌ 拒绝：此任务类别（" ++ info.category.text ++ "）不可通过 /tasks kill 终止，会导致数据不一致", m)
        else
          match m.cancel taskId with
          | (true, m) => ("✓ 已取消 task " ++ taskId, m)
          | (false, m) => ("❌ 任务不存在或已完成: " ++ taskId, m)

def cmdTasks (c : TasksCommand) : String × TaskManager :=
  match c.parts with
  | [] => ("用法: /tasks list [--all] | /tasks kill <task_id> [--confirm]", m)
  | sub :: rest =>
    if sub = "list" then (m.cmdTasksList c rest, m)
    else if sub = "kill" then m.cmdTasksKill c rest
    else ("❌ 未知子命令: " ++ sub ++ "；支持 list / kill", m)

end TaskManager

/-- What the program does with its tasks, and the commands of its users. -/
inductive TasksEvent where
  | program (a : TaskManagerStep)
  | command (c : TasksCommand)
  deriving DecidableEq, Repr

def TasksEvent.step? : TasksEvent → Option TaskManagerStep
  | .program a => some a
  | .command _ => none

/-- An admin confirms a kill. -/
def TasksEvent.confirmsKill : TasksEvent → Bool
  | .program _ => false
  | .command c => c.isAdmin && c.parts.head? = some "kill" && (c.parts.drop 2).contains "--confirm"

def TaskManager.react (m : TaskManager) : TasksEvent → TaskManager
  | .program a => (m.step a).2
  | .command c => (m.cmdTasks c).2

/-! ## What a command changes -/

/-- A command leaves the manager as it is, or cancels an unprotected task for an admin. -/
theorem TaskManager.cmdTasks_cases (m : TaskManager) (c : TasksCommand) :
    (m.cmdTasks c).2 = m ∨
      ∃ taskId info, TasksEvent.confirmsKill (.command c) = true ∧ m.describe taskId = some info ∧
        info.category.isProtected = false ∧ (m.cmdTasks c).2 = (m.cancel taskId).2 := by
  unfold TaskManager.cmdTasks
  split
  · exact .inl rfl
  rename_i sub rest hparts
  split
  · exact .inl rfl
  split
  case isFalse => exact .inl rfl
  rename_i hsub
  unfold TaskManager.cmdTasksKill
  split
  · exact .inl rfl
  rename_i hadmin
  split
  · exact .inl rfl
  rename_i taskId flags
  split
  · exact .inl rfl
  rename_i info hinfo
  split
  · exact .inl rfl
  rename_i hconfirm
  split
  · exact .inl rfl
  rename_i hprotected
  refine .inr ⟨taskId, info, ?_, hinfo, by simpa using hprotected, ?_⟩
  · simp only [Bool.not_eq_true', Bool.not_eq_false] at hadmin hconfirm
    simp [TasksEvent.confirmsKill, hadmin, hparts, hsub, List.contains_iff_mem.mp hconfirm]
  · split <;> (rename_i hcancel; rw [hcancel])

/-- What the protected tasks and the spawns see of a ledger. -/
def SpawnedTask.hide (t : SpawnedTask) : SpawnedTask :=
  if t.category.isProtected then t else { t with task := {} }

@[simp] theorem SpawnedTask.hide_category (t : SpawnedTask) : t.hide.category = t.category := by
  unfold SpawnedTask.hide
  split <;> rfl

structure SameProtected (l l' : TaskLedger) : Prop where
  spawned : l.spawned.map SpawnedTask.hide = l'.spawned.map SpawnedTask.hide
  closed : l.closed = l'.closed
  now : l.now = l'.now

theorem SameProtected.length {l l' : TaskLedger} (h : SameProtected l l') :
    l.spawned.length = l'.spawned.length := by
  simpa using congrArg List.length h.spawned

/-- The same change to a task of both. -/
theorem SameProtected.modify {l l' : TaskLedger} (h : SameProtected l l') (n : Nat)
    (f : AsyncioTask → AsyncioTask) : SameProtected (l.modify n f) (l'.modify n f) := by
  have hmap : ∀ spawned : List SpawnedTask,
      (spawned.modify n fun t => { t with task := f t.task }).map SpawnedTask.hide =
        (spawned.map SpawnedTask.hide).modify n fun t => { t with task := f t.task }.hide := by
    intro spawned
    apply List.ext_getElem?
    intro i
    rw [List.getElem?_map, List.getElem?_modify, List.getElem?_modify, List.getElem?_map]
    by_cases hni : n = i
    · cases spawned[i]? with
      | none => simp
      | some t => by_cases ht : t.category.isProtected = true <;> simp [hni, SpawnedTask.hide, ht]
    · cases spawned[i]? <;> simp [hni]
  exact ⟨(hmap _).trans ((congrArg (List.modify · n _) h.spawned).trans (hmap _).symm), h.closed, h.now⟩

/-- A change to an unprotected task of one of them. -/
theorem SameProtected.modify_left {l l' : TaskLedger} (h : SameProtected l l') {n : Nat} {t : SpawnedTask}
    (hn : l.spawned[n]? = some t) (ht : t.category.isProtected = false) (f : AsyncioTask → AsyncioTask) :
    SameProtected (l.modify n f) l' := by
  refine ⟨Eq.trans ?_ h.spawned, h.closed, h.now⟩
  apply List.ext_getElem?
  intro i
  rw [TaskLedger.modify_spawned, List.getElem?_map, List.getElem?_modify, List.getElem?_map]
  by_cases hni : n = i
  · subst hni
    simp [hn, SpawnedTask.hide, ht]
  · cases l.spawned[i]? <;> simp [hni]

/-- What a cancellation does to the ledger, whether or not the task runs. -/
theorem TaskLedger.step_cancels (l : TaskLedger) (taskId : String) :
    (∃ n, taskId = taskIdOf n ∧ (l.step (.cancels taskId)).2 = l.modify n .cancel) ∨
      (∀ n, taskId ≠ taskIdOf n) ∧ (l.step (.cancels taskId)).2 = l := by
  by_cases hid : ∃ n, taskId = taskIdOf n
  · obtain ⟨n, rfl⟩ := hid
    refine .inl ⟨n, rfl, ?_⟩
    rw [TaskLedger.step]
    split
    · rename_i hnone
      have hsame : (l.spawned.modify n fun t => { t with task := t.task.cancel }) = l.spawned := by
        apply List.ext_getElem?
        intro i
        rw [List.getElem?_modify]
        by_cases hni : n = i
        · cases hi : l.spawned[i]? with
          | none => rfl
          | some t =>
            have hended : t.task.ended ≠ none := fun hrun =>
              List.find?_eq_none.mp hnone n (TaskLedger.mem_running.mpr ⟨t, hni ▸ hi, hrun⟩) (decide_eq_true rfl)
            simp [hni, AsyncioTask.cancel_of_ended hended]
        · cases l.spawned[i]? <;> simp [hni]
      show l = { l with spawned := _ }
      rw [hsame]
    · rename_i k hk
      have hid : taskIdOf k = taskIdOf n := by simpa using List.find?_some hk
      rw [taskIdOf_injective hid]
  · refine .inr ⟨fun n h => hid ⟨n, h⟩, ?_⟩
    have hnone : l.running.find? (taskIdOf · = taskId) = none :=
      List.find?_eq_none.mpr fun n _ hn => hid ⟨n, (of_decide_eq_true hn).symm⟩
    rw [TaskLedger.step, hnone]

theorem SameProtected.step {l l' : TaskLedger} (h : SameProtected l l') (a : TaskManagerStep) :
    SameProtected (l.step a).2 (l'.step a).2 := by
  cases a with
  | spawns name category owner =>
    rw [TaskLedger.step, TaskLedger.step, ← h.closed]
    split
    · exact h
    · exact ⟨by simp [h.spawned, h.now], rfl, h.now⟩
  | ends n how => exact h.modify n (·.finish how)
  | cancels taskId =>
    rcases l.step_cancels taskId with ⟨n, rfl, he⟩ | ⟨hne, he⟩ <;>
      rcases l'.step_cancels _ with ⟨n', hid, he'⟩ | ⟨hne', he'⟩
    · rw [he, he', taskIdOf_injective hid]
      exact h.modify n' _
    · exact absurd rfl (hne' n)
    · exact absurd hid (hne n')
    · rw [he, he']
      exact h
  | lists category owner => exact h
  | shutsDown =>
    have hmap : ∀ spawned : List SpawnedTask,
        (spawned.map fun t => { t with task := t.task.cancel }).map SpawnedTask.hide =
          (spawned.map SpawnedTask.hide).map fun t => { t with task := t.task.cancel }.hide := by
      intro spawned
      rw [List.map_map, List.map_map]
      refine List.map_congr_left fun t _ => ?_
      by_cases ht : t.category.isProtected = true <;> simp [SpawnedTask.hide, ht]
    rw [TaskLedger.step, TaskLedger.step, ← h.closed]
    split
    · exact h
    · exact ⟨(hmap _).trans ((congrArg (List.map _) h.spawned).trans (hmap _).symm), rfl, h.now⟩
  | reports =>
    rw [TaskLedger.step, TaskLedger.step]
    split <;> split <;> exact ⟨h.spawned, h.closed, h.now⟩
  | passes s => exact ⟨h.spawned, h.closed, congrArg (· + (s : Int)) h.now⟩

/-- The task that `describe` finds, in the ledger. -/
theorem TaskManager.Follows.describe {kept : Nat → Bool} {m : TaskManager} {l : TaskLedger}
    (h : m.Follows kept l) {taskId : String} {info : TaskInfo} (hinfo : m.describe taskId = some info) :
    ∃ n t, l.spawned[n]? = some t ∧ taskId = taskIdOf n ∧ info.category = t.category := by
  have hid : info.taskId = taskId := by simpa using List.find?_some hinfo
  obtain ⟨x, hx, rfl⟩ := List.mem_map.mp (List.mem_of_find?_eq_some hinfo)
  obtain ⟨taskId', hget⟩ := Dict.mem_values.mp (List.mem_filter.mp hx).1
  obtain ⟨n, t, hn, -, -, rfl⟩ := h.get?_eq_some.mp hget
  exact ⟨n, t, hn, hid.symm, rfl⟩

/-- After a command the manager follows a ledger with the same protected tasks. -/
theorem TaskManager.Follows.command {kept : Nat → Bool} {m : TaskManager} {l l' : TaskLedger}
    (h : m.Follows kept l) (hsame : SameProtected l l') (c : TasksCommand) :
    ∃ kept₁ l₁, TaskManager.Follows kept₁ (m.cmdTasks c).2 l₁ ∧ SameProtected l₁ l' := by
  rcases m.cmdTasks_cases c with he | ⟨taskId, info, -, hinfo, hprotected, he⟩
  · rw [he]
    exact ⟨kept, l, h, hsame⟩
  · rw [he]
    obtain ⟨kept₁, h₁⟩ := (h.cancel taskId).2
    obtain ⟨n, t, hn, rfl, hcategory⟩ := h.describe hinfo
    refine ⟨kept₁, _, h₁, ?_⟩
    rcases l.step_cancels (taskIdOf n) with ⟨n', hid, he'⟩ | ⟨hne, -⟩
    · rw [he', ← taskIdOf_injective hid]
      exact hsame.modify_left hn (hcategory ▸ hprotected) _
    · exact absurd rfl (hne n)

/-! ## Over a run -/

theorem TaskManager.Follows.react {kept : Nat → Bool} {m : TaskManager} {l l' : TaskLedger}
    (h : m.Follows kept l) (hsame : SameProtected l l') (events : List TasksEvent) :
    ∃ kept₁ l₁, TaskManager.Follows kept₁ (runFrom TaskManager.react m events) l₁ ∧
      SameProtected l₁ (l'.after (events.filterMap TasksEvent.step?)) := by
  induction events generalizing kept m l l' with
  | nil => exact ⟨kept, l, h, hsame⟩
  | cons e events ih =>
    cases e with
    | program a =>
      obtain ⟨-, kept₁, h₁⟩ := h.step a
      exact ih h₁ (hsame.step a)
    | command c =>
      obtain ⟨kept₁, l₁, h₁, hsame₁⟩ := h.command hsame c
      exact ih h₁ hsame₁

theorem react_of_no_kill (m : TaskManager) {events : List TasksEvent}
    (hkill : ∀ e ∈ events, e.confirmsKill = false) :
    runFrom TaskManager.react m events = m.after (events.filterMap TasksEvent.step?) := by
  induction events generalizing m with
  | nil => rfl
  | cons e events ih =>
    have htail : ∀ e ∈ events, e.confirmsKill = false := fun e he => hkill e (List.mem_cons_of_mem _ he)
    cases e with
    | program a => exact ih (m.step a).2 htail
    | command c =>
      have hsame : m.react (.command c) = m := by
        rcases m.cmdTasks_cases c with he | ⟨_, _, hconfirm, -⟩
        · exact he
        · rw [hkill _ List.mem_cons_self] at hconfirm
          cases hconfirm
      rw [runFrom, hsame]
      exact ih m htail

/-- The protected tasks run as if no `/tasks` command had ever been sent, and everything does when no admin
has confirmed a kill. -/
theorem tasks_commands_spare_protected (events : List TasksEvent) :
    (∀ (n : Nat) (t : SpawnedTask),
        (TaskLedger.after {} (events.filterMap TasksEvent.step?)).spawned[n]? = some t →
        t.category.isProtected = true → (runFrom TaskManager.react {} events).loop[n]? = some t.task) ∧
      ((∀ e ∈ events, e.confirmsKill = false) →
        runFrom TaskManager.react {} events = TaskManager.after {} (events.filterMap TasksEvent.step?)) := by
  refine ⟨fun n t hn ht => ?_, react_of_no_kill {}⟩
  obtain ⟨kept, l, h, hsame⟩ :=
    TaskManager.follows_start.react (⟨rfl, rfl, rfl⟩ : SameProtected {} {}) events
  have hview := congrArg (·[n]?) hsame.spawned
  simp only [List.getElem?_map, hn, Option.map_some] at hview
  obtain ⟨t', hn', he⟩ := Option.map_eq_some_iff.mp hview
  have hcategory : t'.category = t.category := by
    rw [← t'.hide_category, he, t.hide_category]
  rw [SpawnedTask.hide, SpawnedTask.hide, hcategory, if_pos ht, if_pos ht] at he
  rw [h.loop, List.getElem?_map, hn', Option.map_some, he]

end PyClaw
