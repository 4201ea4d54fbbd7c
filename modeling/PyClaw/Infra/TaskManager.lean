import PyClaw.Lib.Dict
import PyClaw.Lib.Machine
import PyClaw.Lock.Mutex

/-!
# Infra.TaskManager

`TaskManager` (`infra/task_manager.py`): background tasks under ids, with a table that forgets old tasks once
they have ended, and a shutdown that cancels what still runs. A step ends where the event loop may run
something else; the table of the loop's own tasks is part of the state.
-/

namespace PyClaw

inductive TaskCategory where
  | heartbeat
  | consumer
  | archive
  | nudge
  | evolution
  | curator
  | mcp
  | generic
  deriving DecidableEq, Repr

/-- How an `asyncio.Task` ends; a raise with its type and text. -/
inductive TaskExit where
  | returned
  | raised (exception : String)
  | cancelled
  deriving DecidableEq, Repr

def TaskExit.state : TaskExit → TaskState
  | .returned => .done
  | .raised _ => .failed
  | .cancelled => .cancelled

def TaskExit.exception? : TaskExit → Option String
  | .raised exception => some exception
  | _ => none

/-- A task of the event loop: `cancel()` has been called while it ran, and its end. -/
structure AsyncioTask where
  cancelRequested : Bool := false
  ended : Option TaskExit := none
  deriving DecidableEq, Repr

def AsyncioTask.state (t : AsyncioTask) : TaskState :=
  match t.ended with
  | none => .running
  | some how => how.state

def AsyncioTask.cancel (t : AsyncioTask) : AsyncioTask :=
  if t.ended = none then { t with cancelRequested := true } else t

def AsyncioTask.finish (t : AsyncioTask) (how : TaskExit) : AsyncioTask :=
  if t.ended = none then { t with ended := some how } else t

structure TaskHandle where
  taskId : String
  name : String
  category : TaskCategory
  /-- The number of the task in the event loop. -/
  asyncioTask : Nat
  createdAt : Int
  exception : Option String := none
  owner : Option String
  deriving DecidableEq, Repr

structure TaskInfo where
  taskId : String
  name : String
  category : TaskCategory
  state : TaskState
  createdAt : Int
  durationS : Int
  exception : Option String
  owner : Option String
  deriving DecidableEq, Repr

structure ShutdownReport where
  completed : Nat := 0
  cancelled : Nat := 0
  timedOut : Nat := 0
  failed : Nat := 0
  deriving DecidableEq, Repr

/-- `f"t{n:06d}"`. -/
def taskIdOf (n : Nat) : String :=
  "t" ++ String.ofList (List.replicate (6 - (Nat.toDigits 10 n).length) '0' ++ Nat.toDigits 10 n)

/-- `_PRUNE_AGE_S`. -/
def pruneAgeS : Int := 300

structure TaskManager where
  tasks : Dict String TaskHandle := Dict.empty
  closed : Bool := false
  nextId : Nat := 0
  /-- The tasks of the event loop, in the order of their creation. -/
  loop : List AsyncioTask := []
  /-- `running` of the `shutdown` that waits for them. -/
  draining : Option (List TaskHandle) := none
  now : Int := 0

inductive TaskManagerStep where
  | spawns (name : String) (category : TaskCategory) (owner : Option String)
  /-- The coroutine of a task ends, if the task still runs. -/
  | ends (asyncioTask : Nat) (how : TaskExit)
  | cancels (taskId : String)
  /-- `list_tasks` without `include_done`. -/
  | lists (category : Option TaskCategory) (owner : Option String)
  /-- `shutdown` up to its wait. -/
  | shutsDown
  /-- The wait is over: all tasks have ended, or the grace time has passed. -/
  | reports
  | passes (s : Nat)
  deriving DecidableEq, Repr

inductive TaskManagerAnswer where
  | spawned (taskId : String)
  /-- `TaskManagerClosedError`. -/
  | closed (message : String)
  /-- What `cancel` returns, when its wait is over. -/
  | cancelled (initiated : Bool)
  | listed (infos : List TaskInfo)
  | report (r : ShutdownReport)
  | nothing
  deriving DecidableEq, Repr

/-- `_maybe_prune` drops such a task. -/
def prunable (now : Int) (createdAt : Int) (state : TaskState) : Bool :=
  state ≠ .running && createdAt < now - pruneAgeS

/-- The counts of `shutdown` over the tasks it waited for. -/
def countEnds (ends : List (Option TaskExit)) : ShutdownReport where
  completed := ends.countP (· = some .returned)
  cancelled := ends.countP (· = some .cancelled)
  timedOut := ends.countP (· = none)
  failed := ends.countP fun e => (e.bind TaskExit.exception?).isSome

namespace TaskManager

variable (m : TaskManager)

def asyncioTask (h : TaskHandle) : AsyncioTask := m.loop[h.asyncioTask]?.getD {}

/-- `_task_state`. -/
def taskState (h : TaskHandle) : TaskState := (m.asyncioTask h).state

def getState (taskId : String) : Option TaskState := (m.tasks.get? taskId).map m.taskState

def maybePrune : TaskManager :=
  { m with tasks := m.tasks.retain fun _ h => !prunable m.now h.createdAt (m.taskState h) }

def spawn (name : String) (category : TaskCategory) (owner : Option String) : TaskManagerAnswer × TaskManager :=
  let m := m.maybePrune
  if m.closed then (.closed ("TaskManager closed, cannot spawn '" ++ name ++ "'"), m)
  else
    let taskId := taskIdOf m.nextId
    (.spawned taskId,
      { m with
        nextId := m.nextId + 1
        loop := m.loop ++ [{}]
        tasks := m.tasks.set taskId
          { taskId, name, category, asyncioTask := m.loop.length, createdAt := m.now, owner } })

/-- `_wrap` at the end of the coroutine. Its task is number `n` of the loop, and number `n` of the manager. -/
def wrapEnds (n : Nat) (how : TaskExit) : TaskManager :=
  if (m.loop[n]?).all fun t => t.ended ≠ none then m
  else
    let m := { m with loop := m.loop.modify n (·.finish how) }
    match how.exception?, m.tasks.get? (taskIdOf n) with
    | some exception, some h =>
      { m with tasks := m.tasks.set (taskIdOf n) { h with exception := some exception } }
    | _, _ => m

def cancel (taskId : String) : Bool × TaskManager :=
  match m.tasks.get? taskId with
  | none => (false, m)
  | some h =>
    if (m.asyncioTask h).ended ≠ none then (false, m)
    else (true, { m with loop := m.loop.modify h.asyncioTask .cancel })

def info (h : TaskHandle) : TaskInfo where
  taskId := h.taskId
  name := h.name
  category := h.category
  state := m.taskState h
  createdAt := h.createdAt
  durationS := m.now - h.createdAt
  exception := h.exception
  owner := h.owner

def listTasks (category : Option TaskCategory) (includeDone : Bool) (owner : Option String) : List TaskInfo :=
  (m.tasks.values.filter fun h =>
    (includeDone || m.taskState h = .running) && category.all (h.category = ·) &&
      (owner.all (h.owner = some ·))).map m.info

/-- The tasks that `shutdown` cancels. -/
def running : List TaskHandle := m.tasks.values.filter fun h => (m.asyncioTask h).ended = none

def shutdown : TaskManagerAnswer × TaskManager :=
  if m.closed then (.report {}, m)
  else
    (.nothing,
      { m with
        closed := true
        draining := some m.running
        loop := m.running.foldl (fun loop h => loop.modify h.asyncioTask .cancel) m.loop })

def shutdownReport : TaskManagerAnswer × TaskManager :=
  match m.draining with
  | none => (.nothing, m)
  | some running =>
    (.report (countEnds (running.map fun h => (m.asyncioTask h).ended)), { m with draining := none })

def step : TaskManagerStep → TaskManagerAnswer × TaskManager
  | .spawns name category owner => m.spawn name category owner
  | .ends n how => (.nothing, m.wrapEnds n how)
  | .cancels taskId => (.cancelled (m.cancel taskId).1, (m.cancel taskId).2)
  | .lists category owner => (.listed (m.listTasks category false owner), m)
  | .shutsDown => m.shutdown
  | .reports => m.shutdownReport
  | .passes s => (.nothing, { m with now := m.now + s })

end TaskManager

end PyClaw
