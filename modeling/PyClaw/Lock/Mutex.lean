import PyClaw.Lock.RedisLock

/-!
# Lock.Mutex

`DistributedMutex` around one `async with`: the lock in the store, the heartbeat task with what
`TaskManager` tells of it, and the flags that `lost` reads. A step ends at the next point where the
event loop may run something else.
-/

namespace PyClaw

/-- `TaskState` of `TaskManager`. -/
inductive TaskState where
  | running
  | done
  | cancelled
  | failed
  deriving DecidableEq, Repr

/-- The arguments of a mutex that its constructor accepts. -/
structure DistributedMutex where
  manager : RedisLockManager := {}
  key : String
  ttlMs : Int := 30000
  heartbeatIntervalMs : Int := 10000
  ttl_pos : 0 < ttlMs := by decide
  interval_pos : 0 < heartbeatIntervalMs := by decide
  interval_lt : 2 * heartbeatIntervalMs < ttlMs := by decide

/-- Where the `async with` is. `clean` says that nothing has been lost since the body was left. -/
inductive MutexPhase where
  | outside
  /-- `__aenter__` has the lock. -/
  | spawning
  /-- `__aenter__` is in `asyncio.sleep(0)`. -/
  | starting
  | inside
  /-- `__aexit__` waits for the end of the heartbeat. -/
  | cancelling (clean : Bool)
  | releasing (clean : Bool)
  | exited (clean : Bool)
  /-- `__aenter__` has raised. -/
  | raised
  deriving DecidableEq, Repr

structure MutexState where
  store : KeySpace String String := {}
  phase : MutexPhase := .outside
  token : Option String := none
  /-- `_lock_lost_event`, with whether it is set. -/
  lostEvent : Option Bool := none
  /-- `_heartbeat_task_id`, with what `get_state` answers for it. -/
  heartbeat : Option (Option TaskState) := none
  renewFailed : Bool := false

inductive MutexStep where
  /-- `acquire`, with the token it draws. -/
  | acquires (token : String) (delivery : Delivery)
  /-- `TaskManager.spawn`, which raises when it is closed. -/
  | spawns (accepted : Bool)
  /-- The end of `asyncio.sleep(0)`, possibly by a cancellation. -/
  | starts (interrupted : Bool)
  /-- A renewal of the heartbeat; `network` tells whether an error is one that it catches. -/
  | beats (delivery : Delivery) (network : Bool)
  | heartbeatEnds (state : TaskState)
  /-- `TaskManager` forgets a task that has ended. -/
  | prunes
  | leaves
  /-- `TaskManager.cancel` returns; the heartbeat has ended, or the wait timed out. -/
  | cancelReturns (ended : Bool)
  /-- `__aexit__` is itself cancelled. -/
  | exitInterrupted
  | releases (delivery : Delivery)
  /-- Another client's call, or the passing of time. -/
  | others (a : LockStep)
  deriving DecidableEq, Repr

namespace MutexState

def heartbeatTaskFinished (s : MutexState) : Bool :=
  match s.heartbeat with
  | none => false
  | some none => true
  | some (some state) => state ≠ .running

def lost (s : MutexState) : Bool :=
  match s.lostEvent with
  | none => false
  | some true => true
  | some false => s.heartbeatTaskFinished

variable (mutex : DistributedMutex)

def stored (s : MutexState) : Option String := mutex.manager.stored s.store mutex.key

/-- `__aenter__` up to the spawn. -/
def acquire (s : MutexState) (token : String) : Delivery → MutexState
  | .answered =>
    let r := mutex.manager.acquire s.store mutex.key token mutex.ttlMs
    match r.1 with
    | .ok t => { s with store := r.2, token := some t, lostEvent := some false, phase := .spawning }
    | .error _ => { s with store := r.2, phase := .raised }
  | .unsent => { s with phase := .raised }
  | .unanswered =>
    { s with store := (mutex.manager.acquire s.store mutex.key token mutex.ttlMs).2, phase := .raised }

/-- One turn of `_heartbeat`. -/
def beat (s : MutexState) (token : String) (network : Bool) : Delivery → MutexState
  | .answered =>
    let r := mutex.manager.renew s.store mutex.key token mutex.ttlMs
    if r.1 then { s with store := r.2 }
    else
      { s with
        store := r.2, lostEvent := some true, heartbeat := some (some .failed), renewFailed := true }
  | .unsent =>
    { s with
      lostEvent := if network then some true else s.lostEvent
      heartbeat := some (some .failed), renewFailed := true }
  | .unanswered =>
    { s with
      store := (mutex.manager.renew s.store mutex.key token mutex.ttlMs).2
      lostEvent := if network then some true else s.lostEvent
      heartbeat := some (some .failed), renewFailed := true }

/-- The end of `__aexit__`; a failed release is only logged. -/
def release (s : MutexState) (token : String) (clean : Bool) : Delivery → MutexState
  | .answered =>
    let r := mutex.manager.release s.store mutex.key token
    { s with store := r.2, phase := .exited (clean && r.1) }
  | .unsent => { s with phase := .exited false }
  | .unanswered =>
    { s with
      store := (mutex.manager.release s.store mutex.key token).2, phase := .exited false }

/-- A step at a moment at which it cannot happen changes nothing. -/
def step (s : MutexState) : MutexStep → MutexState
  | .acquires token delivery =>
    match s.phase with
    | .outside => s.acquire mutex token delivery
    | _ => s
  | .spawns accepted =>
    match s.phase with
    | .spawning =>
      if accepted then { s with heartbeat := some (some .running), phase := .starting }
      else { s with phase := .raised }
    | _ => s
  | .starts interrupted =>
    match s.phase with
    | .starting => { s with phase := if interrupted then .raised else .inside }
    | _ => s
  | .beats delivery network =>
    match s.heartbeat, s.token with
    | some (some .running), some token => s.beat mutex token network delivery
    | _, _ => s
  | .heartbeatEnds state =>
    match s.heartbeat with
    | some (some .running) => { s with heartbeat := some (some state) }
    | _ => s
  | .prunes =>
    match s.heartbeat with
    | some (some .running) | none => s
    | some _ => { s with heartbeat := some none }
  | .leaves =>
    match s.phase with
    | .inside => { s with phase := .cancelling (!s.lost) }
    | _ => s
  | .cancelReturns ended =>
    match s.phase, s.heartbeat with
    | .cancelling clean, some (some .running) =>
      if ended then { s with heartbeat := some (some .cancelled), phase := .releasing clean }
      else { s with phase := .releasing false }
    | .cancelling _, _ => { s with phase := .releasing false }
    | _, _ => s
  | .exitInterrupted =>
    match s.phase with
    | .cancelling _ => { s with phase := .exited false }
    | _ => s
  | .releases delivery =>
    match s.phase, s.token with
    | .releasing clean, some token => s.release mutex token clean delivery
    | _, _ => s
  | .others a => { s with store := mutex.manager.step s.store a }

end MutexState

end PyClaw
