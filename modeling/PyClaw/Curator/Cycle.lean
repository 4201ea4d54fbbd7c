import Mathlib.Algebra.GroupWithZero.Nat
import PyClaw.Lib.Prog

/-!
# Curator.Cycle

`CuratorCycle` from the moment it has its lock, with the parts of `run_curator_scan` and
`run_llm_review` that decide when the lock is checked. What the databases, the model and Redis
answer is given by a `CycleWorld`; a cycle logs its checks and its marks.
-/

namespace PyClaw

structure CuratorSettings where
  archiveAfterDays : Int := 90
  graduationEnabled : Bool := true
  promotionMinUseCount : Int := 5
  promotionMinDays : Int := 7
  llmReviewEnabled : Bool := false
  llmReviewIntervalSeconds : Int := 1209600
  llmReviewActions : List String := ["promote"]
  llmReviewMaxBatch : Int := 20
  deriving DecidableEq, Repr

inductive CycleMode where
  | scanAndReview
  | reviewOnly
  deriving DecidableEq, Repr

inductive CycleError where
  | lockLost
  | reviewSkippedInterval
  deriving DecidableEq, Repr

/-- `LockLostError`, or any other exception. -/
inductive CycleException where
  | lockLost
  | other
  deriving DecidableEq, Repr

inductive CycleEvent where
  | checked (alive : Bool)
  | scanMarked
  | reviewMarked
  deriving DecidableEq, Repr

structure CuratorReport where
  totalScanned : Nat := 0
  totalArchived : Nat := 0
  totalGraduated : Nat := 0
  /-- The databases whose scan raised, and what it raised. -/
  errors : List (String × CycleException) := []
  deriving DecidableEq, Repr

structure ReviewDecision where
  id : String
  decision : String
  reason : String
  deriving DecidableEq, Repr

structure ReviewOutcome where
  entriesReviewed : Nat := 0
  promotedCount : Nat := 0
  archivedCount : Nat := 0
  failedCount : Nat := 0
  deriving DecidableEq, Repr

def ReviewOutcome.totalActions (o : ReviewOutcome) : Nat := o.promotedCount + o.archivedCount

structure CycleReport where
  scanReport : Option CuratorReport
  reviewActionCount : Nat
  error : Option CycleError
  unexpectedException : Bool
  deriving DecidableEq, Repr

/-- The arguments of a cycle. -/
structure CuratorCycle where
  settings : CuratorSettings := {}
  mode : CycleMode := .scanAndReview
  forceReview : Bool := false
  hasLlmClient : Bool := true
  hasWorkspace : Bool := true

/-- What the review of one database meets. -/
structure ReviewWorld where
  /-- The ids that the `SELECT` finds; none when the database cannot be read. -/
  entries : Option (List String)
  /-- The decisions of the model; none when the call fails. -/
  reply : Option (List ReviewDecision)
  /-- `graduate_single_sop` succeeds. -/
  graduates : String → Bool
  /-- The `UPDATE` of a decision does not raise. -/
  updates : ReviewDecision → Bool

structure CycleWorld where
  /-- How many checks succeed; `lost` is never unset, so the ones after them fail. -/
  aliveChecks : Nat
  scanFiles : List String
  /-- The rows archived and graduated; none when the scan raises. -/
  scanSingleDb : String → Option (Nat × Nat)
  /-- `get_last_review_at`; none when Redis raises. -/
  lastReviewAt : Option (Option Int)
  now : Int
  reviewFiles : List String
  review : String → ReviewWorld
  marksScan : Bool := true
  marksReview : Bool := true

/-- The fields of a cycle that change. -/
structure CycleState where
  aliveChecks : Nat
  scanReport : Option CuratorReport := none
  reviewOutcomes : List ReviewOutcome := []
  error : Option CycleError := none
  unexpectedException : Bool := false
  reviewCompletedFullTraversal : Bool := false

abbrev CycleProg (α : Type) := Prog CycleEvent CycleState CycleException α

namespace CuratorCycle

/-- `DistributedMutex.check_alive`. -/
def checkAlive : CycleProg Unit := do
  let s ← Prog.get
  match s.aliveChecks with
  | 0 =>
    Prog.emit (.checked false)
    Prog.raise .lockLost
  | k + 1 =>
    Prog.modify fun s => { s with aliveChecks := k }
    Prog.emit (.checked true)

def orRaise {α : Type} : Option α → CycleProg α
  | some a => return a
  | none => Prog.raise .other

variable (cycle : CuratorCycle) (world : CycleWorld)

/-! ## The scan -/

def boundedScan (dbFile : String) : CycleProg (Nat × Nat) := do
  checkAlive
  orRaise (world.scanSingleDb dbFile)

/-- `CuratorReport` from what `gather` returns, which has the exceptions among its values. -/
def scanReportOf (results : List (String × Except CycleException (Nat × Nat))) : CuratorReport where
  totalScanned := results.length
  totalArchived := (results.map fun r => match r.2 with | .ok n => n.1 | .error _ => 0).sum
  totalGraduated := (results.map fun r => match r.2 with | .ok n => n.2 | .error _ => 0).sum
  errors := results.filterMap fun r =>
    match r.2 with
    | .ok _ => none
    | .error e => some (r.1, e)

/-- The semaphore lets the databases in one after the other, in the order of their names. -/
def runCuratorScan : CycleProg CuratorReport := do
  checkAlive
  let results ← Prog.mapEach world.scanFiles fun dbFile => do
    let r ← Prog.caught (boundedScan world dbFile)
    return (dbFile, r)
  return scanReportOf results

def runScan : CycleProg Unit := do
  checkAlive
  let report ← runCuratorScan world
  Prog.modify fun s => { s with scanReport := some report }

/-! ## The review -/

def shouldRunLlmReview : CycleProg Bool :=
  if cycle.settings.llmReviewEnabled then do
    let lastRun ← orRaise world.lastReviewAt
    match lastRun with
    | some t => return ¬ world.now - t < cycle.settings.llmReviewIntervalSeconds
    | none => return true
  else return false

/-- The loop over the decisions of the model. -/
def applyDecisions (w : ReviewWorld) (entries : List String) :
    List ReviewDecision → ReviewOutcome → CycleProg ReviewOutcome
  | [], outcome => return outcome
  | d :: rest, outcome =>
    if d.id ∉ entries then applyDecisions w entries rest outcome
    else if d.decision = "promote" ∧ "promote" ∈ cycle.settings.llmReviewActions then
      if cycle.settings.graduationEnabled then
        if w.graduates d.id then do
          checkAlive
          orRaise (if w.updates d then some () else none)
          applyDecisions w entries rest { outcome with promotedCount := outcome.promotedCount + 1 }
        else applyDecisions w entries rest { outcome with failedCount := outcome.failedCount + 1 }
      else applyDecisions w entries rest outcome
    else if d.decision = "archive" ∧ "archive" ∈ cycle.settings.llmReviewActions then do
      checkAlive
      orRaise (if w.updates d then some () else none)
      applyDecisions w entries rest { outcome with archivedCount := outcome.archivedCount + 1 }
    else applyDecisions w entries rest outcome

def runLlmReview (w : ReviewWorld) : CycleProg ReviewOutcome := do
  checkAlive
  let entries ← orRaise w.entries
  if entries = [] then return {}
  else
    checkAlive
    match w.reply with
    | none => return { entriesReviewed := entries.length, failedCount := 1 }
    | some decisions =>
      cycle.applyDecisions w entries decisions { entriesReviewed := entries.length }

/-- The review of one database; only the loss of the lock ends the loop. -/
def reviewDb (dbFile : String) : CycleProg Unit := do
  checkAlive
  let r ← Prog.caught (cycle.runLlmReview (world.review dbFile))
  match r with
  | .ok outcome =>
    Prog.modify fun s => { s with reviewOutcomes := s.reviewOutcomes ++ [outcome] }
  | .error .lockLost => Prog.raise .lockLost
  | .error .other => return ()

def reviewAll : CycleProg Unit :=
  if world.reviewFiles = [] then return ()
  else do
    checkAlive
    Prog.forEach world.reviewFiles (cycle.reviewDb world)
    Prog.modify fun s => { s with reviewCompletedFullTraversal := true }

def skipReview : CycleProg Unit :=
  Prog.modify fun s => { s with error := some .reviewSkippedInterval }

def reviewDue : CycleProg Bool :=
  if cycle.forceReview then return true else cycle.shouldRunLlmReview world

def runReviewIfPermitted : CycleProg Unit :=
  if cycle.settings.llmReviewEnabled then
    if cycle.hasLlmClient ∧ cycle.hasWorkspace then do
      let should ← cycle.reviewDue world
      if should then cycle.reviewAll world else skipReview
    else return ()
  else skipReview

/-! ## The cycle -/

/-- The write of a mark that is due, which logs the mark when it succeeds. -/
def mark (due succeeds : Bool) (event : CycleEvent) : CycleProg Unit :=
  if due then if succeeds then Prog.emit event else Prog.raise .other else return ()

def markCompletion : CycleProg Unit := do
  let s ← Prog.get
  if s.error = some .lockLost then return ()
  else
    mark (cycle.mode = .scanAndReview) world.marksScan .scanMarked
    mark s.reviewCompletedFullTraversal world.marksReview .reviewMarked

def scanIfDue : CycleProg Unit :=
  if cycle.mode = .scanAndReview then runScan world else return ()

def criticalSection : CycleProg Unit := do
  cycle.scanIfDue world
  cycle.runReviewIfPermitted world
  cycle.markCompletion world

def runCriticalSection : CycleProg Unit := do
  let r ← Prog.caught (cycle.criticalSection world)
  match r with
  | .ok () => return ()
  | .error .lockLost => Prog.modify fun s => { s with error := some .lockLost }
  | .error .other => Prog.modify fun s => { s with unexpectedException := true }

def buildReport (s : CycleState) : CycleReport where
  scanReport := s.scanReport
  reviewActionCount := (s.reviewOutcomes.map ReviewOutcome.totalActions).sum
  error := s.error
  unexpectedException := s.unexpectedException

/-- `execute`, once the lock is acquired. -/
def execute : CycleReport × List CycleEvent :=
  let o := cycle.runCriticalSection world { aliveChecks := world.aliveChecks }
  (buildReport o.state, o.log)

end CuratorCycle

end PyClaw
