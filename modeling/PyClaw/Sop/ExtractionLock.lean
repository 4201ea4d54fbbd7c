import Mathlib.Algebra.GroupWithZero.Nat
import PyClaw.Sop.Candidates

/-!
# Sop.ExtractionLock

The lock around the extractions of one session: `maybe_spawn_extraction`, `extract_sops_sync` and
`_extract_then_reset`. Its value is always `"1"`; which attempt stored it is only known to the model.
-/

namespace PyClaw

def totalToolCalls (entries : Dict String SopCandidate) : Nat :=
  (entries.values.map fun c => c.toolNames.length).sum

/-- The two ways into an extraction. -/
inductive ExtractionPath where
  | maybeSpawnExtraction
  | extractSopsSync
  deriving DecidableEq, Repr

/-- Why an extraction is skipped before the lock is tried, from what `hgetall` answers. Only the
synchronous path looks at whether there are candidates at all; the other one only logs. -/
def skipReason (settings : EvolutionSettings) (minToolCalls : Option Int)
    (entries : Option (Dict String SopCandidate)) : ExtractionPath → Option String
  | .maybeSpawnExtraction =>
    if settings.enabled then
      match entries with
      | none => some "redis_error"
      | some entries =>
        if totalToolCalls entries < minToolCalls.getD settings.minToolCallsForExtraction then
          some "below_threshold"
        else none
    else some "disabled"
  | .extractSopsSync =>
    if settings.enabled then
      match entries with
      | none => some "redis_error"
      | some entries =>
        if entries.items = [] then some "no_candidates"
        else if totalToolCalls entries < minToolCalls.getD settings.minToolCallsForExtraction then
          some "below_threshold"
        else none
    else some "disabled"

def extractingLockTtlMs : Int := 600 * 1000

def extractingLockKey (sessionId : String) : String := "pyclaw:sop_extracting:" ++ sessionId

structure ExtractionState where
  redis : KeySpace String String := {}
  /-- The attempt whose `SET` last succeeded. -/
  holder : Option Nat := none
  /-- The extractions that have the lock by their own account, with the time of their `SET`. -/
  running : Nat → Option Int := fun _ => none

inductive ExtractionStep where
  | attempts (n : Nat) (path : ExtractionPath) (minToolCalls : Option Int)
      (entries : Option (Dict String SopCandidate)) (delivery : Delivery)
  /-- The end of an extraction, or of one that could not be spawned. -/
  | releases (n : Nat) (delivery : Delivery)
  /-- The process stops, or cancels the task before it has begun. -/
  | dies (n : Nat)
  | passes (ms : Nat)

namespace ExtractionState

variable (settings : EvolutionSettings) (sessionId : String)

def ends (s : ExtractionState) (n : Nat) : ExtractionState :=
  { s with running := Function.update s.running n none }

/-- `set(lock_key, "1", ex=EXTRACTING_LOCK_TTL_SECONDS, nx=True)`. -/
def setLock (s : ExtractionState) (n : Nat) : Bool × ExtractionState :=
  let r := s.redis.setNx (extractingLockKey sessionId) "1" extractingLockTtlMs
  (r.1, { s with redis := r.2, holder := if r.1 then some n else s.holder })

def attempt (s : ExtractionState) (n : Nat) : Delivery → ExtractionState
  | .answered =>
    let r := s.setLock sessionId n
    if r.1 then { r.2 with running := Function.update s.running n (some s.redis.now) } else r.2
  | .unsent => s
  | .unanswered => (s.setLock sessionId n).2

def step (s : ExtractionState) : ExtractionStep → ExtractionState
  | .attempts n path minToolCalls entries delivery =>
    match s.running n, skipReason settings minToolCalls entries path with
    | none, none => s.attempt sessionId n delivery
    | _, _ => s
  | .releases n delivery =>
    match s.running n with
    | none => s
    | some _ =>
      if delivery.sent then
        { s.ends n with redis := (s.redis.del (extractingLockKey sessionId)).2 }
      else s.ends n
  | .dies n => s.ends n
  | .passes ms => { s with redis := s.redis.pass ms }

end ExtractionState

end PyClaw
