import Mathlib.Data.List.Sort
import PyClaw.Lib.Redis
import PyClaw.Lib.Tasks
import PyClaw.Session.Tree

/-!
# Sop.Candidates

The candidate hash of one session: `SopCandidateTracker`, which records the turns that called tools,
and `extract_sop_background`, which reads the hash, asks the model and deletes the hash. Both send
Redis one command at a time. The hash has no other writer, so the branches for values that do not
parse are left out. Times are microseconds.
-/

namespace PyClaw

structure EvolutionSettings where
  enabled : Bool := true
  maxCandidates : Int := 100
  minToolCallsForExtraction : Int := 2
  deriving DecidableEq, Repr

/-- A value of the hash. -/
structure SopCandidate where
  turnId : String
  userMsg : String
  toolNames : List String
  timestamp : Int
  deriving DecidableEq, Repr

/-! ## The tracker -/

/-- `f"turn_\x7btime.time():.6f\x7d"`. -/
def syntheticTurnId (now : Int) : String :=
  let micros := toString (now % 1000000)
  "turn_" ++ toString (now / 1000000) ++ "." ++
    String.ofList (List.replicate (6 - micros.length) '0') ++ micros

/-- The id of a turn: the one of its first call, if that has one. -/
def turnIdOf (toolCalls : List ToolCall) (now : Int) : String :=
  match toolCalls with
  | call :: _ => if call.id = "" then syntheticTurnId now else call.id
  | [] => syntheticTurnId now

def candidateOf (toolCalls : List ToolCall) (userMsg : String) (now : Int) : SopCandidate where
  turnId := turnIdOf toolCalls now
  userMsg := String.ofList (userMsg.toList.take 200)
  toolNames := (toolCalls.map ToolCall.name).filter (· ≠ "")
  timestamp := now

def evictionBatch : Nat := 10

/-- The fields that `_maybe_evict` deletes. -/
def oldestFields (entries : List (String × SopCandidate)) : List String :=
  ((entries.mergeSort fun p q => p.2.timestamp ≤ q.2.timestamp).take evictionBatch).map Prod.fst

/-! ## The extraction -/

/-- The entries for which `_build_segments` builds a segment. -/
def segmentEntries (tree : SessionTree) (candidateTurnIds : List String) : List String :=
  (tree.order.filter fun entryId =>
    match (tree.entries.get? entryId).bind SessionEntry.message? with
    | some m =>
      m.role = .assistant ∧ ∃ call ∈ m.toolCalls, call.id ≠ "" ∧ call.id ∈ candidateTurnIds
    | none => false).dedup

inductive SopOp where
  /-- `after_response` of a turn. -/
  | afterResponse (toolCalls : List ToolCall) (userMsg : String) (now : Int)
  | extractSopBackground

inductive SopCommand where
  | hset (turnId : String) (candidate : SopCandidate)
  | hlen
  | hgetall
  | hdel (fields : List String)
  | readCandidates
  | loadSession (candidateTurnIds : List String)
  | callLlm
  /-- The loop over the replies, which stores those that are valid and new. -/
  | storeSops
  | cleanup
  deriving DecidableEq

/-- What a command meets; it reads the field that concerns it. -/
structure SopAnswer where
  delivery : Delivery := .answered
  /-- `session_store.load`, which may raise and may find nothing. -/
  session : Option (Option SessionTree) := some none
  /-- How many procedures the model returns; none when reading them raises. -/
  sops : Option Nat := some 0
  storesAll : Bool := true

structure SopState where
  candidates : Dict String SopCandidate := Dict.empty
  /-- The recordings that succeeded and that no eviction has removed. -/
  recorded : List (String × SopCandidate) := []
  /-- What extractions have read. -/
  read : List (String × SopCandidate) := []

namespace SopState

variable (s : SopState)

def hset (turnId : String) (c : SopCandidate) : SopState :=
  { s with candidates := s.candidates.set turnId c }

def hdel (fields : List String) : SopState :=
  { s with
    candidates := s.candidates.retain fun turnId _ => turnId ∉ fields
    recorded := s.recorded.filter fun p => ¬ (p.1 ∈ fields ∧ p ∈ s.candidates.items) }

end SopState

variable (settings : EvolutionSettings)

def sopProgram : SopOp → List SopCommand
  | .afterResponse toolCalls userMsg now =>
    if settings.enabled ∧ toolCalls ≠ [] then
      [.hset (turnIdOf toolCalls now) (candidateOf toolCalls userMsg now)]
    else []
  | .extractSopBackground => [.readCandidates]

def sopExec (s : SopState) (c : SopCommand) (answer : SopAnswer) : SopState × List SopCommand :=
  match c with
  | .hset turnId c =>
    match answer.delivery with
    | .answered =>
      ({ s.hset turnId c with recorded := (turnId, c) :: s.recorded }, [.hlen])
    | .unsent => (s, [])
    | .unanswered => (s.hset turnId c, [])
  | .hlen =>
    match answer.delivery with
    | .answered =>
      (s, if s.candidates.items.length ≤ settings.maxCandidates then [] else [.hgetall])
    | _ => (s, [])
  | .hgetall =>
    match answer.delivery with
    | .answered =>
      (s, if s.candidates.items = [] then [] else [.hdel (oldestFields s.candidates.items)])
    | _ => (s, [])
  | .hdel fields => (if answer.delivery.sent then s.hdel fields else s, [])
  | .readCandidates =>
    match answer.delivery with
    | .answered =>
      if s.candidates.items = [] then (s, [])
      else
        ({ s with read := s.candidates.items ++ s.read }, [.loadSession s.candidates.keys])
    | _ => (s, [])
  | .loadSession candidateTurnIds =>
    match answer.session with
    | some (some tree) =>
      (s, if segmentEntries tree candidateTurnIds = [] then [.cleanup] else [.callLlm])
    | _ => (s, [])
  | .callLlm =>
    match answer.sops with
    | some 0 => (s, [.cleanup])
    | some _ => (s, [.storeSops])
    | none => (s, [])
  | .storeSops => (s, if answer.storesAll then [.cleanup] else [])
  | .cleanup => (if answer.delivery.sent then { s with candidates := Dict.empty } else s, [])

def sopSystem : TaskSystem SopState SopOp SopCommand SopAnswer where
  program := sopProgram settings
  exec := sopExec settings

end PyClaw
