import Mathlib.Logic.Function.Basic
import PyClaw.Lib.Machine
import PyClaw.Memory.Naming

/-!
# Channels.Queue

How the channels of one worker start agent runs. `SessionQueue` serves one message at a time for
each conversation id, `FeishuQueueRegistry` one for each session id, and the OpenAI-compatible
endpoint starts its run at once.
-/

namespace PyClaw

inductive QueueKey where
  | web (conversationId : String)
  | feishu (sessionId : String)
  deriving DecidableEq, Repr

/-- The queue that a request waits in. -/
def ChannelRequest.queueKey (r : ChannelRequest) : Option QueueKey :=
  match r with
  | .web _ conversationId => some (.web conversationId)
  | .openai _ _ => none
  | .feishu _ _ _ _ => r.sessionId.map .feishu

/-- A request that is being handled, and the queue whose consumer handles it. -/
structure ChannelRun where
  slot : Option QueueKey
  request : ChannelRequest

structure Queues where
  waiting : QueueKey → List ChannelRequest := fun _ => []
  runs : List ChannelRun := []

inductive QueueStep where
  | arrives (r : ChannelRequest)
  /-- The consumer of a queue takes the next request. -/
  | takes (key : QueueKey)
  | finishes (i : Nat)
  /-- `cleanup_session`, when a session is rotated away: its consumer is cancelled. -/
  | cleans (sessionId : String)

namespace Queues

def busy (q : Queues) (key : QueueKey) : Bool := q.runs.any fun run => run.slot = some key

def step (q : Queues) : QueueStep → Queues
  | .arrives r =>
    match r.queueKey with
    | some key => { q with waiting := Function.update q.waiting key (q.waiting key ++ [r]) }
    | none => { q with runs := q.runs ++ [{ slot := none, request := r }] }
  | .takes key =>
    if q.busy key then q
    else
      match q.waiting key with
      | [] => q
      | r :: rest =>
        { waiting := Function.update q.waiting key rest
          runs := q.runs ++ [{ slot := some key, request := r }] }
  | .finishes i => { q with runs := q.runs.eraseIdx i }
  | .cleans sessionId =>
    -- the entry is gone at once, the cancelled run ends when it has unwound
    { waiting := Function.update q.waiting (.feishu sessionId) []
      runs := q.runs.map fun run =>
        if run.slot = some (.feishu sessionId) then { run with slot := none } else run }

/-- No two runs in progress are on one session. -/
def OneRunPerSession (q : Queues) : Prop :=
  (q.runs.filterMap fun run => run.request.sessionId).Nodup

instance (q : Queues) : Decidable q.OneRunPerSession := inferInstanceAs (Decidable (List.Nodup _))

end Queues

end PyClaw
