import PyClaw.Agent.Hooks
import PyClaw.Channels.SessionQueue
import PyClaw.Memory.Naming

/-!
# Channels.WebServer

The web channel of one worker as its users see it: the socket messages of all of them and the steps
of the runs, in any order, on one `SessionQueue`. What the runs read of it is logged.
-/

namespace PyClaw

/-- A call that an approval hook waits for. -/
structure Asked where
  userId : String
  sessionId : String
  toolCallId : String
  deriving DecidableEq, Repr

/-- What a run reads of its control surface. -/
inductive Observation where
  | abort (conversationId : String) (set : Bool)
  | steers (conversationId : String) (messages : List SteerMessage)
  | decision (asked : Asked) (d : ApprovalDecision)
  deriving DecidableEq, Repr

structure WebServer where
  queue : SessionQueue := {}
  /-- The user whose message the consumer of a conversation id is handling. -/
  serving : String → Option String := fun _ => none
  /-- `on_run_start` has run for it. -/
  started : String → Bool := fun _ => false
  /-- The waiting hooks, by the number of the decision they wait for. -/
  waiting : Nat → Option Asked := fun _ => none
  /-- Observations, with the user whose run made them. -/
  seen : List (String × Observation) := []

inductive WebStep where
  | abort (userId conversationId : String)
  | approve (userId : String) (msg : ToolApproveMessage)
  | stop (userId conversationId : String)
  | inject (userId conversationId : String) (kind : SteerKind) (args : String)
  /-- The consumer takes a `chat.send` message of the user. -/
  | takes (userId conversationId : String)
  /-- `rc.active = True`. -/
  | activates (conversationId : String)
  /-- `SteerHook.on_run_start`. -/
  | starts (conversationId : String)
  /-- `is_abort_set`. -/
  | polls (conversationId : String)
  /-- `SteerHook.before_prompt_build`. -/
  | drains (conversationId : String)
  /-- The hook creates the pending decision of a call. -/
  | asks (conversationId toolCallId : String)
  /-- The hook wakes up, by the event or by its timeout. -/
  | concludes (i : Nat)
  | finishes (conversationId : String)
  /-- The consumer's idle timeout. -/
  | exits (conversationId : String)

/-- The user of a control message. -/
def WebStep.controlBy : WebStep → Option String
  | .abort user _ | .approve user _ | .stop user _ | .inject user _ _ _ => some user
  | _ => none

namespace WebServer

section
variable (py : PyText) (nonzero : String → Bool)

def see (w : WebServer) (userId : String) (o : Observation) : WebServer :=
  { w with seen := w.seen ++ [(userId, o)] }

/-- `before_tool_execution` after its wait: a hook that is not woken by the event timed out. -/
def outcome (p : PendingDecision) : ApprovalDecision :=
  if p.event && p.isApproved nonzero then .approve else .deny

def step (w : WebServer) : WebStep → WebServer
  | .abort _ conv => { w with queue := w.queue.handleAbort conv }
  | .approve _ msg => { w with queue := w.queue.handleToolApprove msg }
  | .stop _ conv => { w with queue := w.queue.handleStopCommand conv }
  | .inject _ conv kind args => { w with queue := w.queue.handleInjection py conv kind args }
  | .takes user conv =>
    match w.serving conv with
    | some _ => w
    | none =>
      { w with
        queue := w.queue.resetAbortEvent conv
        serving := Function.update w.serving conv (some user)
        started := Function.update w.started conv false }
  | .activates conv =>
    { w with queue := w.queue.setRunControl conv { w.queue.runControls conv with active := true } }
  | .starts conv =>
    { w with
      queue := w.queue.setRunControl conv { w.queue.runControls conv with pendingSteers := [] }
      started := Function.update w.started conv true }
  | .polls conv =>
    match w.serving conv with
    | some user => w.see user (.abort conv (w.queue.runControls conv).abort)
    | none => w
  | .drains conv =>
    match w.serving conv with
    | some user =>
      if w.started conv then
        { w with
          queue := w.queue.setRunControl conv { w.queue.runControls conv with pendingSteers := [] } }.see
            user (.steers conv (w.queue.runControls conv).pendingSteers)
      else w
    | none => w
  | .asks conv call =>
    match w.serving conv with
    | some user =>
      match webSessionId user conv with
      | some sid =>
        { w with
          queue := w.queue.createPending sid call
          waiting := Function.update w.waiting w.queue.created
            (some { userId := user, sessionId := sid, toolCallId := call }) }
      | none => w
    | none => w
  | .concludes i =>
    match w.waiting i with
    | some asked =>
      { w with
        queue := w.queue.discardPending asked.sessionId asked.toolCallId
        waiting := Function.update w.waiting i none }.see
          asked.userId (.decision asked (outcome nonzero (w.queue.decisions i)))
    | none => w
  | .finishes conv =>
    { w with
      queue := w.queue.setRunControl conv { w.queue.runControls conv with active := false }
      serving := Function.update w.serving conv none }
  | .exits conv =>
    match w.serving conv with
    | some _ => w
    | none => { w with queue := w.queue.setRunControl conv {} }

end

end WebServer

end PyClaw
