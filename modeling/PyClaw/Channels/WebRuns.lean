import PyClaw.Channels.SessionQueue
import PyClaw.Lib.Machine

/-!
# Channels.WebRuns

The agent runs of the web channel, with what `/stop` and `chat.abort` do to them and the messages that
end them. A `/stop` answers for the run that it stops and leaves a flag for the streaming loop, which
reads the flag only when the run ends aborted.
-/

namespace PyClaw

/-- The messages that a client takes for the end of a run. -/
inductive TerminalMessage where
  | chatDone (finalMessage : String) (usage : Option LLMUsage) (aborted : Bool)
  | error (message : String)
  deriving DecidableEq, Repr

/-- A message, and the run that it ends; none when it ends no run. -/
structure WebSent where
  conversationId : String
  run : Option Nat
  message : TerminalMessage
  deriving DecidableEq, Repr

/-- Where the handler of a conversation is. A run is closing when its stream has ended and
`rc.active` is still set. -/
inductive RunPhase where
  | idle
  | handling
  | running (run : Nat)
  | closing (run : Nat)
  deriving DecidableEq, Repr

def RunPhase.run : RunPhase → Option Nat
  | .running n | .closing n => some n
  | .idle | .handling => none

structure WebRuns where
  queue : SessionQueue := {}
  phase : String → RunPhase := fun _ => .idle
  runs : Nat := 0
  sent : List WebSent := []

inductive WebRunStep where
  /-- The consumer takes a message: `reset_abort_event`, then the handler. -/
  | takes (conversationId : String)
  /-- The handler returns without a run, after a slash command or a refusal. -/
  | returns (conversationId : String)
  /-- `rc.active = True`. -/
  | activates (conversationId : String)
  | yields (conversationId : String) (event : AgentEvent)
  | raises (conversationId : String)
  /-- The `finally` of the loop. -/
  | finishes (conversationId : String)
  | stop (conversationId : String)
  /-- `chat.abort`. -/
  | abort (conversationId : String)
  /-- The consumer's idle timeout. -/
  | exits (conversationId : String)

namespace WebRuns

section
variable (s : WebRuns)

def control (conv : String) : RunControl := s.queue.runControls conv

def setControl (conv : String) (rc : RunControl) : WebRuns :=
  { s with queue := s.queue.setRunControl conv rc }

def setPhase (conv : String) (phase : RunPhase) : WebRuns :=
  { s with phase := Function.update s.phase conv phase }

def send (conv : String) (run : Option Nat) (message : TerminalMessage) : WebRuns :=
  { s with sent := s.sent ++ [{ conversationId := conv, run, message }] }

def stopReply : TerminalMessage := .chatDone "🛑 已停止" none true

/-- `handle_stop_command`. -/
def stop (conv : String) : WebRuns :=
  if (s.control conv).isActive then
    { s with queue := s.queue.handleStopCommand conv }.send conv (s.phase conv).run stopReply
  else s.send conv none (.chatDone "⚠️ 没有正在运行的任务" none false)

/-- The loop's answer to an event of the run `n`. -/
def onEvent (conv : String) (n : Nat) : AgentEvent → WebRuns
  | .done finalMessage usage =>
    (s.send conv (some n) (.chatDone finalMessage (some usage) false)).setPhase conv (.closing n)
  | .error errorCode message =>
    let rc := s.control conv
    if errorCode = "aborted" then
      if rc.chatDoneHandledExternally then
        (s.setControl conv { rc with chatDoneHandledExternally := false }).setPhase conv (.closing n)
      else (s.send conv (some n) (.chatDone "" none true)).setPhase conv (.closing n)
    else (s.send conv (some n) (.error message)).setPhase conv (.closing n)
  | _ => s

def step : WebRunStep → WebRuns
  | .takes conv =>
    match s.phase conv with
    | .idle => { s with queue := s.queue.resetAbortEvent conv }.setPhase conv .handling
    | _ => s
  | .returns conv =>
    match s.phase conv with
    | .handling => s.setPhase conv .idle
    | _ => s
  | .activates conv =>
    match s.phase conv with
    | .handling =>
      { (s.setControl conv { s.control conv with active := true }).setPhase conv (.running s.runs) with
        runs := s.runs + 1 }
    | _ => s
  | .yields conv event =>
    match s.phase conv with
    | .running n => s.onEvent conv n event
    | _ => s
  | .raises conv =>
    match s.phase conv with
    | .running n => (s.send conv (some n) (.error "Internal error")).setPhase conv (.closing n)
    | _ => s
  | .finishes conv =>
    match s.phase conv with
    | .closing _ => (s.setControl conv { s.control conv with active := false }).setPhase conv .idle
    | _ => s
  | .stop conv => s.stop conv
  | .abort conv => { s with queue := s.queue.handleAbort conv }
  | .exits conv =>
    match s.phase conv with
    | .idle => s.setControl conv {}
    | _ => s

end

section
variable {s s' : WebRuns} {conv conv' : String} {rc : RunControl} {n m : Nat}

@[simp] theorem control_setControl_self : (s.setControl conv rc).control conv = rc :=
  Function.update_self ..

theorem control_setControl_ne (h : conv' ≠ conv) :
    (s.setControl conv rc).control conv' = s.control conv' :=
  Function.update_of_ne h ..

@[simp] theorem control_setPhase (phase : RunPhase) :
    (s.setPhase conv phase).control conv' = s.control conv' := rfl

@[simp] theorem phase_setPhase_self (phase : RunPhase) :
    (s.setPhase conv phase).phase conv = phase :=
  Function.update_self ..

theorem phase_setPhase_ne (phase : RunPhase) (h : conv' ≠ conv) :
    (s.setPhase conv phase).phase conv' = s.phase conv' :=
  Function.update_of_ne h ..

theorem setPhase_same (h : s.phase conv = p) : s.setPhase conv p = s := by
  subst h
  simp only [setPhase, Function.update_eq_self]

theorem setControl_same (h : s.control conv = rc) : s.setControl conv rc = s := by
  subst h
  simp only [setControl, SessionQueue.setRunControl, control, Function.update_eq_self]

theorem handleStopCommand_active (h : (s.control conv).isActive = true) :
    { s with queue := s.queue.handleStopCommand conv } =
      s.setControl conv { s.control conv with chatDoneHandledExternally := true }.stop := by
  have hactive : (s.queue.runControls conv).isActive = true := h
  simp only [SessionQueue.handleStopCommand, hactive, if_true]
  rfl

end

end WebRuns

end PyClaw
