import PyClaw.Channels.CardCallback
import PyClaw.Channels.EntryPoint

/-!
# Channels.FeishuApproval

`FeishuToolApprovalHook._wait_for_user_decision` for one gated call, in steps: the hook and its
countdown, the clicks that are answered in the callback thread and recorded on the main loop, and
the card, on which patches and answers land.
-/

namespace PyClaw

/-! ## The cards -/

inductive CardTitle where
  | approved
  | denied
  | timedOut
  deriving DecidableEq, Repr

/-- The card of a call: with buttons and the seconds left, or resolved. -/
inductive ApprovalCard where
  | countdown (remaining : Int)
  | resolved (title : CardTitle) (toolName : Json) (operatorOpenId : Option String)

def buildResolvedCard (toolName decision : Json) (operatorOpenId : Option String) : ApprovalCard :=
  .resolved
    (if decision.isText "approve" then .approved
      else if decision.isText "deny" then .denied
      else .timedOut)
    toolName (operatorOpenId.filter (· ≠ ""))

structure GatedCall where
  sessionId : String
  toolCallId : String
  toolName : String
  originatorOpenId : String
  /-- `tool_approval_timeout_seconds`. -/
  timeout : Int
  /-- The hook has a task manager. -/
  taskManager : Bool

def decisionText (approved : Bool) : String := if approved then "approve" else "deny"

namespace GatedCall

def key (call : GatedCall) : String × String := (call.sessionId, call.toolCallId)

/-- The value of a button of `_approval_buttons`. -/
def button (call : GatedCall) (approve : Bool) : Dict String Json :=
  (((((Dict.empty.set "type" (.str "pyclaw_tool_approval")).set
      "conv_id" (.str call.sessionId)).set
      "tool_call_id" (.str call.toolCallId)).set
      "originator_open_id" (.str call.originatorOpenId)).set
      "tool_name" (.str call.toolName)).set
      "decision" (.str (decisionText approve))

/-- The originator clicks a button. -/
def click (call : GatedCall) (approve : Bool) : CardAction where
  operatorOpenId := call.originatorOpenId
  value := some (call.button approve)

end GatedCall

/-! ## The state of a call -/

inductive HookPhase where
  /-- `_post_card`. -/
  | posting
  /-- `wait_decision`. -/
  | waiting
  /-- `_patch_terminal_card` after `TimeoutError`. -/
  | timingOut
  /-- `finally`, until the countdown task has ended. -/
  | cancelling (outcome : WaitOutcome)
  /-- `_patch_terminal_card` after a decision. -/
  | patching (approved : Bool) (operatorOpenId : Option String)
  | returned (outcome : WaitOutcome)
  deriving DecidableEq, Repr

inductive Countdown where
  | sleeping (elapsed : Nat)
  | patching (elapsed : Nat)
  | ended
  deriving DecidableEq, Repr

structure FeishuAudit where
  decision : ApprovalDecision
  decidedBy : String
  deriving DecidableEq, Repr

structure FeishuApproval where
  registry : FeishuApprovalRegistry
  phase : HookPhase := .posting
  /-- `pending.message_id`, empty when there is none. -/
  messageId : String := ""
  countdown : Countdown := .ended
  /-- Calls of `_record_decision` that the main loop has not run yet, in the order of the clicks. -/
  records : List CardRecord := []
  /-- Answers of the callback on their way to the user. -/
  replies : List CardReply := []
  /-- Patches of the countdown on their way to the card. -/
  updates : List Int := []
  shown : List CardReply := []
  card : Option ApprovalCard := none
  audit : List FeishuAudit := []

inductive ApprovalStep where
  /-- The message with the card is created. -/
  | appears
  /-- `_post_card` returns, or raises. -/
  | posted (messageId : Option String)
  | click (approve : Bool)
  /-- The user sees the answer to a click: the toast and the card in it. -/
  | shown (n : Nat)
  /-- The main loop runs the next `_record_decision`. -/
  | records
  /-- The hook wakes up with the decision. -/
  | wakes
  /-- The timeout of `wait_for` runs out. -/
  | expires
  /-- The hook's `patch_interactive_card` is over, and has changed the card or failed. -/
  | patched (landed : Bool)
  /-- `TaskManager.cancel` returns. -/
  | cancelled
  /-- The countdown wakes up. -/
  | ticks
  /-- Its `patch_interactive_card` returns, or raises. -/
  | tickReturns
  | updateLands (n : Nat)
  | updateFails (n : Nat)
  deriving DecidableEq, Repr

/-! ## The steps -/

/-- The countdown goes on for as long as there is a next update before the timeout. -/
def GatedCall.countdownFrom (call : GatedCall) (elapsed : Nat) : Countdown :=
  if (elapsed : Int) + 5 < call.timeout then .sleeping elapsed else .ended

/-- The card after the answer to a click: only one that decides carries a card. -/
def ApprovalCard.answeredBy (card : ApprovalCard) : CardReply → ApprovalCard
  | .terminal toolName decision => buildResolvedCard toolName decision none
  | _ => card

namespace FeishuApproval

section
variable (nonzero : String → Bool) (call : GatedCall)

def start (registry : FeishuApprovalRegistry) : FeishuApproval where
  registry := registry.createPending call.sessionId call.toolCallId call.originatorOpenId

def pending (s : FeishuApproval) : Option FeishuPendingDecision := s.registry.pending call.key

def log (s : FeishuApproval) (decision : ApprovalDecision) (decidedBy : String) : FeishuApproval :=
  { s with audit := s.audit ++ [⟨decision, decidedBy⟩] }

def discard (s : FeishuApproval) : FeishuApproval :=
  { s with registry := s.registry.discard call.sessionId call.toolCallId }

/-- The patch of `_patch_terminal_card`: none is sent for a card without an id. -/
def patchTerminal (s : FeishuApproval) (landed : Bool) (decision : String)
    (operatorOpenId : Option String) : Option FeishuApproval :=
  match landed with
  | false => some s
  | true =>
    if s.messageId = "" then none
    else
      some
        { s with
          card := s.card.map fun _ =>
            buildResolvedCard (.str call.toolName) (.str decision) operatorOpenId }

/-- One step; none where it cannot be taken. -/
def step (s : FeishuApproval) : ApprovalStep → Option FeishuApproval
  | .appears =>
    if s.phase = .posting ∧ s.card.isNone then some { s with card := some (.countdown call.timeout) }
    else none
  | .posted (some messageId) =>
    if s.phase = .posting ∧ s.card.isSome then
      some
        { s with
          phase := .waiting
          messageId := messageId
          countdown := if call.taskManager then call.countdownFrom 0 else .ended }
    else none
  | .posted none =>
    if s.phase = .posting then
      some { (s.discard call).log .deny "auto:post-failed" with phase := .returned .postFailed }
    else none
  | .click approve =>
    if s.card.isSome then
      let answer := route nonzero (call.click approve)
      some { s with replies := s.replies ++ [answer.1], records := s.records ++ answer.2.toList }
    else none
  | .shown n =>
    s.replies[n]?.map fun reply =>
      { s with
        replies := s.replies.eraseIdx n
        shown := s.shown ++ [reply]
        card := s.card.map (·.answeredBy reply) }
  | .records =>
    match s.records with
    | r :: rest => some { s with registry := s.registry.record r, records := rest }
    | [] => none
  | .wakes =>
    match s.phase, s.pending call with
    | .waiting, some p =>
      if p.event then
        -- `cancel` takes effect on the countdown before it is waited for
        some { s with phase := .cancelling (.decided (p.approved = some true)), countdown := .ended }
      else none
    | _, _ => none
  | .expires =>
    -- the cancellation by the timer wins over an event that is set but not yet seen
    if s.phase = .waiting then some { s with phase := .timingOut } else none
  | .patched landed =>
    match s.phase with
    | .timingOut =>
      (s.patchTerminal call landed "timeout" none).map fun s =>
        { s.log .deny "auto:timeout" with phase := .cancelling .timeout, countdown := .ended }
    | .patching approved operator =>
      (s.patchTerminal call landed (decisionText approved) operator).map fun s =>
        { s.log (WaitOutcome.decided approved).decision ((operator.filter (· ≠ "")).getD "user") with
          phase := .returned (.decided approved) }
    | _ => none
  | .cancelled =>
    match s.phase with
    | .cancelling (.decided approved) =>
      some { s.discard call with
        phase := .patching approved ((s.pending call).bind (·.operatorOpenId)) }
    | .cancelling outcome => some { s.discard call with phase := .returned outcome }
    | _ => none
  | .ticks =>
    match s.countdown with
    | .sleeping elapsed =>
      if (s.pending call).any (·.event) then some { s with countdown := .ended }
      else
        some
          { s with
            countdown := .patching (elapsed + 5)
            updates := s.updates ++ [max (call.timeout - (elapsed + 5 : Nat)) 0] }
    | _ => none
  | .tickReturns =>
    match s.countdown with
    | .patching elapsed => some { s with countdown := call.countdownFrom elapsed }
    | _ => none
  | .updateLands n =>
    s.updates[n]?.map fun remaining =>
      { s with
        updates := s.updates.eraseIdx n
        card := s.card.map fun _ => .countdown remaining }
  | .updateFails n =>
    s.updates[n]?.map fun _ => { s with updates := s.updates.eraseIdx n }

end

end FeishuApproval

end PyClaw
