import Mathlib.Algebra.GroupWithZero.Nat
import Mathlib.Logic.Function.Basic
import PyClaw.Lib.Text
import PyClaw.Models.Agent

/-!
# Channels.SessionQueue

The run controls and the pending approvals of the web `SessionQueue`, and the socket messages that
act on them: `chat.abort`, `tool.approve`, `/stop`, `/steer` and `/btw`. Its queues are in
`Channels.Queue`.
-/

namespace PyClaw

/-! ## Run controls -/

inductive SteerKind where
  | steer
  | sidebar
  deriving DecidableEq, Repr

structure SteerMessage where
  kind : SteerKind
  text : String
  deriving DecidableEq, Repr

structure RunControl where
  abort : Bool := false
  active : Bool := false
  chatDoneHandledExternally : Bool := false
  pendingSteers : List SteerMessage := []
  deriving DecidableEq, Repr

def RunControl.stop (rc : RunControl) : RunControl := { rc with abort := true, pendingSteers := [] }

def RunControl.isActive (rc : RunControl) : Bool := rc.active && !rc.abort

/-- `CAP_COUNT` and `CAP_CHARS`. -/
def capCount : Nat := 5
def capChars : Nat := 2000

/-- The oldest messages go until the new text fits. -/
def dropOldest (newLength : Nat) : List SteerMessage → List SteerMessage
  | [] => []
  | m :: rest =>
    if capChars < (((m :: rest).map fun m => m.text.length).sum + newLength) then dropOldest newLength rest
    else m :: rest

/-- `enforce_cap`: the buffer into which the text is taken, none when it is refused. -/
def enforceCap (steers : List SteerMessage) (newText : String) : Option (List SteerMessage) :=
  if capChars < newText.length then none
  else some (dropOldest newText.length (steers.drop (steers.length + 1 - capCount)))

/-! ## Pending approvals -/

/-- `bool(value)`; `nonzero` tells it of number literals. -/
def Json.truthy (nonzero : String → Bool) : Json → Bool
  | .null => false
  | .bool b => b
  | .num literal => nonzero literal
  | .str s => s ≠ ""
  | .arr items => !items.isEmpty
  | .obj fields => !fields.isEmpty

structure PendingDecision where
  event : Bool := false
  approved : Option Json := none

/-- `bool(self.approved)`. -/
def PendingDecision.isApproved (nonzero : String → Bool) (p : PendingDecision) : Bool :=
  (p.approved.map (Json.truthy nonzero)).getD false

/-- A `tool.approve` message as it arrives; its field `approved` may be missing. -/
structure ToolApproveMessage where
  conversationId : String
  toolCallId : String
  approved : Option Json

/-- The field after `parse_client_message`, which checks no type. -/
def ToolApproveMessage.value (msg : ToolApproveMessage) : Json := msg.approved.getD (.bool true)

/-! ## The queue -/

def approvalKey (conversationId toolCallId : String) : String := conversationId ++ ":" ++ toolCallId

/-- The pending decisions are objects that a table refers to, numbered in the order of their
creation. A run control that is missing is the one that `get_run_control` would create. -/
structure SessionQueue where
  runControls : String → RunControl := fun _ => {}
  approvalDecisions : String → Option Json := fun _ => none
  approvalPending : String → Option Nat := fun _ => none
  decisions : Nat → PendingDecision := fun _ => {}
  created : Nat := 0

namespace SessionQueue

def setRunControl (q : SessionQueue) (conversationId : String) (rc : RunControl) : SessionQueue :=
  { q with runControls := Function.update q.runControls conversationId rc }

def resetAbortEvent (q : SessionQueue) (conversationId : String) : SessionQueue :=
  q.setRunControl conversationId { q.runControls conversationId with abort := false }

def createPending (q : SessionQueue) (conversationId toolCallId : String) : SessionQueue :=
  { q with
    approvalPending :=
      Function.update q.approvalPending (approvalKey conversationId toolCallId) (some q.created)
    decisions := Function.update q.decisions q.created {}
    created := q.created + 1 }

def discardPending (q : SessionQueue) (conversationId toolCallId : String) : SessionQueue :=
  { q with
    approvalPending := Function.update q.approvalPending (approvalKey conversationId toolCallId) none
    approvalDecisions :=
      Function.update q.approvalDecisions (approvalKey conversationId toolCallId) none }

def setApprovalDecision (q : SessionQueue) (conversationId toolCallId : String) (approved : Json) :
    SessionQueue :=
  let key := approvalKey conversationId toolCallId
  let q := { q with approvalDecisions := Function.update q.approvalDecisions key (some approved) }
  match q.approvalPending key with
  | some i =>
    { q with decisions := Function.update q.decisions i { event := true, approved := some approved } }
  | none => q

/-! ## Control messages -/

def handleAbort (q : SessionQueue) (conversationId : String) : SessionQueue :=
  q.setRunControl conversationId { q.runControls conversationId with abort := true }

def handleToolApprove (q : SessionQueue) (msg : ToolApproveMessage) : SessionQueue :=
  q.setApprovalDecision msg.conversationId msg.toolCallId msg.value

def handleStopCommand (q : SessionQueue) (conversationId : String) : SessionQueue :=
  let rc := q.runControls conversationId
  if rc.isActive then
    q.setRunControl conversationId { rc with chatDoneHandledExternally := true }.stop
  else q

/-- The text that `_handle_injection` appends, none when it answers with a warning. -/
def injected (py : PyText) (rc : RunControl) (args : String) : Option (List SteerMessage × String) :=
  let payload := String.ofList (strip py.isSpace args.toList)
  if payload = "" then none
  else if rc.isActive then (enforceCap rc.pendingSteers payload).map fun steers => (steers, payload)
  else none

def handleInjection (py : PyText) (q : SessionQueue) (conversationId : String) (kind : SteerKind)
    (args : String) : SessionQueue :=
  let rc := q.runControls conversationId
  match injected py rc args with
  | some (steers, payload) =>
    q.setRunControl conversationId { rc with pendingSteers := steers ++ [{ kind, text := payload }] }
  | none => q

end SessionQueue

end PyClaw
