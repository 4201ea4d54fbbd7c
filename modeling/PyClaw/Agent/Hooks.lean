import PyClaw.Models.Agent

/-!
# Agent.Hooks

Permission tiers, approval decisions and the approval hook of `core/hooks.py`.
-/

namespace PyClaw

inductive PermissionTier where
  | readOnly
  | approval
  | yolo
  deriving DecidableEq, Repr

/-- The runner's `_RANK`: a higher rank is more restrictive. -/
def PermissionTier.rank : PermissionTier → Nat
  | .readOnly => 2
  | .approval => 1
  | .yolo => 0

/-- The strings as audit records carry them. -/
def PermissionTier.text : PermissionTier → String
  | .readOnly => "read-only"
  | .approval => "approval"
  | .yolo => "yolo"

/-- The declared values of a decision, and any other string a hook may return. -/
inductive ApprovalDecision where
  | approve
  | deny
  | wait
  | other (s : String)
  deriving DecidableEq, Repr

/-- One call of `should_gate`: it returns, raises `TypeError`, or raises something else. -/
inductive GateReply where
  | returns (gate : Bool)
  | typeError
  | raises
  deriving DecidableEq, Repr

/-- The synchronous side of a `ToolApprovalHook`: `should_gate(name, ctx)` and the older
one-argument form `should_gate(name)`. -/
structure ToolApprovalHook where
  shouldGateCtx : String → GateReply
  shouldGate : String → GateReply

/-- The runner's use of `should_gate`: the one-argument form on `TypeError`, and gated on any
other exception. -/
def ToolApprovalHook.gates (hook : ToolApprovalHook) (name : String) : Bool :=
  match hook.shouldGateCtx name with
  | .returns gate => gate
  | .raises => true
  | .typeError =>
    match hook.shouldGate name with
    | .returns gate => gate
    | .typeError => true
    | .raises => true

/-- One call of `before_tool_execution`. -/
inductive HookReply where
  | decisions (ds : List ApprovalDecision)
  | raises
  deriving DecidableEq, Repr

end PyClaw
