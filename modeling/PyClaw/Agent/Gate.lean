import PyClaw.Agent.State

/-!
# Agent.Gate

The permission stage of a tool-call turn in `run_agent_stream`: the effective tier of each call,
its route (approved, denied or handed to the approval hook), the audit records and the table of
denied ids.
-/

namespace PyClaw

/-- The calls of a response with their positions. -/
def numberCalls (calls : List ToolCall) : List BatchCall :=
  calls.zipIdx.map fun p => { pos := p.2, call := p.1 }

structure ParsedCall extends BatchCall where
  args : List (String × Json)

/-- An element of `per_call_evaluated`. -/
structure EvaluatedCall extends ParsedCall where
  canonicalName : String
  tier : PermissionTier
  tierSource : TierSource
  forcedServer : Option String

/-- What is constant during the gating of a batch. -/
structure GateContext where
  sessionId : String
  channel : String
  userId : Option String
  role : Option String
  sandboxBackend : Option String
  registry : ToolRegistry
  hook : Option ToolApprovalHook
  perTurnTier : PermissionTier
  perTurnSource : TierSource
  notForced : perTurnSource ≠ .forcedByServerConfig

def gateContext (deps : AgentRunnerDeps) (request : RunRequest) (registry : ToolRegistry) :
    GateContext where
  sessionId := request.sessionId
  channel := deps.channel
  userId := request.userId
  role := request.role
  sandboxBackend := request.sandboxBackend
  registry := registry
  hook := deps.toolApprovalHook
  perTurnTier := request.permissionTierOverride.getD .approval
  perTurnSource := if request.permissionTierOverride.isSome then .perTurn else .channelDefault
  notForced := by split <;> decide

def argsOf (json : JsonModule) (call : ToolCall) : List (String × Json) :=
  match parseArguments json call.arguments with
  | .obj fields => fields
  | _ => []

section
variable (ctx : GateContext)

/-- `getattr(cfg, "forced_tier", None)` of the tool a call resolves to. -/
def forcedTierOf (call : ToolCall) : Option PermissionTier :=
  ((ctx.registry.get call.name).bind Tool.serverConfig).bind McpServerConfig.forcedTier

/-- The class of the tool a call resolves to; an unknown tool counts as `"write"`. -/
def toolClassOf (call : ToolCall) : String :=
  ((ctx.registry.get call.name).bind Tool.toolClass).getD "write"

def canonicalNameOf (call : ToolCall) : String :=
  ((ctx.registry.get call.name).map Tool.name).getD call.name

def evaluateCall (p : ParsedCall) : EvaluatedCall :=
  let canonicalName := canonicalNameOf ctx p.call
  match forcedTierOf ctx p.call with
  | some forced =>
    if ctx.perTurnTier.rank < forced.rank then
      { p with
        canonicalName
        tier := forced
        tierSource := .forcedByServerConfig
        forcedServer := (ctx.registry.get p.call.name).bind Tool.serverName }
    else
      { p with
        canonicalName, tier := ctx.perTurnTier, tierSource := ctx.perTurnSource, forcedServer := none }
  | none =>
    { p with
      canonicalName, tier := ctx.perTurnTier, tierSource := ctx.perTurnSource, forcedServer := none }

def evaluated (json : JsonModule) (c : BatchCall) : EvaluatedCall :=
  evaluateCall ctx { c with args := argsOf json c.call }

/-! ## The gating loop -/

/-- `denied_ids`, `actually_gated` and the audits emitted so far. -/
structure Gating where
  denied : Dict String String := Dict.empty
  gated : List EvaluatedCall := []
  audits : List (Nat × AuditRecord) := []

/-- `_emit_runner_audit`; a failing logger is swallowed there. -/
def auditRecord (e : EvaluatedCall) (tier : PermissionTier) (decision : AuditDecision)
    (decidedBy : String) : AuditRecord where
  sessionId := ctx.sessionId
  channel := ctx.channel
  toolName := e.canonicalName
  toolCallId := e.call.id
  tier := tier
  decision := decision
  decidedBy := decidedBy
  tierSource := e.tierSource
  forcedServer := e.forcedServer
  userId := ctx.userId
  role := ctx.role
  sandboxBackend := ctx.sandboxBackend

def Gating.audit (g : Gating) (e : EvaluatedCall) (tier : PermissionTier)
    (decision : AuditDecision) (decidedBy : String) : Gating :=
  { g with audits := g.audits ++ [(e.pos, auditRecord ctx e tier decision decidedBy)] }

def Gating.deny (g : Gating) (e : EvaluatedCall) (reason : String) : Gating :=
  { g with denied := g.denied.set e.call.id reason }

def Gating.gate (g : Gating) (e : EvaluatedCall) : Gating := { g with gated := g.gated ++ [e] }

def readOnlyDenial (name : String) : String :=
  "Tool '" ++ name ++ "' is not available in read-only mode. " ++
    "(Mode can be changed in the input footer.)"

def noHookDenial (name : String) : String :=
  "Tool '" ++ name ++ "' requires approval but no approval hook is configured for this channel."

def hookDenial (name : String) : String := "Tool '" ++ name ++ "' was denied by approval hook."

def gateCall (g : Gating) (e : EvaluatedCall) : Gating :=
  match e.tier with
  | .yolo => g.audit ctx e e.tier .approve "auto:yolo"
  | .readOnly =>
    if toolClassOf ctx e.call = "write" then
      (g.deny e (readOnlyDenial e.canonicalName)).audit ctx e e.tier .deny "auto:read-only"
    else g.audit ctx e e.tier .approve "auto:read-only"
  | .approval =>
    if e.tierSource = .forcedByServerConfig then g.gate e
    else
      match ctx.hook with
      | some hook =>
        if hook.gates e.canonicalName then g.gate e
        else g.audit ctx e e.tier .approve "auto:not-gated"
      | none => g.audit ctx e e.tier .approve "auto:not-gated"

/-- The calls that need approval are denied where no hook is configured. -/
def denyUnhooked (g : Gating) : Gating :=
  match ctx.hook with
  | some _ => g
  | none => g.gated.foldl (fun g e =>
      (g.deny e (noHookDenial e.canonicalName)).audit ctx e .approval .deny "auto:no-hook") g

def gateCalls (evaluated : List EvaluatedCall) : Gating :=
  denyUnhooked ctx (evaluated.foldl (gateCall ctx) {})

/-- The loop over `enumerate(decisions)`; only `"deny"` has an effect. -/
def applyDecisions : List EvaluatedCall → List ApprovalDecision → Dict String String →
    Except Escape (Dict String String)
  | _, [], denied => .ok denied
  | [], _ :: _, _ => .error .indexError
  | e :: gated, d :: ds, denied =>
    applyDecisions gated ds
      (if d = .deny then denied.set e.call.id (hookDenial e.canonicalName) else denied)

end

end PyClaw
