import PyClaw.Agent.Gate

/-!
# Agent.Batch

A tool-call turn of `run_agent_stream` after the loop detector let it pass: the `ToolCallStart`
events, the gating, the approval hook, the denied calls, the execution of the others and their
results.
-/

namespace PyClaw

/-- `ToolCallStart` for each call; its validation raises where the arguments are no object. -/
def startCalls (deps : AgentRunnerDeps) (batch : List BatchCall) : Run Unit :=
  Prog.forEach batch fun c =>
    match parseArguments deps.json c.call.arguments with
    | .obj fields => yieldEvent (.toolCallStart c.call.id c.call.name fields)
    | _ => Prog.raise .validationError

/-- The approval requests and `before_tool_execution`; returns `denied_ids`. -/
def askHook (deps : AgentRunnerDeps) (reply : HookReply) (g : Gating) :
    Run (Dict String String) :=
  match deps.toolApprovalHook, g.gated with
  | none, _ => pure g.denied
  | some _, [] => pure g.denied
  | some _, gated => do
    Prog.forEach gated fun e =>
      yieldEvent (.toolApprovalRequest e.call.id e.canonicalName e.args)
    match reply with
    | .raises => Prog.raise .hookError
    | .decisions ds => Prog.ofExcept (applyDecisions gated ds g.denied)

/-- The tool entry of a call and its `ToolCallEnd`. -/
def reportResult (deps : AgentRunnerDeps) (callId : String) (r : ToolResult) : Run Unit := do
  appendMessage deps
    { role := .tool, content := .str (toolResultToLlmContent r), toolCallId := some callId }
  yieldEvent (.toolCallEnd callId r)

def reportDenied (deps : AgentRunnerDeps) (denied : Dict String String)
    (batch : List BatchCall) : Run Unit :=
  Prog.forEach batch fun c =>
    match denied.get? c.call.id with
    | some reason => reportResult deps c.call.id (errorResult c.call.id reason)
    | none => pure ()

/-- The turn from `parsed_calls` on. `false` is the `continue` after a batch that was denied as a
whole, which leaves the retry counts as they are. -/
def toolBatch (deps : AgentRunnerDeps) (request : RunRequest) (env : TurnEnv)
    (calls : List ToolCall) : Run Bool := do
  let batch := numberCalls calls
  startCalls deps batch
  let ctx := gateContext deps request env.registry
  let g := gateCalls ctx (batch.map (evaluated ctx deps.json))
  Prog.forEach g.audits fun a => Prog.emit (.audit a.1 a.2)
  let denied ← askHook deps env.hookReply g
  let remaining := batch.filter fun c => !denied.contains c.call.id
  reportDenied deps denied batch
  if denied.keys ≠ [] ∧ remaining = [] then pure false
  else do
    Prog.forEach remaining fun c => Prog.emit (.executed c.pos)
    let results ← Prog.ofExcept
      (executeToolCalls deps.py deps.json env.registry remaining env.outcome)
    Prog.forEach (remaining.zip results) fun p =>
      reportResult deps p.1.call.id
        (truncateFor env.registry deps.config.maxOutputChars p.1.call p.2)
    pure true

end PyClaw
