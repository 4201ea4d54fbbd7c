import PyClaw.Agent.Batch
import PyClaw.Compaction.Attempt
import PyClaw.Compaction.MessageDict

/-!
# Agent.Runner

`run_agent_stream` of `core/agent/runner.py`. The outside world's part of an iteration (clock,
abort event, context engine, model stream, registry, approval hook, tools) is an `IterEnv`; a run
takes one for each iteration.
-/

namespace PyClaw

/-! ## The outside world of an iteration -/

structure StreamChunk where
  textDelta : String := ""
  toolCallDeltas : List ToolCallDelta := []
  usage : Option LLMUsage := none

/-- A chunk, with the answers of `_run_timed_out()` and `is_abort_set()` when it arrives. -/
structure StreamStep where
  timedOut : Bool := false
  aborted : Bool := false
  chunk : StreamChunk

/-- How the guarded stream ends if the loop body does not return first. -/
inductive StreamEnd where
  | exhausted
  | agentTimeout (message : String)
  | agentAborted
  | llmError (code message : String)
  | other
  deriving DecidableEq, Repr

structure IterEnv extends TurnEnv where
  timedOut : Bool := false
  aborted : Bool := false
  /-- `assembled.messages`. -/
  assembled : List Message := []
  pretrim : List Message → CompactReply := fun _ => .returns { ok := true, compacted := false }
  /-- `remaining_run is not None and remaining_run <= 0`. -/
  runExpired : Bool := false
  stream : List StreamStep := []
  streamEnd : StreamEnd := .exhausted
  overflow : List Message → CompactReply := fun _ => .returns { ok := true, compacted := false }

/-! ## Loop variables -/

structure RetryCounts where
  planning : Nat := 0
  reasoning : Nat := 0
  empty : Nat := 0

namespace RetryCounts

def of (counts : RetryCounts) : TurnClassification → Nat
  | .planning => counts.planning
  | .reasoning => counts.reasoning
  | .empty => counts.empty
  | .ok => 0

def bump (counts : RetryCounts) : TurnClassification → RetryCounts
  | .planning => { counts with planning := counts.planning + 1 }
  | .reasoning => { counts with reasoning := counts.reasoning + 1 }
  | .empty => { counts with empty := counts.empty + 1 }
  | .ok => counts

end RetryCounts

/-- What the `while` loop carries from one iteration to the next. -/
structure LoopVars where
  detector : LoopState := {}
  retryCounts : RetryCounts := {}
  totals : LLMUsage := {}

/-- `_retry_limit_for`. -/
def retryLimitFor (config : AgentRunConfig) : TurnClassification → Int
  | .planning => config.retry.planningOnlyLimit
  | .reasoning => config.retry.reasoningOnlyLimit
  | .empty => config.retry.emptyResponseLimit
  | .ok => 0

/-- `retry_message_for`. -/
def retryMessageFor : TurnClassification → Option String
  | .planning => some "Do not restate the plan. Act now by calling the appropriate tools."
  | .reasoning =>
    some "Continue and produce the visible answer now (outside of <thinking> tags)."
  | .empty => some "Produce the answer now."
  | .ok => none

/-! ## Exits -/

/-- `terminated_by = code`, an `ErrorEvent` with that code, and `return`. -/
def fail (code message : String) : Run Unit := do
  terminate code
  yieldEvent (.error code message)

/-- The same, with the text streamed so far persisted before the event. -/
def failPartial (deps : AgentRunnerDeps) (text code message : String) : Run Unit := do
  terminate code
  persistPartialAssistant deps text
  yieldEvent (.error code message)

/-! ## Compaction -/

/-- What `_try_compaction` sees of a run. -/
def RunState.attempt (s : RunState) : AttemptState InMemorySessionStore := ⟨s.tree, s.store, s.draws⟩

def RunState.afterAttempt (s : RunState) (a : AttemptState InMemorySessionStore) : RunState :=
  { s with tree := a.tree, store := a.store, draws := a.draws }

/-- The item of a compaction entry that has been appended. -/
def compactionItem (e : SessionEntry) (tree : SessionTree) (store : InMemorySessionStore) : Item :=
  .appended e tree (store.load tree.header.id)

/-- The append of `_try_compaction`. -/
def appendCompaction (deps : AgentRunnerDeps) (summary : String) (tokensBefore : Int) : Run Unit :=
  Prog.zoom RunState.attempt RunState.afterAttempt
    (appendCompactionEntry InMemorySessionStore.backend deps.secrets compactionItem summary tokensBefore)

/-- `_try_compaction`, with hooks that do not raise. -/
def tryCompaction (deps : AgentRunnerDeps) (compact : List Message → CompactReply)
    (baseMessages : List Message) : Run CompactionOutcome :=
  Prog.zoom RunState.attempt RunState.afterAttempt
    (attemptCompaction InMemorySessionStore.backend deps.secrets compactionItem
      { compact := fun messages => .reply (compact messages) } baseMessages)

/-! ## The stream -/

structure StreamAcc where
  /-- `"".join(text_parts)`; the parts are not empty. -/
  text : String := ""
  buffer : Dict Int ToolCallSlot := Dict.empty
  usage : LLMUsage := {}

def StreamAcc.add (acc : StreamAcc) (chunk : StreamChunk) : StreamAcc where
  text := acc.text ++ chunk.textDelta
  buffer := mergeToolCallDeltas acc.buffer chunk.toolCallDeltas
  usage := chunk.usage.getD acc.usage

/-- `async for chunk in guarded_iter`; `none` when the loop body returned. -/
def consumeStream (deps : AgentRunnerDeps) : List StreamStep → StreamAcc → Run (Option StreamAcc)
  | [], acc => pure (some acc)
  | step :: rest, acc =>
    if step.timedOut then do
      failPartial deps acc.text "timeout" ("run exceeded " ++
        deps.py.floatStr deps.config.runSeconds ++ "s run_seconds during stream")
      pure none
    else if step.aborted then do
      failPartial deps acc.text "aborted" "run aborted during llm stream"
      pure none
    else if step.chunk.textDelta ≠ "" then do
      yieldEvent (.textChunk step.chunk.textDelta)
      consumeStream deps rest (acc.add step.chunk)
    else consumeStream deps rest (acc.add step.chunk)

/-! ## Responses -/

def assistantMessage (text : String) (toolCalls : List ToolCall) : MessageBody where
  role := .assistant
  content := .str text
  toolCalls := toolCalls

def userMessage (text : String) : MessageBody where
  role := .user
  content := .str text

/-- `build_session_context()`, whose walk is assumed to be awaited. -/
def sessionContext (deps : AgentRunnerDeps) : Run (List Message) := do
  let s ← Prog.get
  match s.tree.buildSessionContext deps.py with
  | some messages => pure messages
  | none => Prog.raise .pendingForever

def appendRetryPrompt (deps : AgentRunnerDeps) (classification : TurnClassification) : Run Unit :=
  match retryMessageFor classification with
  | some prompt => appendMessage deps (userMessage prompt)
  | none => pure ()

/-- A response without tool calls: a retry, or the end of the run. -/
def answerText (deps : AgentRunnerDeps) (vars : LoopVars) (text : String) :
    Run (Option LoopVars) := do
  let classification := deps.classifyTurn text
  let limit := retryLimitFor deps.config classification
  appendMessage deps (assistantMessage text [])
  if classification ≠ .ok ∧ 0 < limit ∧ (vars.retryCounts.of classification : Int) < limit then do
    appendRetryPrompt deps classification
    pure (some { vars with retryCounts := vars.retryCounts.bump classification })
  else do
    let _ ← sessionContext deps
    terminate "done"
    yieldEvent (.done text vars.totals)
    pure none

/-- A response with tool calls. -/
def answerCalls (deps : AgentRunnerDeps) (request : RunRequest) (env : TurnEnv) (vars : LoopVars)
    (text : String) (calls : List ToolCall) : Run (Option LoopVars) := do
  appendMessage deps (assistantMessage text calls)
  let verdict := updateToolLoopState calls env.registry vars.detector
    deps.config.retry.unknownToolThreshold
  let vars := { vars with detector := verdict.1 }
  match verdict.2 with
  | .terminate => do
    fail "tool_loop" ("tool " ++ deps.py.repr (verdict.1.name.getD "") ++
      " called after unknown-tool guidance")
    pure none
  | .warn guidance => do
    appendMessage deps (userMessage guidance)
    pure (some vars)
  | .proceed => do
    let reset ← toolBatch deps request env calls
    pure (some (if reset then { vars with retryCounts := {} } else vars))

def handleResponse (deps : AgentRunnerDeps) (request : RunRequest) (env : TurnEnv)
    (vars : LoopVars) (acc : StreamAcc) : Run (Option LoopVars) := do
  Prog.emit (.responded { env with buffer := acc.buffer, detector := vars.detector })
  let calls ← Prog.ofExcept (finalizeToolCalls deps.json acc.buffer)
  let vars := { vars with totals := vars.totals.add acc.usage }
  if calls = [] then answerText deps vars acc.text
  else answerCalls deps request env vars acc.text calls

/-! ## Iterations -/

/-- From the check of the remaining time to the end of the iteration. -/
def callModel (deps : AgentRunnerDeps) (request : RunRequest) (env : IterEnv) (vars : LoopVars)
    (baseMessages : List Message) : Run (Option LoopVars) := do
  if env.runExpired then do
    fail "timeout" "run exceeded run_seconds"
    pure none
  else do
    match ← consumeStream deps env.stream {} with
    | none => pure none
    | some acc =>
      match env.streamEnd with
      | .exhausted => handleResponse deps request env.toTurnEnv vars acc
      | .agentTimeout message => do
        failPartial deps acc.text "timeout" message
        pure none
      | .agentAborted => do
        failPartial deps acc.text "aborted" "run aborted during llm call"
        pure none
      | .llmError code message =>
        if code = "context_overflow" then do
          let outcome ← tryCompaction deps env.overflow baseMessages
          if outcome.ok = false then do
            failPartial deps acc.text outcome.code outcome.message
            pure none
          else if outcome.compacted then pure (some vars)
          else do
            failPartial deps acc.text code message
            pure none
        else do
          failPartial deps acc.text code message
          pure none
      | .other => Prog.raise .streamError

/-- One iteration of the `while` loop; `none` when it returned. -/
def runIteration (deps : AgentRunnerDeps) (request : RunRequest) (env : IterEnv)
    (vars : LoopVars) : Run (Option LoopVars) := do
  if env.timedOut then do
    fail "timeout" ("run exceeded " ++ deps.py.floatStr deps.config.runSeconds ++ "s run_seconds")
    pure none
  else if env.aborted then do
    fail "aborted" "run aborted"
    pure none
  else do
    let baseMessages ← sessionContext deps
    Prog.emit (.context baseMessages)
    if 0 < deps.historyBudget ∧
        deps.historyBudget < estimateMessagesTokens env.assembled then do
      let outcome ← tryCompaction deps env.pretrim baseMessages
      if outcome.ok = false then do
        fail outcome.code outcome.message
        pure none
      else if outcome.compacted then pure (some vars)
      else callModel deps request env vars baseMessages
    else callModel deps request env vars baseMessages

/-- The `while` loop with `n` iterations left, of which the next one is number `i`. -/
def runLoop (deps : AgentRunnerDeps) (request : RunRequest) (world : Nat → IterEnv) :
    Nat → Nat → LoopVars → Run Unit
  | 0, _, _ =>
    fail "max_iterations" ("reached max_iterations=" ++ toString deps.config.maxIterations)
  | n + 1, i, vars => do
    match ← runIteration deps request (world i) vars with
    | none => pure ()
    | some vars => runLoop deps request world n (i + 1) vars

/-! ## Runs -/

/-- `request.model or tree.header.model_override or deps.llm.default_model`. -/
def effectiveModel (deps : AgentRunnerDeps) (request : RunRequest) (tree : SessionTree) : String :=
  orElseText request.model (orElseText tree.header.modelOverride deps.defaultModel)

/-- The condition of the vision exit. -/
def visionBlocked (deps : AgentRunnerDeps) (request : RunRequest) (tree : SessionTree) :
    Except Escape Bool :=
  if request.attachments = [] ∨ deps.providers.keys = [] then .ok false
  else
    (modelSupportsInput deps.py (effectiveModel deps request tree) deps.providers "image"
      deps.defaultProvider .fail).map (! ·)

def visionMessage (deps : AgentRunnerDeps) (model : String) : String :=
  "Model '" ++ model ++ "' does not have image input capability. " ++
    "Available vision-capable models: " ++ formatVisionCapableModels deps.providers ++
    ". Use /model <model_id> to switch."

/-- `user_entry_content`. -/
def userEntryContent (py : PyText) (request : RunRequest) : EntryContent :=
  if request.attachments = [] then .str request.userMessage
  else
    .blocks (request.attachments ++
      if blankText py.isSpace request.userMessage then [] else [.text request.userMessage])

def runBody (deps : AgentRunnerDeps) (request : RunRequest) (world : Nat → IterEnv) :
    Run Unit := do
  let s ← Prog.get
  let blocked ← Prog.ofExcept (visionBlocked deps request s.tree)
  if blocked then
    yieldEvent (.error "vision_not_support"
      (visionMessage deps (effectiveModel deps request s.tree)))
  else do
    appendMessage deps { role := .user, content := userEntryContent deps.py request }
    runLoop deps request world deps.config.maxIterations.toNat 0 {}

def notifyRunEnd : Run Unit := do
  let s ← Prog.get
  Prog.emit (.runEnd s.terminatedBy)

/-- `run_agent_stream` on the sessions of `store`, after `draws` random tokens. -/
def runAgentStream (deps : AgentRunnerDeps) (request : RunRequest) (world : Nat → IterEnv)
    (store : InMemorySessionStore) (draws : Nat) : Outcome Item RunState Escape Unit :=
  Prog.tryFinally (runBody deps request world) notifyRunEnd (RunState.start store draws request)

/-! ## Runs that are ended from outside -/

/-- How a run ends: by itself, or from outside, because its consumer closes it at a `yield`, or
because a cancellation or a failure reaches it at an `await`. -/
inductive RunEnding where
  | byItself
  /-- When it has logged so many items. -/
  | after (k : Nat)
  /-- In the append that comes after so many items: the entry is in the tree of the run, and the
  store does not get it. -/
  | inAppend (k : Nat)
  deriving DecidableEq, Repr

/-- The tree of the run after an item. -/
def Item.treeFrom (tree : SessionTree) : Item → SessionTree
  | .appended _ tree' _ => tree'
  | _ => tree

/-- The stored tree after an item. -/
def Item.storedFrom (stored : Option SessionTree) : Item → Option SessionTree
  | .appended _ _ stored' => stored'
  | _ => stored

def treeAfter (tree : SessionTree) (l : List Item) : SessionTree := l.foldl Item.treeFrom tree

def storedAfter (stored : Option SessionTree) (l : List Item) : Option SessionTree :=
  l.foldl Item.storedFrom stored

/-- What a run has logged, and the two trees that it leaves. -/
structure RunRest where
  log : List Item
  tree : SessionTree
  stored : Option SessionTree

/-- What the run leaves with an ending. Where it is ended from outside nothing is appended any more:
only `_persist_partial_assistant` catches the failure of its append, just before the run returns,
and the `finally` notifies. -/
def runAgentStreamUntil (deps : AgentRunnerDeps) (request : RunRequest) (world : Nat → IterEnv)
    (store : InMemorySessionStore) (draws : Nat) (ending : RunEnding) : RunRest :=
  let o := runAgentStream deps request world store draws
  let s := RunState.start store draws request
  let stored := s.store.load s.tree.header.id
  match ending with
  | .byItself => ⟨o.log, o.state.tree, o.state.store.load o.state.tree.header.id⟩
  | .after k => ⟨o.log.take k, treeAfter s.tree (o.log.take k), storedAfter stored (o.log.take k)⟩
  | .inAppend k =>
    ⟨o.log.take (k + 1), treeAfter s.tree (o.log.take (k + 1)), storedAfter stored (o.log.take k)⟩

/-- A model that answers with the text `text` and the given tool calls, each time it is asked. -/
def answering (text : String) (deltas : List ToolCallDelta) (env : TurnEnv) : Nat → IterEnv :=
  fun _ => { env with stream := [{ chunk := { textDelta := text, toolCallDeltas := deltas } }] }

end PyClaw
