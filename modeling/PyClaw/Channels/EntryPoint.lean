import PyClaw.Agent.Approval
import PyClaw.Auth.Profile

/-!
# Channels.EntryPoint

The runner dependencies with which the web socket, Feishu and the OpenAI-compatible endpoint run the
agent, and the approval hooks in them. `approvalTier_iff`: where the approval tier holds.
-/

namespace PyClaw

/-! ## The hooks -/

/-- `should_gate` of `WebToolApprovalHook` and `FeishuToolApprovalHook`, asked with a tool context of
the profile. -/
def approvalHook (profile : Option UserProfile) (channelDefault : List String) : ToolApprovalHook where
  shouldGateCtx name := .returns (name ∈ resolveToolsRequiringApproval profile channelDefault)
  shouldGate name := .returns (name ∈ resolveToolsRequiringApproval none channelDefault)

/-- How the wait for the answer to one call ends; only Feishu has a card to post. -/
inductive WaitOutcome where
  | decided (approved : Bool)
  | timeout
  | postFailed
  deriving DecidableEq, Repr

def WaitOutcome.decision : WaitOutcome → ApprovalDecision
  | .decided approved => if approved then .approve else .deny
  | .timeout => .deny
  | .postFailed => .deny

/-- `before_tool_execution` of both hooks: one wait after the other; none when one of them raises. -/
def beforeToolExecution (wait : BatchCall → Option WaitOutcome) :
    List BatchCall → Option (List ApprovalDecision)
  | [] => some []
  | c :: asked =>
    match wait c with
    | none => none
    | some outcome => (beforeToolExecution wait asked).map (outcome.decision :: ·)

/-! ## The entry points -/

inductive EntryPoint where
  | webSocket
  | feishu
  | openai
  deriving DecidableEq, Repr

/-- `tools_requiring_approval` of the settings that the entry point works with. -/
def EntryPoint.channelDefault (web feishu : ChannelSettings) : EntryPoint → List String
  | .webSocket => web.toolsRequiringApproval
  | .feishu => feishu.toolsRequiringApproval
  | .openai => web.toolsRequiringApproval

/-- `base` is what `create_agent_runner_deps` builds without a hook; `_run_chat` and
`dispatch_message` put theirs in. -/
def EntryPoint.runnerDeps (web feishu : ChannelSettings) (profile : Option UserProfile)
    (base : AgentRunnerDeps) : EntryPoint → AgentRunnerDeps
  | .webSocket =>
    { base with
      toolApprovalHook := some (approvalHook profile web.toolsRequiringApproval)
      channel := "web" }
  | .feishu =>
    { base with
      toolApprovalHook := some (approvalHook profile feishu.toolsRequiringApproval)
      channel := "feishu" }
  | .openai => { base with toolApprovalHook := none }

/-- The surroundings of a turn, with the reply of the entry point's hook. -/
def hookedEnv (deps : AgentRunnerDeps) (request : RunRequest) (env : TurnEnv)
    (wait : BatchCall → Option WaitOutcome) (calls : List ToolCall) : TurnEnv :=
  let asked := handedCalls (gateContext deps request env.registry) (numberCalls calls)
  { env with hookReply := ((beforeToolExecution wait asked).map HookReply.decisions).getD .raises }

/-- The tier of the call is approval, and the tool is listed. -/
structure NeedsApproval (ctx : GateContext) (listed : List String) (call : ToolCall) : Prop where
  tier : effectiveTier ctx call = .approval
  listed : canonicalNameOf ctx call ∈ listed

/-! ## The law -/

theorem WaitOutcome.decision_cases (outcome : WaitOutcome) :
    outcome.decision = .approve ∨ outcome.decision = .deny := by
  cases outcome with
  | decided approved =>
    cases approved with
    | true => exact .inl rfl
    | false => exact .inr rfl
  | timeout => exact .inr rfl
  | postFailed => exact .inr rfl

/-- A hook that returns has answered each call with `approve` or `deny`. -/
theorem beforeToolExecution_spec {wait : BatchCall → Option WaitOutcome} {asked : List BatchCall}
    {ds : List ApprovalDecision} (h : beforeToolExecution wait asked = some ds) :
    ds.length = asked.length ∧ ∀ d ∈ ds, d = .approve ∨ d = .deny := by
  induction asked generalizing ds with
  | nil =>
    cases h
    simp
  | cons c asked ih =>
    simp only [beforeToolExecution] at h
    split at h
    · cases h
    · rename_i outcome _
      obtain ⟨rest, hrest, rfl⟩ := Option.map_eq_some_iff.mp h
      obtain ⟨hlen, hall⟩ := ih hrest
      simp only [List.length_cons, hlen, List.mem_cons, forall_eq_or_imp]
      exact ⟨trivial, outcome.decision_cases, hall⟩

section
variable {wait : BatchCall → Option WaitOutcome}
variable {web feishu : ChannelSettings} {profile : Option UserProfile} {base : AgentRunnerDeps}
  {request : RunRequest} {env : TurnEnv} {calls : List ToolCall} {s : RunState} {entry : EntryPoint}

/-- With a hook, a listed call of the approval tier is handed to it. -/
theorem handed_of_needsApproval (hentry : entry ≠ .openai) {call : ToolCall}
    (h : NeedsApproval (gateContext (entry.runnerDeps web feishu profile base) request env.registry)
      (resolveToolsRequiringApproval profile (entry.channelDefault web feishu)) call) :
    handed (gateContext (entry.runnerDeps web feishu profile base) request env.registry) call =
      true := by
  obtain ⟨htier, hlisted⟩ := h
  refine handed_iff.mpr ⟨htier, .inr ?_, ?_⟩
  · cases entry with
    | webSocket => exact decide_eq_true hlisted
    | feishu => exact decide_eq_true hlisted
    | openai => exact absurd rfl hentry
  · cases entry with
    | webSocket => rfl
    | feishu => rfl
    | openai => exact absurd rfl hentry

theorem hookedEnv_answers {deps : AgentRunnerDeps}
    (h : HookAnswers (gateContext deps request env.registry) (numberCalls calls)
      (hookedEnv deps request env wait calls).hookReply) :
    AnswersAll (gateContext deps request env.registry) (numberCalls calls)
      (hookedEnv deps request env wait calls).hookReply := by
  rcases h with hnil | ⟨ds, hds, -⟩
  · exact .inl hnil
  · refine .inr ⟨ds, hds, ?_⟩
    simp only [hookedEnv] at hds
    cases hrun : beforeToolExecution wait
        (handedCalls (gateContext deps request env.registry) (numberCalls calls)) with
    | none =>
      rw [hrun] at hds
      cases hds
    | some ds' =>
      rw [hrun] at hds
      cases hds
      exact beforeToolExecution_spec hrun

/-- On the socket and on Feishu an executed call that needs an approval has one. -/
theorem approved_of_executed (hentry : entry ≠ .openai) (hs : s.Synced) {c : BatchCall}
    (hc : c ∈ numberCalls calls)
    (h : NeedsApproval (gateContext (entry.runnerDeps web feishu profile base) request env.registry)
      (resolveToolsRequiringApproval profile (entry.channelDefault web feishu)) c.call)
    (hex : c.pos ∈ executedPositions (toolBatch (entry.runnerDeps web feishu profile base) request
      (hookedEnv (entry.runnerDeps web feishu profile base) request env wait calls) calls s).log) :
    Decides (gateContext (entry.runnerDeps web feishu profile base) request env.registry)
      (numberCalls calls)
      (hookedEnv (entry.runnerDeps web feishu profile base) request env wait calls).hookReply c .approve := by
  obtain ⟨hreach, hnot⟩ := (executed_iff hs hc).mp hex
  have hanswers := hookedEnv_answers hreach.answers
  have hself : ¬ DeniedItself (gateContext (entry.runnerDeps web feishu profile base) request
      env.registry) (numberCalls calls)
      (hookedEnv (entry.runnerDeps web feishu profile base) request env wait calls).hookReply c :=
    fun hd => hnot ⟨c, hc, hd, rfl⟩
  exact (permitted_of_answersAll hanswers hc hself).approved (handed_of_needsApproval hentry h)

/-- The endpoint hands no call to a hook. -/
theorem handedCalls_openai (batch : List BatchCall) :
    handedCalls (gateContext (EntryPoint.openai.runnerDeps web feishu profile base) request env.registry)
      batch = [] := by
  have hnone : ∀ call, handed (gateContext (EntryPoint.openai.runnerDeps web feishu profile base)
      request env.registry) call = false := by
    intro call
    simp [handed, gateContext, EntryPoint.runnerDeps]
  simp [handedCalls, hnone]

/-- There the calls that run are those whose id the runner denies to no call. -/
theorem executed_openai_iff (hs : s.Synced) {c : BatchCall} (hc : c ∈ numberCalls calls) :
    c.pos ∈ executedPositions (toolBatch (EntryPoint.openai.runnerDeps web feishu profile base)
        request env calls s).log ↔
      (∀ call ∈ calls, ObjectArguments base.json call.arguments) ∧
        ¬ ∃ c' ∈ numberCalls calls, deniedByRunner (gateContext
          (EntryPoint.openai.runnerDeps web feishu profile base) request env.registry) c'.call = true ∧
          c'.call.id = c.call.id := by
  have hnil := @handedCalls_openai web feishu profile base request env (numberCalls calls)
  rw [executed_iff hs hc]
  refine and_congr ?_ (not_congr ?_)
  · exact ⟨fun h => h.arguments, fun h => ⟨h, .inl hnil⟩⟩
  · unfold IdDenied DeniedItself
    simp only [not_decides_of_handedCalls_nil hnil, or_false]

end

/-! ## Over the endpoint -/

/-- `bash` is listed, and no tier is forced. -/
def listsBash : ChannelSettings where
  defaultPermissionTier := .approval
  toolsRequiringApproval := ["bash"]

end PyClaw
