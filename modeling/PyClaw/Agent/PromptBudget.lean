import PyClaw.Agent.Invariant

/-!
# Agent.PromptBudget

The history budget (`PromptBudgetConfig`, `models/config.py`) and the requests that a run makes with it.

* `runIteration_eq`: an iteration ends early, or asks the model with the history it has assembled, after
  the compaction attempt it has made.
* `requests_allowed_iff`: a request is within the budget, or after an attempt that found nothing to
  compact, exactly when the zones and the reserve leave something of the context window and the attempt
  was not one that compacted to an empty summary. The budget 0 switches the check off.
-/

namespace PyClaw

open Prog

/-! ## The budget -/

structure PromptBudgetConfig where
  systemZoneTokens : Int := 4096
  dynamicZoneTokens : Int := 4096
  outputReserveTokens : Option Int := none
  /-- `int(n * output_reserve_ratio)` -/
  reserveOf : Int → Int

namespace PromptBudgetConfig

variable (config : PromptBudgetConfig) (maxContextTokens : Int) (modelMaxOutput : Option Int)

/-- `validate_against_context_window`, with the text of its `ValueError`. -/
def validateAgainstContextWindow : Except String Unit :=
  match config.outputReserveTokens with
  | none => .ok ()
  | some reserve =>
    let total := config.systemZoneTokens + config.dynamicZoneTokens + reserve
    if maxContextTokens < total then
      .error ("prompt_budget zones (" ++ toString total ++ ") exceed max_context_tokens (" ++
        toString maxContextTokens ++ "): system_zone=" ++ toString config.systemZoneTokens ++
        " + dynamic_zone=" ++ toString config.dynamicZoneTokens ++ " + output_reserve=" ++
        toString reserve ++ " = " ++ toString total)
    else .ok ()

def remaining : Int := maxContextTokens - config.systemZoneTokens - config.dynamicZoneTokens

def outputReserve : Int :=
  match config.outputReserveTokens, modelMaxOutput with
  | some reserve, _ => reserve
  | none, some output => output
  | none, none => config.reserveOf (config.remaining maxContextTokens)

/-- `compute_history_budget`. -/
def computeHistoryBudget : Int :=
  max 0 (config.remaining maxContextTokens - config.outputReserve maxContextTokens modelMaxOutput)

/-- What the zones and the reserve leave of the context window; negative if they exceed it. -/
def left : Int :=
  maxContextTokens - config.systemZoneTokens - config.dynamicZoneTokens -
    config.outputReserve maxContextTokens modelMaxOutput

/-- An explicit reserve that startup accepts leaves at least nothing. -/
theorem left_nonneg {reserve : Int} (hreserve : config.outputReserveTokens = some reserve)
    (h : config.validateAgainstContextWindow maxContextTokens = .ok ()) :
    0 ≤ config.left maxContextTokens modelMaxOutput := by
  simp only [validateAgainstContextWindow, hreserve] at h
  split at h
  · cases h
  · simp only [left, outputReserve, hreserve]
    omega

end PromptBudgetConfig

/-! ## Requests -/

def AgentRunnerDeps.budgeted (deps : AgentRunnerDeps) (config : PromptBudgetConfig)
    (contextWindow : Int) (modelMaxOutput : Option Int) : AgentRunnerDeps :=
  { deps with historyBudget := config.computeHistoryBudget contextWindow modelMaxOutput }

/-- What an iteration comes to before the model is asked. -/
inductive Preparation where
  | ended (next : Option LoopVars)
  /-- The request goes out; `attempt` is the answer of the context engine to the compaction attempt of
  this iteration, if there was one. -/
  | request (baseMessages : List Message) (attempt : Option CompactReply)

/-- The last check before the request. -/
def prepareRequest (env : IterEnv) (baseMessages : List Message) (attempt : Option CompactReply) :
    Run Preparation :=
  if env.runExpired then do
    fail "timeout" "run exceeded run_seconds"
    pure (.ended none)
  else pure (.request baseMessages attempt)

/-- An iteration up to its request. -/
def prepare (deps : AgentRunnerDeps) (env : IterEnv) (vars : LoopVars) : Run Preparation := do
  if env.timedOut then do
    fail "timeout" ("run exceeded " ++ deps.py.floatStr deps.config.runSeconds ++ "s run_seconds")
    pure (.ended none)
  else if env.aborted then do
    fail "aborted" "run aborted"
    pure (.ended none)
  else do
    let baseMessages ← sessionContext deps
    Prog.emit (.context baseMessages)
    if 0 < deps.historyBudget ∧
        deps.historyBudget < estimateMessagesTokens env.assembled then do
      let outcome ← tryCompaction deps env.pretrim baseMessages
      if outcome.ok = false then do
        fail outcome.code outcome.message
        pure (.ended none)
      else if outcome.compacted then pure (.ended (some vars))
      else prepareRequest env baseMessages (some (env.pretrim baseMessages))
    else prepareRequest env baseMessages none

/-- The iteration from the request on. -/
def afterPreparation (deps : AgentRunnerDeps) (request : RunRequest) (env : IterEnv)
    (vars : LoopVars) : Preparation → Run (Option LoopVars)
  | .ended next => pure next
  | .request baseMessages _ => callModel deps request env vars baseMessages

theorem runIteration_eq (deps : AgentRunnerDeps) (request : RunRequest) (env : IterEnv)
    (vars : LoopVars) :
    runIteration deps request env vars =
      prepare deps env vars >>= afterPreparation deps request env vars := by
  have hexpired : ∀ messages attempt, callModel deps request env vars messages =
      prepareRequest env messages attempt >>= afterPreparation deps request env vars := by
    intro messages attempt
    unfold prepareRequest
    split
    · rename_i hexpired
      unfold callModel
      rw [if_pos hexpired, andThen_assoc]
      rfl
    · rfl
  unfold runIteration prepare
  split
  · rw [andThen_assoc]
    rfl
  · split
    · rw [andThen_assoc]
      rfl
    · rw [andThen_assoc]
      refine andThen_congr fun messages => ?_
      rw [andThen_assoc]
      refine andThen_congr fun _ => ?_
      split
      · rw [andThen_assoc]
        refine andThen_congr fun outcome => ?_
        split
        · rw [andThen_assoc]
          rfl
        · split
          · rfl
          · exact hexpired _ _
      · exact hexpired _ _

/-- A request to the model in the iteration `index`, with the history it carries. -/
structure LlmRequest where
  index : Nat
  history : List Message
  baseMessages : List Message
  attempt : Option CompactReply

def Preparation.requests (index : Nat) (env : IterEnv) : Except Escape Preparation → List LlmRequest
  | .ok (.request baseMessages attempt) => [⟨index, env.assembled, baseMessages, attempt⟩]
  | _ => []

/-- The requests of `runLoop` from the state `s`. -/
def loopRequests (deps : AgentRunnerDeps) (request : RunRequest) (world : Nat → IterEnv) :
    Nat → Nat → LoopVars → RunState → List LlmRequest
  | 0, _, _, _ => []
  | n + 1, i, vars, s =>
    Preparation.requests i (world i) (prepare deps (world i) vars s).result ++
      match runIteration deps request (world i) vars s with
      | ⟨.ok (some vars'), s', _⟩ => loopRequests deps request world n (i + 1) vars' s'
      | _ => []

/-- The requests of `runBody`. -/
def requests (deps : AgentRunnerDeps) (request : RunRequest) (world : Nat → IterEnv)
    (s : RunState) : List LlmRequest :=
  match visionBlocked deps request s.tree with
  | .ok false =>
    match appendMessage deps { role := .user, content := userEntryContent deps.py request } s with
    | ⟨.ok _, s', _⟩ => loopRequests deps request world deps.config.maxIterations.toNat 0 {} s'
    | _ => []
  | _ => []

/-- The history is within the budget, or an attempt in the same iteration has found nothing to
compact. -/
def LlmRequest.Allowed (budget : Int) (r : LlmRequest) : Prop :=
  estimateMessagesTokens r.history ≤ budget ∨
    ∃ result, r.attempt = some (.returns result) ∧ result.ok = true ∧ result.compacted = false

/-- The request carries nothing, or the window has something left for the history, and then the history
fits or the engine, if asked, does not claim to have compacted it. -/
def Budgeted (left : Int) (world : Nat → IterEnv) (r : LlmRequest) : Prop :=
  r.history = [] ∨ 0 < left ∧ (estimateMessagesTokens r.history ≤ left ∨
    ∀ result, (world r.index).pretrim r.baseMessages = .returns result → result.compacted = false)

section
variable {deps : AgentRunnerDeps} {env : IterEnv} {vars : LoopVars}

/-- The check is on, and the history does not fit. -/
def OverBudget (deps : AgentRunnerDeps) (env : IterEnv) : Prop :=
  0 < deps.historyBudget ∧ deps.historyBudget < estimateMessagesTokens env.assembled

/-- The attempt that let a request through: none while the check is off or the history fits, else one
whose result is in order and brings no summary. -/
def Passes (deps : AgentRunnerDeps) (env : IterEnv) (baseMessages : List Message)
    (attempt : Option CompactReply) : Prop :=
  (attempt = none ∧ ¬ OverBudget deps env) ∨
    (OverBudget deps env ∧ ∃ r, env.pretrim baseMessages = .returns r ∧ attempt = some (.returns r) ∧
      r.ok = true ∧ ¬ (r.compacted = true ∧ orElseText r.summary "" ≠ ""))

theorem triple_true {α : Type} {P : List Item → RunState → Prop} (m : Run α) :
    Triple P m (fun _ _ _ => True) (fun _ _ _ => True) := by
  have h : Preserves (fun _ _ => True) m := Preserves.log fun _ _ _ => trivial
  exact h.strengthen fun _ _ _ => trivial

theorem tryCompaction_skips {compact : List Message → CompactReply} {messages : List Message} :
    Triple (fun _ _ => True) (tryCompaction deps compact messages)
      (fun o _ _ => o.ok = true → o.compacted = false → ∃ r, compact messages = .returns r ∧
        r.ok = true ∧ ¬ (r.compacted = true ∧ orElseText r.summary "" ≠ ""))
      (fun _ _ _ => True) := by
  rw [tryCompaction_eq]
  split
  · refine Triple.pure fun _ _ _ hok => ?_
    cases hok
  · rename_i r hreply
    split
    · refine Triple.pure fun _ _ _ hok => ?_
      cases hok
    · rename_i hok
      split
      · refine Triple.bind (triple_true _) fun _ => Triple.pure fun _ _ _ _ hno => ?_
        cases hno
      · rename_i hsummary
        refine Triple.pure fun _ _ _ _ _ => ⟨r, hreply, by simpa using hok, hsummary⟩

theorem prepareRequest_passes {messages : List Message} {attempt : Option CompactReply}
    (h : Passes deps env messages attempt) :
    Triple (fun _ _ => True) (prepareRequest env messages attempt)
      (fun p _ _ => ∀ base attempt, p = .request base attempt → Passes deps env base attempt)
      (fun _ _ _ => True) := by
  unfold prepareRequest
  split
  · refine Triple.bind (triple_true _) fun _ => Triple.pure fun _ _ _ base attempt hp => ?_
    cases hp
  · refine Triple.pure fun _ _ _ base attempt hp => ?_
    cases hp
    exact h

theorem prepare_passes :
    Triple (fun _ _ => True) (prepare deps env vars)
      (fun p _ _ => ∀ base attempt, p = .request base attempt → Passes deps env base attempt)
      (fun _ _ _ => True) := by
  have hended : ∀ {α : Type} (m : Run α) (next : Option LoopVars),
      Triple (fun _ _ => True) (m >>= fun _ => (pure (.ended next) : Run Preparation))
        (fun p _ _ => ∀ base attempt, p = .request base attempt → Passes deps env base attempt)
        (fun _ _ _ => True) := by
    intro α m next
    refine Triple.bind (triple_true _) fun _ => Triple.pure fun _ _ _ base attempt hp => ?_
    cases hp
  unfold prepare
  split
  · exact hended _ _
  · split
    · exact hended _ _
    · refine Triple.bind (triple_true _) fun messages => ?_
      refine Triple.bind (triple_true _) fun _ => ?_
      split
      · rename_i hover
        refine Triple.bind tryCompaction_skips fun outcome => ?_
        split
        · exact Triple.strengthen (hended _ _) fun _ _ _ => trivial
        · rename_i hok
          split
          · refine Triple.pure fun _ _ _ base attempt hp => ?_
            cases hp
          · rename_i hcompacted
            intro l s hskips
            have hresult := hskips (by simpa using hok) (by simpa using hcompacted)
            obtain ⟨r, hreply, hrok, hsummary⟩ := hresult
            exact prepareRequest_passes
              (.inr ⟨hover, r, hreply, congrArg some hreply, hrok, hsummary⟩) l s trivial
      · rename_i hfits
        exact prepareRequest_passes (.inl ⟨rfl, hfits⟩)

theorem history_empty_iff (messages : List Message) :
    messages = [] ↔ estimateMessagesTokens messages ≤ 0 := by
  have hnonneg : ∀ m : MessageDict, 0 ≤ m.estimateTokens := by
    intro m
    have := m.eight_le_estimate
    omega
  cases messages with
  | nil => simp [estimateMessagesTokens, MessageDict.estimateMessages]
  | cons m rest =>
    have hm := m.toDict.eight_le_estimate
    have hrest := sum_nonneg hnonneg (rest.map Message.toDict)
    simp only [estimateMessagesTokens, MessageDict.estimateMessages, List.map_cons, List.sum_cons, reduceCtorEq,
      false_iff]
    omega

theorem loopRequests_passes (request : RunRequest) (world : Nat → IterEnv) (n i : Nat)
    (vars : LoopVars) (s : RunState) :
    ∀ r ∈ loopRequests deps request world n i vars s,
      r.history = (world r.index).assembled ∧
        Passes deps (world r.index) r.baseMessages r.attempt := by
  induction n generalizing i vars s with
  | zero =>
    intro r hr
    simp [loopRequests] at hr
  | succ n ih =>
    intro r hr
    simp only [loopRequests, List.mem_append] at hr
    cases hr with
    | inl hhere =>
      have hpost := Triple.post (s := s) (@prepare_passes deps (world i) vars) trivial
      generalize prepare deps (world i) vars s = o at hpost hhere
      obtain ⟨result, s', l⟩ := o
      cases result with
      | error e => simp [Preparation.requests] at hhere
      | ok p =>
        cases p with
        | ended next => simp [Preparation.requests] at hhere
        | request base attempt =>
          simp only [Preparation.requests, List.mem_singleton] at hhere
          subst hhere
          exact ⟨rfl, hpost base attempt rfl⟩
    | inr hlater =>
      split at hlater
      · exact ih _ _ _ r hlater
      · simp at hlater

theorem requests_passes (request : RunRequest) (world : Nat → IterEnv) (s : RunState) :
    ∀ r ∈ requests deps request world s,
      r.history = (world r.index).assembled ∧
        Passes deps (world r.index) r.baseMessages r.attempt := by
  intro r hr
  unfold requests at hr
  split at hr
  · split at hr
    · exact loopRequests_passes request world _ _ _ _ r hr
    · simp at hr
  · simp at hr

/-- **Requests.** -/
theorem requests_allowed_iff (config : PromptBudgetConfig) (contextWindow : Int)
    (modelMaxOutput : Option Int) (deps : AgentRunnerDeps) (request : RunRequest)
    (world : Nat → IterEnv) (s : RunState) :
    ∀ r ∈ requests (deps.budgeted config contextWindow modelMaxOutput) request world s,
      r.Allowed (config.computeHistoryBudget contextWindow modelMaxOutput) ↔
        Budgeted (config.left contextWindow modelMaxOutput) world r := by
  intro r hr
  obtain ⟨hhistory, hpasses⟩ := requests_passes request world s r hr
  have hbudget : config.computeHistoryBudget contextWindow modelMaxOutput =
      max 0 (config.left contextWindow modelMaxOutput) := by
    simp only [PromptBudgetConfig.computeHistoryBudget, PromptBudgetConfig.left,
      PromptBudgetConfig.remaining]
  unfold Passes OverBudget at hpasses
  rw [show (deps.budgeted config contextWindow modelMaxOutput).historyBudget =
    max 0 (config.left contextWindow modelMaxOutput) from hbudget, ← hhistory] at hpasses
  rw [hbudget]
  generalize config.left contextWindow modelMaxOutput = left at hpasses ⊢
  unfold LlmRequest.Allowed Budgeted
  rw [history_empty_iff]
  obtain ⟨hnone, hfits⟩ | ⟨⟨hpos, hover⟩, result, hreply, hattempt, hok, -⟩ := hpasses
  · -- No attempt: the check is off, or the history fits.
    simp only [hnone, reduceCtorEq, false_and, exists_false, or_false]
    constructor
    · intro hwithin
      omega
    · rintro (hempty | ⟨hleft, -⟩)
      · omega
      · omega
  · -- An attempt whose result is `result`.
    have hleft : 0 < left := by omega
    simp only [hattempt, hreply, Option.some.injEq, CompactReply.returns.injEq]
    constructor
    · rintro (hwithin | ⟨result', rfl, -, hno⟩)
      · omega
      · refine .inr ⟨hleft, .inr ?_⟩
        rintro result' rfl
        exact hno
    · rintro (hempty | ⟨-, hwithin | hno⟩)
      · omega
      · omega
      · exact .inr ⟨result, rfl, hok, hno result rfl⟩

end

/-! ## A model whose output limit is the context window -/

/-- The defaults. -/
def defaultBudget : PromptBudgetConfig where
  reserveOf n := n * 3 / 10

def longHistory : List Message := [{ role := .user, content := .str "hello" }]

def talkative : Nat → IterEnv :=
  fun _ => { sampleEnv (.decisions []) with
    assembled := longHistory
    stream := [{ chunk := { textDelta := "hi" } }] }

def firstRequest : LlmRequest where
  index := 0
  baseMessages := longHistory
  history := longHistory
  attempt := none

theorem firstRequest_allowed_iff :
    firstRequest.Allowed (defaultBudget.computeHistoryBudget 128000 (some 8192)) ↔
      Budgeted (defaultBudget.left 128000 (some 8192)) talkative firstRequest := by
  have hrequests : requests (sampleDeps.budgeted defaultBudget 128000 (some 8192)) sampleRequest
      talkative (RunState.start .empty 0 sampleRequest) = [firstRequest] := rfl
  exact requests_allowed_iff defaultBudget 128000 (some 8192) sampleDeps sampleRequest talkative
    (RunState.start .empty 0 sampleRequest) _ (hrequests ▸ List.mem_singleton_self _)

theorem budget_off :
    ¬ ∀ (config : PromptBudgetConfig) (contextWindow : Int) (modelMaxOutput : Option Int),
      config.validateAgainstContextWindow contextWindow = .ok () →
      ∀ r ∈ requests (sampleDeps.budgeted config contextWindow modelMaxOutput) sampleRequest talkative
        (RunState.start .empty 0 sampleRequest),
        r.Allowed (config.computeHistoryBudget contextWindow modelMaxOutput) := by
  intro h
  have hrequests : requests (sampleDeps.budgeted defaultBudget 128000 (some 128000)) sampleRequest
      talkative (RunState.start .empty 0 sampleRequest) = [firstRequest] := rfl
  have hallowed := h defaultBudget 128000 (some 128000) rfl _
    (hrequests ▸ List.mem_singleton_self _)
  cases hallowed with
  | inl hwithin => exact absurd hwithin (by decide)
  | inr hattempt =>
    obtain ⟨result, hnone, -⟩ := hattempt
    cases hnone

end PyClaw
