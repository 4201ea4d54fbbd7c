import PyClaw.Agent.ToolLoop
import PyClaw.Agent.Vision
import PyClaw.Lib.Prog
import PyClaw.Session.Store
import PyClaw.Tools.Dispatch

/-!
# Agent.State

What a run of `run_agent_stream` reads (`AgentRunnerDeps`, `RunRequest`), what it changes
(`RunState`), what can be observed of it (`Item`, the log), and its way of appending entries.

Prompt building, token logging, `ingest` and the notifications other than `notify_run_end` have
no effect on what is modelled and are left out.
-/

namespace PyClaw

/-! ## Inputs -/

inductive TurnClassification where
  | ok
  | planning
  | reasoning
  | empty
  deriving DecidableEq, Repr

structure RetryConfig where
  planningOnlyLimit : Int := 1
  reasoningOnlyLimit : Int := 2
  emptyResponseLimit : Int := 1
  unknownToolThreshold : Int := 3

structure AgentRunConfig where
  maxIterations : Int := 50
  runSeconds : Rat := 600
  retry : RetryConfig := {}
  maxOutputChars : Int := 25000

/-- `AgentRunnerDeps`, with the Python library's parameters. The tool registry and the outside
world's answers change during a run and belong to the iterations. -/
structure AgentRunnerDeps where
  py : PyText
  json : JsonModule
  secrets : Secrets
  config : AgentRunConfig := {}
  toolApprovalHook : Option ToolApprovalHook := none
  channel : String := "web"
  defaultModel : String := "gpt-4o-mini"
  providers : Dict String ProviderSettings := Dict.empty
  defaultProvider : Option String := none
  classifyTurn : String → TurnClassification
  historyBudget : Int := 0

structure RunRequest where
  sessionId : String
  workspaceId : String
  agentId : String
  userMessage : String
  model : Option String := none
  attachments : List ContentBlock := []
  permissionTierOverride : Option PermissionTier := none
  userId : Option String := none
  role : Option String := none
  sandboxBackend : Option String := none

/-- The surroundings of a tool-call turn. -/
structure TurnEnv where
  registry : ToolRegistry
  hookReply : HookReply
  /-- What the tool does for the call at a position. -/
  outcome : Nat → ToolOutcome

/-- A response that arrived completely: the buffered tool calls, the detector's variables before
it, and the surroundings. -/
structure Turn extends TurnEnv where
  buffer : Dict Int ToolCallSlot
  detector : LoopState

/-! ## Audit records -/

inductive AuditDecision where
  | approve
  | deny
  deriving DecidableEq, Repr

inductive TierSource where
  | perTurn
  | channelDefault
  | forcedByServerConfig
  deriving DecidableEq, Repr

def TierSource.text : TierSource → String
  | .perTurn => "per-turn"
  | .channelDefault => "channel-default"
  | .forcedByServerConfig => "forced-by-server-config"

/-- The keyword arguments of `log_decision`. -/
structure AuditRecord where
  sessionId : String
  channel : String
  toolName : String
  toolCallId : String
  tier : PermissionTier
  decision : AuditDecision
  decidedBy : String
  tierSource : TierSource
  forcedServer : Option String
  userId : Option String
  role : Option String
  sandboxBackend : Option String
  deriving DecidableEq, Repr

/-! ## The log -/

inductive Item where
  | yielded (ev : AgentEvent)
  /-- `_emit_runner_audit` for the call at a position. -/
  | audit (pos : Nat) (record : AuditRecord)
  /-- The call at a position is handed to `execute_tool_calls`. -/
  | executed (pos : Nat)
  /-- `build_session_context` at the start of an iteration. -/
  | context (messages : List Message)
  /-- An append, with the run's tree and the stored one after it. -/
  | appended (e : SessionEntry) (tree : SessionTree) (stored : Option SessionTree)
  /-- A complete response; logged so that conditions on a run can speak about its inputs. -/
  | responded (turn : Turn)
  /-- `notify_run_end`. -/
  | runEnd (reason : String)

namespace Item

def executed? : Item → Option Nat
  | .executed pos => some pos
  | _ => none

def audited? : Item → Option (Nat × AuditDecision)
  | .audit pos record => some (pos, record.decision)
  | _ => none

/-- The id of a `ToolCallEnd`. -/
def ended? : Item → Option String
  | .yielded (.toolCallEnd id _) => some id
  | _ => none

def event? : Item → Option AgentEvent
  | .yielded ev => some ev
  | _ => none

/-- What a tool-call turn logs: events that do not end the run, audits, executions and appended
tool messages. -/
def Quiet : Item → Prop
  | .yielded ev => ev.isTerminal = false
  | .audit _ _ => True
  | .executed _ => True
  | .appended e _ _ => e.isTool = true
  | _ => False

end Item

structure RunState where
  tree : SessionTree
  store : InMemorySessionStore
  draws : Nat
  terminatedBy : String

/-- `ensure_session`. -/
def ensureSession (store : InMemorySessionStore) (request : RunRequest) :
    SessionTree × InMemorySessionStore :=
  match store.load request.sessionId with
  | some tree => (tree, store)
  | none =>
    let tree : SessionTree := { header := {
      id := request.sessionId, workspaceId := request.workspaceId, agentId := request.agentId } }
    (tree, store.saveHeader tree)

/-- The state of a run after `ensure_session`. -/
def RunState.start (store : InMemorySessionStore) (draws : Nat) (request : RunRequest) :
    RunState where
  tree := (ensureSession store request).1
  store := (ensureSession store request).2
  draws := draws
  terminatedBy := "done"

/-- Programs of the runner. -/
abbrev Run := Prog Item RunState Escape

/-! ## Appending -/

/-- `_append`, and the three assignments of `_try_compaction` with their `append_entry`. -/
def append (e : SessionEntry) : Run Unit := do
  let s ← Prog.get
  let tree := s.tree.push e
  Prog.modify fun s => { s with tree }
  match s.store.appendEntry tree.header.id e e.id with
  | none => Prog.raise .keyError
  | some store =>
    Prog.modify fun s => { s with store }
    Prog.emit (.appended e tree (store.load tree.header.id))

/-- An entry with a generated id that hangs on the leaf. -/
def nextEntry (deps : AgentRunnerDeps) (s : RunState) (body : EntryBody) : SessionEntry where
  id := (generateEntryId deps.secrets s.tree.entries.keys s.draws).1
  parentId := s.tree.leafId
  body := body

def newEntry (deps : AgentRunnerDeps) (body : EntryBody) : Run SessionEntry := do
  let s ← Prog.get
  Prog.modify fun s =>
    { s with draws := (generateEntryId deps.secrets s.tree.entries.keys s.draws).2 }
  pure (nextEntry deps s body)

def appendMessage (deps : AgentRunnerDeps) (m : MessageBody) : Run Unit := do
  let e ← newEntry deps (.message m)
  append e

def yieldEvent (ev : AgentEvent) : Run Unit := Prog.emit (.yielded ev)

def terminate (reason : String) : Run Unit :=
  Prog.modify fun s => { s with terminatedBy := reason }

/-- `_persist_partial_assistant`, best effort. -/
def persistPartialAssistant (deps : AgentRunnerDeps) (text : String) : Run Unit :=
  if text = "" then pure ()
  else do
    let e ← newEntry deps
      (.message { role := .assistant, content := .str text, isPartial := true })
    Prog.attempt (append e)

/-! ## What an append does -/

/-- The run's tree is well formed and the store holds a copy of it. -/
structure RunState.Synced (s : RunState) : Prop where
  wf : s.tree.Wf
  stored : s.store.load s.tree.header.id = some s.tree

theorem RunState.start_synced {store : InMemorySessionStore} {draws : Nat} {request : RunRequest}
    (h : ∀ t, store.load request.sessionId = some t → t.Wf) :
    (RunState.start store draws request).Synced := by
  unfold RunState.start ensureSession
  cases hload : store.load request.sessionId with
  | some t =>
    refine ⟨h t hload, ?_⟩
    rw [InMemorySessionStore.header_of_load hload]
    exact hload
  | none =>
    refine ⟨SessionTree.wf_empty _, ?_⟩
    dsimp only
    rw [InMemorySessionStore.saveHeader, hload]
    exact InMemorySessionStore.load_put _ _

theorem RunState.start_empty_synced (request : RunRequest) :
    (RunState.start .empty 0 request).Synced :=
  RunState.start_synced fun _ h => by cases h

/-- `s'` is `s` with the fresh entry `e` appended at the leaf. -/
structure Appended (s : RunState) (e : SessionEntry) (s' : RunState) : Prop where
  fresh : e.id ∉ s.tree.order
  parent : e.parentId = s.tree.leafId
  tree : s'.tree = s.tree.push e
  stored : s'.store.load s'.tree.header.id = some s'.tree
  terminatedBy : s'.terminatedBy = s.terminatedBy

theorem Appended.synced {s s' : RunState} {e : SessionEntry} (h : Appended s e s')
    (hs : s.Synced) (hrefs : ∀ k ∈ SessionTree.refs e, k ∈ s.tree.order) : s'.Synced where
  wf := h.tree ▸ hs.wf.push h.fresh hrefs
  stored := h.stored

theorem Appended.synced_message {s s' : RunState} {e : SessionEntry} {m : MessageBody}
    (h : Appended s e s') (hs : s.Synced) (hm : e.body = .message m) : s'.Synced := by
  refine h.synced hs fun k hk => ?_
  rw [SessionTree.refs, hm, List.append_nil, h.parent, Option.mem_toList] at hk
  exact hs.wf.leaf_mem hk

section
variable {deps : AgentRunnerDeps} {s : RunState}

/-- `_append` where the store holds the tree `t`, which need not be the run's own. -/
theorem append_run {t : SessionTree} (hs : s.store.load s.tree.header.id = some t)
    (e : SessionEntry) :
    append e s = ⟨.ok (), { s with tree := s.tree.push e, store := s.store.put (t.push e) },
      [.appended e (s.tree.push e) (some (t.push e))]⟩ := by
  have hheader : (s.tree.push e).header.id = (t.push e).header.id :=
    (InMemorySessionStore.header_of_load hs).symm
  have hstore : s.store.appendEntry (s.tree.push e).header.id e e.id =
      some (s.store.put (t.push e)) := by
    rw [InMemorySessionStore.appendEntry, show (s.tree.push e).header.id = s.tree.header.id from rfl,
      hs]
    rfl
  unfold append
  rw [Prog.bind_ok (show Prog.get s = ⟨.ok s, s, []⟩ from rfl)]
  dsimp only
  rw [hstore, ← InMemorySessionStore.load_put s.store (t.push e), ← hheader]
  rfl

/-- A new entry appended to a synchronised state: nothing is raised, and the log shows equal
trees. -/
theorem newEntry_append_run (deps : AgentRunnerDeps) (hs : s.Synced) (body : EntryBody) :
    ∃ e s₁ s', newEntry deps body s = ⟨.ok e, s₁, []⟩ ∧
      append e s₁ = ⟨.ok (), s', [.appended e s'.tree (some s'.tree)]⟩ ∧
      e.body = body ∧ Appended s e s' := by
  let e := nextEntry deps s body
  let s₁ : RunState :=
    { s with draws := (generateEntryId deps.secrets s.tree.entries.keys s.draws).2 }
  refine ⟨e, s₁, _, rfl, append_run (s := s₁) hs.stored e, rfl, ?_, rfl, rfl,
    InMemorySessionStore.load_put _ _, rfl⟩
  rw [hs.wf.order_eq]
  exact generateEntryId_fresh _ _ _

variable {P : List Item → RunState → Prop} {Q : Unit → List Item → RunState → Prop}
  {E : Escape → List Item → RunState → Prop}

theorem newEntry_append_triple {body : EntryBody} (hs : ∀ l s, P l s → s.Synced)
    (h : ∀ l s e s', P l s → e.body = body → Appended s e s' →
      Q () (l ++ [.appended e s'.tree (some s'.tree)]) s') :
    Prog.Triple P (newEntry deps body >>= append) Q E := by
  intro l s hP
  obtain ⟨e, s₁, s', hnew, happend, hbody, happ⟩ :=
    newEntry_append_run deps (hs l s hP) body
  rw [Prog.bind_ok hnew, happend]
  exact h l s e s' hP hbody happ

theorem appendMessage_triple {m : MessageBody} (hs : ∀ l s, P l s → s.Synced)
    (h : ∀ l s e s', P l s → e.body = .message m → Appended s e s' →
      Q () (l ++ [.appended e s'.tree (some s'.tree)]) s') :
    Prog.Triple P (appendMessage deps m) Q E :=
  newEntry_append_triple hs h

/-- The partial text is appended, unless it is empty. -/
theorem persistPartialAssistant_triple {text : String} (hs : ∀ l s, P l s → s.Synced)
    (hempty : ∀ l s, P l s → text = "" → Q () l s)
    (h : ∀ l s e s', P l s → text ≠ "" →
      e.body = .message { role := .assistant, content := .str text, isPartial := true } →
      Appended s e s' → Q () (l ++ [.appended e s'.tree (some s'.tree)]) s') :
    Prog.Triple P (persistPartialAssistant deps text) Q E := by
  unfold persistPartialAssistant
  refine Prog.Triple.ite (fun ht => Prog.Triple.pure fun l s hP => hempty l s hP ht) fun ht => ?_
  intro l s hP
  obtain ⟨e, s₁, s', hnew, happend, hbody, happ⟩ := newEntry_append_run deps (hs l s hP)
    (.message { role := .assistant, content := .str text, isPartial := true })
  rw [Prog.bind_ok hnew, Prog.attempt, happend]
  exact h l s e s' hP ht hbody happ

end

/-! ## Sample inputs: a hook that gates every tool, and a tool for it to gate -/

def gateAll : ToolApprovalHook where
  shouldGateCtx := fun _ => .returns true
  shouldGate := fun _ => .returns true

def sampleDeps : AgentRunnerDeps where
  py := .ascii
  json := .brackets
  secrets := .counting
  toolApprovalHook := some gateAll
  classifyTurn := fun _ => .ok

def sampleRequest : RunRequest where
  sessionId := "s"
  workspaceId := "w"
  agentId := "a"
  userMessage := "hello"

def sampleTool : Tool where
  name := "bash"
  toolClass := some "write"

def sampleEnv (reply : HookReply) : TurnEnv where
  registry := ToolRegistry.run .ascii [.register sampleTool]
  hookReply := reply
  outcome := fun _ => .returns { toolCallId := "", content := [] }

def sampleCall (id : String) : ToolCall where
  id := id
  name := "bash"
  arguments := "\x7b\x7d"

end PyClaw
