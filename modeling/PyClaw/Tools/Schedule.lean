import Mathlib.Algebra.Order.BigOperators.Group.Finset
import Mathlib.Logic.Function.Basic
import PyClaw.Lib.Machine
import PyClaw.Tools.Dispatch

/-!
# Tools.Schedule

`execute_tool_calls` (`core/agent/tools/registry.py`) with its tasks: a call begins, its tool may run for
any time, and then its result is written at its index. The calls of read-only tools begin and end in any
order, the others wait for them and for each other.

* `run_wf`: the invariant of every run.
* `batch_isolated_iff`: a finished run has one result for each call, in order and each from its own call only,
  and has started each tool once, exactly when no call raises out of `_dispatch_single`: its arguments do
  not make `json.loads` raise anything but a `JSONDecodeError`, and its tool raises no `BaseException`.
* `exists_finished`, `length_le`: every run ends.
* `returned_eq_execute`: what a finished run returns is `executeToolCalls`.
-/

namespace PyClaw

/-! ## Calls -/

/-- `fn.get("arguments")`. -/
inductive CallArguments where
  | dict
  | text (raw : String)
  | other

/-- A call as the model sent it; `name` is `""` where there is none. -/
structure CallRecord where
  id : String := ""
  name : String := ""
  arguments : CallArguments := .other

/-- `_function_args`, of which only the raise matters here. -/
def CallArguments.parse (json : JsonModule) : CallArguments → Except Escape Unit
  | .text raw => (functionArgs json raw).map fun _ => ()
  | .dict => .ok ()
  | .other => .ok ()

/-- `_dispatch_single` after the parse of the arguments. -/
def answer (py : PyText) (registry : ToolRegistry) (id name : String) (outcome : ToolOutcome) :
    Except Escape ToolResult :=
  if name = "" then .ok (errorResult id "tool call missing function name")
  else
    match registry.get name with
    | none => .ok (errorResult id ("tool " ++ py.repr name ++ " not registered"))
    | some _ =>
      match outcome with
      | .returns r => .ok r
      | .timesOut limit =>
        .ok (errorResult id (name ++ " timed out after " ++ py.floatStr limit ++ "s"))
      | .aborted => .ok (errorResult id (name ++ " aborted"))
      | .serverDead server =>
        .ok (errorResult id ("MCP server " ++ py.repr server ++
          " is unavailable. Removed from this conversation. Use /mcp restart " ++ server ++
          " to retry."))
      | .raises typeName message =>
        .ok (errorResult id (name ++ " raised " ++ typeName ++ ": " ++ message))
      | .baseException => .error .baseException

/-- What the runs of a batch have in common: the registry when the calls are divided, the registry
when the call `i` is dispatched (the tools of a dead server leave it), and how the tool of the call `i`
ends. -/
structure Batch where
  py : PyText
  json : JsonModule
  registry : ToolRegistry
  registryAt : Nat → ToolRegistry
  calls : List CallRecord
  outcome : Nat → ToolOutcome

/-- `_dispatch_single`. -/
def CallRecord.dispatch (c : CallRecord) (py : PyText) (json : JsonModule) (registry : ToolRegistry)
    (outcome : ToolOutcome) : Except Escape ToolResult :=
  match c.arguments.parse json with
  | .error e => .error e
  | .ok _ => answer py registry c.id c.name outcome

/-- A finalised call, as the runner sends it. -/
def CallRecord.ofCall (call : ToolCall) : CallRecord where
  id := call.id
  name := call.name
  arguments := .text call.arguments

/-- A tool is called: the arguments are parsed, and the registry has one of that name. -/
def CallRecord.callsTool (c : CallRecord) (json : JsonModule) (registry : ToolRegistry) : Bool :=
  (c.arguments.parse json).toOption.isSome && (registry.get c.name).isSome

/-- `tool is None or tool.side_effect`. -/
def CallRecord.isSequential (c : CallRecord) (registry : ToolRegistry) : Bool :=
  match registry.get c.name with
  | some t => t.sideEffect
  | none => true

/-! ## Runs -/

inductive CallStatus where
  | waiting
  | running
  | done
  /-- `_dispatch_single` has raised. -/
  | broken
  deriving DecidableEq, Repr

def CallStatus.remaining : CallStatus → Nat
  | .waiting => 2
  | .running => 1
  | .done => 0
  | .broken => 0

inductive ExecEvent where
  | started (i : Nat)
  | ended (i : Nat)
  deriving DecidableEq, Repr

inductive ExecAct where
  /-- The task of a call, or the loop over the sequential calls, gets to `_dispatch_single`. -/
  | begins (i : Nat)
  /-- Its tool ends. -/
  | ends (i : Nat)
  deriving DecidableEq, Repr

structure ExecState where
  status : Nat → CallStatus := fun _ => .waiting
  results : List (Option ToolResult)
  log : List ExecEvent := []
  /-- What `gather` or the loop raises: the first exception. -/
  failure : Option Escape := none

namespace ExecState

variable (s : ExecState)

def setStatus (i : Nat) (status : CallStatus) : ExecState :=
  { s with status := Function.update s.status i status }

def record (e : ExecEvent) : ExecState := { s with log := s.log ++ [e] }

/-- `results[i] = ...`, or the raise. -/
def settle (i : Nat) : Except Escape ToolResult → ExecState
  | .ok r => { s.setStatus i .done with results := s.results.set i (some r) }
  | .error e => { s.setStatus i .broken with failure := s.failure.or (some e) }

end ExecState

namespace Batch

variable (b : Batch)

def start : ExecState where
  results := List.replicate b.calls.length none

def sequential (i : Nat) : Bool := b.calls[i]?.any fun c => c.isSequential b.registry

/-- A sequential call waits for all parallel ones and for the sequential ones before it. -/
def Before (j i : Nat) : Prop := j < b.calls.length ∧ (b.sequential j = false ∨ j < i)

/-- Nothing has to be waited for. -/
def Enabled (s : ExecState) (i : Nat) : Prop :=
  b.sequential i = true → ∀ j < b.calls.length, (b.sequential j = false ∨ j < i) → s.status j = .done

instance (s : ExecState) (i : Nat) : Decidable (b.Enabled s i) :=
  inferInstanceAs (Decidable (_ → _))

def dispatch (c : CallRecord) (i : Nat) : Except Escape ToolResult :=
  c.dispatch b.py b.json (b.registryAt i) (b.outcome i)

def callsTool (c : CallRecord) (i : Nat) : Bool := c.callsTool b.json (b.registryAt i)

def resolves (c : CallRecord) (i : Nat) : Bool := ((b.registryAt i).get c.name).isSome

/-- One step of the tasks; `none` where it cannot happen. -/
def step (s : ExecState) : ExecAct → Option ExecState
  | .begins i =>
    match b.calls[i]? with
    | none => none
    | some c =>
      if s.status i = .waiting ∧ b.Enabled s i then
        if b.callsTool c i then some ((s.record (.started i)).setStatus i .running)
        else some (s.settle i (b.dispatch c i))
      else none
  | .ends i =>
    match b.calls[i]? with
    | none => none
    | some c =>
      if s.status i = .running then some ((s.record (.ended i)).settle i (b.dispatch c i)) else none

def Run (acts : List ExecAct) (s : ExecState) : Prop := tryFrom b.step b.start acts = some s

/-- No task has anything left to do. -/
def Finished (s : ExecState) : Prop := ∀ a, b.step s a = none

/-- How `execute_tool_calls` ends, if it has. -/
def returned (s : ExecState) : Option (Except Escape (List ToolResult)) :=
  match s.failure with
  | some e => some (.error e)
  | none =>
    if ∀ i < b.calls.length, s.status i = .done then some (.ok (s.results.filterMap id)) else none

/-- Order and isolation: a result for each call, in their order and of its own outcome, each tool that
can be resolved started once, and those of sequential calls only after those they wait for. -/
structure Isolated (s : ExecState) : Prop where
  results : ∃ rs, b.returned s = some (.ok rs) ∧ rs.length = b.calls.length ∧
    ∀ i c, b.calls[i]? = some c → ∃ r, rs[i]? = some r ∧ b.dispatch c i = .ok r
  startsOnce : ∀ i c, b.calls[i]? = some c → b.resolves c i = true →
    s.log.count (.started i) = 1
  serial : ∀ before i after, s.log = before ++ .started i :: after → b.sequential i = true →
    ∀ j c, b.Before j i → b.calls[j]? = some c → b.resolves c j = true → .ended j ∈ before

/-- The arguments of a call make `json.loads` raise something else than `JSONDecodeError`. -/
def BadArguments (c : CallRecord) : Prop :=
  ∃ raw, c.arguments = .text raw ∧ b.json.loads raw = .error .other

/-- No call raises out of `_dispatch_single`. -/
def Contained : Prop :=
  ∀ i c, b.calls[i]? = some c → ¬ b.BadArguments c ∧
    ¬ (b.resolves c i = true ∧ b.outcome i = .baseException)

/-- The finalised calls of a turn, with a registry that stays as it is. -/
def ofCalls (py : PyText) (json : JsonModule) (registry : ToolRegistry) (calls : List BatchCall)
    (outcome : Nat → ToolOutcome) : Batch where
  py := py
  json := json
  registry := registry
  registryAt _ := registry
  calls := calls.map fun c => .ofCall c.call
  outcome i := (calls[i]?.map fun c => outcome c.pos).getD .aborted

/-! ## The invariant -/

def toolCalled (i : Nat) : Bool := b.calls[i]?.any fun c => b.callsTool c i

structure Wf (s : ExecState) : Prop where
  length : s.results.length = b.calls.length
  done : ∀ i, s.status i = .done → ∃ c r, b.calls[i]? = some c ∧ b.dispatch c i = .ok r ∧
    s.results[i]? = some (some r)
  broken : ∀ i, s.status i = .broken → ∃ c e, b.calls[i]? = some c ∧ b.dispatch c i = .error e
  failure : s.failure = none ↔ ∀ i, s.status i ≠ .broken
  running : ∀ i, s.status i = .running → b.toolCalled i = true
  started : ∀ i, s.log.count (.started i) =
    if s.status i ≠ .waiting ∧ b.toolCalled i = true then 1 else 0
  ended : ∀ i, b.toolCalled i = true → s.status i = .done ∨ s.status i = .broken → .ended i ∈ s.log
  serial : ∀ before i after, s.log = before ++ .started i :: after → b.sequential i = true →
    ∀ j, b.Before j i → b.toolCalled j = true → .ended j ∈ before

end Batch

/-- The status of a call that has been settled. -/
def settledStatus : Except Escape ToolResult → CallStatus
  | .ok _ => .done
  | .error _ => .broken

section
variable {s s' : ExecState} {i j : Nat} {r : Except Escape ToolResult}

@[simp] theorem settle_log : (s.settle i r).log = s.log := by
  cases r with
  | ok r => rfl
  | error e => rfl

theorem settle_status : (s.settle i r).status = Function.update s.status i (settledStatus r) := by
  cases r with
  | ok r => rfl
  | error e => rfl

theorem settledStatus_ne_waiting : settledStatus r ≠ .waiting := by
  cases r <;> simp [settledStatus]

theorem settledStatus_ne_running : settledStatus r ≠ .running := by
  cases r <;> simp [settledStatus]

/-- What holds of the calls of a status, when one call changes its status. -/
theorem forall_update_status {f : Nat → CallStatus} {status status' : CallStatus} {P : Nat → Prop}
    (hnew : status = status' → P i) (hold : ∀ j, j ≠ i → f j = status' → P j) :
    ∀ j, Function.update f i status j = status' → P j := by
  intro j hj
  by_cases hji : j = i
  · subst hji
    rw [Function.update_self] at hj
    exact hnew hj
  · rw [Function.update_of_ne hji] at hj
    exact hold j hji hj

/-- The broken calls, when a call that is not broken changes its status. -/
theorem update_ne_broken {f : Nat → CallStatus} {status : CallStatus} (hi : f i ≠ .broken)
    (hstatus : status ≠ .broken) :
    (∀ j, Function.update f i status j ≠ .broken) ↔ ∀ j, f j ≠ .broken := by
  constructor
  · intro hnone j
    by_cases hji : j = i
    · rw [hji]
      exact hi
    · have := hnone j
      rwa [Function.update_of_ne hji] at this
  · intro hnone
    exact forall_update_status hstatus fun j _ => hnone j

/-- A log that ends with something else than `e` has its `e`s before that. -/
theorem split_of_concat {log before after : List ExecEvent} {e last : ExecEvent} (hne : e ≠ last)
    (h : log ++ [last] = before ++ e :: after) : ∃ after', log = before ++ e :: after' := by
  cases List.eq_nil_or_concat after with
  | inl hnil =>
    subst hnil
    have hlast := List.append_inj_right' h rfl
    simp at hlast
    exact absurd hlast.symm hne
  | inr hconcat =>
    obtain ⟨after', x, rfl⟩ := hconcat
    refine ⟨after', ?_⟩
    have hassoc : before ++ e :: (after' ++ [x]) = (before ++ e :: after') ++ [x] := by simp
    rw [List.concat_eq_append] at h
    exact List.append_inj_left' (h.trans hassoc) rfl

theorem before_of_concat {log before after : List ExecEvent} {e : ExecEvent} (hnew : e ∉ log)
    (h : log ++ [e] = before ++ e :: after) : before = log := by
  cases List.eq_nil_or_concat after with
  | inl hnil =>
    subst hnil
    exact (List.append_inj_left' h rfl).symm
  | inr hconcat =>
    obtain ⟨after', x, rfl⟩ := hconcat
    have hassoc : before ++ e :: (after' ++ [x]) = (before ++ e :: after') ++ [x] := by simp
    rw [List.concat_eq_append] at h
    have hlog := List.append_inj_left' (h.trans hassoc) rfl
    exact absurd (by simp [hlog]) hnew

end

namespace Batch

section
variable {b : Batch} {s s' : ExecState} {a : ExecAct} {i j : Nat} {c : CallRecord}

theorem step_cases (h : b.step s a = some s') :
    (∃ i c, a = .begins i ∧ b.calls[i]? = some c ∧ s.status i = .waiting ∧ b.Enabled s i ∧
      b.callsTool c i = true ∧ s' = (s.record (.started i)).setStatus i .running) ∨
    (∃ i c, a = .begins i ∧ b.calls[i]? = some c ∧ s.status i = .waiting ∧ b.callsTool c i = false ∧
      s' = s.settle i (b.dispatch c i)) ∨
    (∃ i c, a = .ends i ∧ b.calls[i]? = some c ∧ s.status i = .running ∧
      s' = (s.record (.ended i)).settle i (b.dispatch c i)) := by
  cases a with
  | begins i =>
    simp only [step] at h
    split at h
    · cases h
    · rename_i c hc
      split at h
      · rename_i hready
        split at h
        · rename_i htool
          cases h
          exact .inl ⟨i, c, rfl, hc, hready.1, hready.2, htool, rfl⟩
        · rename_i htool
          cases h
          exact .inr (.inl ⟨i, c, rfl, hc, hready.1, by simpa using htool, rfl⟩)
      · cases h
  | ends i =>
    simp only [step] at h
    split at h
    · cases h
    · rename_i c hc
      split at h
      · rename_i hrunning
        cases h
        exact .inr (.inr ⟨i, c, rfl, hc, hrunning, rfl⟩)
      · cases h

theorem toolCalled_eq (hc : b.calls[i]? = some c) : b.toolCalled i = b.callsTool c i := by
  simp [toolCalled, hc]

theorem start_wf (b : Batch) : b.Wf b.start where
  length := by simp [start]
  done := by intro i h; cases h
  broken := by intro i h; cases h
  failure := by simp [start]
  running := by intro i h; cases h
  started := by simp [start]
  ended := by rintro i - (h | h) <;> cases h
  serial := by
    intro before i after h
    simp [start] at h

theorem Wf.record_ended (h : b.Wf s) (i : Nat) : b.Wf (s.record (.ended i)) where
  length := h.length
  done := h.done
  broken := h.broken
  failure := h.failure
  running := h.running
  started := by
    intro j
    rw [ExecState.record, List.count_append]
    simpa using h.started j
  ended := by
    intro j htool hstatus
    exact List.mem_append_left _ (h.ended j htool hstatus)
  serial := by
    intro before k after hlog
    obtain ⟨after', hlog'⟩ := split_of_concat (by simp) hlog
    exact h.serial before k after' hlog'

theorem Wf.settle (h : b.Wf s) (hc : b.calls[i]? = some c)
    (hi : s.status i = .waiting ∧ b.callsTool c i = false ∨
      s.status i = .running ∧ .ended i ∈ s.log) :
    b.Wf (s.settle i (b.dispatch c i)) := by
  have hopen : s.status i ≠ .broken := by
    obtain ⟨hwaiting, -⟩ | ⟨hrunning, -⟩ := hi
    · simp [hwaiting]
    · simp [hrunning]
  have htool := toolCalled_eq hc
  have hlt : i < s.results.length := by
    rw [h.length]
    exact (List.getElem?_eq_some_iff.mp hc).1
  constructor
  · cases b.dispatch c i with
    | ok result => simpa [ExecState.settle] using h.length
    | error e => exact h.length
  · rw [settle_status]
    refine forall_update_status ?_ ?_
    · intro hnew
      cases hdispatch : b.dispatch c i with
      | ok result =>
        refine ⟨c, result, hc, hdispatch, ?_⟩
        simp [ExecState.settle, hlt]
      | error e => simp [hdispatch, settledStatus] at hnew
    · intro j hji hj
      obtain ⟨cj, rj, hcj, hdj, hrj⟩ := h.done j hj
      refine ⟨cj, rj, hcj, hdj, ?_⟩
      cases b.dispatch c i with
      | ok result => simpa [ExecState.settle, List.getElem?_set_ne (Ne.symm hji)] using hrj
      | error e => exact hrj
  · rw [settle_status]
    refine forall_update_status ?_ fun j _ => h.broken j
    intro hnew
    cases hdispatch : b.dispatch c i with
    | ok result => simp [hdispatch, settledStatus] at hnew
    | error e => exact ⟨c, e, hc, hdispatch⟩
  · rw [settle_status]
    cases hdispatch : b.dispatch c i with
    | ok result =>
      show s.failure = none ↔ _
      rw [h.failure, update_ne_broken hopen (by simp [settledStatus])]
    | error e =>
      refine iff_of_false ?_ ?_
      · cases hfailure : s.failure <;> simp [ExecState.settle, ExecState.setStatus, hfailure]
      · intro hnone
        exact hnone i (Function.update_self i _ _)
  · rw [settle_status]
    exact forall_update_status (fun hnew => absurd hnew settledStatus_ne_running)
      fun j _ => h.running j
  · intro j
    rw [settle_log, settle_status, h.started j]
    by_cases hji : j = i
    · subst hji
      rw [Function.update_self]
      obtain ⟨hwaiting, hno⟩ | ⟨hrunning, -⟩ := hi
      · simp [htool, hno]
      · simp [hrunning, settledStatus_ne_waiting]
    · rw [Function.update_of_ne hji]
  · intro j hj hstatus
    rw [settle_log]
    by_cases hji : j = i
    · subst hji
      obtain ⟨-, hno⟩ | ⟨-, hended⟩ := hi
      · rw [htool, hno] at hj
        cases hj
      · exact hended
    · rw [settle_status, Function.update_of_ne hji] at hstatus
      exact h.ended j hj hstatus
  · intro before k after hlog
    rw [settle_log] at hlog
    exact h.serial before k after hlog

theorem Wf.begin (h : b.Wf s) (hc : b.calls[i]? = some c) (hwaiting : s.status i = .waiting)
    (henabled : b.Enabled s i) (htool : b.callsTool c i = true) :
    b.Wf ((s.record (.started i)).setStatus i .running) := by
  have hstatus : ((s.record (.started i)).setStatus i .running).status =
      Function.update s.status i .running := rfl
  have hlog : ((s.record (.started i)).setStatus i .running).log = s.log ++ [.started i] := rfl
  have hcalled : b.toolCalled i = true := by rw [toolCalled_eq hc, htool]
  constructor
  · exact h.length
  · rw [hstatus]
    exact forall_update_status nofun fun j _ => h.done j
  · rw [hstatus]
    exact forall_update_status nofun fun j _ => h.broken j
  · rw [hstatus, update_ne_broken (by simp [hwaiting]) (by simp)]
    exact h.failure
  · rw [hstatus]
    exact forall_update_status (fun _ => hcalled) fun j _ => h.running j
  · intro j
    rw [hlog, hstatus, List.count_append, h.started j]
    by_cases hji : j = i
    · subst hji
      simp [hwaiting, hcalled]
    · simp [Function.update_of_ne hji, Ne.symm hji]
  · intro j hj hended
    refine List.mem_append_left _ ?_
    by_cases hji : j = i
    · rw [hstatus, hji, Function.update_self] at hended
      simp at hended
    · rw [hstatus, Function.update_of_ne hji] at hended
      exact h.ended j hj hended
  · intro before k after hconcat hseq j hbefore hj
    rw [hlog] at hconcat
    by_cases hki : k = i
    · subst hki
      have hnew : ExecEvent.started k ∉ s.log := by
        rw [← List.count_eq_zero, h.started k]
        simp [hwaiting]
      rw [before_of_concat hnew hconcat]
      exact h.ended j hj (.inl (henabled hseq j hbefore.1 hbefore.2))
    · have hne : ExecEvent.started k ≠ .started i := by simpa using hki
      obtain ⟨after', hlog'⟩ := split_of_concat hne hconcat
      exact h.serial before k after' hlog' hseq j hbefore hj

theorem Wf.step (h : b.Wf s) (hstep : b.step s a = some s') : b.Wf s' := by
  obtain ⟨i, c, -, hc, hwaiting, henabled, htool, rfl⟩ | ⟨i, c, -, hc, hwaiting, htool, rfl⟩ |
    ⟨i, c, -, hc, hrunning, rfl⟩ := step_cases hstep
  · exact h.begin hc hwaiting henabled htool
  · exact h.settle hc (.inl ⟨hwaiting, htool⟩)
  · exact (h.record_ended i).settle hc (.inr ⟨hrunning, List.mem_append_right _ (by simp)⟩)

theorem run_wf {acts : List ExecAct} (h : b.Run acts s) : b.Wf s := by
  have hhistory : ∀ (past : List ExecAct) s a s', b.Wf s → b.step s a = some s' → b.Wf s' :=
    fun _ _ _ _ hs hstep => hs.step hstep
  exact @history_invariant _ _ b.step (fun _ s => b.Wf s) [] acts _ _ hhistory b.start_wf h

/-! ## Finished runs -/

theorem parse_error_iff {arguments : CallArguments} :
    (∃ e, arguments.parse b.json = .error e) ↔
      ∃ raw, arguments = .text raw ∧ b.json.loads raw = .error .other := by
  cases arguments with
  | dict => simp [CallArguments.parse]
  | other => simp [CallArguments.parse]
  | text raw =>
    simp only [CallArguments.parse, functionArgs, CallArguments.text.injEq, exists_eq_left']
    cases b.json.loads raw with
    | ok v => cases v <;> simp [Except.map]
    | error e => cases e <;> simp [Except.map]

theorem answer_ok_iff {py : PyText} {registry : ToolRegistry} {id name : String}
    {outcome : ToolOutcome} :
    (∃ r, answer py registry id name outcome = .ok r) ↔
      ¬ ((registry.get name).isSome = true ∧ outcome = .baseException) := by
  unfold answer
  by_cases hname : name = ""
  · have hnone : registry.get "" = none := by simp [ToolRegistry.get]
    simp [hname, hnone]
  · cases hget : registry.get name with
    | none => simp [hname]
    | some t => cases outcome <;> simp [hname]

theorem dispatch_ok_iff :
    (∃ r, b.dispatch c i = .ok r) ↔ ¬ b.BadArguments c ∧
      ¬ (b.resolves c i = true ∧ b.outcome i = .baseException) := by
  unfold BadArguments resolves
  rw [← parse_error_iff, ← @answer_ok_iff b.py _ c.id]
  unfold dispatch CallRecord.dispatch
  cases hparse : c.arguments.parse b.json with
  | ok u => simp
  | error e => simp

theorem callsTool_eq_resolves (h : ¬ b.BadArguments c) : b.callsTool c i = b.resolves c i := by
  unfold callsTool CallRecord.callsTool resolves
  cases hparse : c.arguments.parse b.json with
  | ok u => simp [Except.toOption]
  | error e => exact absurd (parse_error_iff.mp ⟨e, hparse⟩) h

/-- In a finished run a call that nothing holds back is done, unless it raises. -/
theorem Wf.done_of_enabled (h : b.Wf s) (hfinished : b.Finished s) (hc : b.calls[i]? = some c)
    (hok : ∃ r, b.dispatch c i = .ok r) (henabled : b.Enabled s i) : s.status i = .done := by
  cases hstatus : s.status i with
  | done => rfl
  | running =>
    have hstuck := hfinished (.ends i)
    simp [Batch.step, hc, hstatus] at hstuck
  | broken =>
    obtain ⟨c', e, hc', he⟩ := h.broken i hstatus
    obtain ⟨r, hr⟩ := hok
    rw [hc] at hc'
    cases hc'
    rw [he] at hr
    cases hr
  | waiting =>
    have hstuck := hfinished (.begins i)
    simp only [Batch.step, hc, hstatus, henabled, true_and, if_true] at hstuck
    split at hstuck
    · cases hstuck
    · cases hstuck

theorem enabled_of_parallel (h : b.sequential i = false) (s : ExecState) : b.Enabled s i := by
  intro hseq
  rw [h] at hseq
  cases hseq

theorem Wf.all_done (h : b.Wf s) (hfinished : b.Finished s) (hcontained : b.Contained) :
    ∀ i < b.calls.length, s.status i = .done := by
  have hdone : ∀ i < b.calls.length, b.Enabled s i → s.status i = .done := by
    intro i hi henabled
    have hc := List.getElem?_eq_getElem hi
    exact h.done_of_enabled hfinished hc (dispatch_ok_iff.mpr (hcontained i _ hc)) henabled
  -- A sequential call is enabled once the ones before it are done.
  intro i
  induction i using Nat.strong_induction_on with
  | h i ih =>
    intro hi
    refine hdone i hi fun _ j hj hbefore => ?_
    cases hbefore with
    | inl hpar => exact hdone j hj (enabled_of_parallel hpar s)
    | inr hlt => exact ih j hlt hj

theorem exists_map_some {α : Type} {xs : List (Option α)}
    (h : ∀ i < xs.length, ∃ x, xs[i]? = some (some x)) : ∃ ys : List α, xs = ys.map some := by
  induction xs with
  | nil => exact ⟨[], rfl⟩
  | cons x xs ih =>
    obtain ⟨y, hy⟩ := h 0 (by simp)
    obtain ⟨ys, hys⟩ := ih fun i hi => h (i + 1) (by simpa using hi)
    refine ⟨y :: ys, ?_⟩
    rw [List.map_cons, ← hys]
    simpa using hy

theorem Wf.returned_ok (h : b.Wf s) (hdone : ∀ i < b.calls.length, s.status i = .done) :
    ∃ rs, b.returned s = some (.ok rs) ∧ rs.length = b.calls.length ∧
      ∀ i c, b.calls[i]? = some c → ∃ r, rs[i]? = some r ∧ b.dispatch c i = .ok r := by
  have hfailure : s.failure = none := by
    rw [h.failure]
    intro i hbroken
    obtain ⟨c, e, hc, -⟩ := h.broken i hbroken
    rw [hdone i (List.getElem?_eq_some_iff.mp hc).1] at hbroken
    cases hbroken
  obtain ⟨rs, hrs⟩ : ∃ rs : List ToolResult, s.results = rs.map some := by
    refine exists_map_some fun i hi => ?_
    obtain ⟨c, r, -, -, hr⟩ := h.done i (hdone i (h.length ▸ hi))
    exact ⟨r, hr⟩
  refine ⟨rs, ?_, ?_, ?_⟩
  · simp only [returned, hfailure]
    rw [if_pos hdone, hrs, List.filterMap_map]
    simp
  · rw [← h.length, hrs, List.length_map]
  · intro i c hc
    obtain ⟨c', r, hc', hr, hresult⟩ := h.done i (hdone i (List.getElem?_eq_some_iff.mp hc).1)
    rw [hc] at hc'
    cases hc'
    refine ⟨r, ?_, hr⟩
    rw [hrs, List.getElem?_map] at hresult
    simpa using hresult

/-- What a finished run returns is the outcomes of the calls, in their order. -/
theorem Wf.returned_ok_iff (h : b.Wf s) (hfinished : b.Finished s) {rs : List ToolResult} :
    b.returned s = some (.ok rs) ↔ rs.length = b.calls.length ∧
      ∀ i c, b.calls[i]? = some c → ∃ r, rs[i]? = some r ∧ b.dispatch c i = .ok r := by
  constructor
  · intro hreturned
    have hdone : ∀ i < b.calls.length, s.status i = .done := by
      by_contra hopen
      unfold returned at hreturned
      cases hfailure : s.failure <;> simp [hfailure, hopen] at hreturned
    obtain ⟨rs', hrs', hspec⟩ := h.returned_ok hdone
    rw [hreturned] at hrs'
    cases hrs'
    exact hspec
  · rintro ⟨hlength, hspec⟩
    have hcontained : b.Contained := by
      intro i c hc
      obtain ⟨r, -, hr⟩ := hspec i c hc
      exact dispatch_ok_iff.mp ⟨r, hr⟩
    obtain ⟨rs', hrs', hlength', hspec'⟩ := h.returned_ok (h.all_done hfinished hcontained)
    have heq : rs = rs' := by
      refine List.ext_getElem? fun i => ?_
      by_cases hi : i < b.calls.length
      · obtain ⟨r, hr, hd⟩ := hspec i _ (List.getElem?_eq_getElem hi)
        obtain ⟨r', hr', hd'⟩ := hspec' i _ (List.getElem?_eq_getElem hi)
        rw [hd] at hd'
        cases hd'
        rw [hr, hr']
      · rw [List.getElem?_eq_none (by omega), List.getElem?_eq_none (by omega)]
    rw [heq, hrs']

theorem Isolated.contained (h : b.Isolated s) : b.Contained := by
  obtain ⟨rs, -, -, hresults⟩ := h.results
  intro i c hc
  obtain ⟨r, -, hr⟩ := hresults i c hc
  exact dispatch_ok_iff.mp ⟨r, hr⟩

/-- **Order and isolation.** -/
theorem batch_isolated_iff (b : Batch) (acts : List ExecAct) (s : ExecState) (hrun : b.Run acts s)
    (hfinished : b.Finished s) : b.Isolated s ↔ b.Contained := by
  have h := run_wf hrun
  refine ⟨Isolated.contained, fun hcontained => ?_⟩
  have hdone := h.all_done hfinished hcontained
  refine ⟨h.returned_ok hdone, ?_, ?_⟩
  · intro i c hc htool
    have hi : i < b.calls.length := (List.getElem?_eq_some_iff.mp hc).1
    have hcalled : b.toolCalled i = true := by
      rw [toolCalled_eq hc, callsTool_eq_resolves (hcontained i c hc).1, htool]
    rw [h.started i, if_pos ⟨by simp [hdone i hi], hcalled⟩]
  · intro before i after hlog hseq j c hbefore hc htool
    have hcalled : b.toolCalled j = true := by
      rw [toolCalled_eq hc, callsTool_eq_resolves (hcontained j c hc).1, htool]
    exact h.serial before i after hlog hseq j hbefore hcalled

/-! ## Every run ends -/

def remaining (b : Batch) (s : ExecState) : Nat :=
  ∑ i ∈ Finset.range b.calls.length, (s.status i).remaining

theorem remaining_lt_of_one {i : Nat} (hi : i < b.calls.length)
    (hother : ∀ j, j ≠ i → s'.status j = s.status j)
    (hlt : (s'.status i).remaining < (s.status i).remaining) : b.remaining s' < b.remaining s := by
  refine Finset.sum_lt_sum (fun j _ => ?_) ⟨i, Finset.mem_range.mpr hi, hlt⟩
  by_cases hji : j = i
  · rw [hji]
    exact hlt.le
  · rw [hother j hji]

theorem remaining_lt (h : b.step s a = some s') : b.remaining s' < b.remaining s := by
  have hsettled : ∀ r, (settledStatus r).remaining = 0 := by
    intro r
    cases r <;> rfl
  obtain ⟨i, c, -, hc, hwaiting, -, -, rfl⟩ | ⟨i, c, -, hc, hwaiting, -, rfl⟩ |
    ⟨i, c, -, hc, hrunning, rfl⟩ := step_cases h
  · refine remaining_lt_of_one (List.getElem?_eq_some_iff.mp hc).1
      (fun j hji => Function.update_of_ne hji _ _) ?_
    simp [ExecState.setStatus, hwaiting, CallStatus.remaining]
  · refine remaining_lt_of_one (List.getElem?_eq_some_iff.mp hc).1
      (fun j hji => by rw [settle_status, Function.update_of_ne hji]) ?_
    rw [settle_status, Function.update_self, hsettled, hwaiting]
    simp [CallStatus.remaining]
  · refine remaining_lt_of_one (List.getElem?_eq_some_iff.mp hc).1
      (fun j hji => by rw [settle_status, Function.update_of_ne hji]; rfl) ?_
    rw [settle_status, Function.update_self, hsettled, hrunning]
    simp [CallStatus.remaining]

theorem remaining_start : b.remaining b.start = 2 * b.calls.length := by
  simp [remaining, start, CallStatus.remaining, Nat.mul_comm]

theorem length_le {acts : List ExecAct} (h : b.Run acts s) : acts.length ≤ 2 * b.calls.length := by
  have hle := length_add_le_of_measure (fun _ _ _ hstep => remaining_lt hstep) h
  rw [remaining_start] at hle
  omega

/-- Every run goes on to a finished one, as the tools end. -/
theorem exists_finished {acts : List ExecAct} (h : b.Run acts s) :
    ∃ more t, b.Run (acts ++ more) t ∧ b.Finished t := by
  obtain ⟨more, t, hmore, ht⟩ := exists_stuck_of_measure (fun _ _ _ hstep => remaining_lt hstep) s
  refine ⟨more, t, ?_, ht⟩
  rw [Run, tryFrom_append, h]
  exact hmore

/-! ## The result does not depend on the schedule -/

theorem dispatch_ofCall {py : PyText} {json : JsonModule} {registry : ToolRegistry} {call : ToolCall}
    {outcome : ToolOutcome} :
    (CallRecord.ofCall call).dispatch py json registry outcome =
      dispatchSingle py json registry call outcome := by
  unfold CallRecord.dispatch dispatchSingle
  simp only [CallRecord.ofCall, CallArguments.parse]
  cases functionArgs json call.arguments with
  | ok fields => rfl
  | error e => rfl

theorem returned_eq_execute {py : PyText} {json : JsonModule} {registry : ToolRegistry}
    {calls : List BatchCall} {outcome : Nat → ToolOutcome} {acts : List ExecAct}
    (hrun : (ofCalls py json registry calls outcome).Run acts s)
    (hfinished : (ofCalls py json registry calls outcome).Finished s) {rs : List ToolResult} :
    (ofCalls py json registry calls outcome).returned s = some (.ok rs) ↔
      executeToolCalls py json registry calls outcome = .ok rs := by
  have hdispatch : ∀ {i} {c : BatchCall}, calls[i]? = some c →
      (ofCalls py json registry calls outcome).dispatch (.ofCall c.call) i =
        dispatchSingle py json registry c.call (outcome c.pos) := by
    intro i c hc
    unfold Batch.dispatch
    rw [dispatch_ofCall]
    simp [ofCalls, hc]
  have hcalls : (ofCalls py json registry calls outcome).calls =
      calls.map fun c => CallRecord.ofCall c.call := rfl
  rw [(run_wf hrun).returned_ok_iff hfinished, executeToolCalls_ok_iff, hcalls, List.length_map]
  constructor
  · rintro ⟨hlength, hspec⟩
    have hcall : ∀ (i : Nat) (c : BatchCall), calls[i]? = some c →
        ∃ r, rs[i]? = some r ∧ dispatchSingle py json registry c.call (outcome c.pos) = .ok r := by
      intro i c hc
      obtain ⟨r, hr, hd⟩ := hspec i (.ofCall c.call) (by simp [hc])
      rw [hdispatch hc] at hd
      exact ⟨r, hr, hd⟩
    have hok : ∀ c ∈ calls, ∃ r, dispatchSingle py json registry c.call (outcome c.pos) = .ok r := by
      intro c hc
      obtain ⟨i, hi⟩ := List.getElem?_of_mem hc
      obtain ⟨r, -, hr⟩ := hcall i c hi
      exact ⟨r, hr⟩
    obtain ⟨r, hr⟩ := exists_results hok
    refine ⟨r, List.ext_getElem? fun i => ?_, hr⟩
    rw [List.getElem?_map]
    cases hc : calls[i]? with
    | none =>
      have := List.getElem?_eq_none_iff.mp hc
      exact List.getElem?_eq_none (by omega)
    | some c =>
      obtain ⟨ri, hri, hd⟩ := hcall i c hc
      rw [hr c (List.mem_of_getElem? hc)] at hd
      cases hd
      exact hri
  · rintro ⟨r, rfl, hr⟩
    refine ⟨List.length_map _, fun i d hd => ?_⟩
    rw [List.getElem?_map] at hd
    obtain ⟨c, hc, rfl⟩ := Option.map_eq_some_iff.mp hd
    refine ⟨r c, by simp [hc], ?_⟩
    rw [hdispatch hc]
    exact hr c (List.mem_of_getElem? hc)

end

end Batch

/-! ## Sample batches -/

/-- Next to what `JsonModule.brackets` reads: an integer of more digits than `int` converts. -/
def JsonModule.digitLimit : JsonModule where
  loads s :=
    if 4300 < s.length ∧ s.toList.all Char.isDigit = true then .error .other
    else JsonModule.brackets.loads s
  dumps := JsonModule.brackets.dumps
  loads_dumps s v h := by
    split at h
    · cases h
    · obtain ⟨v', hv', hobject⟩ := JsonModule.brackets.loads_dumps s v h
      refine ⟨v', ?_, hobject⟩
      rw [if_neg, hv']
      simp only [JsonModule.brackets]
      split <;> simp

def peek : Tool where
  name := "peek"
  sideEffect := false
  toolClass := some "read"

def twoPeeks (json : JsonModule) (second : CallArguments) : Batch where
  py := .ascii
  json := json
  registry := ToolRegistry.run .ascii [.register peek]
  registryAt _ := ToolRegistry.run .ascii [.register peek]
  calls := [⟨"call_0", "peek", .dict⟩, ⟨"call_1", "peek", second⟩]
  outcome i := .returns { toolCallId := if i = 0 then "call_0" else "call_1", content := [] }

def hugeInteger : CallArguments := .text (String.ofList (List.replicate 4301 '1'))

theorem isolated_twoPeeks : ∃ s,
    (twoPeeks .brackets .dict).Run [.begins 1, .begins 0, .ends 0, .ends 1] s ∧
      (twoPeeks .brackets .dict).Finished s ∧
      ((twoPeeks .brackets .dict).Isolated s ↔ (twoPeeks .brackets .dict).Contained) := by
  obtain ⟨s, hrun⟩ : ∃ s,
      (twoPeeks .brackets .dict).Run [.begins 1, .begins 0, .ends 0, .ends 1] s := ⟨_, rfl⟩
  have hfinished : (twoPeeks .brackets .dict).Finished s := by
    cases hrun
    intro a
    cases a with
    | begins i =>
      match i with
      | 0 => rfl
      | 1 => rfl
      | i + 2 => rfl
    | ends i =>
      match i with
      | 0 => rfl
      | 1 => rfl
      | i + 2 => rfl
  exact ⟨s, hrun, hfinished, Batch.batch_isolated_iff _ _ s hrun hfinished⟩

theorem digitLimit_ones {n : Nat} (h : 4300 < n) :
    JsonModule.digitLimit.loads (String.ofList (List.replicate n '1')) = .error .other := by
  have hdigit : Char.isDigit '1' = true := by decide
  simp [JsonModule.digitLimit, h, hdigit]

theorem hugeInteger_not_isolated :
    (∃ acts s, (twoPeeks .digitLimit hugeInteger).Run acts s ∧
      (twoPeeks .digitLimit hugeInteger).Finished s) ∧
    ∀ acts s, (twoPeeks .digitLimit hugeInteger).Run acts s →
      (twoPeeks .digitLimit hugeInteger).Finished s →
        s.results[0]? = some (some { toolCallId := "call_0", content := [] }) ∧
        (∀ rs, (twoPeeks .digitLimit hugeInteger).returned s ≠ some (.ok rs)) ∧
        ¬ (twoPeeks .digitLimit hugeInteger).Isolated s := by
  have hbad : ¬ (twoPeeks .digitLimit hugeInteger).Contained := by
    intro hcontained
    exact (hcontained 1 _ rfl).1 ⟨_, rfl, digitLimit_ones (by omega)⟩
  constructor
  · obtain ⟨acts, s, hrun, hfinished⟩ :=
      @Batch.exists_finished (twoPeeks .digitLimit hugeInteger) _ [] rfl
    exact ⟨_, s, hrun, hfinished⟩
  · intro acts s hrun hfinished
    have h := Batch.run_wf hrun
    have hdone : s.status 0 = .done := h.done_of_enabled hfinished rfl ⟨_, rfl⟩
      (Batch.enabled_of_parallel rfl s)
    obtain ⟨c, r, hc, hr, hresult⟩ := h.done 0 hdone
    cases hc
    cases hr
    refine ⟨hresult, ?_, fun hisolated => hbad hisolated.contained⟩
    intro rs hreturned
    obtain ⟨-, hspec⟩ := (h.returned_ok_iff hfinished).mp hreturned
    obtain ⟨r, -, hr⟩ := hspec 1 _ rfl
    have := Batch.dispatch_ok_iff.mp ⟨r, hr⟩
    exact this.1 ⟨_, rfl, digitLimit_ones (by omega)⟩

end PyClaw
