import Mathlib.Algebra.GroupWithZero.Nat
import Mathlib.Tactic.Choose
import PyClaw.Agent.ToolCalls
import PyClaw.Tools.Registry

/-!
# Tools.Dispatch

`execute_tool_calls` and `_dispatch_single` (`core/agent/tools/registry.py`), and the truncation
of results (`tool_result_truncation.py`). What a tool does is a parameter, `ToolOutcome`.

`executeToolCalls_eq_ok`: whatever the order in which calls are run, the results stand in the
order of the calls, one for each.
-/

namespace PyClaw

/-- How `run_with_timeout(tool.execute(args, context))` ends. `baseException` is what
`except Exception` does not catch. -/
inductive ToolOutcome where
  | returns (r : ToolResult)
  | timesOut (limitSeconds : Rat)
  | aborted
  | serverDead (server : String)
  | raises (typeName message : String)
  | baseException
  deriving Repr

/-- A call of the batch with its position, which stands for the identity of the call object. -/
structure BatchCall where
  pos : Nat
  call : ToolCall
  deriving DecidableEq, Repr

def errorResult (callId message : String) : ToolResult :=
  { toolCallId := callId, content := [.text message], isError := true }

/-- `_dispatch_single`. -/
def dispatchSingle (py : PyText) (json : JsonModule) (registry : ToolRegistry) (call : ToolCall)
    (outcome : ToolOutcome) : Except Escape ToolResult :=
  match functionArgs json call.arguments with
  | .error e => .error e
  | .ok _ =>
    if call.name = "" then .ok (errorResult call.id "tool call missing function name")
    else
      match registry.get call.name with
      | none => .ok (errorResult call.id ("tool " ++ py.repr call.name ++ " not registered"))
      | some _ =>
        match outcome with
        | .returns r => .ok r
        | .timesOut limit =>
          .ok (errorResult call.id (call.name ++ " timed out after " ++ py.floatStr limit ++ "s"))
        | .aborted => .ok (errorResult call.id (call.name ++ " aborted"))
        | .serverDead server =>
          .ok (errorResult call.id ("MCP server " ++ py.repr server ++
            " is unavailable. Removed from this conversation. Use /mcp restart " ++ server ++
            " to retry."))
        | .raises typeName message =>
          .ok (errorResult call.id (call.name ++ " raised " ++ typeName ++ ": " ++ message))
        | .baseException => .error .baseException

/-- `tool is None or tool.side_effect`: such calls run one after the other, the rest first and
concurrently. -/
def runsSequentially (registry : ToolRegistry) (call : ToolCall) : Bool :=
  match registry.get call.name with
  | some t => t.sideEffect
  | none => true

/-- `run_one` for the calls of `order`, each writing its result at its index. -/
def runInto (dispatch : BatchCall → Except Escape ToolResult) (order : List (BatchCall × Nat))
    (results : List (Option ToolResult)) : Except Escape (List (Option ToolResult)) :=
  order.foldlM (fun results p => (dispatch p.1).map fun r => results.set p.2 (some r)) results

/-- `execute_tool_calls`. -/
def executeToolCalls (py : PyText) (json : JsonModule) (registry : ToolRegistry)
    (calls : List BatchCall) (outcome : Nat → ToolOutcome) : Except Escape (List ToolResult) :=
  let dispatch := fun c : BatchCall => dispatchSingle py json registry c.call (outcome c.pos)
  let parallel := calls.zipIdx.filter fun p => !runsSequentially registry p.1.call
  let sequential := calls.zipIdx.filter fun p => runsSequentially registry p.1.call
  (runInto dispatch (parallel ++ sequential) (List.replicate calls.length none)).map
    fun results => results.filterMap id

/-! ## Truncation and rendering -/

def textLength (blocks : List ContentBlock) : Nat :=
  (blocks.map fun | .text t => t.length | .image _ _ => 0).sum

def truncateBlocks : List ContentBlock → Nat → List ContentBlock
  | [], _ => []
  | .image data mime :: rest, remaining => .image data mime :: truncateBlocks rest remaining
  | .text t :: rest, remaining =>
    if remaining = 0 then truncateBlocks rest 0
    else if t.length ≤ remaining then .text t :: truncateBlocks rest (remaining - t.length)
    else .text (String.ofList (t.toList.take remaining)) :: truncateBlocks rest 0

/-- `truncate_tool_result`. -/
def truncateToolResult (r : ToolResult) (maxChars : Int) : ToolResult :=
  if maxChars ≤ 0 then r
  else
    let total := textLength r.content
    let cap := maxChars.toNat
    if total ≤ cap then r
    else
      { r with content := truncateBlocks r.content cap ++
          [.text ("\n[... " ++ toString (total - cap) ++ " more characters truncated]")] }

def resolveMaxOutputChars (t : Tool) (defaultCap : Int) : Int :=
  match t.maxOutputChars with
  | none => defaultCap
  | some value => if 0 ≤ value then value else defaultCap

/-- The truncation loop of the runner, for one call. -/
def truncateFor (registry : ToolRegistry) (defaultCap : Int) (call : ToolCall) (r : ToolResult) :
    ToolResult :=
  match registry.get call.name with
  | some t => truncateToolResult r (resolveMaxOutputChars t defaultCap)
  | none => truncateToolResult r defaultCap

/-- `tool_result_to_llm_content`. -/
def toolResultToLlmContent (r : ToolResult) : String :=
  String.intercalate "\n" (r.content.filterMap fun | .text t => some t | .image _ _ => none)

/-! ## Results stand in the order of the calls -/

section
variable {py : PyText} {json : JsonModule} {registry : ToolRegistry}

/-- The call makes a tool raise past `except Exception`. -/
def Bursts (registry : ToolRegistry) (call : ToolCall) (outcome : ToolOutcome) : Prop :=
  (registry.get call.name).isSome ∧ outcome = .baseException

instance (call : ToolCall) (outcome : ToolOutcome) : Decidable (Bursts registry call outcome) :=
  match outcome with
  | .baseException => decidable_of_iff ((registry.get call.name).isSome = true)
      ⟨fun h => ⟨h, rfl⟩, And.left⟩
  | .returns _ | .timesOut _ | .aborted | .serverDead _ | .raises _ _ => .isFalse fun h => nomatch h.2

theorem dispatchSingle_ok_iff {call : ToolCall} {outcome : ToolOutcome} :
    (∃ r, dispatchSingle py json registry call outcome = .ok r) ↔
      (∃ fields, functionArgs json call.arguments = .ok fields) ∧
        ¬ Bursts registry call outcome := by
  unfold dispatchSingle Bursts
  cases hargs : functionArgs json call.arguments with
  | error e => simp
  | ok fields =>
    by_cases hname : call.name = ""
    · have hnone : registry.get "" = none := by simp [ToolRegistry.get]
      simp [hname, hnone]
    · cases hget : registry.get call.name with
      | none => simp [hname]
      | some t => cases outcome <;> simp [hname]

theorem runInto_ok {dispatch : BatchCall → Except Escape ToolResult} {r : BatchCall → ToolResult}
    {order : List (BatchCall × Nat)} (h : ∀ p ∈ order, dispatch p.1 = .ok (r p.1))
    (results : List (Option ToolResult)) :
    runInto dispatch order results =
      .ok (order.foldl (fun results p => results.set p.2 (some (r p.1))) results) := by
  induction order generalizing results with
  | nil => rfl
  | cons p order ih =>
    unfold runInto at ih ⊢
    rw [List.foldlM_cons, h p List.mem_cons_self]
    exact ih (fun q hq => h q (List.mem_cons_of_mem p hq)) _

theorem length_foldl_set {α β : Type} {f : α → β} (order : List (α × Nat))
    (results : List (Option β)) :
    (order.foldl (fun results p => results.set p.2 (some (f p.1))) results).length =
      results.length := by
  induction order generalizing results with
  | nil => rfl
  | cons p order ih => rw [List.foldl_cons, ih, List.length_set]

theorem getElem?_foldl_set_of_not_mem {α β : Type} {f : α → β} {order : List (α × Nat)} {i : Nat}
    (hi : i ∉ order.map Prod.snd) (results : List (Option β)) :
    (order.foldl (fun results p => results.set p.2 (some (f p.1))) results)[i]? = results[i]? := by
  induction order generalizing results with
  | nil => rfl
  | cons q order ih =>
    rw [List.map_cons, List.mem_cons, not_or] at hi
    rw [List.foldl_cons, ih hi.2, List.getElem?_set_ne (Ne.symm hi.1)]

theorem getElem?_foldl_set {α β : Type} {f : α → β} {order : List (α × Nat)}
    (hnd : (order.map Prod.snd).Nodup) {results : List (Option β)} {p : α × Nat} (hp : p ∈ order)
    (hi : p.2 < results.length) :
    (order.foldl (fun results p => results.set p.2 (some (f p.1))) results)[p.2]? =
      some (some (f p.1)) := by
  induction order generalizing results with
  | nil => cases hp
  | cons q order ih =>
    rw [List.map_cons, List.nodup_cons] at hnd
    rw [List.foldl_cons]
    rcases List.mem_cons.mp hp with rfl | hp
    · rw [getElem?_foldl_set_of_not_mem hnd.1]
      simp [hi]
    · exact ih hnd.2 hp (by simpa using hi)

/-- Writing each item's result at its index, in any order. -/
theorem foldl_set_perm {α β : Type} {f : α → β} {xs : List α} {order : List (α × Nat)}
    (hperm : order.Perm xs.zipIdx) :
    order.foldl (fun results p => results.set p.2 (some (f p.1))) (List.replicate xs.length none) =
      xs.map fun x => some (f x) := by
  have hnd : (order.map Prod.snd).Nodup := by
    rw [(hperm.map Prod.snd).nodup_iff, List.zipIdx_map_snd]
    exact List.nodup_range'
  refine List.ext_getElem? fun i => ?_
  by_cases hi : i < xs.length
  · have hmem : (xs[i], i) ∈ order :=
      hperm.mem_iff.mpr (List.mk_mem_zipIdx_iff_getElem?.mpr (List.getElem?_eq_getElem hi))
    rw [getElem?_foldl_set hnd hmem (by simpa using hi)]
    simp [hi]
  · have hlen := length_foldl_set (f := f) order (List.replicate xs.length none)
    rw [List.length_replicate] at hlen
    rw [List.getElem?_eq_none (by omega), List.getElem?_eq_none (by simp; omega)]

theorem runInto_error {dispatch : BatchCall → Except Escape ToolResult}
    {order : List (BatchCall × Nat)} {results results' : List (Option ToolResult)}
    (h : runInto dispatch order results = .ok results') :
    ∀ p ∈ order, ∃ r, dispatch p.1 = .ok r := by
  induction order generalizing results with
  | nil => exact fun p hp => absurd hp List.not_mem_nil
  | cons q order ih =>
    unfold runInto at ih h
    rw [List.foldlM_cons] at h
    cases hq : dispatch q.1 with
    | error e => rw [hq] at h; cases h
    | ok r =>
      rw [hq] at h
      intro p hp
      rcases List.mem_cons.mp hp with rfl | hp
      · exact ⟨r, hq⟩
      · exact ih h p hp

variable {calls : List BatchCall} {outcome : Nat → ToolOutcome}

/-- The order of execution lists each call once, with its index. -/
theorem executionOrder_perm (calls : List BatchCall) (p : BatchCall × Nat → Bool) :
    (calls.zipIdx.filter (fun c => !p c) ++ calls.zipIdx.filter p).Perm calls.zipIdx :=
  List.perm_append_comm.trans (List.filter_append_perm p calls.zipIdx)

theorem executeToolCalls_eq_ok {r : BatchCall → ToolResult}
    (h : ∀ c ∈ calls, dispatchSingle py json registry c.call (outcome c.pos) = .ok (r c)) :
    executeToolCalls py json registry calls outcome = .ok (calls.map r) := by
  have hperm := executionOrder_perm calls fun p => runsSequentially registry p.1.call
  unfold executeToolCalls
  dsimp only
  rw [runInto_ok (r := r), foldl_set_perm hperm]
  · simp [Except.map, List.filterMap_map]
  · intro p hp
    obtain ⟨c, i⟩ := p
    exact h c (List.mem_of_getElem? (List.mk_mem_zipIdx_iff_getElem?.mp (hperm.mem_iff.mp hp)))

theorem dispatch_ok_of_execute {rs : List ToolResult}
    (h : executeToolCalls py json registry calls outcome = .ok rs) :
    ∀ c ∈ calls, ∃ r, dispatchSingle py json registry c.call (outcome c.pos) = .ok r := by
  intro c hc
  have hperm := executionOrder_perm calls fun p => runsSequentially registry p.1.call
  obtain ⟨i, hi, rfl⟩ := List.getElem_of_mem hc
  unfold executeToolCalls at h
  dsimp only at h
  generalize hrun : runInto _ _ _ = out at h
  cases out with
  | error e => cases h
  | ok results =>
    exact runInto_error hrun (calls[i], i)
      (hperm.mem_iff.mpr (List.mk_mem_zipIdx_iff_getElem?.mpr (List.getElem?_eq_getElem hi)))

theorem exists_results
    (h : ∀ c ∈ calls, ∃ r, dispatchSingle py json registry c.call (outcome c.pos) = .ok r) :
    ∃ r : BatchCall → ToolResult,
      ∀ c ∈ calls, dispatchSingle py json registry c.call (outcome c.pos) = .ok (r c) := by
  have hr : ∀ c : BatchCall, ∃ r, c ∈ calls →
      dispatchSingle py json registry c.call (outcome c.pos) = .ok r := by
    intro c
    by_cases hc : c ∈ calls
    · obtain ⟨r, hr⟩ := h c hc
      exact ⟨r, fun _ => hr⟩
    · exact ⟨errorResult "" "", fun hc' => absurd hc' hc⟩
  choose r hr using hr
  exact ⟨r, hr⟩

/-- Execution returns exactly when every call does, and then one result per call, in order. -/
theorem executeToolCalls_ok_iff {rs : List ToolResult} :
    executeToolCalls py json registry calls outcome = .ok rs ↔
      ∃ r : BatchCall → ToolResult, rs = calls.map r ∧
        ∀ c ∈ calls, dispatchSingle py json registry c.call (outcome c.pos) = .ok (r c) := by
  constructor
  · intro h
    obtain ⟨r, hr⟩ := exists_results (dispatch_ok_of_execute h)
    rw [executeToolCalls_eq_ok hr] at h
    cases h
    exact ⟨r, rfl, hr⟩
  · rintro ⟨r, rfl, hr⟩
    exact executeToolCalls_eq_ok hr

end

end PyClaw
