import PyClaw.Agent.Batch
import PyClaw.Agent.Verdict

/-!
# Agent.BatchLog

What a tool-call turn logs and appends (`toolBatch_triple`), in terms of the verdicts on its
calls: which calls are executed, the audits, the `ToolCallEnd` events and the tool messages.
-/

namespace PyClaw

open Prog

/-- Tool messages that answer the ids, in order. -/
def ToolMessages (ids : List String) (msgs : List Message) : Prop :=
  (∀ m ∈ msgs, m.role = .tool) ∧
    msgs.map Message.toolCallId = ids.map fun id => SessionTree.truthy (some id)

/-- The log of a turn that started with the context `c₀`. -/
structure BatchLog (py : PyText) (c₀ : List Message) (executed : List Nat)
    (audits : List (Nat × AuditDecision)) (ended : List String) (l : List Item) (s : RunState) :
    Prop where
  synced : s.Synced
  executed_eq : l.filterMap Item.executed? = executed
  audits_eq : l.filterMap Item.audited? = audits
  ended_eq : l.filterMap Item.ended? = ended
  quiet : ∀ it ∈ l, it.Quiet
  context : ∃ msgs, s.tree.buildSessionContext py = some (c₀ ++ msgs) ∧ ToolMessages ended msgs

section
variable {py : PyText} {c₀ : List Message} {ex : List Nat} {au : List (Nat × AuditDecision)}
  {ids : List String} {l : List Item} {s : RunState}

theorem BatchLog.start (hs : s.Synced) (hc : s.tree.buildSessionContext py = some c₀) :
    BatchLog py c₀ [] [] [] [] s where
  synced := hs
  executed_eq := rfl
  audits_eq := rfl
  ended_eq := rfl
  quiet := fun _ h => absurd h List.not_mem_nil
  context := ⟨[], by simpa using hc, by simp [ToolMessages]⟩

theorem BatchLog.snoc (h : BatchLog py c₀ ex au ids l s) {i : Item} (hq : i.Quiet)
    (he : i.ended? = none) :
    BatchLog py c₀ (ex ++ i.executed?.toList) (au ++ i.audited?.toList) ids (l ++ [i]) s where
  synced := h.synced
  executed_eq := by rw [filterMap_snoc, h.executed_eq]
  audits_eq := by rw [filterMap_snoc, h.audits_eq]
  ended_eq := by rw [filterMap_snoc, h.ended_eq, he, Option.toList_none, List.append_nil]
  quiet := by
    intro x hx
    rcases List.mem_append.mp hx with hx | hx
    · exact h.quiet x hx
    · rw [List.mem_singleton.mp hx]; exact hq
  context := h.context

/-- The tool entry of a call, followed by its `ToolCallEnd`. -/
theorem BatchLog.report {id : String} {r : ToolResult} {m : MessageBody} {e : SessionEntry}
    {s' : RunState} {stored : Option SessionTree} (h : BatchLog py c₀ ex au ids l s)
    (hrole : m.role = .tool) (hid : m.toolCallId = some id) (hm : e.body = .message m)
    (happ : Appended s e s') :
    BatchLog py c₀ ex au (ids ++ [id])
      ((l ++ [.appended e s'.tree stored]) ++ [.yielded (.toolCallEnd id r)]) s' where
  synced := happ.synced_message h.synced hm
  executed_eq := by
    rw [filterMap_snoc, filterMap_snoc, h.executed_eq]
    simp [Item.executed?]
  audits_eq := by
    rw [filterMap_snoc, filterMap_snoc, h.audits_eq]
    simp [Item.audited?]
  ended_eq := by
    rw [filterMap_snoc, filterMap_snoc, h.ended_eq]
    simp [Item.ended?]
  quiet := by
    intro x hx
    simp only [List.mem_append, List.mem_singleton] at hx
    rcases hx with (hx | rfl) | rfl
    · exact h.quiet x hx
    · simp [Item.Quiet, SessionEntry.isTool, hm, hrole]
    · rfl
  context := by
    obtain ⟨msgs, hctx, hroles, hids⟩ := h.context
    refine ⟨msgs ++ [messageEntryToDict py m], ?_, ?_, ?_⟩
    · rw [happ.tree, h.synced.wf.context_push hm happ.fresh happ.parent hctx, List.append_assoc]
    · intro x hx
      rcases List.mem_append.mp hx with hx | hx
      · exact hroles x hx
      · rw [List.mem_singleton.mp hx]; exact hrole
    · simp [hids, messageEntryToDict, hid]

/-! ## The parts of a turn -/

variable {deps : AgentRunnerDeps} {P : List Item → RunState → Prop}
  {E : Escape → List Item → RunState → Prop}

theorem emit_triple {i : Item} (hq : i.Quiet) (he : i.ended? = none) :
    Triple (BatchLog py c₀ ex au ids) (emit i)
      (fun _ => BatchLog py c₀ (ex ++ i.executed?.toList) (au ++ i.audited?.toList) ids) E :=
  Triple.emit fun _ _ h => h.snoc hq he

theorem reportResult_triple (deps : AgentRunnerDeps) (id : String) (r : ToolResult) :
    Triple (BatchLog py c₀ ex au ids) (reportResult deps id r)
      (fun _ => BatchLog py c₀ ex au (ids ++ [id])) E := by
  unfold reportResult
  refine Triple.bind (Q := fun _ l s => ∃ l₀ s₀ e stored, l = l₀ ++ [.appended e s.tree stored] ∧
      BatchLog py c₀ ex au ids l₀ s₀ ∧ Appended s₀ e s ∧ e.body = .message _)
    (appendMessage_triple (fun _ _ h => h.synced) fun l s e s' h hm happ =>
      ⟨l, s, e, _, rfl, h, happ, hm⟩) fun _ => ?_
  refine Triple.emit ?_
  rintro _ s ⟨l₀, s₀, e, stored, rfl, h, happ, hm⟩
  exact h.report rfl rfl hm happ

/-- `ToolCallStart` for each call, until one of them has arguments that are no object. -/
theorem startCalls_triple (batch : List BatchCall) :
    Triple (BatchLog py c₀ ex au ids) (startCalls deps batch)
      (fun _ l s => (∀ c ∈ batch, ObjectArguments deps.json c.call.arguments) ∧
        BatchLog py c₀ ex au ids l s)
      (fun _ l s => (∃ c ∈ batch, ¬ ObjectArguments deps.json c.call.arguments) ∧
        BatchLog py c₀ ex au ids l s) := by
  refine (Triple.forEach (I := fun done l s =>
    (∀ c ∈ done, ObjectArguments deps.json c.call.arguments) ∧ BatchLog py c₀ ex au ids l s)
    batch ?_).strengthen fun l s h => ⟨fun _ hc => absurd hc List.not_mem_nil, h⟩
  intro done c rest hbatch
  have hmem : c ∈ batch := hbatch ▸ List.mem_append_right done List.mem_cons_self
  split
  · rename_i fields hargs
    refine Triple.emit ?_
    rintro l s ⟨hdone, h⟩
    have hlog := h.snoc (i := .yielded (.toolCallStart c.call.id c.call.name fields)) rfl rfl
    refine ⟨fun x hx => ?_, by simpa [Item.executed?, Item.audited?] using hlog⟩
    rcases List.mem_append.mp hx with hx | hx
    · exact hdone x hx
    · rw [List.mem_singleton.mp hx, ObjectArguments, hargs]
      rfl
  · rename_i hargs
    refine Triple.raise ?_
    rintro l s ⟨-, h⟩
    refine ⟨⟨c, hmem, fun hobj => ?_⟩, h⟩
    unfold ObjectArguments at hobj
    cases hp : parseArguments deps.json c.call.arguments with
    | obj fields => exact hargs fields hp
    | null | bool _ | num _ | str _ | arr _ => rw [hp] at hobj; cases hobj

theorem audits_triple (audits : List (Nat × AuditRecord)) :
    Triple (BatchLog py c₀ ex [] ids) (forEach audits fun a => emit (.audit a.1 a.2))
      (fun _ => BatchLog py c₀ ex (audits.map auditVerdict) ids) E := by
  refine Triple.forEach (I := fun done => BatchLog py c₀ ex (done.map auditVerdict) ids) audits ?_
  intro done a rest _
  refine (emit_triple (i := .audit a.1 a.2) trivial rfl).weaken fun _ l s h => ?_
  simpa [Item.executed?, Item.audited?, auditVerdict] using h

theorem executed_triple (remaining : List BatchCall) :
    Triple (BatchLog py c₀ [] au ids) (forEach remaining fun c => emit (.executed c.pos))
      (fun _ => BatchLog py c₀ (remaining.map BatchCall.pos) au ids) E := by
  refine Triple.forEach (I := fun done => BatchLog py c₀ (done.map BatchCall.pos) au ids)
    remaining ?_
  intro done c rest _
  refine (emit_triple (i := .executed c.pos) trivial rfl).weaken fun _ l s h => ?_
  simpa [Item.executed?, Item.audited?] using h

theorem reportDenied_triple (denied : Dict String String) (batch : List BatchCall) :
    Triple (BatchLog py c₀ ex au []) (reportDenied deps denied batch)
      (fun _ => BatchLog py c₀ ex au
        ((batch.filter fun c => denied.contains c.call.id).map fun c => c.call.id)) E := by
  refine Triple.forEach (I := fun done => BatchLog py c₀ ex au
    ((done.filter fun c => denied.contains c.call.id).map fun c => c.call.id)) batch ?_
  intro done c rest _
  rw [List.filter_append, List.map_append]
  split
  · rename_i reason hget
    have hc : denied.contains c.call.id = true := by rw [Dict.contains, hget]; rfl
    simpa [hc] using reportResult_triple deps c.call.id
      (errorResult c.call.id reason)
  · rename_i hget
    have hc : denied.contains c.call.id = false := by rw [Dict.contains, hget]; rfl
    have hnil : (([c].filter fun c => denied.contains c.call.id).map fun c => c.call.id) = [] := by
      simp [hc]
    rw [hnil, List.append_nil]
    exact Triple.pure fun _ _ h => h

theorem reportResults_triple {remaining : List BatchCall} {results : List ToolResult}
    (hlen : results.length = remaining.length) (f : ToolCall → ToolResult → ToolResult) :
    Triple (BatchLog py c₀ ex au ids)
      (forEach (remaining.zip results) fun p => reportResult deps p.1.call.id (f p.1.call p.2))
      (fun _ => BatchLog py c₀ ex au (ids ++ remaining.map fun c => c.call.id)) E := by
  have hmap : (remaining.zip results).map (fun p => p.1.call.id) =
      remaining.map fun c => c.call.id := by
    calc (remaining.zip results).map (fun p => p.1.call.id)
        = ((remaining.zip results).map Prod.fst).map fun c => c.call.id := by
          rw [List.map_map]; rfl
      _ = remaining.map fun c => c.call.id := by rw [List.map_fst_zip (by omega)]
  rw [← hmap]
  refine (Triple.forEach (I := fun done => BatchLog py c₀ ex au
    (ids ++ done.map fun p : BatchCall × ToolResult => p.1.call.id)) _ ?_).strengthen
    fun l s h => by simpa using h
  intro done p rest _
  refine (reportResult_triple deps p.1.call.id _).weaken fun _ l s h => ?_
  simpa using h

/-! ## The hook -/

/-- The hook returns, with no more decisions than calls it was asked about. -/
def HookAnswers (ctx : GateContext) (batch : List BatchCall) (reply : HookReply) : Prop :=
  handedCalls ctx batch = [] ∨
    ∃ ds, reply = .decisions ds ∧ ds.length ≤ (handedCalls ctx batch).length

/-- `denied_ids` holds the ids of the calls that are denied themselves. -/
def DeniedTable (ctx : GateContext) (batch : List BatchCall) (reply : HookReply)
    (denied : Dict String String) : Prop :=
  ∀ k, k ∈ denied.keys ↔ ∃ c ∈ batch, DeniedItself ctx batch reply c ∧ c.call.id = k

variable {ctx : GateContext} {batch : List BatchCall} {reply : HookReply}

theorem not_decides_of_handedCalls_nil (h : handedCalls ctx batch = []) {c : BatchCall}
    {d : ApprovalDecision} : ¬ Decides ctx batch reply c d := by
  rintro ⟨ds, -, hmem⟩
  rw [h] at hmem
  cases hmem

theorem deniedTable_of_handedCalls_nil (h : handedCalls ctx batch = []) (json : JsonModule) :
    DeniedTable ctx batch reply (gateCalls ctx (batch.map (evaluated ctx json))).denied := by
  intro k
  rw [gateCalls_denied]
  simp [DeniedItself, not_decides_of_handedCalls_nil h]

theorem askHook_triple (hhook : ctx.hook = deps.toolApprovalHook) :
    Triple (BatchLog py c₀ ex au ids)
      (askHook deps reply (gateCalls ctx (batch.map (evaluated ctx deps.json))))
      (fun denied l s => (HookAnswers ctx batch reply ∧ DeniedTable ctx batch reply denied) ∧
        BatchLog py c₀ ex au ids l s)
      (fun _ l s => ¬ HookAnswers ctx batch reply ∧ BatchLog py c₀ ex au ids l s) := by
  -- where the hook has nothing to decide
  have hskip : handedCalls ctx batch = [] → Triple (BatchLog py c₀ ex au ids)
      (pure (gateCalls ctx (batch.map (evaluated ctx deps.json))).denied : Run (Dict String String))
      (fun denied l s => (HookAnswers ctx batch reply ∧ DeniedTable ctx batch reply denied) ∧
        BatchLog py c₀ ex au ids l s)
      (fun _ l s => ¬ HookAnswers ctx batch reply ∧ BatchLog py c₀ ex au ids l s) := fun hnil =>
    Triple.pure fun l s h => ⟨⟨.inl hnil, deniedTable_of_handedCalls_nil hnil deps.json⟩, h⟩
  unfold askHook
  split
  · rename_i _ hnone
    exact hskip (by simp [handedCalls, handed, hhook, hnone])
  · rename_i hook hsome hg
    refine hskip ?_
    rw [gateCalls_gated (by simp [hhook, hsome])] at hg
    simpa using hg
  · rename_i hook hsome hne
    have hisSome : ctx.hook.isSome = true := by simp [hhook, hsome]
    have hgated := @gateCalls_gated ctx deps.json batch hisSome
    refine Triple.bind (Q := fun _ => BatchLog py c₀ ex au ids) ?_ fun _ => ?_
    · refine Triple.forEach (I := fun _ => BatchLog py c₀ ex au ids) _ fun done e rest _ => ?_
      refine (emit_triple (i := .yielded (.toolApprovalRequest e.call.id e.canonicalName e.args))
        rfl rfl).weaken fun _ l s h => ?_
      simpa [Item.executed?, Item.audited?] using h
    · have hcalls : handedCalls ctx batch ≠ [] := by
        intro hnil
        rw [hgated, hnil] at hne
        exact hne rfl
      split
      · refine Triple.raise fun l s h => ⟨?_, h⟩
        rintro (hnil | ⟨ds, hds, -⟩)
        · exact hcalls hnil
        · cases hds
      · rename_i ds
        refine Triple.ofExcept (fun denied hok l s h => ⟨⟨.inr ⟨ds, rfl, ?_⟩, ?_⟩, h⟩)
          fun e herr l s h => ⟨?_, h⟩
        · have := applyDecisions_ok_iff.mp ⟨denied, hok⟩
          rwa [hgated, List.length_map] at this
        · exact applyDecisions_denied hisSome hok
        · rintro (hnil | ⟨ds', hds, hlen⟩)
          · exact hcalls hnil
          · cases hds
            have hlen' : ds.length ≤
                (gateCalls ctx (batch.map (evaluated ctx deps.json))).gated.length := by
              rwa [hgated, List.length_map]
            obtain ⟨denied, hok⟩ := applyDecisions_ok_iff.mpr hlen'
            rw [hok] at herr
            cases herr

end

/-! ## The turn -/

section
variable (deps : AgentRunnerDeps) (request : RunRequest) (env : TurnEnv) (calls : List ToolCall)

/-- The turn gets to the execution of its calls. -/
structure Reaches : Prop where
  arguments : ∀ c ∈ calls, ObjectArguments deps.json c.arguments
  answers : HookAnswers (gateContext deps request env.registry) (numberCalls calls) env.hookReply

/-- The executor returns a result for the call. -/
def Dispatches (c : BatchCall) : Prop :=
  ∃ r, dispatchSingle deps.py deps.json env.registry c.call (env.outcome c.pos) = .ok r

def deniedCalls (denied : Dict String String) : List BatchCall :=
  (numberCalls calls).filter fun c => denied.contains c.call.id

def remainingCalls (denied : Dict String String) : List BatchCall :=
  (numberCalls calls).filter fun c => !denied.contains c.call.id

/-- The log and the appended messages of a turn that started with the context `c₀`, up to the
`ToolCallEnd` events of `ended`. -/
def TurnLog (c₀ : List Message) (executed ended : List BatchCall) (l : List Item) (s : RunState) :
    Prop :=
  BatchLog deps.py c₀ (executed.map BatchCall.pos)
    ((gateCalls (gateContext deps request env.registry) ((numberCalls calls).map
      (evaluated (gateContext deps request env.registry) deps.json))).audits.map auditVerdict)
    (ended.map fun c => c.call.id) l s

variable {deps request env calls} {buffer : Dict Int ToolCallSlot}

theorem mem_numberCalls {c : BatchCall} : c ∈ numberCalls calls ↔ calls[c.pos]? = some c.call := by
  obtain ⟨pos, call⟩ := c
  rw [numberCalls, List.mem_map]
  constructor
  · rintro ⟨⟨call', pos'⟩, hmem, heq⟩
    cases heq
    exact List.mk_mem_zipIdx_iff_getElem?.mp hmem
  · intro h
    exact ⟨(call, pos), List.mk_mem_zipIdx_iff_getElem?.mpr h, rfl⟩

theorem forall_numberCalls {p : ToolCall → Prop} :
    (∀ c ∈ numberCalls calls, p c.call) ↔ ∀ c ∈ calls, p c := by
  constructor
  · intro h c hc
    obtain ⟨i, hi⟩ := List.mem_iff_getElem?.mp hc
    exact h ⟨i, c⟩ (mem_numberCalls.mpr hi)
  · intro h c hc
    exact h c.call (List.mem_of_getElem? (mem_numberCalls.mp hc))

/-- What a turn does. It returns after answering every call, or it raises before executing any
call, or a call that is executed raises. -/
theorem toolBatch_triple {c₀ : List Message} :
    Triple (fun l s => l = [] ∧ s.Synced ∧ s.tree.buildSessionContext deps.py = some c₀)
      (toolBatch deps request env calls)
      (fun _ l s => Reaches deps request env calls ∧
        ∃ denied, DeniedTable (gateContext deps request env.registry) (numberCalls calls)
            env.hookReply denied ∧
          (∀ c ∈ remainingCalls calls denied, Dispatches deps env c) ∧
          TurnLog deps request env calls c₀ (remainingCalls calls denied)
            (deniedCalls calls denied ++ remainingCalls calls denied) l s)
      (fun _ l s => ¬ Reaches deps request env calls ∧
          (∃ audits, BatchLog deps.py c₀ [] audits [] l s) ∨
        Reaches deps request env calls ∧
          ∃ denied, DeniedTable (gateContext deps request env.registry) (numberCalls calls)
              env.hookReply denied ∧
            (∃ c ∈ remainingCalls calls denied, ¬ Dispatches deps env c) ∧
            TurnLog deps request env calls c₀ (remainingCalls calls denied)
              (deniedCalls calls denied) l s) := by
  unfold toolBatch
  dsimp only
  refine Triple.bind (Q := fun _ l s => (∀ c ∈ numberCalls calls,
      ObjectArguments deps.json c.call.arguments) ∧ BatchLog deps.py c₀ [] [] [] l s) ?_ fun _ => ?_
  · refine (startCalls_triple _).conseq (fun l s h => ?_) (fun _ _ _ h => h) fun _ l s h => ?_
    · obtain ⟨rfl, hs, hc⟩ := h
      exact BatchLog.start hs hc
    · obtain ⟨⟨c, hc, hbad⟩, hlog⟩ := h
      refine .inl ⟨fun hreach => hbad ?_, [], hlog⟩
      exact forall_numberCalls.mpr hreach.arguments c hc
  refine Triple.assume fun hargs => ?_
  refine Triple.bind (audits_triple _) fun _ => ?_
  refine Triple.bind ((askHook_triple rfl).conseq (fun _ _ h => h) (fun _ _ _ h => h)
    fun _ l s h => .inl ⟨fun hreach => h.1 hreach.answers, _, h.2⟩) fun denied => ?_
  refine Triple.assume fun ⟨hanswers, htable⟩ => ?_
  have hreach : Reaches deps request env calls := ⟨forall_numberCalls.mp hargs, hanswers⟩
  refine Triple.bind (reportDenied_triple denied _) fun _ => ?_
  refine Triple.ite (fun hall => ?_) fun _ => ?_
  · refine Triple.pure fun l s h => ⟨hreach, denied, htable, ?_, ?_⟩
    · unfold remainingCalls
      rw [hall.2]
      exact fun _ hc => absurd hc List.not_mem_nil
    · unfold TurnLog remainingCalls deniedCalls
      rw [hall.2, List.append_nil]
      exact h
  · refine Triple.bind (executed_triple _) fun _ => ?_
    refine Triple.bind (Q := fun rs l s =>
      executeToolCalls deps.py deps.json env.registry (remainingCalls calls denied) env.outcome =
        .ok rs ∧ TurnLog deps request env calls c₀ (remainingCalls calls denied)
          (deniedCalls calls denied) l s)
      (Triple.ofExcept (fun rs hok l s h => ⟨hok, h⟩) fun e herr l s h => .inr ⟨hreach, denied, htable,
        ?_, h⟩) fun rs => ?_
    · by_contra hno
      have hall : ∀ c ∈ remainingCalls calls denied, Dispatches deps env c := by
        intro c hc
        by_contra hd
        exact hno ⟨c, hc, hd⟩
      obtain ⟨r, hr⟩ := exists_results hall
      rw [remainingCalls] at hr
      rw [executeToolCalls_eq_ok hr] at herr
      cases herr
    · refine Triple.assume fun hok => ?_
      obtain ⟨r, rfl, hr⟩ := executeToolCalls_ok_iff.mp hok
      refine Triple.bind (reportResults_triple (by simp [remainingCalls]) _) fun _ => ?_
      refine Triple.pure fun l s h => ⟨hreach, denied, htable, fun c hc => ⟨r c, hr c hc⟩, ?_⟩
      rw [TurnLog, List.map_append]
      exact h

/-- Another call's denial that hits `c` through its id, or `c`'s own. -/
def IdDenied (deps : AgentRunnerDeps) (request : RunRequest) (env : TurnEnv)
    (calls : List ToolCall) (c : BatchCall) : Prop :=
  ∃ c' ∈ numberCalls calls, DeniedItself (gateContext deps request env.registry)
    (numberCalls calls) env.hookReply c' ∧ c'.call.id = c.call.id

theorem mem_remainingCalls {denied : Dict String String}
    (h : DeniedTable (gateContext deps request env.registry) (numberCalls calls) env.hookReply
      denied) {c : BatchCall} :
    c ∈ remainingCalls calls denied ↔
      c ∈ numberCalls calls ∧ ¬ IdDenied deps request env calls c := by
  rw [remainingCalls, List.mem_filter, Bool.not_eq_true', Dict.contains_eq_false, h]
  rfl

theorem dispatches_iff (hcalls : finalizeToolCalls deps.json buffer = .ok calls) {c : BatchCall}
    (hc : c ∈ numberCalls calls) :
    Dispatches deps env c ↔ ¬ Bursts env.registry c.call (env.outcome c.pos) := by
  have hargs := functionArgs_of_mem hcalls c.call (List.mem_of_getElem? (mem_numberCalls.mp hc))
  rw [Dispatches, dispatchSingle_ok_iff]
  exact and_iff_right hargs

theorem numberCalls_id (calls : List ToolCall) :
    ((numberCalls calls).map fun c => c.call.id) = calls.map ToolCall.id := by
  rw [numberCalls, List.map_map]
  calc calls.zipIdx.map (fun p => p.1.id)
      = (calls.zipIdx.map Prod.fst).map ToolCall.id := by rw [List.map_map]; rfl
    _ = calls.map ToolCall.id := by rw [List.zipIdx_map_fst]

/-- Every call of the turn gets a result. -/
structure Answered (deps : AgentRunnerDeps) (request : RunRequest) (env : TurnEnv)
    (calls : List ToolCall) : Prop where
  reaches : Reaches deps request env calls
  noBurst : ∀ c ∈ numberCalls calls, ¬ IdDenied deps request env calls c →
    ¬ Bursts env.registry c.call (env.outcome c.pos)

/-- A turn returns exactly when all its calls are answered; it has then appended one tool message
per call. -/
theorem toolBatch_answered {c₀ : List Message} {L : List Item → Prop}
    (hcalls : finalizeToolCalls deps.json buffer = .ok calls) :
    Triple (fun l s => L l ∧ s.Synced ∧ s.tree.buildSessionContext deps.py = some c₀)
      (toolBatch deps request env calls)
      (fun _ l s => Answered deps request env calls ∧
        ∃ l₀ l₁, l = l₀ ++ l₁ ∧ L l₀ ∧ (∀ i ∈ l₁, i.Quiet) ∧ s.Synced ∧
        ∃ msgs ids, s.tree.buildSessionContext deps.py = some (c₀ ++ msgs) ∧
          ToolMessages ids msgs ∧ ids.Perm (calls.map ToolCall.id))
      (fun _ _ _ => ¬ Answered deps request env calls) := by
  refine (Triple.frame toolBatch_triple).conseq (fun _ _ h => h) ?_ ?_
  · rintro _ l s ⟨l₀, l₁, rfl, hL, hreach, denied, htable, hdispatch, hlog⟩
    refine ⟨⟨hreach, fun c hc hnot => ?_⟩, ?_⟩
    · exact (dispatches_iff hcalls hc).mp (hdispatch c ((mem_remainingCalls htable).mpr ⟨hc, hnot⟩))
    · obtain ⟨msgs, hctx, hmsgs⟩ := hlog.context
      refine ⟨l₀, l₁, rfl, hL, hlog.quiet, hlog.synced, msgs, _, hctx, hmsgs, ?_⟩
      rw [← numberCalls_id]
      exact (List.filter_append_perm _ _).map _
  · rintro _ l s ⟨l₀, l₁, rfl, hL, ⟨hno, -⟩ | ⟨-, denied, htable, ⟨c, hc, hbad⟩, -⟩⟩ h
    · exact hno h.reaches
    · obtain ⟨hmem, hnot⟩ := (mem_remainingCalls htable).mp hc
      rw [dispatches_iff hcalls hmem] at hbad
      exact hbad (h.noBurst c hmem hnot)

end

end PyClaw
