import PyClaw.Agent.BatchLog
import PyClaw.Agent.Invariant

/-!
# Agent.Terminal

How a run ends. `runAgentStream_endsOnce_iff`: exactly when the vision check lets the request pass
and every complete response is handled without a raise (`SmoothTurn`), the run yields one terminal
event, as its last event, no exception escapes, and the notification carries that event's reason.
-/

namespace PyClaw

open Prog

/-- The last two steps of a run: a terminal event and the notification. -/
def Item.closes : Item → Bool
  | .yielded ev => ev.isTerminal
  | .runEnd _ => true
  | _ => false

theorem Item.Quiet.not_closes {i : Item} (h : i.Quiet) : i.closes = false := by
  cases i <;> first | exact h | rfl | cases h

/-- One terminal event, the last one, and the notification with its reason. -/
def EndsOnce (o : Outcome Item RunState Escape Unit) : Prop :=
  o.result = .ok () ∧ ∃ l ev reason, o.log = l ++ [.yielded ev, .runEnd reason] ∧
    (∀ i ∈ l, i.closes = false) ∧ ev.reason = some reason

/-- The response is handled without a raise. -/
def SmoothTurn (deps : AgentRunnerDeps) (request : RunRequest) (turn : Turn) : Prop :=
  ∃ calls, finalizeToolCalls deps.json turn.buffer = .ok calls ∧
    (calls ≠ [] →
      (updateToolLoopState calls turn.registry turn.detector
        deps.config.retry.unknownToolThreshold).2 = .proceed →
      Answered deps request turn.toTurnEnv calls)

/-- The item is no response, or one without tool calls. -/
def Item.withoutCalls : Item → Bool
  | .responded turn => turn.buffer.keys.isEmpty
  | _ => true

def SmoothLog (deps : AgentRunnerDeps) (request : RunRequest) (l : List Item) : Prop :=
  ∀ turn, .responded turn ∈ l → SmoothTurn deps request turn

/-- A run that goes on. -/
structure Open (deps : AgentRunnerDeps) (request : RunRequest) (l : List Item) (s : RunState) :
    Prop where
  synced : s.Synced
  leaf : s.tree.leafId.isSome = true
  silent : ∀ i ∈ l, i.closes = false
  smooth : SmoothLog deps request l

/-- A run that has yielded its terminal event. -/
def Closed (deps : AgentRunnerDeps) (request : RunRequest) (l : List Item) (s : RunState) : Prop :=
  ∃ l₀ ev, l = l₀ ++ [.yielded ev] ∧ (∀ i ∈ l₀, i.closes = false) ∧
    ev.reason = some s.terminatedBy ∧ SmoothLog deps request l₀

/-- The run after a step that returns whether it goes on. -/
def Stepped {α : Type} (deps : AgentRunnerDeps) (request : RunRequest) :
    Option α → List Item → RunState → Prop
  | some _ => Open deps request
  | none => Closed deps request

section
variable {deps : AgentRunnerDeps} {request : RunRequest} {l l' : List Item} {s : RunState}
  {E : Escape → List Item → RunState → Prop}

theorem smoothTurn_of_no_calls {turn : Turn} (h : turn.buffer.keys = []) :
    SmoothTurn deps request turn :=
  ⟨[], by rw [finalizeToolCalls, h]; rfl, fun hne => absurd rfl hne⟩

theorem SmoothLog.append (h : SmoothLog deps request l)
    (h' : ∀ turn, .responded turn ∈ l' → SmoothTurn deps request turn) :
    SmoothLog deps request (l ++ l') := by
  intro turn hmem
  rcases List.mem_append.mp hmem with hmem | hmem
  · exact h turn hmem
  · exact h' turn hmem

theorem Open.extend (h : Open deps request l s) {s' : RunState} (hs : s'.Synced)
    (hleaf : s'.tree.leafId.isSome = true) (hl : ∀ i ∈ l', i.closes = false)
    (hturns : ∀ turn, .responded turn ∈ l' → SmoothTurn deps request turn) :
    Open deps request (l ++ l') s' where
  synced := hs
  leaf := hleaf
  silent := by
    intro i hi
    rcases List.mem_append.mp hi with hi | hi
    · exact h.silent i hi
    · exact hl i hi
  smooth := h.smooth.append hturns

theorem Open.emit (h : Open deps request l s) {i : Item} (hi : i.closes = false)
    (hturn : ∀ turn, i = .responded turn → SmoothTurn deps request turn) :
    Open deps request (l ++ [i]) s := by
  refine h.extend h.synced h.leaf (fun j hj => ?_) fun turn hmem => ?_
  · rw [List.mem_singleton.mp hj]
    exact hi
  · exact hturn turn (List.mem_singleton.mp hmem).symm

theorem appendable_open : Appendable AnyBody (Open deps request) where
  plain := fun _ => trivial
  synced := fun h => h.synced
  leaf := fun h => h.leaf
  terminate := fun h => ⟨⟨h.synced.wf, h.synced.stored⟩, h.leaf, h.silent, h.smooth⟩
  append := by
    intro l s e s' h happ _ hrefs
    refine h.extend (happ.synced h.synced hrefs) (by rw [happ.tree]; rfl) ?_ ?_
    · intro i hi
      rw [List.mem_singleton.mp hi]
      rfl
    · intro turn hmem
      cases List.mem_singleton.mp hmem

/-! ## The exits -/

theorem close_triple {ev : AgentEvent} {reason : String} (hev : ev.reason = some reason) :
    Triple (fun l s => Open deps request l s ∧ s.terminatedBy = reason) (yieldEvent ev)
      (fun _ => Closed deps request) E := by
  refine Triple.emit ?_
  rintro l s ⟨h, rfl⟩
  exact ⟨l, ev, rfl, h.silent, hev, h.smooth⟩

theorem terminate_triple (reason : String) :
    Triple (Open deps request) (terminate reason)
      (fun _ l s => Open deps request l s ∧ s.terminatedBy = reason) E :=
  Triple.modify fun _ _ h => ⟨appendable_open.terminate h, rfl⟩

theorem fail_triple (code message : String) :
    Triple (Open deps request) (fail code message) (fun _ => Closed deps request) E :=
  Triple.bind (terminate_triple code) fun _ => close_triple rfl

theorem failPartial_triple (text code message : String) :
    Triple (Open deps request) (failPartial deps text code message)
      (fun _ => Closed deps request) E := by
  refine Triple.bind (terminate_triple code) fun _ => ?_
  refine Triple.bind ?_ fun _ => close_triple rfl
  refine persistPartialAssistant_triple (fun _ _ h => h.1.synced) (fun _ _ h _ => h) ?_
  rintro l s e s' ⟨h, hreason⟩ - hm happ
  exact ⟨appendable_open.append h happ trivial (happ.message_refs h.synced hm),
    happ.terminatedBy.trans hreason⟩

theorem stop_triple {α : Type} (code message : String) :
    Triple (Open deps request) (fail code message >>= fun _ => (pure none : Run (Option α)))
      (Stepped deps request) E :=
  Triple.bind (fail_triple code message) fun _ => Triple.pure fun _ _ h => h

theorem stopPartial_triple {α : Type} (text code message : String) :
    Triple (Open deps request)
      (failPartial deps text code message >>= fun _ => (pure none : Run (Option α)))
      (Stepped deps request) E :=
  Triple.bind (failPartial_triple text code message) fun _ => Triple.pure fun _ _ h => h

/-! ## Steps of an iteration -/

theorem consumeStream_triple (steps : List StreamStep) (acc : StreamAcc) :
    Triple (Open deps request) (consumeStream deps steps acc) (Stepped deps request) E := by
  induction steps generalizing acc with
  | nil => exact Triple.pure fun _ _ h => h
  | cons step rest ih =>
    unfold consumeStream
    refine Triple.ite (fun _ => stopPartial_triple _ _ _) fun _ => ?_
    refine Triple.ite (fun _ => stopPartial_triple _ _ _) fun _ => ?_
    refine Triple.ite (fun _ => ?_) fun _ => ih _
    refine Triple.bind (Triple.emit fun _ _ h => ?_) fun _ => ih _
    refine h.emit rfl fun turn hturn => ?_
    cases hturn

theorem answerText_triple (vars : LoopVars) (text : String) :
    Triple (Open deps request) (answerText deps vars text) (Stepped deps request) E := by
  refine Triple.bind (appendable_open.appendMessage trivial) fun _ => ?_
  refine Triple.ite (fun _ => ?_) fun _ => ?_
  · refine Triple.bind (Q := fun _ => Open deps request) ?_ fun _ => Triple.pure fun _ _ h => h
    unfold appendRetryPrompt
    split
    · exact appendable_open.appendMessage trivial
    · exact Triple.pure fun _ _ h => h
  · refine Triple.bind (sessionContext_triple fun _ _ h => h.synced) fun _ => ?_
    refine Triple.bind ((terminate_triple "done").strengthen fun _ _ h => h.1) fun _ => ?_
    exact Triple.bind (close_triple rfl) fun _ => Triple.pure fun _ _ h => h

theorem Open.quiet {l₁ : List Item} {s₀ : RunState} (h : Open deps request l s₀)
    (hs : s.Synced) (hleaf : s.tree.leafId.isSome = true) (hl : ∀ i ∈ l₁, i.Quiet) :
    Open deps request (l ++ l₁) s :=
  h.extend hs hleaf (fun i hi => (hl i hi).not_closes) fun _ hmem => absurd (hl _ hmem) id

/-- The context of a run that goes on. -/
theorem Open.context (h : Open deps request l s) :
    ∃ c₀, (∃ s₀, Open deps request l s₀) ∧ s.Synced ∧
      s.tree.buildSessionContext deps.py = some c₀ := by
  obtain ⟨c₀, hc₀⟩ := h.synced.wf.context_isSome deps.py
  exact ⟨c₀, ⟨s, h⟩, h.synced, hc₀⟩

theorem toolBatch_smooth {env : TurnEnv} {buffer : Dict Int ToolCallSlot} {calls : List ToolCall}
    (hcalls : finalizeToolCalls deps.json buffer = .ok calls)
    (h : Answered deps request env calls) :
    Triple (Open deps request) (toolBatch deps request env calls)
      (fun _ => Open deps request) E := by
  intro l s hopen
  obtain ⟨c₀, hpre⟩ := hopen.context
  have hturn := @toolBatch_answered deps request env calls buffer c₀
    (fun l => ∃ s₀, Open deps request l s₀) hcalls
  refine ((hturn.and ((stable_live deps).toolBatch env calls)) l s
    ⟨hpre, hopen.synced, hopen.leaf⟩).imp ?_ ?_
  · rintro _ l s ⟨⟨-, l₀, l₁, rfl, ⟨s₀, hopen⟩, hquiet, -, -⟩, hs, hleaf⟩
    exact hopen.quiet hs hleaf hquiet
  · rintro _ l s ⟨hno, -⟩
    exact absurd h hno

theorem answerCalls_triple {env : TurnEnv} {vars : LoopVars} {text : String}
    {buffer : Dict Int ToolCallSlot} {calls : List ToolCall}
    (hcalls : finalizeToolCalls deps.json buffer = .ok calls)
    (h : (updateToolLoopState calls env.registry vars.detector
      deps.config.retry.unknownToolThreshold).2 = .proceed → Answered deps request env calls) :
    Triple (Open deps request) (answerCalls deps request env vars text calls)
      (Stepped deps request) E := by
  refine Triple.bind (appendable_open.appendMessage trivial) fun _ => ?_
  dsimp only
  split
  · exact stop_triple _ _
  · exact Triple.bind (appendable_open.appendMessage trivial) fun _ => Triple.pure fun _ _ h => h
  · rename_i hproceed
    refine Triple.bind (toolBatch_smooth hcalls (h hproceed)) fun _ => Triple.pure fun _ _ h => h

/-! ## Responses -/

/-- A turn that cannot be answered raises. -/
theorem answerCalls_rough {env : TurnEnv} {vars : LoopVars} {text : String}
    {buffer : Dict Int ToolCallSlot} {calls : List ToolCall}
    (hcalls : finalizeToolCalls deps.json buffer = .ok calls)
    (hproceed : (updateToolLoopState calls env.registry vars.detector
      deps.config.retry.unknownToolThreshold).2 = .proceed)
    (h : ¬ Answered deps request env calls) :
    Triple (fun _ s => s.Synced) (answerCalls deps request env vars text calls)
      (fun _ _ _ => False) (fun _ _ _ => True) := by
  refine Triple.bind (Q := fun _ _ s => s.Synced)
    (appendMessage_triple (fun _ _ h => h) fun _ _ _ _ hs hm happ => happ.synced_message hs hm)
    fun _ => ?_
  dsimp only
  rw [hproceed]
  refine Triple.bind (Q := fun _ _ _ => False) ?_ fun _ _ _ hf => hf.elim
  intro l s hs
  obtain ⟨c₀, hc₀⟩ := hs.wf.context_isSome deps.py
  refine (@toolBatch_answered deps request env calls buffer c₀ (fun _ => True) hcalls l s
    ⟨trivial, hs, hc₀⟩).imp ?_ fun _ _ _ _ => trivial
  exact fun _ _ _ hret => h hret.1

/-- Some response could not be handled. -/
def Rough (deps : AgentRunnerDeps) (request : RunRequest) (l : List Item) : Prop :=
  ¬ SmoothLog deps request l

theorem Rough.append (h : Rough deps request l) (l' : List Item) :
    Rough deps request (l ++ l') :=
  fun hsmooth => h fun turn hmem => hsmooth turn (List.mem_append_left l' hmem)

theorem handleResponse_triple (env : TurnEnv) (vars : LoopVars) (acc : StreamAcc) :
    Triple (Open deps request) (handleResponse deps request env vars acc) (Stepped deps request)
      (fun _ l _ => Rough deps request l) := by
  by_cases hsmooth : SmoothTurn deps request
      { env with buffer := acc.buffer, detector := vars.detector }
  · obtain ⟨calls, hcalls, hanswered⟩ := hsmooth
    refine Triple.bind (Q := fun _ => Open deps request) (Triple.emit fun _ _ h => ?_) fun _ => ?_
    · refine h.emit rfl fun turn hturn => ?_
      cases hturn
      exact ⟨calls, hcalls, hanswered⟩
    · rw [hcalls]
      refine Triple.bind (Q := fun c l s => c = calls ∧ Open deps request l s)
        (Triple.ret fun _ _ h => ⟨rfl, h⟩) fun c => Triple.assume ?_
      rintro rfl
      refine Triple.ite (fun _ => answerText_triple _ _) fun hne => ?_
      exact answerCalls_triple hcalls (hanswered hne)
  · refine Triple.bind (Q := fun _ l s => s.Synced ∧ Rough deps request l)
      (Triple.emit fun l s h => ⟨h.synced, fun hlog => hsmooth ?_⟩) fun _ => ?_
    · exact hlog _ (List.mem_append_right l List.mem_cons_self)
    · refine Triple.conseq (Triple.and (Q := fun _ _ _ => False) (E := fun _ _ _ => True) ?_
        (Preserves.log fun _ l' h => h.append l')) (fun _ _ h => h) (fun _ _ _ h => h.1.elim)
        fun _ _ _ h => h.2
      refine Triple.bind (Q := fun calls l s =>
        finalizeToolCalls deps.json acc.buffer = .ok calls ∧ s.Synced)
        (Triple.ofExcept (fun _ hc _ _ h => ⟨hc, h⟩) fun _ _ _ _ _ => trivial) fun calls => ?_
      refine Triple.assume fun hcalls => Triple.ite (fun hnil => ?_) fun hne => ?_
      · exact absurd ⟨calls, hcalls, fun hne => absurd hnil hne⟩ hsmooth
      · by_cases hproceed : (updateToolLoopState calls env.registry vars.detector
            deps.config.retry.unknownToolThreshold).2 = .proceed
        · refine answerCalls_rough hcalls hproceed fun hanswered => hsmooth ?_
          exact ⟨calls, hcalls, fun _ _ => hanswered⟩
        · exact absurd ⟨calls, hcalls, fun _ h => absurd h hproceed⟩ hsmooth

/-! ## Iterations -/

theorem callModel_triple {env : IterEnv} (hend : env.streamEnd ≠ .other) (vars : LoopVars)
    (messages : List Message) :
    Triple (Open deps request) (callModel deps request env vars messages) (Stepped deps request)
      (fun _ l _ => Rough deps request l) := by
  refine Triple.ite (fun _ => stop_triple _ _) fun _ => ?_
  refine Triple.bind (consumeStream_triple _ _) fun acc => ?_
  cases acc with
  | none => exact Triple.pure fun _ _ h => h
  | some acc =>
    dsimp only
    split
    · exact handleResponse_triple _ _ _
    · exact stopPartial_triple _ _ _
    · exact stopPartial_triple _ _ _
    · refine Triple.ite (fun _ => ?_) fun _ => stopPartial_triple _ _ _
      refine Triple.bind (appendable_open.tryCompaction _ _) fun outcome => ?_
      refine Triple.ite (fun _ => stopPartial_triple _ _ _) fun _ => ?_
      exact Triple.ite (fun _ => Triple.pure fun _ _ h => h) fun _ => stopPartial_triple _ _ _
    · rename_i hother
      exact absurd hother hend

theorem runIteration_triple {env : IterEnv} (hend : env.streamEnd ≠ .other) (vars : LoopVars) :
    Triple (Open deps request) (runIteration deps request env vars) (Stepped deps request)
      (fun _ l _ => Rough deps request l) := by
  refine Triple.ite (fun _ => stop_triple _ _) fun _ => ?_
  refine Triple.ite (fun _ => stop_triple _ _) fun _ => ?_
  refine Triple.bind (sessionContext_triple fun _ _ h => h.synced) fun messages => ?_
  refine Triple.bind (Q := fun _ => Open deps request) (Triple.emit fun _ _ h => ?_) fun _ => ?_
  · exact h.1.emit rfl fun _ => nofun
  · refine Triple.ite (fun _ => ?_) fun _ => callModel_triple hend _ _
    refine Triple.bind (appendable_open.tryCompaction _ _) fun outcome => ?_
    refine Triple.ite (fun _ => stop_triple _ _) fun _ => ?_
    exact Triple.ite (fun _ => Triple.pure fun _ _ h => h) fun _ => callModel_triple hend _ _

theorem runLoop_triple {world : Nat → IterEnv} (hend : ∀ i, (world i).streamEnd ≠ .other)
    (n i : Nat) (vars : LoopVars) :
    Triple (Open deps request) (runLoop deps request world n i vars)
      (fun _ => Closed deps request) (fun _ l _ => Rough deps request l) := by
  induction n generalizing i vars with
  | zero => exact fail_triple _ _
  | succ n ih =>
    refine Triple.bind (runIteration_triple (hend i) vars) fun r => ?_
    cases r with
    | none => exact Triple.pure fun _ _ h => h
    | some vars => exact ih _ _

/-! ## Runs -/

variable {world : Nat → IterEnv}

theorem runBody_blocked {s : RunState} (h : visionBlocked deps request s.tree = .ok true) :
    runBody deps request world s = ⟨.ok (), s, [.yielded (.error "vision_not_support"
      (visionMessage deps (effectiveModel deps request s.tree)))]⟩ := by
  unfold runBody
  rw [Prog.get_bind, h]
  rfl

theorem runBody_unroutable {s : RunState} {e : Escape}
    (h : visionBlocked deps request s.tree = .error e) :
    runBody deps request world s = ⟨.error e, s, []⟩ := by
  unfold runBody
  rw [Prog.get_bind, h]
  rfl

theorem runBody_triple (hend : ∀ i, (world i).streamEnd ≠ .other) :
    Triple (fun l s => l = [] ∧ s.Synced ∧ visionBlocked deps request s.tree = .ok false)
      (runBody deps request world) (fun _ => Closed deps request)
      (fun _ l _ => Rough deps request l) := by
  refine Triple.getBind fun s₀ => ?_
  refine Triple.bind (Q := fun blocked l s => blocked = false ∧ l = [] ∧ s.Synced)
    (Triple.ofExcept ?_ ?_) fun blocked => Triple.assume ?_
  · rintro blocked hb l s ⟨⟨hl, hs, hvision⟩, rfl⟩
    rw [hb] at hvision
    exact ⟨Except.ok.inj hvision, hl, hs⟩
  · rintro e he l s ⟨⟨-, -, hvision⟩, rfl⟩
    rw [he] at hvision
    cases hvision
  · rintro rfl
    refine Triple.bind (Q := fun _ => Open deps request) ?_ fun _ => runLoop_triple hend _ _ _
    refine appendMessage_triple (fun _ _ h => h.2) ?_
    rintro l s e s' ⟨rfl, hs⟩ hm happ
    refine ⟨happ.synced_message hs hm, by rw [happ.tree]; rfl, fun i hi => ?_, fun turn hi => ?_⟩
    · rw [List.mem_singleton.mp hi]
      rfl
    · cases List.mem_singleton.mp hi

theorem runAgentStream_eq {store : InMemorySessionStore} {draws : Nat} {r : Except Escape Unit}
    {s : RunState} {l : List Item}
    (h : runBody deps request world (RunState.start store draws request) = ⟨r, s, l⟩) :
    runAgentStream deps request world store draws = ⟨r, s, l ++ [.runEnd s.terminatedBy]⟩ := by
  unfold runAgentStream Prog.tryFinally
  rw [h]
  rfl

theorem smoothLog_append_runEnd {reason : String} :
    SmoothLog deps request (l ++ [.runEnd reason]) ↔ SmoothLog deps request l := by
  constructor
  · exact fun h turn hmem => h turn (List.mem_append_left _ hmem)
  · exact fun h => h.append fun turn hmem => by cases List.mem_singleton.mp hmem

theorem Closed.endsOnce (h : Closed deps request l s) :
    EndsOnce ⟨.ok (), s, l ++ [.runEnd s.terminatedBy]⟩ ∧ SmoothLog deps request l := by
  obtain ⟨l₀, ev, rfl, hsilent, hreason, hsmooth⟩ := h
  refine ⟨⟨rfl, l₀, ev, _, by simp, hsilent, hreason⟩, hsmooth.append fun turn hmem => ?_⟩
  cases List.mem_singleton.mp hmem

/-- The notification after the vision error carries another reason. -/
theorem not_endsOnce_blocked {code message reason : String} (h : code ≠ reason) :
    ¬ EndsOnce ⟨.ok (), s, [.yielded (.error code message), .runEnd reason]⟩ := by
  rintro ⟨-, l, ev, reason', hlog, -, hreason⟩
  have hlen := congrArg List.length hlog
  cases l with
  | nil =>
    cases hlog
    exact h (Option.some.inj hreason)
  | cons i l => simp at hlen

/-- **One terminal event.** Where the stream raises only the errors it may raise, a run ends with
exactly one terminal event and its reason if and only if the vision check lets the request pass
and every complete response is handled without a raise. -/
theorem runAgentStream_endsOnce_iff {store : InMemorySessionStore} {draws : Nat}
    (hstore : ∀ t, store.load request.sessionId = some t → t.Wf)
    (hend : ∀ i, (world i).streamEnd ≠ .other) :
    EndsOnce (runAgentStream deps request world store draws) ↔
      visionBlocked deps request (RunState.start store draws request).tree = .ok false ∧
        SmoothLog deps request (runAgentStream deps request world store draws).log := by
  match hvision : visionBlocked deps request (RunState.start store draws request).tree with
  | .error e =>
    rw [runAgentStream_eq (runBody_unroutable hvision)]
    exact iff_of_false (fun h => nomatch h.1) fun h => nomatch h.1
  | .ok true =>
    rw [runAgentStream_eq (runBody_blocked hvision)]
    have hreason : "vision_not_support" ≠ "done" := by decide
    exact iff_of_false (not_endsOnce_blocked hreason) fun h => nomatch h.1
  | .ok false =>
    have hbody := runBody_triple hend [] (RunState.start store draws request)
      ⟨rfl, RunState.start_synced hstore, hvision⟩
    match hrun : runBody deps request world (RunState.start store draws request) with
    | ⟨.ok (), s, l⟩ =>
      rw [hrun] at hbody
      rw [runAgentStream_eq hrun, smoothLog_append_runEnd]
      exact iff_of_true hbody.endsOnce.1 ⟨rfl, hbody.endsOnce.2⟩
    | ⟨.error e, s, l⟩ =>
      rw [hrun] at hbody
      rw [runAgentStream_eq hrun, smoothLog_append_runEnd]
      exact iff_of_false (fun h => nomatch h.1) fun h => hbody h.2

theorem runAgentStream_endsOnce_hello :
    EndsOnce (runAgentStream sampleDeps sampleRequest (answering "hi" [] (sampleEnv (.decisions [])))
      .empty 0) := by
  refine (runAgentStream_endsOnce_iff (fun _ h => by cases h) fun _ h => by cases h).mpr ⟨rfl, ?_⟩
  have hlog : ∀ i ∈ (runAgentStream sampleDeps sampleRequest
      (answering "hi" [] (sampleEnv (.decisions []))) .empty 0).log, i.withoutCalls = true := by decide
  exact fun turn hmem => smoothTurn_of_no_calls (List.isEmpty_iff.mp (hlog _ hmem))

/-- Arguments that are valid JSON but not an object escape as a `ValidationError`. -/
theorem array_arguments_escape :
    ¬ EndsOnce (runAgentStream sampleDeps sampleRequest
      (answering "" [{ index := 0, id := some "x", name := some "bash", arguments := "[]" }]
        (sampleEnv (.decisions []))) .empty 0) := by
  have hresult : (runAgentStream sampleDeps sampleRequest
      (answering "" [{ index := 0, id := some "x", name := some "bash", arguments := "[]" }]
        (sampleEnv (.decisions []))) .empty 0).result = .error .validationError := by rfl
  exact fun h => nomatch hresult.symm.trans h.1

end

end PyClaw
