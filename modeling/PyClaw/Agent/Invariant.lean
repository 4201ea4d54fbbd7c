import PyClaw.Agent.Runner

/-!
# Agent.Invariant

Invariants of the runner. An invariant that implies a synchronised, non-empty session and that
the append of an entry whose body is in `A` keeps (`Appendable A`) is kept, without a raise, by the
programs that only append such entries. If also the other log items keep it (`Stable A`), it is
kept by a whole run, whichever way it goes: for every `A` if the handling of a response keeps it
(`Stable.runLoop`), and in any case if all bodies are in `A` (`Stable.handleResponse`). An invariant that
the session has from its start is one of the whole run (`RunInvariant.runAgentStream`).
-/

namespace PyClaw

open Prog

def Item.isAppended : Item → Bool
  | .appended _ _ _ => true
  | _ => false

def Item.isContext : Item → Bool
  | .context _ => true
  | _ => false

/-- A compaction, or a message that neither makes nor answers a tool call. -/
def EntryBody.Plain : EntryBody → Prop
  | .message m => m.role ≠ .tool ∧ m.toolCalls = []
  | .compaction _ _ _ => True
  | _ => False

structure Appendable (A : EntryBody → Prop) (I : List Item → RunState → Prop) : Prop where
  plain : ∀ {b}, b.Plain → A b
  synced : ∀ {l s}, I l s → s.Synced
  leaf : ∀ {l s}, I l s → s.tree.leafId.isSome = true
  terminate : ∀ {l s} {reason : String}, I l s → I l { s with terminatedBy := reason }
  append : ∀ {l s e s'}, I l s → Appended s e s' → A e.body →
    (∀ k ∈ SessionTree.refs e, k ∈ s.tree.order) →
    I (l ++ [.appended e s'.tree (some s'.tree)]) s'

structure Stable (deps : AgentRunnerDeps) (A : EntryBody → Prop)
    (I : List Item → RunState → Prop) : Prop extends Appendable A I where
  emit : ∀ {l s} {i : Item}, I l s → i.isAppended = false → i.isContext = false → I (l ++ [i]) s
  context : ∀ {l s c}, I l s → s.tree.buildSessionContext deps.py = some c →
    I (l ++ [.context c]) s

/-- Every body. -/
def AnyBody : EntryBody → Prop := fun _ => True

/-- A message entry on the leaf refers to stored entries only. -/
theorem Appended.message_refs {s s' : RunState} {e : SessionEntry} {m : MessageBody}
    (h : Appended s e s') (hs : s.Synced) (hm : e.body = .message m) :
    ∀ k ∈ SessionTree.refs e, k ∈ s.tree.order := by
  intro k hk
  rw [SessionTree.refs, hm, List.append_nil, h.parent, Option.mem_toList] at hk
  exact hs.wf.leaf_mem hk

/-- What lets every program of the runner append. -/
theorem stable_live (deps : AgentRunnerDeps) :
    Stable deps AnyBody fun _ s => s.Synced ∧ s.tree.leafId.isSome = true where
  plain := fun _ => trivial
  synced := fun h => h.1
  leaf := fun h => h.2
  terminate := fun h => ⟨⟨h.1.wf, h.1.stored⟩, h.2⟩
  append := fun h happ _ hrefs => ⟨happ.synced h.1 hrefs, by rw [happ.tree]; rfl⟩
  emit := fun h _ _ => h
  context := fun h _ => h

section
variable {A : EntryBody → Prop} {I : List Item → RunState → Prop} {deps : AgentRunnerDeps}
  {request : RunRequest} {E : Escape → List Item → RunState → Prop}

theorem Stable.yieldEvent (hI : Stable deps A I) (ev : AgentEvent) :
    Preserves I (PyClaw.yieldEvent ev) :=
  Preserves.emit fun _ _ h => hI.emit h rfl rfl

theorem Appendable.terminated (hI : Appendable A I) (reason : String) :
    Triple I (PyClaw.terminate reason) (fun _ => I) E :=
  Triple.modify fun _ _ h => hI.terminate h

theorem Appendable.appendMessage (hI : Appendable A I) {m : MessageBody} (hA : A (.message m)) :
    Triple I (PyClaw.appendMessage deps m) (fun _ => I) E :=
  appendMessage_triple (fun _ _ h => hI.synced h) fun _ _ _ _ h hm happ =>
    hI.append h happ (hm ▸ hA) (happ.message_refs (hI.synced h) hm)

theorem Appendable.appendPlain (hI : Appendable A I) {m : MessageBody}
    (hm : EntryBody.Plain (.message m)) :
    Triple I (PyClaw.appendMessage deps m) (fun _ => I) E :=
  hI.appendMessage (hI.plain hm)

theorem Appendable.persistPartialAssistant (hI : Appendable A I) (text : String) :
    Triple I (PyClaw.persistPartialAssistant deps text) (fun _ => I) E := by
  refine persistPartialAssistant_triple (fun _ _ h => hI.synced h) (fun _ _ h _ => h) ?_
  intro l s e s' h _ hm happ
  exact hI.append h happ (hm ▸ hI.plain ⟨nofun, rfl⟩) (happ.message_refs (hI.synced h) hm)

theorem Stable.fail (hI : Stable deps A I) (code message : String) :
    Preserves I (PyClaw.fail code message) :=
  Preserves.bind (hI.terminated code) fun _ => hI.yieldEvent _

theorem Stable.failPartial (hI : Stable deps A I) (text code message : String) :
    Preserves I (PyClaw.failPartial deps text code message) :=
  Preserves.bind (hI.terminated code) fun _ =>
    Preserves.bind (hI.persistPartialAssistant text) fun _ => hI.yieldEvent _

theorem preserves_sessionContext : Preserves I (sessionContext deps) := by
  refine Preserves.bind Preserves.get fun s => ?_
  split
  · exact Preserves.pure
  · exact Preserves.raise

/-- On a synchronised session the context is there. -/
theorem sessionContext_triple {P : List Item → RunState → Prop} (hs : ∀ l s, P l s → s.Synced) :
    Triple P (sessionContext deps)
      (fun c l s => P l s ∧ s.tree.buildSessionContext deps.py = some c) E := by
  refine Triple.getBind fun s₀ => ?_
  split
  · rename_i c hc
    refine Triple.pure ?_
    rintro l s ⟨h, rfl⟩
    exact ⟨h, hc⟩
  · rename_i hc
    rintro l s ⟨h, rfl⟩
    obtain ⟨c, hc'⟩ := (hs l s h).wf.context_isSome deps.py
    rw [hc'] at hc
    cases hc

/-! ## Compaction -/

/-- The append of `_try_compaction` is the one of `_append` for a new compaction entry. -/
theorem appendCompaction_eq (deps : AgentRunnerDeps) (summary : String) (tokens : Int) :
    appendCompaction deps summary tokens = Prog.get >>= fun s =>
      newEntry deps (.compaction summary (orElseText s.tree.leafId "") tokens) >>= append := by
  funext s
  have hnew : newEntry deps (.compaction summary (orElseText s.tree.leafId "") tokens) s =
      ⟨.ok (compactionEntry deps.secrets s.attempt summary tokens),
        { s with draws := (generateEntryId deps.secrets s.tree.entries.keys s.draws).2 }, []⟩ := rfl
  rw [get_bind, bind_ok hnew]
  unfold appendCompaction zoom
  rw [appendCompactionEntry_run]
  generalize compactionEntry deps.secrets s.attempt summary tokens = e
  unfold append
  rw [get_bind]
  dsimp only
  rw [bind_ok (show modify _ _ = ⟨.ok (), _, []⟩ from rfl)]
  unfold InMemorySessionStore.backend
  simp only [RunState.attempt, show (s.tree.push e).header.id = s.tree.header.id from rfl]
  cases s.store.appendEntry s.tree.header.id e e.id with
  | none => rfl
  | some store => rfl

/-- An attempt leaves the run as it is, or it appends the entry of the summary. -/
theorem tryCompaction_eq (deps : AgentRunnerDeps) (compact : List Message → CompactReply)
    (messages : List Message) : tryCompaction deps compact messages =
      match compact messages with
      | .raises typeName message =>
        pure { ok := false, compacted := false, errorCode := some "compaction_failed",
               errorMessage := some ("compaction raised " ++ typeName ++ ": " ++ message) }
      | .returns r =>
        if r.ok = false then
          pure { ok := false, compacted := false,
                 errorCode := some (orElseText r.reasonCode "compaction_failed"),
                 errorMessage := some (orElseText r.reason "compaction failed") }
        else if r.compacted = true ∧ orElseText r.summary "" ≠ "" then
          appendCompaction deps (orElseText r.summary "") r.tokensBefore >>= fun _ =>
            pure { ok := true, compacted := true }
        else pure { ok := true, compacted := false } := by
  funext s
  unfold tryCompaction attemptCompaction
  dsimp only
  cases compact messages with
  | raises typeName message => rfl
  | returns r =>
    dsimp only
    split
    · rfl
    · split
      · show zoom RunState.attempt RunState.afterAttempt (appendCompactionEntry _ _ _ _ _ >>= fun _ => pure _) s = _
        rw [zoom_bind RunState.attempt RunState.afterAttempt (fun _ _ => rfl) (fun _ _ _ => rfl)]
        rfl
      · rfl

theorem appendCompaction_triple {P : List Item → RunState → Prop}
    {Q : Unit → List Item → RunState → Prop} {summary : String} {tokens : Int}
    (hs : ∀ l s, P l s → s.Synced)
    (h : ∀ l s e s', P l s → Appended s e s' →
      e.body = .compaction summary (orElseText s.tree.leafId "") tokens →
      Q () (l ++ [.appended e s'.tree (some s'.tree)]) s') :
    Triple P (appendCompaction deps summary tokens) Q E := by
  rw [appendCompaction_eq]
  refine Triple.getBind fun s₀ => ?_
  refine newEntry_append_triple (fun l s hP => hs l s hP.1) fun l s e s' hP hbody happ => ?_
  obtain ⟨hP, rfl⟩ := hP
  exact h l s e s' hP happ hbody

theorem Appended.compaction_refs {s s' : RunState} {e : SessionEntry} {summary : String}
    {tokens : Int} (h : Appended s e s') (hs : s.Synced) (hleaf : s.tree.leafId.isSome = true)
    (hbody : e.body = .compaction summary (orElseText s.tree.leafId "") tokens) :
    ∀ k ∈ SessionTree.refs e, k ∈ s.tree.order := by
  obtain ⟨leaf, hleaf⟩ := Option.isSome_iff_exists.mp hleaf
  have hkept : orElseText s.tree.leafId "" = leaf := by
    rw [hleaf, orElseText]
    split
    · exact Eq.symm ‹_›
    · rfl
  intro k hk
  rw [SessionTree.refs, hbody, h.parent, hkept, hleaf] at hk
  simp only [Option.toList_some, List.cons_append, List.nil_append, List.mem_cons, List.not_mem_nil,
    or_false, or_self] at hk
  rw [hk]
  exact hs.wf.leaf_mem hleaf

/-- `_try_compaction` leaves the state as it was, or appends one compaction entry. -/
theorem tryCompaction_triple {P : List Item → RunState → Prop}
    {Q : CompactionOutcome → List Item → RunState → Prop} {compact : List Message → CompactReply}
    {messages : List Message} (hs : ∀ l s, P l s → s.Synced)
    (hsame : ∀ o l s, o.compacted = false → P l s → Q o l s)
    (happend : ∀ l s e s' r, compact messages = .returns r → r.compacted = true → P l s →
      Appended s e s' → e.body =
        .compaction (orElseText r.summary "") (orElseText s.tree.leafId "") r.tokensBefore →
      Q { ok := true, compacted := true } (l ++ [.appended e s'.tree (some s'.tree)]) s') :
    Triple P (tryCompaction deps compact messages) Q E := by
  rw [tryCompaction_eq]
  split
  · exact Triple.pure fun l s h => hsame _ l s rfl h
  · rename_i r hreply
    split
    · exact Triple.pure fun l s h => hsame _ l s rfl h
    · split
      · rename_i hcompacted
        refine Triple.bind (appendCompaction_triple hs (Q := fun _ => Q { ok := true, compacted := true })
          fun l s e s' h happ hbody => ?_) fun _ => Triple.pure fun _ _ h => h
        exact happend l s e s' r hreply hcompacted.1 h happ hbody
      · exact Triple.pure fun l s h => hsame _ l s rfl h

theorem Appendable.tryCompaction (hI : Appendable A I) (compact : List Message → CompactReply)
    (messages : List Message) :
    Triple I (PyClaw.tryCompaction deps compact messages) (fun _ => I) E :=
  tryCompaction_triple (fun _ _ h => hI.synced h) (fun _ _ _ _ h => h)
    fun _ _ _ _ _ _ _ h happ hbody => hI.append h happ (hbody ▸ hI.plain trivial)
      (happ.compaction_refs (hI.synced h) (hI.leaf h) hbody)

/-! ## The stream -/

theorem Stable.consumeStream (hI : Stable deps A I) (steps : List StreamStep) (acc : StreamAcc) :
    Preserves I (PyClaw.consumeStream deps steps acc) := by
  induction steps generalizing acc with
  | nil => exact Preserves.pure
  | cons step rest ih =>
    unfold PyClaw.consumeStream
    refine Preserves.ite ?_ (Preserves.ite ?_ (Preserves.ite ?_ (ih _)))
    · exact Preserves.bind (hI.failPartial _ _ _) fun _ => Preserves.pure
    · exact Preserves.bind (hI.failPartial _ _ _) fun _ => Preserves.pure
    · exact Preserves.bind (hI.yieldEvent _) fun _ => ih _

theorem Stable.answerText (hI : Stable deps A I) (vars : LoopVars) (text : String) :
    Preserves I (PyClaw.answerText deps vars text) := by
  refine Preserves.bind (hI.appendPlain ⟨nofun, rfl⟩) fun _ => Preserves.ite ?_ ?_
  · refine Preserves.bind ?_ fun _ => Preserves.pure
    unfold appendRetryPrompt
    split
    · exact hI.appendPlain ⟨nofun, rfl⟩
    · exact Preserves.pure
  · refine Preserves.bind preserves_sessionContext fun _ => ?_
    refine Preserves.bind (hI.terminated _) fun _ => ?_
    exact Preserves.bind (hI.yieldEvent _) fun _ => Preserves.pure

/-! ## Tool calls -/

section
variable (hI : Stable deps AnyBody I)
include hI

theorem Stable.reportResult (id : String) (r : ToolResult) :
    Preserves I (PyClaw.reportResult deps id r) :=
  Preserves.bind (hI.appendMessage trivial) fun _ => hI.yieldEvent _

theorem Stable.startCalls (batch : List BatchCall) :
    Preserves I (PyClaw.startCalls deps batch) := by
  refine Preserves.forEach fun c _ => ?_
  split
  · exact hI.yieldEvent _
  · exact Preserves.raise

theorem Stable.askHook (reply : HookReply) (g : Gating) :
    Preserves I (PyClaw.askHook deps reply g) := by
  unfold PyClaw.askHook
  split
  · exact Preserves.pure
  · exact Preserves.pure
  · refine Preserves.bind (Preserves.forEach fun e _ => hI.yieldEvent _) fun _ => ?_
    split
    · exact Preserves.raise
    · exact Preserves.ofExcept

theorem Stable.toolBatch (env : TurnEnv) (calls : List ToolCall) :
    Preserves I (PyClaw.toolBatch deps request env calls) := by
  refine Preserves.bind (hI.startCalls _) fun _ => ?_
  refine Preserves.bind (Preserves.forEach fun a _ => Preserves.emit fun _ _ h => hI.emit h rfl rfl)
    fun _ => ?_
  refine Preserves.bind (hI.askHook _ _) fun denied => ?_
  refine Preserves.bind (Preserves.forEach fun c _ => ?_) fun _ => ?_
  · split
    · exact hI.reportResult _ _
    · exact Preserves.pure
  · refine Preserves.ite Preserves.pure ?_
    refine Preserves.bind
      (Preserves.forEach fun c _ => Preserves.emit fun _ _ h => hI.emit h rfl rfl) fun _ => ?_
    refine Preserves.bind Preserves.ofExcept fun results => ?_
    refine Preserves.bind (Preserves.forEach fun p _ => hI.reportResult _ _) fun _ => ?_
    exact Preserves.pure

theorem Stable.answerCalls (env : TurnEnv) (vars : LoopVars) (text : String)
    (calls : List ToolCall) :
    Preserves I (PyClaw.answerCalls deps request env vars text calls) := by
  refine Preserves.bind (hI.appendMessage trivial) fun _ => ?_
  dsimp only
  split
  · exact Preserves.bind (hI.fail _ _) fun _ => Preserves.pure
  · exact Preserves.bind (hI.appendMessage trivial) fun _ => Preserves.pure
  · exact Preserves.bind (hI.toolBatch _ _) fun _ => Preserves.pure

theorem Stable.handleResponse (env : TurnEnv) (vars : LoopVars)
    (acc : StreamAcc) : Preserves I (PyClaw.handleResponse deps request env vars acc) := by
  refine Preserves.bind (Preserves.emit fun _ _ h => hI.emit h rfl rfl) fun _ => ?_
  refine Preserves.bind Preserves.ofExcept fun calls => ?_
  exact Preserves.ite (hI.answerText _ _) (hI.answerCalls _ _ _ _)

end

/-! ## Iterations -/

section
variable (hI : Stable deps A I)
  (hresponse : ∀ env vars acc, Preserves I (PyClaw.handleResponse deps request env vars acc))
include hI hresponse

theorem Stable.callModel (env : IterEnv) (vars : LoopVars) (messages : List Message) :
    Preserves I (PyClaw.callModel deps request env vars messages) := by
  have hstop : ∀ text code message, Preserves I (PyClaw.failPartial deps text code message >>=
      fun _ => (pure none : Run (Option LoopVars))) :=
    fun text code message => Preserves.bind (hI.failPartial _ _ _) fun _ => Preserves.pure
  refine Preserves.ite (Preserves.bind (hI.fail _ _) fun _ => Preserves.pure) ?_
  refine Preserves.bind (hI.consumeStream _ _) fun acc => ?_
  split
  · exact Preserves.pure
  · split
    · exact hresponse _ _ _
    · exact hstop _ _ _
    · exact hstop _ _ _
    · refine Preserves.ite ?_ (hstop _ _ _)
      refine Preserves.bind (hI.tryCompaction _ _) fun outcome => ?_
      exact Preserves.ite (hstop _ _ _) (Preserves.ite Preserves.pure (hstop _ _ _))
    · exact Preserves.raise

theorem Stable.runIteration (env : IterEnv) (vars : LoopVars) :
    Preserves I (PyClaw.runIteration deps request env vars) := by
  have hstop : ∀ code message, Preserves I (PyClaw.fail code message >>=
      fun _ => (pure none : Run (Option LoopVars))) :=
    fun code message => Preserves.bind (hI.fail _ _) fun _ => Preserves.pure
  refine Preserves.ite (hstop _ _) (Preserves.ite (hstop _ _) ?_)
  refine Triple.bind (sessionContext_triple fun _ _ h => hI.synced h) fun messages => ?_
  refine Triple.bind (Q := fun _ => I) (Triple.emit fun _ _ h => hI.context h.1 h.2) fun _ => ?_
  refine Preserves.ite ?_ (hI.callModel hresponse _ _ _)
  refine Preserves.bind (hI.tryCompaction _ _) fun outcome => ?_
  exact Preserves.ite (hstop _ _) (Preserves.ite Preserves.pure (hI.callModel hresponse _ _ _))

theorem Stable.runLoop (world : Nat → IterEnv) (n i : Nat) (vars : LoopVars) :
    Preserves I (PyClaw.runLoop deps request world n i vars) := by
  induction n generalizing i vars with
  | zero => exact hI.fail _ _
  | succ n ih =>
    refine Preserves.bind (hI.runIteration hresponse _ _) fun r => ?_
    split
    · exact Preserves.pure
    · exact ih _ _

end

end

/-! ## Whole runs -/

/-- An invariant that also the empty session may have, kept by every append and every other item. -/
structure RunInvariant (I : List Item → RunState → Prop) : Prop where
  synced : ∀ {l s}, I l s → s.Synced
  terminate : ∀ {l s} {reason : String}, I l s → I l { s with terminatedBy := reason }
  append : ∀ {l s e s'}, I l s → Appended s e s' → (∀ k ∈ SessionTree.refs e, k ∈ s.tree.order) →
    I (l ++ [.appended e s'.tree (some s'.tree)]) s'
  emit : ∀ {l s} {i : Item}, I l s → i.isAppended = false → I (l ++ [i]) s

section
variable {I : List Item → RunState → Prop} {request : RunRequest}

/-- From the first entry on the session has a leaf. -/
theorem RunInvariant.stable (hI : RunInvariant I) (deps : AgentRunnerDeps) :
    Stable deps AnyBody fun l s => I l s ∧ s.tree.leafId.isSome = true where
  plain := fun _ => trivial
  synced := fun h => hI.synced h.1
  leaf := fun h => h.2
  terminate := fun h => ⟨hI.terminate h.1, h.2⟩
  append := fun h happ _ hrefs => ⟨hI.append h.1 happ hrefs, by rw [happ.tree]; rfl⟩
  emit := fun h hi _ => ⟨hI.emit h.1 hi, h.2⟩
  context := fun h _ => ⟨hI.emit h.1 rfl, h.2⟩

theorem RunInvariant.runBody (hI : RunInvariant I) (deps : AgentRunnerDeps) (world : Nat → IterEnv) :
    Preserves I (PyClaw.runBody deps request world) := by
  refine Preserves.bind Preserves.get fun s => ?_
  refine Preserves.bind Preserves.ofExcept fun blocked => Preserves.ite ?_ ?_
  · exact Preserves.emit fun _ _ h => hI.emit h rfl
  · refine Triple.bind (Q := fun _ l s => I l s ∧ s.tree.leafId.isSome = true) ?_ fun _ => ?_
    · refine appendMessage_triple (fun _ _ h => hI.synced h) fun l s e s' h hm happ => ?_
      exact ⟨hI.append h happ (happ.message_refs (hI.synced h) hm), by rw [happ.tree]; rfl⟩
    · have hstable := hI.stable deps
      exact (hstable.runLoop hstable.handleResponse world _ _ _).conseq (fun _ _ h => h)
        (fun _ _ _ h => h.1) (fun _ _ _ h => h.1)

theorem RunInvariant.runAgentStream (hI : RunInvariant I) (deps : AgentRunnerDeps)
    (world : Nat → IterEnv) {store : InMemorySessionStore} {draws : Nat}
    (hstart : I [] (RunState.start store draws request)) :
    I (PyClaw.runAgentStream deps request world store draws).log
      (PyClaw.runAgentStream deps request world store draws).state := by
  refine Triple.finish (I := I) ?_ hstart
  refine Preserves.tryFinally (hI.runBody deps world) ?_
  exact Preserves.bind Preserves.get fun s => Preserves.emit fun _ _ h => hI.emit h rfl

end

end PyClaw
