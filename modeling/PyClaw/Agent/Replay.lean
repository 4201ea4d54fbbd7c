import PyClaw.Agent.Terminal
import PyClaw.Lib.Alignment

/-!
# Agent.Replay

What a run streams to its user and what it leaves in the session for the next reload, compared
mark by mark: the characters of the model's text, the tool calls and the results.

Every result is streamed and stored alike; no text is stored that was not streamed, no call is
streamed that was not stored (`transcript_of_run`). The two sides are equal where no answer is given up
and no call is left unstarted (`reload_eq_stream`): an answer is given up when its stream breaks off
with an overflow that the compaction cures, or raises; its calls stay unstarted when the loop
detector intervenes, or when arguments of one are no object.
-/

namespace PyClaw

open Prog

/-! ## Marks -/

/-- Text is compared character by character: the stream does not tell where one answer ends and
the next begins. -/
inductive Mark where
  | char (c : Char)
  | call (id name : String) (arguments : Json)
  | result (id text : String)

namespace Mark

def isChar : Mark → Bool
  | .char _ => true
  | _ => false

def isCall : Mark → Bool
  | .call _ _ _ => true
  | _ => false

def isResult : Mark → Bool
  | .result _ _ => true
  | _ => false

def ofText (text : String) : List Mark := text.toList.map .char

end Mark

/-- What an event shows. -/
def AgentEvent.marks : AgentEvent → List Mark
  | .textChunk text => Mark.ofText text
  | .toolCallStart id name arguments => [.call id name (.obj arguments)]
  | .toolCallEnd id r => [.result id (toolResultToLlmContent r)]
  | _ => []

def Item.marks : Item → List Mark
  | .yielded ev => ev.marks
  | _ => []

def streamed (l : List Item) : List Mark := l.flatMap Item.marks

def EntryContent.text : EntryContent → String
  | .str text => text
  | .blocks content => String.join (content.filterMap fun | .text t => some t | .image _ _ => none)

/-- What a message shows of the model and its tools. -/
def MessageBody.marks (json : JsonModule) (m : MessageBody) : List Mark :=
  match m.role with
  | .user => []
  | .assistant =>
    Mark.ofText m.content.text ++
      m.toolCalls.map fun c => .call c.id c.name (parseArguments json c.arguments)
  | .tool => [.result (m.toolCallId.getD "") m.content.text]

def SessionEntry.marks (json : JsonModule) (e : SessionEntry) : List Mark :=
  match e.body with
  | .message m => m.marks json
  | _ => []

/-- The marks of the entries in their order, as the messages of a session are listed. -/
def SessionTree.transcript (json : JsonModule) (t : SessionTree) : List Mark :=
  (t.order.filterMap t.entries.get?).flatMap (SessionEntry.marks json)

section
variable {json : JsonModule}

@[simp] theorem streamed_nil : streamed [] = [] := rfl

@[simp] theorem streamed_append (l l' : List Item) :
    streamed (l ++ l') = streamed l ++ streamed l' := by simp [streamed]

@[simp] theorem streamed_singleton (i : Item) : streamed [i] = i.marks := by simp [streamed]

@[simp] theorem Mark.ofText_append (s t : String) :
    Mark.ofText (s ++ t) = Mark.ofText s ++ Mark.ofText t := by simp [ofText]

@[simp] theorem Mark.ofText_empty : Mark.ofText "" = [] := rfl

theorem Mark.isChar_ofText {text : String} {m : Mark} (h : m ∈ Mark.ofText text) :
    m.isChar = true := by
  obtain ⟨c, -, rfl⟩ := List.mem_map.mp h
  rfl

theorem SessionTree.transcript_push {t : SessionTree} {e : SessionEntry} (h : e.id ∉ t.order) :
    (t.push e).transcript json = t.transcript json ++ e.marks json := by
  have hold : t.order.filterMap (t.entries.set e.id e).get? = t.order.filterMap t.entries.get? := by
    refine List.filterMap_congr fun k hk => Dict.get?_set_ne _ _ ?_
    rintro rfl
    exact h hk
  simp [transcript, SessionTree.push, hold]

end

/-! ## Runs without a gap -/

/-- The model's stream breaks off only where nothing is lost: it raises no unknown exception, and an
overflow before it has said anything. -/
structure Steady (env : IterEnv) : Prop where
  known : env.streamEnd ≠ .other
  early : ∀ code message, env.streamEnd = .llmError code message → code = "context_overflow" →
    ∀ step ∈ env.stream, step.chunk.textDelta = ""

/-- The response is read, and each of its calls is started. -/
def StartsCalls (deps : AgentRunnerDeps) (turn : Turn) : Prop :=
  ∃ calls, finalizeToolCalls deps.json turn.buffer = .ok calls ∧
    (calls ≠ [] →
      (updateToolLoopState calls turn.registry turn.detector
        deps.config.retry.unknownToolThreshold).2 = .proceed ∧
      ∀ c ∈ calls, ObjectArguments deps.json c.arguments)

instance (deps : AgentRunnerDeps) (turn : Turn) : Decidable (StartsCalls deps turn) :=
  match h : finalizeToolCalls deps.json turn.buffer with
  | .error _ => isFalse fun ⟨_, hok, _⟩ => nomatch h.symm.trans hok
  | .ok calls =>
    decidable_of_iff (calls ≠ [] →
        (updateToolLoopState calls turn.registry turn.detector
          deps.config.retry.unknownToolThreshold).2 = .proceed ∧
        ∀ c ∈ calls, ObjectArguments deps.json c.arguments)
      ⟨fun hstarts => ⟨calls, h, hstarts⟩, fun ⟨_, hok, hstarts⟩ =>
        Except.ok.inj (h.symm.trans hok) ▸ hstarts⟩

def Gapless (deps : AgentRunnerDeps) (world : Nat → IterEnv) (l : List Item) : Prop :=
  (∀ i, Steady (world i)) ∧ ∀ turn, .responded turn ∈ l → StartsCalls deps turn

theorem Gapless.of_append {deps : AgentRunnerDeps} {world : Nat → IterEnv} {l l' : List Item}
    (h : Gapless deps world (l ++ l')) : Gapless deps world l :=
  ⟨h.1, fun turn hmem => h.2 turn (List.mem_append_left l' hmem)⟩

/-! ## The invariant -/

/-- Only text is shown that is not stored, and only calls are stored that are not shown. -/
structure OneSided (steps : List (Side Mark)) : Prop where
  givenUp : ∀ m, Side.left m ∈ steps → m.isChar = true
  unstarted : ∀ m, Side.right m ∈ steps → m.isCall = true

theorem OneSided.append {steps more : List (Side Mark)} (h : OneSided steps) (h' : OneSided more) :
    OneSided (steps ++ more) where
  givenUp m hm := (List.mem_append.mp hm).elim (h.givenUp m) (h'.givenUp m)
  unstarted m hm := (List.mem_append.mp hm).elim (h.unstarted m) (h'.unstarted m)

/-- The run began with the tree `t₀`. `owed` is streamed and not yet stored, `ahead` is stored and
not yet streamed; `known` is what a run without gaps is known to satisfy. -/
structure Mirrored (deps : AgentRunnerDeps) (world : Nat → IterEnv) (t₀ : SessionTree) (known : Prop)
    (owed ahead : List Mark) (l : List Item) (s : RunState) : Prop where
  synced : s.Synced
  leaf : s.tree.leafId.isSome = true
  header : s.tree.header = t₀.header
  gapless : Gapless deps world l → known
  aligned : ∃ steps, OneSided steps ∧ streamed l = lefts steps ++ owed ∧
    s.tree.transcript deps.json = t₀.transcript deps.json ++ rights steps ++ ahead ∧
    (Gapless deps world l → ∀ st ∈ steps, st.isBoth = true)

section
variable {deps : AgentRunnerDeps} {request : RunRequest} {world : Nat → IterEnv} {t₀ : SessionTree}
  {known known' : Prop} {owed ahead ms : List Mark} {l : List Item} {s s' : RunState}
  {e : SessionEntry} {E : Escape → List Item → RunState → Prop}

/-- The marks of an item are owed. -/
theorem Mirrored.show (h : Mirrored deps world t₀ known owed ahead l s) (i : Item) :
    Mirrored deps world t₀ known (owed ++ i.marks) ahead (l ++ [i]) s := by
  obtain ⟨steps, hsides, hstream, hstored, hgap⟩ := h.aligned
  refine ⟨h.synced, h.leaf, h.header, fun hg => h.gapless hg.of_append, steps, hsides, ?_, hstored,
    fun hg => hgap hg.of_append⟩
  simp [hstream]

theorem Mirrored.emit (h : Mirrored deps world t₀ known owed ahead l s) {i : Item} (hi : i.marks = []) :
    Mirrored deps world t₀ known owed ahead (l ++ [i]) s := by
  simpa [hi] using h.show i

/-- The marks of a stored entry are ahead. -/
theorem Mirrored.store (h : Mirrored deps world t₀ known owed ahead l s) (happ : Appended s e s')
    (hrefs : ∀ k ∈ SessionTree.refs e, k ∈ s.tree.order) (hms : e.marks deps.json = ms) :
    Mirrored deps world t₀ known owed (ahead ++ ms) (l ++ [.appended e s'.tree (some s'.tree)]) s' := by
  obtain ⟨steps, hsides, hstream, hstored, hgap⟩ := h.aligned
  refine ⟨happ.synced h.synced hrefs, by rw [happ.tree]; rfl, ?_, fun hg => h.gapless hg.of_append,
    steps, hsides, ?_, ?_, fun hg => hgap hg.of_append⟩
  · rw [happ.tree]
    exact h.header
  · simp [hstream, Item.marks]
  · rw [happ.tree, SessionTree.transcript_push happ.fresh, hstored, hms]
    simp

/-- What is owed and ahead alike is settled. -/
theorem Mirrored.settle (h : Mirrored deps world t₀ known (ms ++ owed) (ms ++ ahead) l s) :
    Mirrored deps world t₀ known owed ahead l s := by
  obtain ⟨steps, hsides, hstream, hstored, hgap⟩ := h.aligned
  refine ⟨h.synced, h.leaf, h.header, h.gapless, steps ++ ms.map .both, hsides.append ?_, ?_, ?_, ?_⟩
  · constructor <;> simp
  · simp [hstream]
  · simp [hstored]
  · intro hg st hst
    rcases List.mem_append.mp hst with hst | hst
    · exact hgap hg st hst
    · obtain ⟨m, -, rfl⟩ := List.mem_map.mp hst
      rfl

/-- The event that shows what is ahead. -/
theorem Mirrored.reveal (h : Mirrored deps world t₀ known [] (ms ++ ahead) l s) {i : Item}
    (hi : i.marks = ms) : Mirrored deps world t₀ known [] ahead (l ++ [i]) s := by
  have hshow := h.show i
  rw [hi, List.nil_append, ← List.append_nil ms] at hshow
  exact Mirrored.settle (by simpa using hshow)

/-- Text that is given up. -/
theorem Mirrored.giveUp {text : String}
    (h : Mirrored deps world t₀ known (Mark.ofText text ++ owed) ahead l s)
    (hgap : known → text = "") : Mirrored deps world t₀ known owed ahead l s := by
  obtain ⟨steps, hsides, hstream, hstored, hboth⟩ := h.aligned
  refine ⟨h.synced, h.leaf, h.header, h.gapless, steps ++ (Mark.ofText text).map .left,
    hsides.append ⟨?_, ?_⟩, ?_, ?_, ?_⟩
  · intro m hm
    obtain ⟨m', hm', heq⟩ := List.mem_map.mp hm
    cases heq
    exact Mark.isChar_ofText hm'
  · simp
  · simp [hstream]
  · simp [hstored]
  · intro hg st hst
    rw [hgap (h.gapless hg)] at hst
    exact hboth hg st (by simpa using hst)

/-- Calls that are left unstarted. -/
theorem Mirrored.leaveUnstarted (h : Mirrored deps world t₀ known owed (ms ++ ahead) l s)
    (hcalls : ∀ m ∈ ms, m.isCall = true) (hgap : known → ms = []) :
    Mirrored deps world t₀ known owed ahead l s := by
  obtain ⟨steps, hsides, hstream, hstored, hboth⟩ := h.aligned
  refine ⟨h.synced, h.leaf, h.header, h.gapless, steps ++ ms.map .right,
    hsides.append ⟨?_, ?_⟩, ?_, ?_, ?_⟩
  · simp
  · intro m hm
    obtain ⟨m', hm', heq⟩ := List.mem_map.mp hm
    cases heq
    exact hcalls m hm'
  · simp [hstream]
  · simp [hstored]
  · intro hg st hst
    rw [hgap (h.gapless hg)] at hst
    exact hboth hg st (by simpa using hst)

theorem Mirrored.know (h : Mirrored deps world t₀ known owed ahead l s)
    (hknown : Gapless deps world l → known') : Mirrored deps world t₀ known' owed ahead l s :=
  ⟨h.synced, h.leaf, h.header, hknown, h.aligned⟩

theorem Mirrored.steady (h : Mirrored deps world t₀ known owed ahead l s) :
    Mirrored deps world t₀ (∀ i, Steady (world i)) owed ahead l s :=
  h.know And.left

/-! ## Appends and exits -/

theorem mirrored_terminate (reason : String) :
    Triple (Mirrored deps world t₀ known owed ahead) (terminate reason)
      (fun _ => Mirrored deps world t₀ known owed ahead) E :=
  Triple.modify fun _ _ h =>
    ⟨⟨h.synced.wf, h.synced.stored⟩, h.leaf, h.header, h.gapless, h.aligned⟩

theorem mirrored_yield {ev : AgentEvent} (hev : ev.marks = []) :
    Triple (Mirrored deps world t₀ known owed ahead) (yieldEvent ev)
      (fun _ => Mirrored deps world t₀ known owed ahead) E :=
  Triple.emit fun _ _ h => h.emit hev

theorem mirrored_append {m : MessageBody} (hms : m.marks deps.json = ms) :
    Triple (Mirrored deps world t₀ known owed ahead) (appendMessage deps m)
      (fun _ => Mirrored deps world t₀ known owed (ahead ++ ms)) E := by
  refine appendMessage_triple (fun _ _ h => h.synced) fun l s e s' h hm happ => ?_
  refine h.store happ (happ.message_refs h.synced hm) ?_
  rw [SessionEntry.marks, hm]
  exact hms

theorem mirrored_appendUser (text : String) :
    Triple (Mirrored deps world t₀ known owed ahead) (appendMessage deps (userMessage text))
      (fun _ => Mirrored deps world t₀ known owed ahead) E := by
  have hmarks : (userMessage text).marks deps.json = [] := rfl
  simpa using mirrored_append hmarks

theorem mirrored_fail (code message : String) :
    Triple (Mirrored deps world t₀ known owed ahead) (fail code message)
      (fun _ => Mirrored deps world t₀ known owed ahead) E :=
  Triple.bind (mirrored_terminate code) fun _ => mirrored_yield rfl

/-- The text streamed so far is stored as a partial answer. -/
theorem mirrored_failPartial (text code message : String) :
    Triple (Mirrored deps world t₀ known (Mark.ofText text) []) (failPartial deps text code message)
      (fun _ => Mirrored deps world t₀ known [] []) E := by
  refine Triple.bind (mirrored_terminate code) fun _ => ?_
  refine Triple.bind ?_ fun _ => mirrored_yield rfl
  refine persistPartialAssistant_triple (fun _ _ h => h.synced) ?_ ?_
  · rintro l s h rfl
    exact h
  · intro l s e s' h _ hm happ
    have hmarks : e.marks deps.json = Mark.ofText text ++ [] := by
      simp [SessionEntry.marks, hm, MessageBody.marks, EntryContent.text]
    rw [← List.append_nil (Mark.ofText text)] at h
    exact (h.store happ (happ.message_refs h.synced hm) hmarks).settle

theorem mirrored_tryCompaction (compact : List Message → CompactReply) (messages : List Message) :
    Triple (Mirrored deps world t₀ known owed ahead) (tryCompaction deps compact messages)
      (fun _ => Mirrored deps world t₀ known owed ahead) E := by
  refine tryCompaction_triple (fun _ _ h => h.synced) (fun _ _ _ _ h => h) ?_
  intro l s e s' r _ _ h happ hbody
  have hmarks : e.marks deps.json = [] := by simp [SessionEntry.marks, hbody]
  simpa using h.store happ (happ.compaction_refs h.synced h.leaf hbody) hmarks

/-! ## The stream -/

/-- After the stream the text read so far is owed, or it is stored. -/
def Consumed (deps : AgentRunnerDeps) (world : Nat → IterEnv) (t₀ : SessionTree) (known : Prop)
    (steps : List StreamStep) (text : String) : Option StreamAcc → List Item → RunState → Prop
  | none, l, s => Mirrored deps world t₀ known [] [] l s
  | some acc, l, s =>
    ((∀ step ∈ steps, step.chunk.textDelta = "") → acc.text = text) ∧
      Mirrored deps world t₀ known (Mark.ofText acc.text) [] l s

theorem mirrored_consumeStream (steps : List StreamStep) (acc : StreamAcc) :
    Triple (Mirrored deps world t₀ known (Mark.ofText acc.text) []) (consumeStream deps steps acc)
      (Consumed deps world t₀ known steps acc.text) E := by
  induction steps generalizing acc with
  | nil => exact Triple.pure fun _ _ h => ⟨fun _ => rfl, h⟩
  | cons step rest ih =>
    -- the rest of the stream, once the chunk's text is owed
    have hrest : Triple (Mirrored deps world t₀ known (Mark.ofText (acc.add step.chunk).text) [])
        (consumeStream deps rest (acc.add step.chunk))
        (Consumed deps world t₀ known (step :: rest) acc.text) E := by
      refine (ih (acc.add step.chunk)).weaken fun r l s h => ?_
      cases r with
      | none => exact h
      | some acc' =>
        refine ⟨fun hsilent => ?_, h.2⟩
        rw [h.1 fun x hx => hsilent x (List.mem_cons_of_mem step hx), StreamAcc.add,
          hsilent step List.mem_cons_self, String.append_empty]
    unfold consumeStream
    refine Triple.ite (fun _ => ?_) fun _ => Triple.ite (fun _ => ?_) fun _ =>
      Triple.ite (fun _ => ?_) fun hempty => ?_
    · exact Triple.bind (mirrored_failPartial _ _ _) fun _ => Triple.pure fun _ _ h => h
    · exact Triple.bind (mirrored_failPartial _ _ _) fun _ => Triple.pure fun _ _ h => h
    · refine Triple.bind (Triple.emit fun l s h => ?_) fun _ => hrest
      have hshow := h.show (.yielded (.textChunk step.chunk.textDelta))
      rw [StreamAcc.add, Mark.ofText_append]
      exact hshow
    · refine hrest.strengthen fun l s h => ?_
      simpa [StreamAcc.add, not_not.mp hempty] using h

/-! ## Tool calls -/

def callMark (json : JsonModule) (c : ToolCall) : Mark :=
  .call c.id c.name (parseArguments json c.arguments)

theorem mirrored_startCalls (batch : List BatchCall)
    (hknown : known → ∀ c ∈ batch, ObjectArguments deps.json c.call.arguments) :
    Triple (Mirrored deps world t₀ known [] (batch.map fun c => callMark deps.json c.call))
      (startCalls deps batch) (fun _ => Mirrored deps world t₀ known [] [])
      (fun _ => Mirrored deps world t₀ known [] []) := by
  induction batch with
  | nil => exact Triple.pure fun _ _ h => h
  | cons c rest ih =>
    refine Triple.bind (Q := fun _ => Mirrored deps world t₀ known []
      (rest.map fun c => callMark deps.json c.call)) ?_
      fun _ => ih fun hk x hx => hknown hk x (List.mem_cons_of_mem c hx)
    dsimp only
    split
    · rename_i fields hargs
      refine Triple.emit fun l s h => ?_
      have hmark : callMark deps.json c.call = .call c.call.id c.call.name (.obj fields) := by
        rw [callMark, hargs]
      rw [List.map_cons, hmark, ← List.singleton_append] at h
      exact h.reveal rfl
    · rename_i hargs
      refine Triple.raise fun l s h => ?_
      rw [← List.append_nil (List.map _ _)] at h
      refine h.leaveUnstarted (fun m hm => ?_) fun hk => ?_
      · obtain ⟨x, -, rfl⟩ := List.mem_map.mp hm
        rfl
      · have hobj := hknown hk c List.mem_cons_self
        unfold ObjectArguments at hobj
        cases hparse : parseArguments deps.json c.call.arguments with
        | obj fields => exact absurd hparse (hargs fields)
        | _ => rw [hparse] at hobj; cases hobj

theorem mirrored_reportResult (id : String) (r : ToolResult) :
    Triple (Mirrored deps world t₀ known [] []) (reportResult deps id r)
      (fun _ => Mirrored deps world t₀ known [] []) E := by
  have happend : Triple (Mirrored deps world t₀ known [] [])
      (appendMessage deps { role := .tool, content := .str (toolResultToLlmContent r), toolCallId := some id })
      (fun _ => Mirrored deps world t₀ known [] ([.result id (toolResultToLlmContent r)] ++ [])) E :=
    mirrored_append rfl
  exact Triple.bind happend fun _ => Triple.emit fun l s h => h.reveal rfl

theorem mirrored_askHook (reply : HookReply) (g : Gating) :
    Preserves (Mirrored deps world t₀ known [] []) (askHook deps reply g) := by
  unfold askHook
  split
  · exact Preserves.pure
  · exact Preserves.pure
  · refine Preserves.bind (Preserves.forEach fun e _ => mirrored_yield rfl) fun _ => ?_
    split
    · exact Preserves.raise
    · exact Preserves.ofExcept

theorem mirrored_toolBatch (env : TurnEnv) (calls : List ToolCall)
    (hknown : known → ∀ c ∈ calls, ObjectArguments deps.json c.arguments) :
    Triple (Mirrored deps world t₀ known [] (calls.map (callMark deps.json)))
      (toolBatch deps request env calls) (fun _ => Mirrored deps world t₀ known [] [])
      (fun _ => Mirrored deps world t₀ known [] []) := by
  have hquiet : ∀ {i : Item}, i.marks = [] →
      Preserves (Mirrored deps world t₀ known [] []) (emit i : Run Unit) :=
    fun hi => Preserves.emit fun _ _ h => h.emit hi
  have hcalls : calls.map (callMark deps.json) =
      (numberCalls calls).map fun c => callMark deps.json c.call := by
    calc calls.map (callMark deps.json)
        = (calls.zipIdx.map Prod.fst).map (callMark deps.json) := by rw [List.zipIdx_map_fst]
      _ = (numberCalls calls).map fun c => callMark deps.json c.call := by
        rw [numberCalls, List.map_map, List.map_map]
        rfl
  rw [hcalls]
  refine Triple.bind (mirrored_startCalls _ fun hk => forall_numberCalls.mpr (hknown hk)) fun _ => ?_
  refine Preserves.bind (Preserves.forEach fun a _ => hquiet rfl) fun _ => ?_
  refine Preserves.bind (mirrored_askHook _ _) fun denied => ?_
  refine Preserves.bind (Preserves.forEach fun c _ => ?_) fun _ => ?_
  · split
    · exact mirrored_reportResult _ _
    · exact Preserves.pure
  · refine Preserves.ite Preserves.pure ?_
    refine Preserves.bind (Preserves.forEach fun c _ => hquiet rfl) fun _ => ?_
    refine Preserves.bind Preserves.ofExcept fun results => ?_
    exact Preserves.bind (Preserves.forEach fun p _ => mirrored_reportResult _ _) fun _ => Preserves.pure

/-! ## Responses -/

/-- The answer is stored as it was streamed. -/
theorem mirrored_answer (text : String) (calls : List ToolCall) :
    Triple (Mirrored deps world t₀ known (Mark.ofText text) [])
      (appendMessage deps (assistantMessage text calls))
      (fun _ => Mirrored deps world t₀ known [] (calls.map (callMark deps.json))) E := by
  refine (mirrored_append rfl).weaken fun _ l s h => ?_
  rw [← List.append_nil (Mark.ofText text)] at h
  exact h.settle

theorem mirrored_answerText (vars : LoopVars) (text : String) :
    Triple (Mirrored deps world t₀ known (Mark.ofText text) []) (answerText deps vars text)
      (fun _ => Mirrored deps world t₀ known [] []) (fun _ => Mirrored deps world t₀ known [] []) := by
  refine Triple.bind (mirrored_answer text []) fun _ => Preserves.ite ?_ ?_
  · refine Preserves.bind ?_ fun _ => Preserves.pure
    unfold appendRetryPrompt
    split
    · exact mirrored_appendUser _
    · exact Preserves.pure
  · refine Preserves.bind preserves_sessionContext fun _ => ?_
    refine Preserves.bind (mirrored_terminate _) fun _ => ?_
    exact Preserves.bind (mirrored_yield rfl) fun _ => Preserves.pure

theorem mirrored_answerCalls {env : TurnEnv} {vars : LoopVars} (text : String) {calls : List ToolCall}
    (hknown : known → (updateToolLoopState calls env.registry vars.detector
        deps.config.retry.unknownToolThreshold).2 = .proceed ∧
      ∀ c ∈ calls, ObjectArguments deps.json c.arguments) :
    Triple (Mirrored deps world t₀ known (Mark.ofText text) [])
      (answerCalls deps request env vars text calls)
      (fun _ => Mirrored deps world t₀ known [] []) (fun _ => Mirrored deps world t₀ known [] []) := by
  have hunstarted : ∀ {l s}, (known → False) →
      Mirrored deps world t₀ known [] (calls.map (callMark deps.json)) l s →
      Mirrored deps world t₀ known [] [] l s := by
    intro l s hno h
    rw [← List.append_nil (calls.map _)] at h
    refine h.leaveUnstarted (fun m hm => ?_) fun hk => (hno hk).elim
    obtain ⟨c, -, rfl⟩ := List.mem_map.mp hm
    rfl
  refine Triple.bind (mirrored_answer text calls) fun _ => ?_
  dsimp only
  split
  · rename_i hverdict
    refine Triple.strengthen ?_ fun l s h => hunstarted (fun hk => ?_) h
    · exact Preserves.bind (mirrored_fail _ _) fun _ => Preserves.pure
    · rw [(hknown hk).1] at hverdict
      cases hverdict
  · rename_i hverdict
    refine Triple.strengthen ?_ fun l s h => hunstarted (fun hk => ?_) h
    · exact Preserves.bind (mirrored_appendUser _) fun _ => Preserves.pure
    · rw [(hknown hk).1] at hverdict
      cases hverdict
  · exact Triple.bind (mirrored_toolBatch env calls fun hk => (hknown hk).2) fun _ => Preserves.pure

theorem mirrored_handleResponse (env : TurnEnv) (vars : LoopVars) (acc : StreamAcc) :
    Triple (Mirrored deps world t₀ known (Mark.ofText acc.text) [])
      (handleResponse deps request env vars acc)
      (fun _ => Mirrored deps world t₀ (∀ i, Steady (world i)) [] [])
      (fun _ => Mirrored deps world t₀ (∀ i, Steady (world i)) [] []) := by
  let turn : Turn := { env with buffer := acc.buffer, detector := vars.detector }
  refine Triple.bind (Q := fun _ => Mirrored deps world t₀ (StartsCalls deps turn)
    (Mark.ofText acc.text) []) (Triple.emit fun l s h => ?_) fun _ => ?_
  · refine (h.emit (i := .responded turn) rfl).know fun hg => hg.2 turn ?_
    exact List.mem_append_right l List.mem_cons_self
  · have hsteady : ∀ l s, Mirrored deps world t₀ (StartsCalls deps turn) [] [] l s →
        Mirrored deps world t₀ (∀ i, Steady (world i)) [] [] l s := fun _ _ h => h.steady
    refine Triple.conseq ?_ (fun _ _ h => h) (fun _ => hsteady) fun _ => hsteady
    refine Triple.bind (Q := fun calls l s => finalizeToolCalls deps.json acc.buffer = .ok calls ∧
      Mirrored deps world t₀ (StartsCalls deps turn) (Mark.ofText acc.text) [] l s)
      (Triple.ofExcept (fun _ hok _ _ h => ⟨hok, h⟩) fun e herr l s h => ?_) fun calls => ?_
    · rw [← List.append_nil (Mark.ofText _)] at h
      refine h.giveUp fun ⟨calls, hok, _⟩ => ?_
      rw [herr] at hok
      cases hok
    · refine Triple.assume fun hcalls => Triple.ite (fun _ => mirrored_answerText _ _) fun hne => ?_
      refine mirrored_answerCalls acc.text fun ⟨calls', hok, hstarts⟩ => ?_
      rw [hcalls] at hok
      cases hok
      exact hstarts hne

/-! ## Iterations -/

theorem mirrored_stop {α : Type} (code message : String) :
    Preserves (Mirrored deps world t₀ known [] []) (fail code message >>= fun _ => (pure none : Run (Option α))) :=
  Preserves.bind (mirrored_fail _ _) fun _ => Preserves.pure

theorem mirrored_callModel {i : Nat} (vars : LoopVars) (messages : List Message) :
    Preserves (Mirrored deps world t₀ (∀ i, Steady (world i)) [] [])
      (callModel deps request (world i) vars messages) := by
  have hpartial : ∀ text code message, Triple
      (Mirrored deps world t₀ (∀ i, Steady (world i)) (Mark.ofText text) [])
      (failPartial deps text code message >>= fun _ => (pure none : Run (Option LoopVars)))
      (fun _ => Mirrored deps world t₀ (∀ i, Steady (world i)) [] [])
      (fun _ => Mirrored deps world t₀ (∀ i, Steady (world i)) [] []) :=
    fun text code message => Triple.bind (mirrored_failPartial _ _ _) fun _ => Preserves.pure
  refine Preserves.ite (mirrored_stop _ _) ?_
  refine Triple.bind ((mirrored_consumeStream (world i).stream {}).strengthen fun _ _ h => h) fun r => ?_
  cases r with
  | none => exact Preserves.pure
  | some acc =>
    refine Triple.assume fun hsilent => ?_
    dsimp only
    split
    · exact mirrored_handleResponse _ _ _
    · exact hpartial _ _ _
    · exact hpartial _ _ _
    · rename_i code message hend
      refine Triple.ite (fun hcode => ?_) fun _ => hpartial _ _ _
      refine Triple.bind (mirrored_tryCompaction _ _) fun outcome => ?_
      refine Triple.ite (fun _ => hpartial _ _ _) fun _ => Triple.ite (fun _ => ?_) fun _ => hpartial _ _ _
      refine Triple.pure fun l s h => ?_
      rw [← List.append_nil (Mark.ofText _)] at h
      exact h.giveUp fun hsteady => hsilent ((hsteady i).early code message hend hcode)
    · rename_i hend
      refine Triple.raise fun l s h => ?_
      rw [← List.append_nil (Mark.ofText _)] at h
      exact h.giveUp fun hsteady => absurd hend (hsteady i).known

theorem mirrored_runIteration {i : Nat} (vars : LoopVars) :
    Preserves (Mirrored deps world t₀ (∀ i, Steady (world i)) [] [])
      (runIteration deps request (world i) vars) := by
  refine Preserves.ite (mirrored_stop _ _) (Preserves.ite (mirrored_stop _ _) ?_)
  refine Preserves.bind preserves_sessionContext fun messages => ?_
  refine Preserves.bind (Preserves.emit fun _ _ h => h.emit rfl) fun _ => ?_
  refine Preserves.ite ?_ (mirrored_callModel _ _)
  refine Preserves.bind (mirrored_tryCompaction _ _) fun outcome => ?_
  exact Preserves.ite (mirrored_stop _ _) (Preserves.ite Preserves.pure (mirrored_callModel _ _))

theorem mirrored_runLoop (n i : Nat) (vars : LoopVars) :
    Preserves (Mirrored deps world t₀ (∀ i, Steady (world i)) [] [])
      (runLoop deps request world n i vars) := by
  induction n generalizing i vars with
  | zero => exact mirrored_fail _ _
  | succ n ih =>
    refine Preserves.bind (mirrored_runIteration vars) fun r => ?_
    cases r with
    | none => exact Preserves.pure
    | some vars => exact ih _ _

/-! ## Runs -/

/-- The session after a run: the stored tree, the entries of the run behind those of `t₀`. -/
structure Replayed (deps : AgentRunnerDeps) (world : Nat → IterEnv) (t₀ : SessionTree)
    (steps : List (Side Mark)) (l : List Item) (s : RunState) : Prop where
  stored : ∃ t, s.store.load t₀.header.id = some t ∧
    t.transcript deps.json = t₀.transcript deps.json ++ rights steps
  streamed : streamed l = lefts steps
  sides : OneSided steps
  gapless : Gapless deps world l → ∀ st ∈ steps, st.isBoth = true

theorem Mirrored.replayed (h : Mirrored deps world t₀ known [] [] l s) :
    ∃ steps, Replayed deps world t₀ steps l s := by
  obtain ⟨steps, hsides, hstream, hstored, hgap⟩ := h.aligned
  refine ⟨steps, ⟨s.tree, ?_, by simpa using hstored⟩, by simpa using hstream, hsides, hgap⟩
  rw [← h.header]
  exact h.synced.stored

theorem replayed_start (hs : s.Synced) (hl : streamed l = []) :
    Replayed deps world s.tree [] l s where
  stored := ⟨s.tree, hs.stored, by simp [rights]⟩
  streamed := by simpa [lefts] using hl
  sides := ⟨nofun, nofun⟩
  gapless := fun _ _ hst => absurd hst List.not_mem_nil

theorem runBody_mirrored (hvision : visionBlocked deps request t₀ = .ok false) :
    Triple (fun l s => l = [] ∧ s.Synced ∧ s.tree = t₀) (runBody deps request world)
      (fun _ => Mirrored deps world t₀ (∀ i, Steady (world i)) [] [])
      (fun _ => Mirrored deps world t₀ (∀ i, Steady (world i)) [] []) := by
  refine Triple.getBind fun s₀ => ?_
  refine Triple.bind (Q := fun blocked l s => blocked = false ∧ l = [] ∧ s.Synced ∧ s.tree = t₀)
    (Triple.ofExcept ?_ ?_) fun blocked => Triple.assume ?_
  · rintro blocked hb l s ⟨⟨hl, hs, ht⟩, rfl⟩
    rw [ht, hvision] at hb
    exact ⟨(Except.ok.inj hb).symm, hl, hs, ht⟩
  · rintro e he l s ⟨⟨-, -, ht⟩, rfl⟩
    rw [ht, hvision] at he
    cases he
  · rintro rfl
    refine Triple.bind ?_ fun _ => mirrored_runLoop _ _ _
    refine appendMessage_triple (fun _ _ h => h.2.1) ?_
    rintro l s e s' ⟨rfl, hs, rfl⟩ hm happ
    refine ⟨happ.synced_message hs hm, by rw [happ.tree]; rfl, by rw [happ.tree]; rfl, And.left,
      [], ⟨nofun, nofun⟩, rfl, ?_, nofun⟩
    have hmarks : e.marks deps.json = [] := by rw [SessionEntry.marks, hm]; rfl
    rw [happ.tree, SessionTree.transcript_push happ.fresh, hmarks]
    simp [rights]

variable {store : InMemorySessionStore} {draws : Nat}

/-- Every run, whichever way it ends. -/
theorem runAgentStream_replayed (hstore : ∀ t, store.load request.sessionId = some t → t.Wf) :
    ∃ steps, Replayed deps world (ensureSession store request).1 steps
      (runAgentStream deps request world store draws).log
      (runAgentStream deps request world store draws).state := by
  have hs : (RunState.start store draws request).Synced := RunState.start_synced hstore
  match hvision : visionBlocked deps request (ensureSession store request).1 with
  | .error e =>
    rw [runAgentStream_eq (runBody_unroutable hvision)]
    exact ⟨[], replayed_start hs rfl⟩
  | .ok true =>
    rw [runAgentStream_eq (runBody_blocked hvision)]
    exact ⟨[], replayed_start hs rfl⟩
  | .ok false =>
    have hbody := @runBody_mirrored deps request world _ hvision [] (RunState.start store draws request)
      ⟨rfl, hs, rfl⟩
    match hrun : runBody deps request world (RunState.start store draws request) with
    | ⟨.ok (), s, l⟩ =>
      rw [hrun] at hbody
      rw [runAgentStream_eq hrun]
      exact (hbody.emit (i := .runEnd s.terminatedBy) rfl).replayed
    | ⟨.error e, s, l⟩ =>
      rw [hrun] at hbody
      rw [runAgentStream_eq hrun]
      exact (hbody.emit (i := .runEnd s.terminatedBy) rfl).replayed

theorem header_ensureSession : (ensureSession store request).1.header.id = request.sessionId := by
  unfold ensureSession
  cases hload : store.load request.sessionId with
  | some t => exact InMemorySessionStore.header_of_load hload
  | none => rfl

/-- **What a run stores and what it streams.** However a run ends, the session then lists what it
listed before and behind that what the run has added: the results that were streamed, in the same
order; no text that was not streamed, in the same order; and at least the calls that were streamed. -/
theorem transcript_of_run (hstore : ∀ t, store.load request.sessionId = some t → t.Wf) :
    ∃ t new, (runAgentStream deps request world store draws).state.store.load request.sessionId = some t ∧
      t.transcript deps.json = (ensureSession store request).1.transcript deps.json ++ new ∧
      new.filter Mark.isResult =
        (streamed (runAgentStream deps request world store draws).log).filter Mark.isResult ∧
      (new.filter Mark.isChar).Sublist
        ((streamed (runAgentStream deps request world store draws).log).filter Mark.isChar) ∧
      ((streamed (runAgentStream deps request world store draws).log).filter Mark.isCall).Sublist
        (new.filter Mark.isCall) := by
  obtain ⟨steps, ⟨t, hload, htranscript⟩, hstream, hsides, -⟩ :=
    @runAgentStream_replayed deps request world store draws hstore
  rw [header_ensureSession] at hload
  rw [hstream]
  have hleft : ∀ m, Side.left m ∈ steps → m.isResult = false ∧ m.isCall = false := by
    intro m hm
    have hchar := hsides.givenUp m hm
    cases m <;> simp_all [Mark.isChar, Mark.isResult, Mark.isCall]
  have hright : ∀ m, Side.right m ∈ steps → m.isResult = false ∧ m.isChar = false := by
    intro m hm
    have hcall := hsides.unstarted m hm
    cases m <;> simp_all [Mark.isChar, Mark.isResult, Mark.isCall]
  refine ⟨t, rights steps, hload, htranscript, ?_, ?_, ?_⟩
  · exact (filter_eq_of_shared (fun m hm => (hleft m hm).1) fun m hm => (hright m hm).1).symm
  · exact filter_sublist_lefts fun m hm => (hright m hm).2
  · exact filter_sublist_rights fun m hm => (hleft m hm).2

/-- **A reload shows the stream.** Where no answer is given up and no call is left unstarted, the
session lists exactly what was streamed, behind what it listed before, when the run has been consumed to its
end. -/
theorem reload_eq_stream (hstore : ∀ t, store.load request.sessionId = some t → t.Wf)
    (hgapless : Gapless deps world (runAgentStream deps request world store draws).log) :
    ∃ t, (runAgentStream deps request world store draws).state.store.load request.sessionId = some t ∧
      t.transcript deps.json = (ensureSession store request).1.transcript deps.json ++
        streamed (runAgentStream deps request world store draws).log := by
  obtain ⟨steps, ⟨t, hload, htranscript⟩, hstream, -, hboth⟩ :=
    @runAgentStream_replayed deps request world store draws hstore
  rw [header_ensureSession] at hload
  refine ⟨t, hload, ?_⟩
  rw [htranscript, hstream, lefts_eq_rights (hboth hgapless)]

end

/-! ## A call, and then an answer -/

def lookThenAnswer : Nat → IterEnv
  | 0 => answering "I look." [{ index := 0, id := some "x", name := some "bash" }]
      (sampleEnv (.decisions [.approve])) 0
  | i + 1 => answering "Done." [] (sampleEnv (.decisions [])) i

def Item.startsCalls (deps : AgentRunnerDeps) : Item → Bool
  | .responded turn => decide (StartsCalls deps turn)
  | _ => true

theorem gapless_lookThenAnswer :
    Gapless sampleDeps lookThenAnswer
      (runAgentStream sampleDeps sampleRequest lookThenAnswer .empty 0).log := by
  refine ⟨fun i => ?_, fun turn hmem => ?_⟩
  · cases i <;> exact ⟨nofun, nofun⟩
  · have hlog : ∀ i ∈ (runAgentStream sampleDeps sampleRequest lookThenAnswer .empty 0).log,
        i.startsCalls sampleDeps = true := by decide +kernel
    exact of_decide_eq_true (hlog _ hmem)

theorem transcript_of_run_look :
    ∃ t new, (runAgentStream sampleDeps sampleRequest lookThenAnswer .empty 0).state.store.load
        sampleRequest.sessionId = some t ∧
      t.transcript sampleDeps.json =
        (ensureSession .empty sampleRequest).1.transcript sampleDeps.json ++ new ∧
      new.filter Mark.isResult =
        (streamed (runAgentStream sampleDeps sampleRequest lookThenAnswer .empty 0).log).filter
          Mark.isResult ∧
      (new.filter Mark.isChar).Sublist
        ((streamed (runAgentStream sampleDeps sampleRequest lookThenAnswer .empty 0).log).filter
          Mark.isChar) ∧
      ((streamed (runAgentStream sampleDeps sampleRequest lookThenAnswer .empty 0).log).filter
        Mark.isCall).Sublist (new.filter Mark.isCall) :=
  transcript_of_run fun _ h => by cases h

theorem reload_eq_stream_look :
    ∃ t, (runAgentStream sampleDeps sampleRequest lookThenAnswer .empty 0).state.store.load
        sampleRequest.sessionId = some t ∧
      t.transcript sampleDeps.json =
        (ensureSession .empty sampleRequest).1.transcript sampleDeps.json ++
          streamed (runAgentStream sampleDeps sampleRequest lookThenAnswer .empty 0).log :=
  reload_eq_stream (fun _ h => by cases h) gapless_lookThenAnswer

end PyClaw
