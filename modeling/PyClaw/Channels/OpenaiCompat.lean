import PyClaw.Models.Agent

/-!
# Channels.OpenaiCompat

The two forms in which `channels/web/openai_compat.py` answers: `_stream_sse`, chunk by chunk, and
`_complete_response`, at once. Both go through the events of a run up to its first `Done`, and neither looks at
`ErrorEvent`.

* `contents_agree`: what is streamed is the text of the other form, whatever the run does.
* `answers_honest_iff`: the finish reasons tell how the run ended exactly when it ended with `Done`.
-/

namespace PyClaw

/-! ## The stream -/

structure OpenaiUsage where
  promptTokens : Nat
  completionTokens : Nat
  totalTokens : Nat
  cachedTokens : Nat
  deriving DecidableEq, Repr

/-- `_format_openai_usage`; a usage without numbers is one of zeros. -/
def formatOpenaiUsage (doneUsage : LLMUsage) : OpenaiUsage where
  promptTokens := doneUsage.inputTokens
  completionTokens := doneUsage.outputTokens
  totalTokens := doneUsage.inputTokens + doneUsage.outputTokens
  cachedTokens := doneUsage.cacheReadInputTokens

/-- `delta`, with the keys it has. -/
structure Delta where
  role : Option String := none
  content : Option String := none
  deriving DecidableEq, Repr

structure CompletionChunk where
  id : String
  object : String := "chat.completion.chunk"
  created : Int
  model : String
  delta : Delta := {}
  finishReason : Option String := none
  usage : Option OpenaiUsage := none
  deriving DecidableEq, Repr

/-- What is sent after `data: `. -/
inductive SseData where
  | chunk (c : CompletionChunk)
  /-- `[DONE]`. -/
  | endMarker
  deriving DecidableEq, Repr

structure ChatCompletion where
  id : String
  object : String := "chat.completion"
  created : Int
  model : String
  role : String := "assistant"
  content : String
  finishReason : String
  usage : OpenaiUsage
  deriving DecidableEq, Repr

section

variable (completionId model : String) (clock : Nat → Int)

/-- The loop of `_stream_sse` and what follows it, from the chunk `k` on. `ending` is what
`run_agent_stream` raises after its events; `break` leaves it behind. -/
def streamEvents : Nat → List AgentEvent → Option Escape → List SseData × Option Escape
  | _, [], none => ([.endMarker], none)
  | _, [], some e => ([], some e)
  | k, .textChunk text :: rest, ending =>
    let later := streamEvents (k + 1) rest ending
    (.chunk { id := completionId, created := clock k, model, delta := { content := some text } } :: later.1,
      later.2)
  | k, .done _ usage :: _, _ =>
    ([.chunk { id := completionId, created := clock k, model, finishReason := some "stop"
               usage := some (formatOpenaiUsage usage) },
      .endMarker], none)
  | k, _ :: rest, ending => streamEvents k rest ending

def streamSse (events : List AgentEvent) (ending : Option Escape) : List SseData × Option Escape :=
  let later := streamEvents completionId model clock 1 events ending
  (.chunk { id := completionId, created := clock 0, model, delta := { role := some "assistant" } } :: later.1,
    later.2)

/-! ## The answer at once -/

/-- The loop of `_complete_response`. -/
def collectEvents : List String → List AgentEvent → Option Escape → Except Escape (List String × LLMUsage)
  | collectedText, [], none => .ok (collectedText, {})
  | _, [], some e => .error e
  | collectedText, .textChunk text :: rest, ending => collectEvents (collectedText ++ [text]) rest ending
  | collectedText, .done _ usage :: _, _ => .ok (collectedText, usage)
  | collectedText, _ :: rest, ending => collectEvents collectedText rest ending

def completeResponse (now : Int) (events : List AgentEvent) (ending : Option Escape) :
    Except Escape ChatCompletion :=
  (collectEvents [] events ending).map fun collected =>
    { id := completionId, created := now, model, content := String.join collected.1, finishReason := "stop"
      usage := formatOpenaiUsage collected.2 }

end

/-! ## The contents agree -/

def SseData.content? : SseData → Option String
  | .chunk c => c.delta.content
  | .endMarker => none

def streamedContent (sent : List SseData) : String := String.join (sent.filterMap SseData.content?)

/-- The texts of a run up to its first `Done`. -/
def answerTexts : List AgentEvent → List String
  | [] => []
  | .textChunk text :: rest => text :: answerTexts rest
  | .done _ _ :: _ => []
  | _ :: rest => answerTexts rest

variable {completionId model : String} {clock : Nat → Int} {now : Int} {k : Nat} {events : List AgentEvent}
  {ending : Option Escape}

theorem streamEvents_texts :
    (streamEvents completionId model clock k events ending).1.filterMap SseData.content? =
      answerTexts events := by
  induction events generalizing k with
  | nil => cases ending <;> rfl
  | cons event rest ih =>
    cases event with
    | textChunk text => simp [streamEvents, answerTexts, SseData.content?, ih]
    | done message usage => simp [streamEvents, answerTexts, SseData.content?]
    | _ => simpa [streamEvents, answerTexts] using ih

theorem collectEvents_texts {collectedText : List String} {collected : List String × LLMUsage}
    (h : collectEvents collectedText events ending = .ok collected) :
    collected.1 = collectedText ++ answerTexts events := by
  induction events generalizing collectedText with
  | nil =>
    cases ending with
    | none => cases h; simp [answerTexts]
    | some e => cases h
  | cons event rest ih =>
    cases event with
    | textChunk text => simpa [answerTexts] using ih h
    | done message usage => cases h; simp [answerTexts]
    | _ => exact ih h

theorem contents_agree {answer : ChatCompletion}
    (h : completeResponse completionId model now events ending = .ok answer) :
    streamedContent (streamSse completionId model clock events ending).1 = answer.content := by
  rw [completeResponse] at h
  cases hcollect : collectEvents [] events ending with
  | error e => rw [hcollect] at h; cases h
  | ok collected =>
    rw [hcollect] at h
    cases h
    have htexts := collectEvents_texts hcollect
    simp only [streamedContent, streamSse, List.filterMap_cons, SseData.content?, streamEvents_texts, htexts,
      List.nil_append]

/-! ## How a run ends -/

/-- The last event of the run is `Done`. -/
def EndsWithDone (events : List AgentEvent) : Prop :=
  ∃ message usage, events.getLast? = some (.done message usage)

def StreamStops (sent : List SseData) : Prop := ∃ c, .chunk c ∈ sent ∧ c.finishReason = some "stop"

/-- One chunk before the end marker has a finish reason, and nothing follows the marker. -/
def FinishesOnce (sent : List SseData) : Prop :=
  ∃ chunks : List CompletionChunk, sent = chunks.map .chunk ++ [.endMarker] ∧
    (chunks.filter fun c => c.finishReason.isSome).length = 1

/-- What a client may conclude from the two forms of one answer. -/
def HonestAnswers (events : List AgentEvent) (sent : List SseData) (answer : Except Escape ChatCompletion) :
    Prop :=
  ∃ completion, answer = .ok completion ∧ streamedContent sent = completion.content ∧
    (StreamStops sent ↔ EndsWithDone events) ∧
    (completion.finishReason = "stop" ↔ EndsWithDone events) ∧ FinishesOnce sent

/-- A stream that ends at a `Done`. -/
def FinishedStream (sent : List SseData) : Prop :=
  ∃ chunks last, sent = (chunks ++ [last]).map SseData.chunk ++ [.endMarker] ∧
    (∀ c ∈ chunks, c.finishReason = none) ∧ last.finishReason = some "stop"

theorem FinishedStream.cons {sent : List SseData} {c : CompletionChunk} (h : FinishedStream sent)
    (hc : c.finishReason = none) : FinishedStream (.chunk c :: sent) := by
  obtain ⟨chunks, last, rfl, hopen, hlast⟩ := h
  refine ⟨c :: chunks, last, by simp, ?_, hlast⟩
  intro c' hmem
  rcases List.mem_cons.mp hmem with rfl | hold
  · exact hc
  · exact hopen c' hold

theorem FinishedStream.stops {sent : List SseData} (h : FinishedStream sent) : StreamStops sent := by
  obtain ⟨chunks, last, rfl, -, hlast⟩ := h
  exact ⟨last, by simp, hlast⟩

theorem FinishedStream.once {sent : List SseData} (h : FinishedStream sent) : FinishesOnce sent := by
  obtain ⟨chunks, last, rfl, hopen, hlast⟩ := h
  have hnone : chunks.filter (fun c => c.finishReason.isSome) = [] := by
    rw [List.filter_eq_nil_iff]
    intro c hc
    simp [hopen c hc]
  exact ⟨chunks ++ [last], rfl, by simp [List.filter_append, hnone, hlast]⟩

theorem streamEvents_finished (before after : List AgentEvent) (message : String) (usage : LLMUsage) :
    FinishedStream
      (streamEvents completionId model clock k (before ++ .done message usage :: after) ending).1 := by
  induction before generalizing k with
  | nil => exact ⟨[], _, rfl, by simp, rfl⟩
  | cons event rest ih =>
    cases event with
    | textChunk text => exact ih.cons rfl
    | done message' usage' => exact ⟨[], _, rfl, by simp, rfl⟩
    | _ => exact ih

theorem collectEvents_returns (before after : List AgentEvent) (message : String) (usage : LLMUsage)
    (collectedText : List String) :
    ∃ collected, collectEvents collectedText (before ++ .done message usage :: after) ending = .ok collected := by
  induction before generalizing collectedText with
  | nil => exact ⟨_, rfl⟩
  | cons event rest ih =>
    cases event with
    | textChunk text => exact ih _
    | done message' usage' => exact ⟨_, rfl⟩
    | _ => exact ih _

/-- Every answer at once says `stop`. -/
theorem finishReason_of_complete {answer : ChatCompletion}
    (h : completeResponse completionId model now events ending = .ok answer) : answer.finishReason = "stop" := by
  rw [completeResponse] at h
  cases hcollect : collectEvents [] events ending with
  | error e => rw [hcollect] at h; cases h
  | ok collected => rw [hcollect] at h; cases h; rfl

theorem answers_honest_iff (completionId model : String) (clock : Nat → Int) (now : Int)
    (events : List AgentEvent) (ending : Option Escape) :
    HonestAnswers events (streamSse completionId model clock events ending).1
      (completeResponse completionId model now events ending) ↔ EndsWithDone events := by
  constructor
  · rintro ⟨completion, hanswer, -, -, hstop, -⟩
    exact hstop.mp (finishReason_of_complete hanswer)
  · intro hdone
    obtain ⟨message, usage, hlast⟩ := id hdone
    obtain ⟨before, rfl⟩ := List.getLast?_eq_some_iff.mp hlast
    have hanswer : ∃ completion,
        completeResponse completionId model now (before ++ [.done message usage]) ending = .ok completion := by
      obtain ⟨collected, hcollected⟩ := collectEvents_returns before [] message usage []
      rw [completeResponse, hcollected]
      exact ⟨_, rfl⟩
    obtain ⟨completion, hanswer⟩ := hanswer
    have hfinished : FinishedStream
        (streamSse completionId model clock (before ++ [.done message usage]) ending).1 :=
      (streamEvents_finished before [] message usage).cons rfl
    refine ⟨completion, hanswer, contents_agree hanswer, ?_, ?_, hfinished.once⟩
    · exact ⟨fun _ => hdone, fun _ => hfinished.stops⟩
    · exact ⟨fun _ => hdone, fun _ => finishReason_of_complete hanswer⟩

/-! ## A run that times out -/

def timedOutRun : List AgentEvent :=
  [.textChunk "The answer", .error "timeout" "run exceeded run_seconds"]

/-- The client gets half an answer with the finish reason of a whole one. -/
theorem timedOutRun_dishonest :
    ¬ HonestAnswers timedOutRun (streamSse "chatcmpl-1" "default" (fun _ => 0) timedOutRun none).1
      (completeResponse "chatcmpl-1" "default" 0 timedOutRun none) := by
  rintro ⟨completion, hanswer, -, -, hstop, -⟩
  have hcompletion : completion.finishReason = "stop" := by
    cases hanswer
    rfl
  obtain ⟨message, usage, hlast⟩ := hstop.mp hcompletion
  cases hlast

end PyClaw
