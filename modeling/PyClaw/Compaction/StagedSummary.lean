import PyClaw.Compaction.MessageDict
import PyClaw.Lib.Packing
import PyClaw.Lib.Prog

/-!
# Compaction.StagedSummary

`split_into_chunks` and `summarize_in_stages` (`core/agent/compaction/hardening.py`): a history too long for
one summary is summarized chunk by chunk, and the summaries are summarized.

`splitIntoChunks_summarized`: the chunks are the history cut into pieces within the budget, and each message is
in one first-stage summary.
-/

namespace PyClaw

open Packing

/-! ## Chunks -/

/-- The variables of the loop of `split_into_chunks`. -/
structure ChunkSplit where
  chunks : List (List MessageDict) := []
  current : List MessageDict := []
  currentTokens : Int := 0

namespace ChunkSplit

variable (chunkTokenBudget : Int)

def add (s : ChunkSplit) (msg : MessageDict) : ChunkSplit :=
  if s.current ≠ [] ∧ chunkTokenBudget < s.currentTokens + msg.estimateTokens then
    { chunks := s.chunks ++ [s.current], current := [msg], currentTokens := msg.estimateTokens }
  else
    { s with current := s.current ++ [msg], currentTokens := s.currentTokens + msg.estimateTokens }

/-- The chunks, with the one that is being filled. -/
def all (s : ChunkSplit) : List (List MessageDict) :=
  if s.current = [] then s.chunks else s.chunks ++ [s.current]

end ChunkSplit

def splitIntoChunks (messages : List MessageDict) (chunkTokenBudget : Int) : List (List MessageDict) :=
  if chunkTokenBudget ≤ 0 then [messages]
  else
    let chunks := (messages.foldl (ChunkSplit.add chunkTokenBudget) {}).all
    if chunks = [] then [[]] else chunks

/-! ## Stages -/

/-- A call of the summarizer, by where it is made. -/
inductive SummaryCall where
  | stage (chunk : List MessageDict)
  | merge (payload : List MessageDict)
  deriving DecidableEq, Repr

def SummaryCall.payload : SummaryCall → List MessageDict
  | .stage chunk => chunk
  | .merge payload => payload

def SummaryCall.chunk? : SummaryCall → Option (List MessageDict)
  | .stage chunk => some chunk
  | .merge _ => none

section

variable {σ ε : Type} (summarizer : List MessageDict → σ → Except ε String × σ)

/-- `await summarizer(payload)`. What it returns may depend on its earlier calls, and it may raise. -/
def awaitSummary (call : SummaryCall) : Prog SummaryCall σ ε String := fun s =>
  ⟨(summarizer call.payload s).1, (summarizer call.payload s).2, [call]⟩

/-- `merge_payload`. -/
def mergePayload (stageSummaries : List String) : List MessageDict :=
  stageSummaries.zipIdx.map fun p =>
    { role := some "user"
      content := .str ("[summary of chunk " ++ toString (p.2 + 1) ++ "]\n" ++ p.1) }

def summarizeInStages (messages : List MessageDict) (chunkTokenBudget : Int) :
    Prog SummaryCall σ ε String :=
  let chunks := splitIntoChunks messages chunkTokenBudget
  if chunks.length ≤ 1 then awaitSummary summarizer (.stage messages)
  else do
    let stageSummaries ← Prog.mapEach chunks fun chunk => awaitSummary summarizer (.stage chunk)
    awaitSummary summarizer (.merge (mergePayload stageSummaries))

end

/-! ## The loop packs -/

variable {chunkTokenBudget : Int} {seen : List MessageDict} {s : ChunkSplit}

structure ChunkSplit.Sound (chunkTokenBudget : Int) (seen : List MessageDict) (s : ChunkSplit) : Prop where
  packed : IsPacking MessageDict.estimateTokens chunkTokenBudget seen s.all
  tokens : s.currentTokens = load MessageDict.estimateTokens s.current

theorem ChunkSplit.Sound.start : ChunkSplit.Sound chunkTokenBudget [] {} :=
  ⟨IsPacking.nil, rfl⟩

theorem ChunkSplit.Sound.add (h : s.Sound chunkTokenBudget seen) (msg : MessageDict) :
    (s.add chunkTokenBudget msg).Sound chunkTokenBudget (seen ++ [msg]) := by
  obtain ⟨hpacked, htokens⟩ := h
  rw [ChunkSplit.all] at hpacked
  rw [ChunkSplit.add]
  by_cases hempty : s.current = []
  · rw [if_pos hempty] at hpacked
    rw [if_neg (by simp [hempty])]
    constructor
    · simpa [ChunkSplit.all, hempty] using hpacked.snoc (x := msg)
    · simp [htokens]
  · rw [if_neg hempty] at hpacked
    split
    · constructor
      · simpa [ChunkSplit.all] using hpacked.snoc (x := msg)
      · simp [load]
    · rename_i hroom
      have hfits : load MessageDict.estimateTokens s.current + msg.estimateTokens ≤ chunkTokenBudget := by
        rw [← htokens]
        by_contra hover
        exact hroom ⟨hempty, by omega⟩
      constructor
      · simpa [ChunkSplit.all] using hpacked.grow hfits
      · simp [htokens]

theorem ChunkSplit.Sound.run (h : s.Sound chunkTokenBudget seen) (messages : List MessageDict) :
    (messages.foldl (ChunkSplit.add chunkTokenBudget) s).Sound chunkTokenBudget (seen ++ messages) := by
  induction messages generalizing s seen with
  | nil => simpa using h
  | cons msg rest ih =>
    have hrest := ih (h.add msg)
    simpa using hrest

/-- `[[]]` for no messages; all else is a packing. -/
theorem splitIntoChunks_cases (messages : List MessageDict) (hbudget : 0 < chunkTokenBudget) :
    (messages = [] ∧ splitIntoChunks messages chunkTokenBudget = [[]]) ∨
      (messages ≠ [] ∧
        IsPacking MessageDict.estimateTokens chunkTokenBudget messages
          (splitIntoChunks messages chunkTokenBudget)) := by
  have hstart : ChunkSplit.Sound chunkTokenBudget [] {} := .start
  have hpacked := (hstart.run messages).packed
  rw [List.nil_append] at hpacked
  rw [splitIntoChunks, if_neg (by omega)]
  dsimp only
  split
  · rename_i hnone
    left
    rw [hnone] at hpacked
    exact ⟨hpacked.joined.symm, rfl⟩
  · rename_i hsome
    right
    refine ⟨?_, hpacked⟩
    rintro rfl
    exact hsome rfl

theorem splitIntoChunks_joined (messages : List MessageDict) (hbudget : 0 < chunkTokenBudget) :
    (splitIntoChunks messages chunkTokenBudget).flatten = messages := by
  rcases splitIntoChunks_cases messages hbudget with ⟨hnone, hchunks⟩ | ⟨-, hpacked⟩
  · rw [hchunks, hnone]
    rfl
  · exact hpacked.joined

/-! ## The calls of the summarizer -/

/-- The chunks that first-stage summaries were asked for. -/
def stageChunks (calls : List SummaryCall) : List (List MessageDict) := calls.filterMap SummaryCall.chunk?

@[simp] theorem stageChunks_stages (chunks : List (List MessageDict)) :
    stageChunks (chunks.map .stage) = chunks := by
  induction chunks with
  | nil => rfl
  | cons chunk rest ih => simpa [stageChunks, SummaryCall.chunk?] using ih

@[simp] theorem stageChunks_merge (calls : List SummaryCall) (payload : List MessageDict) :
    stageChunks (calls ++ [.merge payload]) = stageChunks calls := by
  simp [stageChunks, SummaryCall.chunk?]

section

variable {σ ε : Type} {summarizer : List MessageDict → σ → Except ε String × σ}

/-- A call has been made, whether it returns or raises. -/
theorem awaitSummary_triple {P L : List SummaryCall → Prop} {call : SummaryCall}
    (h : ∀ l, P l → L (l ++ [call])) :
    Prog.Triple (fun l _ => P l) (awaitSummary summarizer call) (fun _ l _ => L l) (fun _ l _ => L l) := by
  intro l s hs
  rw [awaitSummary]
  cases (summarizer call.payload s).1 with
  | ok summary => exact h l hs
  | error e => exact h l hs

/-- The calls are those of the first stage, up to one that raises. -/
def StagesUpTo (chunks : List (List MessageDict)) (calls : List SummaryCall) : Prop :=
  ∃ done, done <+: chunks ∧ calls = done.map .stage

theorem stages_triple (chunks : List (List MessageDict)) :
    Prog.Triple (fun l (_ : σ) => l = [])
      (Prog.mapEach chunks fun chunk => awaitSummary summarizer (.stage chunk))
      (fun _ l _ => l = chunks.map .stage) (fun _ l _ => StagesUpTo chunks l) := by
  refine Prog.Triple.mapEach (I := fun done l _ => l = done.map SummaryCall.stage) chunks ?_
  intro done chunk rest hchunks
  have hcall : ∀ l, l = done.map SummaryCall.stage → l ++ [.stage chunk] = (done ++ [chunk]).map .stage := by
    rintro l rfl
    simp
  refine (awaitSummary_triple hcall).conseq (fun _ _ => id) (fun _ _ _ => id) ?_
  intro _ l _ hl
  exact ⟨done ++ [chunk], ⟨rest, by simp [hchunks]⟩, hl⟩

/-- The first stage goes through all chunks, or stops where the summarizer raises. -/
theorem summarizeInStages_triple (messages : List MessageDict) (hbudget : 0 < chunkTokenBudget) :
    Prog.Triple (fun l (_ : σ) => l = []) (summarizeInStages summarizer messages chunkTokenBudget)
      (fun _ l _ => (stageChunks l).flatten = messages) (fun _ l _ => (stageChunks l).flatten <+: messages) := by
  have hjoined := splitIntoChunks_joined messages hbudget
  rw [summarizeInStages]
  refine Prog.Triple.ite ?_ ?_
  · intro _
    have hcall : ∀ l : List SummaryCall, l = [] → l ++ [.stage messages] = [.stage messages] := by simp
    refine (awaitSummary_triple (L := fun l => l = [.stage messages]) hcall).conseq (fun _ _ => id) ?_ ?_
    · rintro _ l _ rfl
      simp [stageChunks, SummaryCall.chunk?]
    · rintro _ l _ rfl
      simp [stageChunks, SummaryCall.chunk?]
  · intro _
    refine Prog.Triple.bind ((stages_triple _).conseq (fun _ _ => id) (fun _ _ _ => id) ?_) fun summaries => ?_
    · rintro _ l _ ⟨done, ⟨rest, hdone⟩, rfl⟩
      rw [stageChunks_stages]
      exact ⟨rest.flatten, by rw [← List.flatten_append, hdone, hjoined]⟩
    · refine (awaitSummary_triple (L := fun l => (stageChunks l).flatten = messages) ?_).conseq
        (fun _ _ => id) (fun _ _ _ => id) ?_
      · rintro l rfl
        rw [stageChunks_merge, stageChunks_stages, hjoined]
      · intro _ l _ hl
        exact hl ▸ List.prefix_rfl

/-- What chunking and staging promise of a message list: the chunks are the list cut into pieces, none empty
unless there is nothing to cut, none over the budget but for a single message, and the first-stage calls of the
summarizer take each message once. Where the summarizer raises, they are the first of them. -/
structure StagedInPieces (budget : Int) (messages : List MessageDict) (chunks : List (List MessageDict))
    (o : Outcome SummaryCall σ ε String) : Prop where
  joined : chunks.flatten = messages
  nonempty : messages ≠ [] → ∀ chunk ∈ chunks, chunk ≠ []
  within : ∀ chunk ∈ chunks, MessageDict.estimateMessages chunk ≤ budget ∨ chunk.length = 1
  staged : ∀ summary, o.result = .ok summary → (stageChunks o.log).flatten = messages
  raised : (stageChunks o.log).flatten <+: messages

theorem splitIntoChunks_summarized (summarizer : List MessageDict → σ → Except ε String × σ) (s : σ)
    (messages : List MessageDict) (chunkTokenBudget : Int) (hbudget : 0 < chunkTokenBudget) :
    StagedInPieces chunkTokenBudget messages (splitIntoChunks messages chunkTokenBudget)
      (summarizeInStages summarizer messages chunkTokenBudget s) := by
  have hjoined := splitIntoChunks_joined messages hbudget
  have hcases := splitIntoChunks_cases messages hbudget
  have hcalls : Prog.Post (fun _ l _ => (stageChunks l).flatten = messages)
      (fun _ l _ => (stageChunks l).flatten <+: messages) []
      (summarizeInStages summarizer messages chunkTokenBudget s) :=
    (summarizeInStages_triple messages hbudget).post rfl
  generalize summarizeInStages summarizer messages chunkTokenBudget s = o at hcalls ⊢
  obtain ⟨result, s', calls⟩ := o
  refine ⟨hjoined, ?_, ?_, ?_, ?_⟩
  · intro hsome
    rcases hcases with ⟨hnone, -⟩ | ⟨-, hpacked⟩
    · exact absurd hnone hsome
    · exact hpacked.nonempty
  · rcases hcases with ⟨-, hchunks⟩ | ⟨-, hpacked⟩
    · intro chunk hchunk
      rw [hchunks, List.mem_singleton] at hchunk
      left
      rw [hchunk]
      exact hbudget.le
    · exact hpacked.within
  · rintro summary hok
    subst hok
    exact hcalls
  · cases result with
    | ok summary => exact ⟨[], by rw [List.append_nil]; exact hcalls⟩
    | error e => exact hcalls

end

/-! ## A chunk for each greeting -/

def greetings : List MessageDict :=
  [{ role := some "user", content := .str "hello" }, { role := some "assistant", content := .str "hi" }]

/-- Counts its calls. -/
def countingSummarizer (_ : List MessageDict) (calls : Nat) : Except Escape String × Nat :=
  (.ok "summary", calls + 1)

theorem greetings_summarized :
    0 < (10 : Int) ∧ StagedInPieces 10 greetings (splitIntoChunks greetings 10)
      (summarizeInStages countingSummarizer greetings 10 0) :=
  ⟨by decide, splitIntoChunks_summarized countingSummarizer 0 greetings 10 (by decide)⟩

example : splitIntoChunks greetings 10 = greetings.map fun msg => [msg] := by decide

example : (summarizeInStages countingSummarizer greetings 10 0).state = 3 := by decide

end PyClaw
