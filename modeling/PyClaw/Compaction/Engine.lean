import PyClaw.Compaction.CutPoint
import PyClaw.Compaction.Duplicates

/-!
# Compaction.Engine

`DefaultContextEngine.compact` of `core/context_engine.py`, with the filters of
`core/agent/compaction/hardening.py`. The summarizer, which runs a model, is a parameter, as is the scaled
budget `int(token_budget * threshold)` of an unforced compaction.
-/

namespace PyClaw
namespace MessageDict

/-! ## Hardening -/

/-- `text.strip()` -/
def stripped (py : PyText) (m : MessageDict) : String :=
  String.ofList (strip py.isSpace m.content.extract.toList)

/-- `text.strip().lower()` -/
def lowered (py : PyText) (m : MessageDict) : String := py.lower (stripped py m)

def heartbeatMarkers : List String := ["heartbeat", "ping", "pong", "[heartbeat]", "[system]"]

def hasMarker (text : String) : Bool :=
  heartbeatMarkers.any fun marker => occurs marker.toList text.toList

/-- The loop body of `has_real_conversation`. -/
def isReal (py : PyText) (m : MessageDict) : Bool :=
  if m.role = some "system" then false
  else if lowered py m = "" then !m.toolCalls.isEmpty
  else if hasMarker (lowered py m) then false
  else m.role = some "user" || m.role = some "assistant" || m.role = some "tool"

/-- `has_real_conversation`. -/
def hasRealConversation (py : PyText) (messages : List MessageDict) : Bool :=
  messages.any (isReal py)

/-- `filter_oversized_messages`. -/
def filterOversizedMessages (contextWindow : Int) (messages : List MessageDict) : List MessageDict :=
  if contextWindow ≤ 0 then messages
  else
    messages.map fun m =>
      if 2 * contextWindow < m.content.extract.length then
        { role := some (m.role.getD "unknown")
          content := .str ("[omitted oversized message from " ++ m.role.getD "unknown" ++ "]") }
      else m

/-- `sanity_check_token_estimate`. -/
def sanityCheckTokenEstimate (tokensBefore tokensAfter : Int) : Option Int :=
  if tokensBefore < tokensAfter then none else some tokensAfter

/-- `_fallback_summary`. -/
def fallbackSummary (messages : List MessageDict) : String :=
  let snippets := (messages.take 3).filterMap fun m =>
    let text := m.content.extract
    if text = "" then none
    else
      some ("- " ++ m.role.getD "user" ++ ": " ++
        String.ofList (replaceEach '\n' [' '] (text.toList.take 120)))
  let more :=
    if 3 < messages.length then ["- ... (" ++ toString (messages.length - 3) ++ " more)"] else []
  String.intercalate "\n"
    (("[summary of " ++ toString messages.length ++ " prior messages]") :: snippets ++ more)

end MessageDict

/-! ## The engine -/

/-- How the guarded summarizer ends. -/
inductive SummaryReply where
  | text (summary : String)
  | timeout
  | aborted
  | failed (message : String)

/-- `settings` has the defaults of `dedupe_duplicate_user_messages`. -/
structure DefaultContextEngine where
  keepRecentTokens : Int := 20000
  scaledBudget : Int → Int
  summarize : Option (List MessageDict → SummaryReply) := none
  settings : DedupSettings
  minChars : settings.minChars = 24

namespace DefaultContextEngine

open MessageDict

def failure (reason reasonCode : String) (tokensBefore : Int := 0) : CompactResult :=
  { ok := false, compacted := false, reason := some reason, reasonCode := some reasonCode
    tokensBefore := tokensBefore }

def skipped (reason : Option String) (reasonCode : String) (tokensBefore : Int := 0) :
    CompactResult :=
  { ok := true, compacted := false, reason := reason, reasonCode := some reasonCode
    tokensBefore := tokensBefore }

/-- The summary of the messages before the cut, or how the summarizer failed. -/
def summaryOf (engine : DefaultContextEngine) (toSummarize : List MessageDict) : SummaryReply :=
  match engine.summarize with
  | none => .text (fallbackSummary toSummarize)
  | some summarize => summarize toSummarize

/-- `compact` with the abort flag as it is when the call starts. `strip_tool_result_details` drops
a key that no function here reads. -/
def compact (engine : DefaultContextEngine) (tokenBudget : Int) (force aborted : Bool)
    (messages : List MessageDict) : CompactResult :=
  if aborted then failure "aborted" "aborted"
  else if hasRealConversation engine.settings.py messages = false then
    skipped (some "no real conversation") "no_compactable_entries"
  else
    let deduped := dedupe engine.settings messages
    let plan := planCompaction deduped
      (if force then tokenBudget else engine.scaledBudget tokenBudget) engine.keepRecentTokens
    match plan.shouldCompact, plan.cutIndex with
    | true, some cut =>
      match engine.summaryOf (filterOversizedMessages tokenBudget (deduped.take cut)) with
      | .timeout => failure "summarizer timeout" "timeout" plan.estimatedTokens
      | .aborted => failure "aborted" "aborted" plan.estimatedTokens
      | .failed message => failure ("summary failed: " ++ message) "summary_failed" plan.estimatedTokens
      | .text summary =>
        { ok := true
          compacted := true
          summary := some summary
          tokensBefore := plan.estimatedTokens
          tokensAfter := sanityCheckTokenEstimate plan.estimatedTokens (plan.keptTokens +
            estimateMessages [{ role := some "assistant", content := .str summary }])
          reason := some ("compacted-at-" ++ toString cut)
          reasonCode := some "compacted" }
    | _, _ =>
      skipped plan.reason
        (if plan.reason = some "within-budget" then "below_threshold" else "no_compactable_entries")
        plan.estimatedTokens

/-- A compacted result has a cut point, and a text for the messages before it. -/
theorem compact_compacted {engine : DefaultContextEngine} {tokenBudget : Int} {force aborted : Bool}
    {messages : List MessageDict}
    (h : (engine.compact tokenBudget force aborted messages).compacted = true) :
    ∃ cut summary, findCutPoint (dedupe engine.settings messages) engine.keepRecentTokens = some cut ∧
      engine.summaryOf (filterOversizedMessages tokenBudget
        ((dedupe engine.settings messages).take cut)) = .text summary := by
  unfold compact at h
  split at h
  · cases h
  · split at h
    · cases h
    · dsimp only at h
      split at h
      · rename_i cut _ hcut
        split at h
        · cases h
        · cases h
        · cases h
        · rename_i summary hsummary
          exact ⟨cut, summary, planCompaction_cut hcut, hsummary⟩
      · cases h

end DefaultContextEngine

/-- The engine of an ASCII text, which only takes ASCII letters to lower case. -/
def asciiEngine : DefaultContextEngine where
  scaledBudget n := n
  settings := { py := .ascii, isoTimestamp := fun _ => none, round := .finite }
  minChars := rfl

end PyClaw
