import Mathlib.Data.Rat.Defs

/-!
# Models.Agent

The data of `models/agent.py`: content blocks, tool calls and results, the message dictionaries
sent to the model, and the events a run yields. Also the two pieces of the Python library whose
tables are not embedded and stay parameters: the `json` module and Unicode text operations.
-/

namespace PyClaw

/-! ## Parameters from the standard library -/

inductive Json where
  | null
  | bool (b : Bool)
  | num (literal : String)
  | str (s : String)
  | arr (items : List Json)
  | obj (fields : List (String × Json))
  deriving Repr, BEq

def Json.isObject : Json → Bool
  | .obj _ => true
  | _ => false

/-- What `json.loads` raises: `JSONDecodeError`, or something else (`ValueError` for an integer
of too many digits, `RecursionError` for too deep a nesting). -/
inductive LoadsError where
  | jsonDecodeError
  | other
  deriving DecidableEq, Repr

/-- The `json` module. `loads_dumps` is its documented round trip, weakened to what is used: the
text of a value that was read reads back as a value of the same kind. -/
structure JsonModule where
  loads : String → Except LoadsError Json
  dumps : Json → String
  loads_dumps : ∀ s v, loads s = .ok v → ∃ v', loads (dumps v) = .ok v' ∧ v'.isObject = v.isObject

/-- Reads the texts of the empty object and the empty array, as Python does, and nothing else. -/
def JsonModule.brackets : JsonModule where
  loads s :=
    if s = "\x7b\x7d" then .ok (.obj []) else if s = "[]" then .ok (.arr [])
    else .error .jsonDecodeError
  dumps v := if v.isObject then "\x7b\x7d" else "[]"
  loads_dumps s v h := by
    split at h
    · cases h; exact ⟨.obj [], rfl, rfl⟩
    · split at h
      · cases h; exact ⟨.arr [], rfl, rfl⟩
      · cases h

/-- Text operations that rest on Unicode tables or on the formatting of floats. -/
structure PyText where
  isSpace : Char → Bool
  lower : String → String
  nfc : String → String
  repr : String → String
  floatStr : Rat → String

/-- Agrees with Python on ASCII text without quotes or backslashes, and on whole floats. -/
def PyText.ascii : PyText where
  isSpace c := c.toNat ≤ 32
  lower s := String.ofList (s.toList.map Char.toLower)
  nfc s := s
  repr s := "'" ++ s ++ "'"
  floatStr q := toString q.num ++ ".0"

/-! ## Content, calls, results -/

inductive ContentBlock where
  | text (text : String)
  | image (data mimeType : String)
  deriving DecidableEq, Repr

/-- A tool call as `finalize_tool_calls` builds it; its `type` is always `"function"`. -/
structure ToolCall where
  id : String
  name : String
  arguments : String
  deriving DecidableEq, Repr

structure ToolResult where
  toolCallId : String
  content : List ContentBlock
  isError : Bool := false
  deriving DecidableEq, Repr

/-! ## Messages for the model -/

inductive Role where
  | user
  | assistant
  | tool
  deriving DecidableEq, Repr

inductive LlmBlock where
  | text (text : String)
  | imageUrl (url : String)
  deriving DecidableEq, Repr

inductive LlmContent where
  | str (text : String)
  | blocks (blocks : List LlmBlock)
  deriving DecidableEq, Repr

/-- `AgentMessageDict`; an absent `tool_calls` key is the empty list. -/
structure Message where
  role : Role
  content : LlmContent
  toolCalls : List ToolCall := []
  toolCallId : Option String := none
  deriving DecidableEq, Repr

/-! ## Events -/

structure LLMUsage where
  inputTokens : Nat := 0
  outputTokens : Nat := 0
  cacheCreationInputTokens : Nat := 0
  cacheReadInputTokens : Nat := 0
  deriving DecidableEq, Repr

def LLMUsage.add (a b : LLMUsage) : LLMUsage where
  inputTokens := a.inputTokens + b.inputTokens
  outputTokens := a.outputTokens + b.outputTokens
  cacheCreationInputTokens := a.cacheCreationInputTokens + b.cacheCreationInputTokens
  cacheReadInputTokens := a.cacheReadInputTokens + b.cacheReadInputTokens

inductive AgentEvent where
  | textChunk (text : String)
  | toolCallStart (toolCallId name : String) (arguments : List (String × Json))
  | toolCallEnd (toolCallId : String) (result : ToolResult)
  | toolApprovalRequest (toolCallId toolName : String) (args : List (String × Json))
  | done (finalMessage : String) (usage : LLMUsage)
  | error (errorCode message : String)
  deriving Repr

/-- `Done` and `ErrorEvent` end a run. -/
def AgentEvent.isTerminal : AgentEvent → Bool
  | .done _ _ => true
  | .error _ _ => true
  | _ => false

/-- The reason that belongs to a terminal event: `done`, or the error's code. -/
def AgentEvent.reason : AgentEvent → Option String
  | .done _ _ => some "done"
  | .error code _ => some code
  | _ => none

/-! ## Failures -/

/-- The exceptions that can leave `run_agent_stream`. `pendingForever` stands for the walk of
`get_branch` that does not end. -/
inductive Escape where
  | llmError (code message : String)
  | validationError
  | indexError
  | jsonError
  | keyError
  | hookError
  | streamError
  | baseException
  | pendingForever
  deriving DecidableEq, Repr

/-! ## Compaction results -/

structure CompactResult where
  ok : Bool
  compacted : Bool
  reason : Option String := none
  reasonCode : Option String := none
  summary : Option String := none
  firstKeptEntryId : Option String := none
  tokensBefore : Int := 0
  tokensAfter : Option Int := none
  deriving DecidableEq, Repr

end PyClaw
