import Mathlib.Algebra.Ring.Int.Defs
import PyClaw.Lib.PyFloat
import PyClaw.Models.Agent

/-!
# Compaction.MessageDict

The message dictionaries as the functions of `core/agent/compaction` read them, whatever is in them:
any role or none, a content of any type, blocks of any type, a timestamp. The messages of a session
context are some of them (`Message.toDict`).

Not representable are values on which the functions raise: a role that has no hash, a tool call or a
function that is no dict, a name that is no string, an integer timestamp beyond every float.
-/

namespace PyClaw

/-- An element of a content list, by what is read of it. `text` is `none` if it is absent or no string. -/
inductive BlockDict where
  | dict (type text : Option String)
  /-- Anything else, with its attributes. -/
  | object (type text : Option String)
  deriving DecidableEq, Repr

/-- `msg.get("content")`. -/
inductive ContentDict where
  | str (text : String)
  | list (blocks : List BlockDict)
  /-- Absent, `None`, or neither a string nor a list. -/
  | other
  deriving DecidableEq, Repr

/-- `fn.get("arguments")`. -/
inductive ArgumentsDict where
  | str (text : String)
  /-- A dict, by its `str(..)`. -/
  | dict (text : String)
  | other
  deriving DecidableEq, Repr

/-- A tool call; `name` is `fn.get("name") or ""`. -/
structure CallDict where
  id : Option String := none
  name : String := ""
  arguments : ArgumentsDict := .other
  deriving DecidableEq, Repr

/-- `msg.get("timestamp")`. -/
inductive TimestampDict where
  /-- A number or a bool, as a float. -/
  | number (x : PyFloat)
  | text (s : String)
  | other
  deriving DecidableEq, Repr

structure MessageDict where
  role : Option String := none
  content : ContentDict := .other
  toolCalls : List CallDict := []
  toolCallId : Option String := none
  timestamp : TimestampDict := .other
  deriving DecidableEq, Repr

/-! ## Texts and estimates -/

/-- `estimate_tokens`. -/
def estimateTokens (text : String) : Int :=
  if text = "" then 0 else max 1 (text.length / 4 : Nat)

def BlockDict.extract : BlockDict → Option String
  | .dict type text =>
    if type = some "text" then text
    else if type = some "image" ∨ type = some "image_url" then some "[图片]" else none
  | .object type text =>
    match text with
    | some text => some text
    | none => if type = some "image" then some "[图片]" else none

/-- `extract_text_from_content`. -/
def ContentDict.extract : ContentDict → String
  | .str text => text
  | .list blocks => String.intercalate "\n" (blocks.filterMap BlockDict.extract)
  | .other => ""

def BlockDict.estimate : BlockDict → Int
  | .dict type text =>
    if type = some "image_url" ∨ type = some "image" then 1600 else estimateTokens (text.getD "")
  | .object _ _ => 0

def ContentDict.estimate : ContentDict → Int
  | .str text => estimateTokens text
  | .list blocks => (blocks.map BlockDict.estimate).sum
  | .other => 0

def CallDict.estimate (c : CallDict) : Int :=
  match c.arguments with
  | .str text => estimateTokens c.name + estimateTokens text
  | .dict text => estimateTokens c.name + estimateTokens text
  | .other => 0

namespace MessageDict

/-- `estimate_message_tokens`. -/
def estimateTokens (m : MessageDict) : Int :=
  8 + m.content.estimate + (m.toolCalls.map CallDict.estimate).sum

/-- `estimate_messages_tokens`. -/
def estimateMessages (messages : List MessageDict) : Int :=
  (messages.map estimateTokens).sum

end MessageDict

theorem estimateTokens_nonneg (text : String) : 0 ≤ estimateTokens text := by
  unfold estimateTokens
  split
  · omega
  · omega

theorem BlockDict.estimate_nonneg (b : BlockDict) : 0 ≤ b.estimate := by
  cases b with
  | dict type text =>
    simp only [estimate]
    split
    · omega
    · exact estimateTokens_nonneg _
  | object type text => simp [estimate]

theorem CallDict.estimate_nonneg (c : CallDict) : 0 ≤ c.estimate := by
  have hname := estimateTokens_nonneg c.name
  unfold estimate
  split
  · rename_i text _
    have htext := estimateTokens_nonneg text
    omega
  · rename_i text _
    have htext := estimateTokens_nonneg text
    omega
  · omega

theorem sum_nonneg {α : Type} {f : α → Int} (hf : ∀ x, 0 ≤ f x) (xs : List α) :
    0 ≤ (xs.map f).sum := by
  induction xs with
  | nil => simp
  | cons x xs ih =>
    have hx := hf x
    simp only [List.map_cons, List.sum_cons]
    omega

theorem MessageDict.eight_le_estimate (m : MessageDict) : 8 ≤ m.estimateTokens := by
  have hcalls := sum_nonneg CallDict.estimate_nonneg m.toolCalls
  have hcontent : 0 ≤ m.content.estimate := by
    cases m.content with
    | str text => exact estimateTokens_nonneg text
    | list blocks => exact sum_nonneg BlockDict.estimate_nonneg blocks
    | other => simp [ContentDict.estimate]
  unfold estimateTokens
  omega

/-! ## The messages of a session context -/

def Role.text : Role → String
  | .user => "user"
  | .assistant => "assistant"
  | .tool => "tool"

def LlmBlock.toDict : LlmBlock → BlockDict
  | .text t => .dict (some "text") (some t)
  | .imageUrl _ => .dict (some "image_url") none

def LlmContent.toDict : LlmContent → ContentDict
  | .str s => .str s
  | .blocks bs => .list (bs.map LlmBlock.toDict)

def ToolCall.toDict (c : ToolCall) : CallDict where
  id := some c.id
  name := c.name
  arguments := .str c.arguments

def Message.toDict (m : Message) : MessageDict where
  role := some m.role.text
  content := m.content.toDict
  toolCalls := m.toolCalls.map ToolCall.toDict
  toolCallId := m.toolCallId

theorem Message.toDict_tool (m : Message) : m.toDict.role = some "tool" ↔ m.role = .tool := by
  cases hrole : m.role <;> simp [Message.toDict, Role.text, hrole]

/-- `estimate_messages_tokens` of the messages of a context. -/
def estimateMessagesTokens (messages : List Message) : Int :=
  MessageDict.estimateMessages (messages.map Message.toDict)

end PyClaw
