import PyClaw.Lib.Dict
import PyClaw.Lib.Chain
import PyClaw.Models.Agent

/-!
# Session.Tree

The session tree of `models/session.py`. Creation times and the other header fields that no
modelled function reads are left out; times are microseconds.

`getBranch` and `buildSessionContext` return `none` exactly when the `while` loop of
`get_branch` does not end (`getBranch_eq_some`).
-/

namespace PyClaw

structure SessionHeader where
  id : String
  workspaceId : String
  agentId : String
  modelOverride : Option String := none
  sessionKey : String := ""
  parentSession : Option String := none
  lastInteractionAt : Option Int := none
  idleMinutesOverride : Option Int := none
  title : Option String := none
  deriving DecidableEq, Repr

/-- `content: str | list[ContentBlock]`. -/
inductive EntryContent where
  | str (text : String)
  | blocks (blocks : List ContentBlock)
  deriving DecidableEq, Repr

/-- The fields of `MessageEntry` beyond the base; `tool_calls = None` is the empty list. -/
structure MessageBody where
  role : Role
  content : EntryContent
  toolCalls : List ToolCall := []
  toolCallId : Option String := none
  isPartial : Bool := false
  deriving DecidableEq, Repr

/-- The four entry types. -/
inductive EntryBody where
  | message (m : MessageBody)
  | compaction (summary firstKeptEntryId : String) (tokensBefore : Int)
  | modelChange (provider modelId : String)
  | custom (customType : String)
  deriving DecidableEq, Repr

/-- `SessionEntryBase` with the type-specific fields as `body`. -/
structure SessionEntry where
  id : String
  parentId : Option String
  body : EntryBody
  deriving DecidableEq, Repr

namespace SessionEntry

def message? (e : SessionEntry) : Option MessageBody :=
  match e.body with
  | .message m => some m
  | _ => none

def isCompaction (e : SessionEntry) : Bool :=
  match e.body with
  | .compaction _ _ _ => true
  | _ => false

def isTool (e : SessionEntry) : Bool :=
  match e.body with
  | .message m => m.role = .tool
  | _ => false

end SessionEntry

structure SessionTree where
  header : SessionHeader
  entries : Dict String SessionEntry := Dict.empty
  order : List String := []
  leafId : Option String := none
  deriving DecidableEq

namespace SessionTree

/-- `if not from_id` reads `None` and `""` alike. -/
def truthy : Option String → Option String
  | some s => if s = "" then none else some s
  | none => none

/-- `get_branch(from_id)`: from the entry to its root, root first. -/
def getBranch (t : SessionTree) (fromId : Option String := none) : Option (List SessionEntry) :=
  (walk t.entries.get? SessionEntry.parentId (t.entries.keys.length + 1)
    ((truthy fromId).or t.leafId)).map List.reverse

theorem getBranch_eq_some {t : SessionTree} {b : List SessionEntry} :
    t.getBranch = some b ↔ Path t.entries.get? SessionEntry.parentId t.leafId b.reverse := by
  have hkeys : ∀ k v, t.entries.get? k = some v → k ∈ t.entries.keys :=
    fun _ _ => Dict.mem_keys_of_get?
  rw [getBranch, Option.map_eq_some_iff]
  simp only [truthy, Option.none_or]
  constructor
  · rintro ⟨p, hp, rfl⟩
    rw [List.reverse_reverse]
    exact (walk_eq_some_iff hkeys).mp hp
  · intro h
    exact ⟨b.reverse, (walk_eq_some_iff hkeys).mpr h, List.reverse_reverse b⟩

end SessionTree

/-! ## Message dictionaries -/

/-- A text block is dropped when `not block.text.strip()`. -/
def blankText (isSpace : Char → Bool) (s : String) : Bool := s.toList.all isSpace

def contentBlocksToLlm (py : PyText) (blocks : List ContentBlock) : List LlmBlock :=
  blocks.filterMap fun
    | .image data mime => some (.imageUrl ("data:" ++ mime ++ ";base64," ++ data))
    | .text t => if blankText py.isSpace t then none else some (.text t)

def messageEntryToDict (py : PyText) (m : MessageBody) : Message where
  role := m.role
  content :=
    match m.content with
    | .str s => if m.role = .tool then .blocks [.text s] else .str s
    | .blocks bs => .blocks (contentBlocksToLlm py bs)
  toolCalls := m.toolCalls
  toolCallId := SessionTree.truthy m.toolCallId

/-- The message of an entry, if it is a message entry. -/
def entryMessage? (py : PyText) (e : SessionEntry) : Option Message :=
  e.message?.map (messageEntryToDict py)

/-! ## `build_session_context` -/

/-- Splits a branch at its last compaction entry. -/
def lastCompaction : List SessionEntry → Option (List SessionEntry × SessionEntry × List SessionEntry)
  | [] => none
  | e :: rest =>
    match lastCompaction rest with
    | some (before, c, after) => some (e :: before, c, after)
    | none => if e.isCompaction then some ([], e, rest) else none

def summaryMessage (summary : String) : Message where
  role := .assistant
  content := .str ("[Previous conversation summary]\n" ++ summary)

/-- The entries a branch contributes after its last compaction entry `c`: from the first kept
entry on, or those after `c` when the kept id is not on the branch. -/
def keptTail (branch after : List SessionEntry) (firstKept : String) : List SessionEntry :=
  match branch.dropWhile (fun e => e.id ≠ firstKept) with
  | [] => after
  | tail => tail

/-- `isinstance(entry, MessageEntry) and entry.id != compaction.id`. -/
def keptMessage? (py : PyText) (c e : SessionEntry) : Option Message :=
  if e.id = c.id then none else entryMessage? py e

/-- The message list of a branch, as `build_session_context` computes it. -/
def branchContext (py : PyText) (branch : List SessionEntry) : List Message :=
  match lastCompaction branch with
  | some (_, c, after) =>
    match c.body with
    | .compaction summary firstKept _ =>
      summaryMessage summary :: (keptTail branch after firstKept).filterMap (keptMessage? py c)
    | _ => []
  | none => branch.filterMap (entryMessage? py)

def SessionTree.buildSessionContext (py : PyText) (t : SessionTree) : Option (List Message) :=
  t.getBranch.map (branchContext py)

end PyClaw
