import Mathlib.Data.List.DropRight
import PyClaw.Session.Tree

/-!
# Session.Export

`render_session_markdown`: the current branch as text, with the result of each tool call below the call. The
results are looked up by call id in one table for the whole branch, and ids repeat between turns.

* `get?_toolResponses`: the table has the last tool message of each id.
* `exportedMessages_fst`: the messages that are shown are those of the branch, in order.
* `export_own_iff`: every call is shown with its own result exactly if the last tool message with its id
  says the same.
-/

namespace PyClaw

/-- What the export writes and the model of the session leaves out. -/
structure ExportTexts where
  createdAt : String
  timestamp : SessionEntry → String
  /-- `json.dumps(entry.data or {}, ..)` of a custom entry. -/
  customData : SessionEntry → String

/-! ## Text -/

def imageDataPreview : Nat := 256

def formatBlock : ContentBlock → String
  | .text text => text
  | .image data mimeType =>
    "[image: " ++ mimeType ++ ", " ++ String.ofList (data.toList.take imageDataPreview) ++ "…]"

/-- `_format_content`. -/
def formatContent : EntryContent → String
  | .str text => text
  | .blocks blocks => "\n".intercalate (blocks.map formatBlock)

def isLineBreak (c : Char) : Bool :=
  c ∈ ['\n', '\r', '\x0b', '\x0c', '\x1c', '\x1d', '\x1e', '\u0085', '\u2028', '\u2029']

/-- `str.splitlines`, in the middle of a line. -/
def splitlinesFrom (line : List Char) : List Char → List (List Char)
  | [] => if line = [] then [] else [line]
  | '\r' :: '\n' :: rest => line :: splitlinesFrom [] rest
  | c :: rest =>
    if isLineBreak c then line :: splitlinesFrom [] rest else splitlinesFrom (line ++ [c]) rest

/-- `_indent`. -/
def indent (text : String) (n : Nat) : String :=
  "\n".intercalate ((splitlinesFrom [] text.toList).map fun line =>
    String.ofList (List.replicate n ' ' ++ line))

def roleLabel : Role → String
  | .user => "USER"
  | .assistant => "ASSISTANT"
  | .tool => "TOOL"

/-! ## The table of results -/

/-- A tool message with an id. -/
def toolResponse? (e : SessionEntry) : Option (String × MessageBody) :=
  match e.message? with
  | some m =>
    if m.role = .tool then
      match m.toolCallId with
      | some id => if id = "" then none else some (id, m)
      | none => none
    else none
  | none => none

/-- `tool_responses`; of several tool messages with one id the last one stays. -/
def toolResponses (branch : List SessionEntry) : Dict String MessageBody :=
  (branch.filterMap toolResponse?).foldl (fun d p => d.set p.1 p.2) Dict.empty

/-! ## Sections -/

/-- The text that stands below a call. -/
def resultText (m : MessageBody) : String := indent (formatContent m.content) 4

inductive ExportSection where
  /-- A user's or an assistant's message, with the text below each call. -/
  | message (e : SessionEntry) (m : MessageBody) (calls : List (ToolCall × Option String))
  | compaction (e : SessionEntry) (summary firstKeptEntryId : String) (tokensBefore : Int)
  | modelChange (e : SessionEntry) (provider modelId : String)
  | custom (e : SessionEntry) (customType : String)

/-- What the loop shows of an entry; tool messages are shown with their calls only. -/
def sectionOf (responses : Dict String MessageBody) (e : SessionEntry) : Option ExportSection :=
  match e.body with
  | .message m =>
    if m.role = .tool then none
    else some (.message e m (m.toolCalls.map fun tc => (tc, (responses.get? tc.id).map resultText)))
  | .compaction summary firstKept tokensBefore => some (.compaction e summary firstKept tokensBefore)
  | .modelChange provider modelId => some (.modelChange e provider modelId)
  | .custom customType => some (.custom e customType)

def heading (texts : ExportTexts) (label : String) (e : SessionEntry) : String :=
  "## " ++ label ++ " — `" ++ e.id ++ "` (" ++ texts.timestamp e ++ ")"

def toolCallLines (tc : ToolCall) (result : Option String) : List String :=
  ["- `" ++ tc.name ++ "` (id=`" ++ tc.id ++ "`)", "  - args: `" ++ tc.arguments ++ "`"] ++
    match result with
    | some text => ["  - result:", text]
    | none => []

def sectionLines (texts : ExportTexts) : ExportSection → List String
  | .message e m calls =>
    [heading texts (roleLabel m.role ++ if m.isPartial then " (interrupted)" else "") e, "",
      formatContent m.content] ++
      if calls = [] then []
      else ["", "**Tool calls**:"] ++ calls.flatMap fun c => toolCallLines c.1 c.2
  | .compaction e summary firstKept tokensBefore =>
    [heading texts "COMPACTION" e, "", "- Tokens before: " ++ toString tokensBefore,
      "- First kept entry: `" ++ firstKept ++ "`", "", "**Summary**:", "", summary]
  | .modelChange e provider modelId =>
    [heading texts "MODEL_CHANGE" e, "", "- Provider: `" ++ provider ++ "`",
      "- Model: `" ++ modelId ++ "`"]
  | .custom e customType =>
    [heading texts "CUSTOM" e, "", "- Custom type: `" ++ customType ++ "`", "", "```json",
      texts.customData e, "```"]

def headerLines (texts : ExportTexts) (header : SessionHeader) : List String :=
  ["# Session `" ++ header.id ++ "`", "", "- Workspace: `" ++ header.workspaceId ++ "`",
    "- Agent: `" ++ header.agentId ++ "`", "- Created: " ++ texts.createdAt] ++
    (SessionTree.truthy header.parentSession).toList.map (fun id => "- Parent session: `" ++ id ++ "`") ++
    (SessionTree.truthy header.modelOverride).toList.map (fun id => "- Model override: `" ++ id ++ "`") ++ [""]

def exportSections (branch : List SessionEntry) : List ExportSection :=
  branch.filterMap (sectionOf (toolResponses branch))

def renderSessionMarkdown (texts : ExportTexts) (py : PyText) (tree : SessionTree) : Option String :=
  tree.getBranch.map fun branch =>
    let lines := headerLines texts tree.header ++
      (exportSections branch).flatMap fun s => sectionLines texts s ++ [""]
    String.ofList (("\n".intercalate lines).toList.rdropWhile py.isSpace) ++ "\n"

/-! ## What is shown -/

/-- A user's or an assistant's message. -/
def spoken? (e : SessionEntry) : Option MessageBody :=
  match e.body with
  | .message m => if m.role = .tool then none else some m
  | _ => none

/-- The messages that the export shows, with the text below each call. -/
def exportedMessages (branch : List SessionEntry) : List (SessionEntry × List (ToolCall × Option String)) :=
  (exportSections branch).filterMap fun
    | .message e _ calls => some (e, calls)
    | _ => none

/-- The tool messages of a turn: those before the next message of a user or an assistant. -/
def ownTurn (after : List SessionEntry) : List MessageBody :=
  (after.takeWhile fun e => (spoken? e).isNone).filterMap SessionEntry.message?

/-- The results of a message's calls; equal ids in one message are told apart by their order. -/
def ownResults (m : MessageBody) (after : List SessionEntry) : List (ToolCall × Option MessageBody) :=
  m.toolCalls.zipIdx.map fun (tc, i) =>
    (tc, ((ownTurn after).filter fun r => r.toolCallId = some tc.id)[
      (m.toolCalls.take i).countP fun earlier => earlier.id = tc.id]?)

/-- The messages with the results recorded in their own turns. -/
def ownMessages : List SessionEntry → List (SessionEntry × List (ToolCall × Option String))
  | [] => []
  | e :: after =>
    match spoken? e with
    | some m => (e, (ownResults m after).map fun p => (p.1, p.2.map resultText)) :: ownMessages after
    | none => ownMessages after

/-- Every message once and in order, every call with its own result. -/
structure ShowsOwn (branch : List SessionEntry) : Prop where
  messages : (exportedMessages branch).map Prod.fst = branch.filter fun e => (spoken? e).isSome
  results : exportedMessages branch = ownMessages branch

/-- The last tool message of the branch that has the id. -/
def lastResponse (branch : List SessionEntry) (id : String) : Option MessageBody :=
  ((branch.filterMap toolResponse?).filter fun p => p.1 = id).getLast?.map Prod.snd

/-- The last tool message with the call's id says what the call's own result says. -/
def Told (branch : List SessionEntry) (tc : ToolCall) : Option MessageBody → Prop
  | some own => ∃ last, lastResponse branch tc.id = some last ∧ resultText last = resultText own
  | none => lastResponse branch tc.id = none

/-! ## The table -/

theorem get?_foldl_set (l : List (String × MessageBody)) (d : Dict String MessageBody) (id : String) :
    (l.foldl (fun d p => d.set p.1 p.2) d).get? id =
      ((l.filter fun p => p.1 = id).getLast?.map Prod.snd).or (d.get? id) := by
  induction l generalizing d with
  | nil => simp
  | cons p rest ih =>
    rw [List.foldl_cons, ih, Dict.get?_set]
    by_cases hid : p.1 = id
    · rw [if_pos hid, List.filter_cons_of_pos (by simpa using hid), List.getLast?_cons]
      cases (rest.filter fun p => p.1 = id).getLast? with
      | none => rfl
      | some q => rfl
    · rw [if_neg hid, List.filter_cons_of_neg (by simpa using hid)]

theorem get?_toolResponses (branch : List SessionEntry) (id : String) :
    (toolResponses branch).get? id = lastResponse branch id := by
  rw [toolResponses, get?_foldl_set, lastResponse]
  exact Option.or_none

/-! ## Messages -/

/-- The messages, with the texts that a look-up by id finds. -/
def messagesWith (find : String → Option String) (branch : List SessionEntry) :
    List (SessionEntry × List (ToolCall × Option String)) :=
  branch.filterMap fun e => (spoken? e).map fun m => (e, m.toolCalls.map fun tc => (tc, find tc.id))

theorem exportedMessages_eq (branch : List SessionEntry) :
    exportedMessages branch =
      messagesWith (fun id => (lastResponse branch id).map resultText) branch := by
  rw [exportedMessages, exportSections, messagesWith, List.filterMap_filterMap]
  refine List.filterMap_congr fun e _ => ?_
  rw [spoken?, sectionOf]
  cases e.body with
  | message m =>
    by_cases hrole : m.role = .tool
    · simp [hrole]
    · simp [hrole, get?_toolResponses]
  | compaction | modelChange | custom => rfl

theorem map_fst_messagesWith (find : String → Option String) (branch : List SessionEntry) :
    (messagesWith find branch).map Prod.fst = branch.filter fun e => (spoken? e).isSome := by
  induction branch with
  | nil => rfl
  | cons e rest ih =>
    rw [messagesWith, List.filterMap_cons, ← messagesWith, List.filter_cons]
    cases spoken? e with
    | none => simpa using ih
    | some m => simpa using ih

theorem map_fst_ownResults (m : MessageBody) (after : List SessionEntry) :
    (ownResults m after).map Prod.fst = m.toolCalls := by
  rw [ownResults, List.map_map]
  exact List.zipIdx_map_fst 0 m.toolCalls

/-- A look-up finds the own results exactly if it does so for each call. -/
theorem messagesWith_eq_iff (find : String → Option String) (branch : List SessionEntry) :
    messagesWith find branch = ownMessages branch ↔
      ∀ e after, e :: after <:+ branch → ∀ m, spoken? e = some m →
        ∀ p ∈ ownResults m after, find p.1.id = p.2.map resultText := by
  induction branch with
  | nil => simp [messagesWith, ownMessages]
  | cons e rest ih =>
    have hsuffix : ∀ e' after, e' :: after <:+ e :: rest ↔ e' :: after = e :: rest ∨ e' :: after <:+ rest :=
      fun e' after => List.suffix_cons_iff
    simp only [hsuffix]
    rw [messagesWith, List.filterMap_cons, ← messagesWith, ownMessages]
    cases hspoken : spoken? e with
    | none =>
      simp only [Option.map_none]
      rw [ih]
      constructor
      · rintro h e' after (hhead | hlater) m hm
        · cases hhead
          rw [hspoken] at hm
          cases hm
        · exact h e' after hlater m hm
      · exact fun h e' after hlater => h e' after (.inr hlater)
    | some m =>
      simp only [Option.map_some, List.cons.injEq, Prod.mk.injEq, true_and]
      rw [ih, ← map_fst_ownResults m rest, List.map_map, List.map_inj_left]
      constructor
      · rintro ⟨hown, hrest⟩ e' after (⟨rfl, rfl⟩ | hlater) m' hm' p hp
        · rw [hspoken] at hm'
          cases hm'
          have hpair := hown p hp
          simpa using hpair
        · exact hrest e' after hlater m' hm' p hp
      · intro h
        refine ⟨fun p hp => ?_, fun e' after hlater => h e' after (.inr hlater)⟩
        have htext := h e rest (.inl ⟨rfl, rfl⟩) m hspoken p hp
        simpa using htext

theorem told_iff {branch : List SessionEntry} {tc : ToolCall} {own : Option MessageBody} :
    (lastResponse branch tc.id).map resultText = own.map resultText ↔ Told branch tc own := by
  cases own with
  | none => simp [Told]
  | some r => simp [Told, Option.map_eq_some_iff]

/-- For every session: each call is shown with its own result exactly if the last tool message of the branch
with its id says the same. -/
theorem export_own_iff (tree : SessionTree) :
    (∀ branch, tree.getBranch = some branch → ShowsOwn branch) ↔
      ∀ branch, tree.getBranch = some branch → ∀ e after, e :: after <:+ branch →
        ∀ m, spoken? e = some m → ∀ p ∈ ownResults m after, Told branch p.1 p.2 := by
  refine forall_congr' fun branch => forall_congr' fun _ => ?_
  have hiff := messagesWith_eq_iff (fun id => (lastResponse branch id).map resultText) branch
  rw [← exportedMessages_eq] at hiff
  constructor
  · intro h e after hsuffix m hm p hp
    exact told_iff.mp (hiff.mp h.results e after hsuffix m hm p hp)
  · intro h
    refine ⟨?_, hiff.mpr fun e after hsuffix m hm p hp => told_iff.mpr (h e after hsuffix m hm p hp)⟩
    rw [exportedMessages_eq]
    exact map_fst_messagesWith _ branch

/-! ## A session with repeated ids -/

def toolMessage (text : String) : EntryBody :=
  .message { role := .tool, content := .str text, toolCallId := some "call_0" }

def callMessage : EntryBody :=
  .message { role := .assistant, content := .str "", toolCalls := [⟨"call_0", "date", "\x7b\x7d"⟩] }

/-- Two turns with a call without an id each. -/
def twoDates : SessionTree where
  header := { id := "s", workspaceId := "w", agentId := "a" }
  entries := (((Dict.empty.set "1" ⟨"1", none, callMessage⟩).set "2" ⟨"2", some "1", toolMessage "Monday"⟩).set
    "3" ⟨"3", some "2", callMessage⟩).set "4" ⟨"4", some "3", toolMessage "Tuesday"⟩
  order := ["1", "2", "3", "4"]
  leafId := some "4"

/-- The first call is shown with the result of the second. -/
theorem twoDates_not_own : ¬ ∀ branch, twoDates.getBranch = some branch → ShowsOwn branch := by
  intro h
  have hown := (h _ (by rfl)).results
  exact absurd hown (by decide +kernel)

end PyClaw
