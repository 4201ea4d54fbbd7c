import PyClaw.Memory.Sqlite
import PyClaw.Tools.Dispatch

/-!
# Memory.Tools

`MemorizeTool` and `ForgetTool` (`core/agent/tools`). Both load the session and look for evidence
of a tool use before they touch the memory; the part up to that point is `memorize` and `forget`,
whose errors are the early returns.

* `reachesMemory_iff`: on which sessions a call gets past the guard.
* `forgetExecute_refused`: a refused call leaves the database as it was.
-/

namespace PyClaw

/-- The arguments of a call. -/
abbrev ToolArgs := List (String × Json)

/-- `args.get("_call_id", "")`. -/
def callIdOf (args : ToolArgs) : String :=
  match args.lookup "_call_id" with
  | some (.str s) => s
  | _ => ""

/-- `session_store.load`. -/
inductive LoadReply where
  | raises (message : String)
  | returns (tree : Option SessionTree)

/-- What the tools take from the standard library, and the drawn id and the clock. -/
structure MemoryToolEnv where
  py : PyText
  /-- `repr` of an argument. -/
  reprJson : Json → String
  uuid : String
  now : Int

def SessionEntry.isToolMessage (e : SessionEntry) : Bool :=
  match e.message? with
  | some m => m.role = .tool
  | none => false

/-- `_has_non_error_tool_use`, the same in both tools. -/
def hasNonErrorToolUse (tree : SessionTree) : Bool := tree.entries.values.any (·.isToolMessage)

/-! ## memorize -/

def layerOf : Option Json → Option MemoryLayer
  | some (.str "L2") => some .l2
  | some (.str "L3") => some .l3
  | _ => none

/-- The key and the entry that `execute` of `MemorizeTool` hands to the memory store. -/
def memorize (env : MemoryToolEnv) (args : ToolArgs) (sessionId : String) (load : LoadReply) :
    Except ToolOutcome (String × MemoryEntry) :=
  let refuse := fun message => .error (.returns (errorResult (callIdOf args) message))
  match args.lookup "content" with
  | some (.str content) =>
    if blankText env.py.isSpace content then refuse "memorize: 'content' must be a non-empty string"
    else
      match layerOf (args.lookup "layer") with
      | none =>
        refuse ("memorize: 'layer' must be 'L2' or 'L3', got " ++
          env.reprJson ((args.lookup "layer").getD .null))
      | some layer =>
        match load with
        | .raises message => refuse ("memorize: failed to load session: " ++ message)
        | .returns none =>
          refuse "memorize: requires prior tool execution in this session (session not found)"
        | .returns (some tree) =>
          if hasNonErrorToolUse tree then
            match (args.lookup "type").getD (.str "general") with
            | .str entryType =>
              .ok (deriveSessionKey sessionId,
                { id := env.uuid, layer := layer, type := entryType, content := content
                  sourceSessionId := some sessionId, createdAt := env.now, updatedAt := env.now })
            | _ => .error (.raises "ValidationError" "type: Input should be a valid string")
          else
            refuse "memorize: requires at least one successful tool execution before memorizing"
  | _ => refuse "memorize: 'content' must be a non-empty string"

/-- `MemorizeTool.execute`; `store` gives the text of what it raises. -/
def memorizeExecute (env : MemoryToolEnv) (store : String → MemoryEntry → Option String)
    (args : ToolArgs) (sessionId : String) (load : LoadReply) : ToolOutcome :=
  match memorize env args sessionId load with
  | .error outcome => outcome
  | .ok (sessionKey, e) =>
    match store sessionKey e with
    | some message =>
      .returns (errorResult (callIdOf args) ("memorize: store failed: " ++ message))
    | none =>
      .returns {
        toolCallId := callIdOf args
        content := [.text ("memorized (" ++ e.layer.name ++ "/" ++ e.type ++ "): " ++
          String.ofList (e.content.toList.take 80) ++ (if 80 < e.content.length then "..." else ""))] }

/-! ## forget -/

/-- `args.get(key, "").strip()`. -/
def strippedArg (py : PyText) (args : ToolArgs) (key : String) : Except ToolOutcome String :=
  match (args.lookup key).getD (.str "") with
  | .str s => .ok (String.ofList (strip py.isSpace s.toList))
  | _ => .error (.raises "AttributeError" "object has no attribute 'strip'")

/-- The key, the id and the reason with which `execute` of `ForgetTool` turns to the memory. -/
def forget (env : MemoryToolEnv) (args : ToolArgs) (sessionId : String) (load : LoadReply) :
    Except ToolOutcome (String × String × String) := do
  let entryId ← strippedArg env.py args "entry_id"
  let reason ← strippedArg env.py args "reason"
  let refuse := fun message => .error (.returns (errorResult (callIdOf args) message))
  if entryId = "" then refuse "forget: 'entry_id' 必填"
  else if reason = "" then refuse "forget: 'reason' 必填，请说明归档原因"
  else
    match load with
    | .raises message => refuse ("forget: 加载 session 失败: " ++ message)
    | .returns none => refuse "forget: 需要先在当前 session 执行过工具才能使用遗忘功能"
    | .returns (some tree) =>
      if hasNonErrorToolUse tree then .ok (deriveSessionKey sessionId, entryId, reason)
      else refuse "forget: 需要先在当前 session 成功执行过至少一次工具"

section
variable {V : Type}

/-- The two statements of `_resolve_entry_id`: a full id, or the beginning of one. -/
def matchingEntries (db : Database V) (entryId : String) : List (String × ProcedureRow) :=
  db.procedures.items.filter fun p => p.2.status = "active" &&
    if 32 ≤ entryId.length then p.1 = entryId
    else Database.textLike (entryId ++ "%") p.1

/-- `_resolve_entry_id`: the id and the content, or the message of the error. -/
def resolveEntryId (db : Database V) (entryId : String) : Except String (String × String) :=
  match matchingEntries db entryId with
  | [] => .error ("forget: 未找到 ID 匹配 '" ++ entryId ++ "' 的活跃条目")
  | [p] => .ok (p.1, p.2.content)
  | entries => .error ("forget: '" ++ entryId ++ "' 匹配多条记录(" ++ toString entries.length ++
      "条)，请提供更长的 ID")

/-- `ForgetTool.execute` on the database of the session key. -/
def forgetExecute (env : MemoryToolEnv) (args : ToolArgs) (sessionId : String) (load : LoadReply)
    (db : Database V) : ToolOutcome × Database V :=
  match forget env args sessionId load with
  | .error outcome => (outcome, db)
  | .ok (_, entryId, reason) =>
    match resolveEntryId db entryId with
    | .error message => (.returns (errorResult (callIdOf args) message), db)
    | .ok (fullId, content) =>
      match db.archiveEntry fullId reason env.now with
      | (false, db) =>
        (.returns (errorResult (callIdOf args)
          ("forget: 条目 '" ++ entryId ++ "' 已处于归档状态或不存在")), db)
      | (true, db) =>
        let preview := if 50 < content.length then String.ofList (content.toList.take 50) ++ "..."
          else content
        (.returns {
          toolCallId := callIdOf args
          content := [.text ("已归档: " ++ preview ++ "\n原因: " ++ reason)] }, db)

end

/-! ## The guard -/

theorem memorize_guarded {env : MemoryToolEnv} {args : ToolArgs} {sessionId : String}
    {load : LoadReply} {p : String × MemoryEntry} (h : memorize env args sessionId load = .ok p) :
    ∃ tree, load = .returns (some tree) ∧ hasNonErrorToolUse tree = true := by
  unfold memorize at h
  dsimp only at h
  split at h
  · split at h
    · cases h
    · split at h
      · cases h
      · split at h
        · cases h
        · cases h
        · rename_i tree
          split at h
          · exact ⟨tree, rfl, ‹_›⟩
          · cases h
  · cases h

theorem forget_guarded {env : MemoryToolEnv} {args : ToolArgs} {sessionId : String}
    {load : LoadReply} {p : String × String × String} (h : forget env args sessionId load = .ok p) :
    ∃ tree, load = .returns (some tree) ∧ hasNonErrorToolUse tree = true := by
  unfold forget at h
  cases hid : strippedArg env.py args "entry_id" with
  | error e => rw [hid] at h; cases h
  | ok entryId =>
    cases hreason : strippedArg env.py args "reason" with
    | error e => rw [hid, hreason] at h; cases h
    | ok reason =>
      rw [hid, hreason] at h
      simp only [bind, Except.bind] at h
      split at h
      · cases h
      · split at h
        · cases h
        · split at h
          · cases h
          · cases h
          · rename_i tree
            split at h
            · exact ⟨tree, rfl, ‹_›⟩
            · cases h

/-- A call of one of the tools on this session gets past the guard. -/
def ReachesMemory (sessionId : String) (tree : SessionTree) : Prop :=
  (∃ env args p, memorize env args sessionId (.returns (some tree)) = .ok p) ∨
    ∃ env args p, forget env args sessionId (.returns (some tree)) = .ok p

theorem reachesMemory_iff {sessionId : String} {tree : SessionTree} :
    ReachesMemory sessionId tree ↔ hasNonErrorToolUse tree = true := by
  constructor
  · rintro (⟨env, args, p, h⟩ | ⟨env, args, p, h⟩)
    · obtain ⟨_, hload, htool⟩ := memorize_guarded h
      cases hload
      exact htool
    · obtain ⟨_, hload, htool⟩ := forget_guarded h
      cases hload
      exact htool
  · intro h
    let env : MemoryToolEnv := { py := .ascii, reprJson := fun _ => "", uuid := "", now := 0 }
    have hblank : blankText env.py.isSpace "fact" = false := by decide
    refine .inl ⟨env, [("content", .str "fact"), ("layer", .str "L2")],
      (deriveSessionKey sessionId, ⟨"", .l2, "general", "fact", some sessionId, 0, 0, none, 0,
        "active", none⟩), ?_⟩
    simp only [memorize, List.lookup_cons, List.lookup_nil, layerOf]
    simp [hblank, h, env]

/-- A refused call changes nothing. -/
theorem forgetExecute_refused {V : Type} {env : MemoryToolEnv} {args : ToolArgs} {sessionId : String}
    {tree : SessionTree} (db : Database V) (h : hasNonErrorToolUse tree = false) :
    (forgetExecute env args sessionId (.returns (some tree)) db).2 = db := by
  unfold forgetExecute
  cases hforget : forget env args sessionId (.returns (some tree)) with
  | error outcome => rfl
  | ok p =>
    obtain ⟨_, hload, htool⟩ := forget_guarded hforget
    cases hload
    rw [h] at htool
    cases htool

end PyClaw
