import PyClaw.Lib.Dict
import PyClaw.Lib.Text
import PyClaw.Agent.Hooks

/-!
# Tools.Registry

`ToolRegistry` (`core/agent/tools/registry.py`) and the two places where an MCP tool gets its
name: the settings validator and `MCPToolAdapter`.

A registered MCP tool `server:tool` is offered to the model as `server__tool`; `get` turns the
first `__` of an unknown name back into `:`. What `register` checked is carried by the registry
as a field.
-/

namespace PyClaw

structure McpServerConfig where
  trustAnnotations : Bool := true
  forcedToolClass : Option String := none
  forcedTier : Option PermissionTier := none
  deriving DecidableEq, Repr

structure Tool where
  name : String
  description : String := ""
  parameters : List (String × Json) := []
  sideEffect : Bool := true
  /-- `getattr(tool, "tool_class", None)`. -/
  toolClass : Option String
  /-- `some` exactly when the object has a `server_config` attribute. -/
  serverConfig : Option McpServerConfig := none
  serverName : Option String := none
  maxOutputChars : Option Int := none

def Tool.isMcpImported (t : Tool) : Bool := t.serverConfig.isSome

/-! ## Names -/

def sep : List Char := ['_', '_']

/-- `"__" in name`. -/
def hasSep (name : String) : Bool := occurs sep name.toList

/-- `name.split(":", 1)[0]`. -/
def serverPart (name : String) : String := String.ofList (name.toList.takeWhile (· ≠ ':'))

/-- The name in `_to_openai_function`: `name.replace(":", "__")`. -/
def llmName (name : String) : String :=
  if ':' ∈ name.toList then String.ofList (replaceEach ':' sep name.toList) else name

/-- `name.replace("__", ":", 1)`. -/
def canonicalOf (name : String) : String := String.ofList (replaceFirst sep [':'] name.toList)

def validToolClasses : List String := ["memory-write-safe", "read", "write"]

/-! ## Where MCP names come from -/

/-- `McpSettings._validate_server_keys`. -/
def validateServerKeys (py : PyText) : List String → Except String Unit
  | [] => .ok ()
  | key :: rest =>
    if ':' ∈ key.toList then .error (serverKeyError py key ":")
    else if hasSep key then .error (serverKeyError py key "__")
    else validateServerKeys py rest
where
  serverKeyError (py : PyText) (key forbidden : String) : String :=
    "MCP server config key " ++ py.repr key ++ " must not contain " ++ py.repr forbidden ++
      " (reserved for the canonical '{server}:{tool}' namespace and the LLM-API '__' rewrite)."

/-- The part of `mcp.types.Tool` that the adapter reads. -/
structure RemoteTool where
  name : String
  description : Option String := none
  inputSchema : List (String × Json) := []
  /-- `annotations.readOnlyHint`, `none` when there are no annotations or no hint. -/
  readOnlyHint : Option Bool := none

/-- `_derive_tool_class`. -/
def deriveToolClass (cfg : McpServerConfig) (readOnlyHint : Option Bool) : String :=
  match cfg.forcedToolClass with
  | some cls => cls
  | none => if cfg.trustAnnotations && readOnlyHint == some true then "read" else "write"

/-- `MCPToolAdapter.__post_init__`. -/
def mcpToolAdapter (py : PyText) (server : String) (cfg : McpServerConfig) (remote : RemoteTool) :
    Except String Tool :=
  if ':' ∈ remote.name.toList then
    .error ("MCP tool " ++ py.repr server ++ ":" ++ py.repr remote.name ++
      " rejected: remote tool name must not contain ':' (conflicts with namespace separator)")
  else
    let cls := deriveToolClass cfg remote.readOnlyHint
    .ok {
      name := server ++ ":" ++ remote.name
      description := remote.description.getD ""
      parameters := if remote.inputSchema.isEmpty then
          [("type", .str "object"), ("properties", .obj [])] else remote.inputSchema
      sideEffect := cls != "read"
      toolClass := some cls
      serverConfig := some cfg
      serverName := some server }

/-! ## The registry -/

/-- The checks of `register` on the tool itself; its error is the message raised. -/
def checkTool (py : PyText) (t : Tool) : Except String Unit :=
  if ¬ (∃ cls ∈ validToolClasses, t.toolClass = some cls) then
    .error ("tool " ++ py.repr t.name ++ " missing or invalid tool_class (got " ++
      (match t.toolClass with | some cls => py.repr cls | none => "None") ++
      "; expected one of ['memory-write-safe', 'read', 'write'])")
  else if !t.isMcpImported && hasSep t.name then
    .error ("non-MCP tool " ++ py.repr t.name ++
      " must not contain '__' (reserved for the LLM-API ':' → '__' rewrite output)")
  else if ':' ∈ t.name.toList ∧ !t.isMcpImported then
    .error ("non-MCP tool " ++ py.repr t.name ++
      " must not contain ':' (reserved for the canonical '{server}:{tool}' MCP namespace)")
  else if t.isMcpImported ∧ t.name.toList.count ':' ≠ 1 then
    .error ("MCP-imported tool " ++ py.repr t.name ++
      " must contain exactly one ':' (canonical form is '{server}:{tool}')")
  else if t.isMcpImported && hasSep (serverPart t.name) then
    .error ("MCP-imported tool " ++ py.repr t.name ++
      " server prefix must not contain '__' (would collide with the LLM-API rewrite)")
  else .ok ()

/-- What `checkTool` accepts. -/
structure Registrable (t : Tool) : Prop where
  toolClass : ∃ cls ∈ validToolClasses, t.toolClass = some cls
  native : t.isMcpImported = false → hasSep t.name = false ∧ ':' ∉ t.name.toList
  mcp : t.isMcpImported = true → t.name.toList.count ':' = 1 ∧ hasSep (serverPart t.name) = false

theorem checkTool_ok_iff {py : PyText} {t : Tool} : checkTool py t = .ok () ↔ Registrable t := by
  unfold checkTool
  cases hm : t.isMcpImported
  · constructor
    · intro h
      split at h
      · cases h
      · rename_i hcls
        split at h
        · cases h
        · rename_i hsep
          split at h
          · cases h
          · rename_i hcolon
            exact ⟨not_not.mp hcls, fun _ => ⟨by simpa using hsep, by simpa using hcolon⟩,
              fun h => by simp [hm] at h⟩
    · intro h
      obtain ⟨hsep, hcolon⟩ := h.native hm
      rw [if_neg (not_not.mpr h.toolClass)]
      simp [hsep, hcolon]
  · constructor
    · intro h
      split at h
      · cases h
      · rename_i hcls
        simp only [Bool.not_true, Bool.false_and, Bool.false_eq_true, and_false, if_false, true_and,
          Bool.true_and] at h
        split at h
        · cases h
        · rename_i hcount
          split at h
          · cases h
          · rename_i hsep
            exact ⟨not_not.mp hcls, fun h => by simp [hm] at h,
              fun _ => ⟨not_not.mp hcount, by simpa using hsep⟩⟩
    · intro h
      obtain ⟨hcount, hsep⟩ := h.mcp hm
      rw [if_neg (not_not.mpr h.toolClass)]
      simp [hcount, hsep]

structure ToolRegistry where
  tools : Dict String Tool
  keyed : ∀ p ∈ tools.items, p.2.name = p.1
  valid : ∀ p ∈ tools.items, Registrable p.2

namespace ToolRegistry

def empty : ToolRegistry :=
  ⟨Dict.empty, fun _ h => absurd h List.not_mem_nil, fun _ h => absurd h List.not_mem_nil⟩

/-- `register`. -/
def register (py : PyText) (r : ToolRegistry) (t : Tool) : Except String ToolRegistry :=
  if hn : t.name ∈ r.tools.keys then
    .error ("tool " ++ py.repr t.name ++ " already registered")
  else
    match hc : checkTool py t with
    | .error msg => .error msg
    | .ok () =>
      have hitems := Dict.items_set_of_not_mem t hn
      .ok {
        tools := r.tools.set t.name t
        keyed := fun p hp => by
          rw [hitems, List.mem_append, List.mem_singleton] at hp
          rcases hp with hp | rfl
          · exact r.keyed p hp
          · rfl
        valid := fun p hp => by
          rw [hitems, List.mem_append, List.mem_singleton] at hp
          rcases hp with hp | rfl
          · exact r.valid p hp
          · exact checkTool_ok_iff.mp hc }

/-- `unregister`, with its Boolean answer. -/
def unregister (r : ToolRegistry) (name : String) : ToolRegistry × Bool :=
  (⟨r.tools.erase name, fun p hp => r.keyed p (Dict.mem_items_erase.mp hp).1,
      fun p hp => r.valid p (Dict.mem_items_erase.mp hp).1⟩, r.tools.contains name)

/-- `get`: the lookup that execution uses. -/
def get (r : ToolRegistry) (name : String) : Option Tool :=
  if name = "" then none
  else
    match r.tools.get? name with
    | some t => some t
    | none => if hasSep name then r.tools.get? (canonicalOf name) else none

/-- `name in registry`: the lookup that the loop detector uses. -/
def contains (r : ToolRegistry) (name : String) : Bool := r.tools.contains name

def names (r : ToolRegistry) : List String := r.tools.keys

/-! Sequences of calls; a `register` that raises leaves the registry as it was. -/

inductive Op where
  | register (t : Tool)
  | unregister (name : String)

def apply (py : PyText) (r : ToolRegistry) : Op → ToolRegistry
  | .register t =>
    match r.register py t with
    | .ok r' => r'
    | .error _ => r
  | .unregister name => (r.unregister name).1

def run (py : PyText) (ops : List Op) : ToolRegistry := ops.foldl (apply py) empty

end ToolRegistry

/-- An entry of the `tools` list sent to the model. -/
structure OpenAiFunction where
  name : String
  description : String
  parameters : List (String × Json)

/-- `_to_openai_function`. -/
def toOpenAiFunction (t : Tool) : OpenAiFunction :=
  let params := if t.parameters.isEmpty then
    [("type", Json.str "object"), ("properties", Json.obj [])] else t.parameters
  let params := match params.lookup "type" with
    | some _ => params
    | none => [("type", .str "object"), ("properties", (params.lookup "properties").getD (.obj params))]
  { name := llmName t.name, description := t.description, parameters := params }

def ToolRegistry.listForLlm (r : ToolRegistry) : List OpenAiFunction :=
  r.tools.values.map toOpenAiFunction

end PyClaw
