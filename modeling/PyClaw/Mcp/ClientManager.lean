import Mathlib.Logic.Function.Basic
import PyClaw.Session.Tree
import PyClaw.Tools.WireName

/-!
# Mcp.ClientManager

`MCPClientManager`: the status, the adapters and the lock of each server, and the tool registry that
the manager is bound to. A step is what runs without giving the event loop a turn: the two halves
of `_connect_one`, the teardown of `restart_server`, a death notice, an attach. The steps may come
in any order, so the runs include every interleaving of the operations. What the session group
answers is part of the step.
-/

namespace PyClaw

inductive ServerState where
  | connected
  | failed
  | disabled
  | pending
  deriving DecidableEq, Repr

structure ServerStatus where
  status : ServerState
  toolCount : Nat := 0
  lastConnectAt : Option Int := none
  reason : Option String := none
  deriving DecidableEq, Repr

structure McpServer where
  enabled : Bool := true
  config : McpServerConfig := {}

/-- The settings that the validators accept. -/
structure McpSettings (py : PyText) where
  servers : Dict String McpServer
  keys_valid : validateServerKeys py servers.keys = .ok ()
  /-- `Literal["read", "write"]`. -/
  classes_valid : ∀ server ∈ servers.values, ∀ cls ∈ server.config.forcedToolClass,
    cls ∈ ["read", "write"]

/-- The tools of a session; the group keeps them by name. -/
structure McpSession where
  tools : List RemoteTool
  nodup : (tools.map RemoteTool.name).Nodup

/-- How `connect_to_server` ends: by an exception that `_connect_one` turns into a reason, by
another one (or a cancellation), or with a session. -/
inductive ConnectOutcome where
  | failed (reason : String)
  | raised
  | session (session : McpSession) (now : Int)

inductive ManagerStep where
  /-- The teardown in `restart_server`. -/
  | restarts (name : String)
  /-- `_connect_one` up to the connection; `atOnce` is the reason of a failure before it. -/
  | connects (name : String) (atOnce : Option String)
  | connectEnds (name : String) (outcome : ConnectOutcome)
  /-- `_handle_server_death`, caused by a call through the given connection of the server. -/
  | died (name : String) (connection : Nat)
  | attaches (registry : Nat)

structure McpManager where
  /-- The registries of the process, and the one that the manager is bound to. -/
  registries : Nat → ToolRegistry
  registry : Option Nat := none
  adapters : Dict String (List Tool) := Dict.empty
  servers : Dict String ServerStatus
  /-- The servers whose lock is held by a connection attempt. -/
  connecting : String → Bool := fun _ => false
  /-- How many connections of a server have been made. -/
  connection : String → Nat := fun _ => 0
  /-- What `register` has raised. -/
  refusals : List String := []

def ToolRegistry.unregisterAll (reg : ToolRegistry) (tools : List Tool) : ToolRegistry :=
  tools.foldl (fun reg t => (reg.unregister t.name).1) reg

/-- Registers tools one after the other, up to the first that is refused. -/
def ToolRegistry.registerAll (py : PyText) : ToolRegistry → List Tool → ToolRegistry × Option String
  | reg, [] => (reg, none)
  | reg, t :: rest =>
    match reg.register py t with
    | .ok reg' => reg'.registerAll py rest
    | .error msg => (reg, some msg)

/-- `_build_adapters_for_session`: a tool that the adapter refuses is skipped. -/
def buildAdapters (py : PyText) (name : String) (config : McpServerConfig) (session : McpSession) :
    List Tool :=
  session.tools.filterMap fun remote => (mcpToolAdapter py name config remote).toOption

namespace McpManager

variable {py : PyText} (settings : McpSettings py) (s : McpManager)

/-- The server, if it may be connected. -/
def enabled? (name : String) : Option McpServer :=
  match settings.servers.get? name with
  | some server => if server.enabled then some server else none
  | none => none

def adaptersOf (name : String) : List Tool := (s.adapters.get? name).getD []

def onBound (f : ToolRegistry → ToolRegistry) : McpManager :=
  { s with
    registries :=
      match s.registry with
      | some r => Function.update s.registries r (f (s.registries r))
      | none => s.registries }

def setStatus (name : String) (status : ServerStatus) : McpManager :=
  { s with servers := s.servers.set name status }

/-- Unregisters the adapters of a server and forgets them. -/
def tearDown (name : String) : McpManager :=
  let t := s.onBound fun reg => reg.unregisterAll (s.adaptersOf name)
  { t with adapters := s.adapters.set name [] }

def release (name : String) : McpManager :=
  { s with connecting := Function.update s.connecting name false }

/-- Registers tools with the bound registry; what `register` raises ends the operation. -/
def registerBound (py : PyText) (tools : List Tool) : Bool × McpManager :=
  match s.registry with
  | none => (true, s)
  | some r =>
    let res := (s.registries r).registerAll py tools
    let t := { s with registries := Function.update s.registries r res.1 }
    match res.2 with
    | none => (true, t)
    | some msg => (false, { t with refusals := t.refusals ++ [msg] })

def record (name : String) (tools : List Tool) : McpManager :=
  { s with
    adapters := s.adapters.set name tools
    connection := Function.update s.connection name (s.connection name + 1) }

/-- `_connect_one` once it has its session. -/
def connected (py : PyText) (name : String) (config : McpServerConfig) (session : McpSession)
    (now : Int) : McpManager :=
  let adapters := buildAdapters py name config session
  let r := (s.record name adapters).registerBound py adapters
  if r.1 then
    r.2.setStatus name
      { status := .connected, toolCount := adapters.length, lastConnectAt := some now }
  else r.2

/-- `attach_and_register`. -/
def attach (py : PyText) (registry : Nat) : McpManager :=
  if s.registry = some registry then s
  else
    let t := s.onBound fun reg => reg.unregisterAll s.adapters.values.flatten
    ({ t with registry := some registry }.registerBound py s.adapters.values.flatten).2

/-- A step that waits for a lock changes nothing. -/
def step (s : McpManager) : ManagerStep → McpManager
  | .restarts name =>
    match enabled? settings name with
    | none => s
    | some _ => if s.connecting name then s else s.tearDown name
  | .connects name atOnce =>
    match enabled? settings name with
    | none => s
    | some _ =>
      if s.connecting name then s
      else
        match atOnce with
        | some reason => s.setStatus name { status := .failed, reason := some reason }
        | none => { s with connecting := Function.update s.connecting name true }
  | .connectEnds name outcome =>
    match enabled? settings name with
    | none => s
    | some server =>
      if s.connecting name then
        match outcome with
        | .failed reason =>
          (s.release name).setStatus name { status := .failed, reason := some reason }
        | .raised => s.release name
        | .session session now => (s.release name).connected py name server.config session now
      else s
  | .died name _ =>
    match s.servers.get? name with
    | none => s
    | some current =>
      if s.connecting name ∨ current.status = .failed then s
      else
        (s.tearDown name).setStatus name
          { status := .failed, reason := some "server died mid-call"
            lastConnectAt := current.lastConnectAt }
  | .attaches registry => s.attach py registry

/-- A registry before the manager has registered anything with it. -/
structure NativeRegistry extends ToolRegistry where
  native : ∀ t ∈ tools.values, t.isMcpImported = false

/-- `_initialize_server_statuses`. -/
def initialStatuses : Dict String ServerStatus :=
  settings.servers.items.foldl (fun statuses server =>
    statuses.set server.1 { status := if server.2.enabled then .pending else .disabled }) Dict.empty

def start (registries : Nat → NativeRegistry) : McpManager where
  registries r := (registries r).toToolRegistry
  servers := initialStatuses settings

/-- What `restart_server` returns after its attempt to connect: `ok`, `tool_count`, `reason`. -/
def restartResult (name : String) : Bool × Nat × Option String :=
  match s.servers.get? name with
  | some current =>
    if current.status = .connected then (true, current.toolCount, none)
    else
      match SessionTree.truthy current.reason with
      | some reason => (false, 0, some reason)
      | none => (false, 0, some "reconnect failed")
  | none => (false, 0, some "unknown")

end McpManager

end PyClaw
