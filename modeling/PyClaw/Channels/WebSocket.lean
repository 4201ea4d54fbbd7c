import Mathlib.Data.Finset.Card
import PyClaw.Channels.WebAuth
import PyClaw.Lib.Machine

/-!
# Channels.WebSocket

`websocket_endpoint` of all connections to one worker, with `POST /api/auth/token` beside it. A connection moves
from one wait to the next; the steps of different ones come in any order. Heartbeats are left out: a connection
that they close ends like one that the client closes.

`registry_exact`: the registry holds the connections that have a slot, and no user has more than allowed.
-/

namespace PyClaw

/-! ## `ConnectionRegistry` -/

structure ConnectionRegistry where
  connections : Dict (List Char) (Finset Nat) := .empty

namespace ConnectionRegistry

def getConnections (c : ConnectionRegistry) (userId : List Char) : Finset Nat :=
  (c.connections.get? userId).getD ∅

def count (c : ConnectionRegistry) (userId : List Char) : Nat := (c.getConnections userId).card

def connect (c : ConnectionRegistry) (userId : List Char) (ws : Nat) : ConnectionRegistry :=
  ⟨c.connections.set userId (insert ws (c.getConnections userId))⟩

def disconnect (c : ConnectionRegistry) (userId : List Char) (ws : Nat) : ConnectionRegistry :=
  match c.connections.get? userId with
  | none => c
  | some conns =>
    let conns := conns.erase ws
    if conns = ∅ then ⟨c.connections.erase userId⟩ else ⟨c.connections.set userId conns⟩

/-- No user is kept without a connection. -/
def Tight (c : ConnectionRegistry) : Prop := ∀ userId, c.connections.get? userId ≠ some ∅

section
variable {c : ConnectionRegistry} {userId : List Char} {ws : Nat}

@[simp] theorem getConnections_empty : (⟨.empty⟩ : ConnectionRegistry).getConnections userId = ∅ := rfl

theorem getConnections_connect (user : List Char) :
    (c.connect userId ws).getConnections user =
      if userId = user then insert ws (c.getConnections user) else c.getConnections user := by
  simp only [connect, getConnections, Dict.get?_set]
  split
  · rename_i h
    rw [h]
    rfl
  · rfl

theorem getConnections_disconnect (user : List Char) :
    (c.disconnect userId ws).getConnections user =
      if userId = user then (c.getConnections user).erase ws else c.getConnections user := by
  by_cases h : userId = user
  · subst h
    rw [if_pos rfl]
    unfold disconnect
    cases hget : c.connections.get? userId with
    | none => simp [getConnections, hget]
    | some conns =>
      simp only
      split
      · rename_i hempty
        simp [getConnections, Dict.get?_erase_self, hget, hempty]
      · simp [getConnections, hget]
  · rw [if_neg h]
    unfold disconnect
    cases hget : c.connections.get? userId with
    | none => rfl
    | some conns =>
      simp only
      split
      · simp [getConnections, Dict.get?_erase_ne (fun e => h e.symm)]
      · simp [getConnections, Dict.get?_set_ne _ _ h]

theorem Tight.connect (h : c.Tight) : (c.connect userId ws).Tight := by
  intro user
  simp only [ConnectionRegistry.connect, Dict.get?_set]
  split
  · intro he
    exact Finset.insert_ne_empty _ _ (Option.some.inj he)
  · exact h user

theorem Tight.disconnect (h : c.Tight) : (c.disconnect userId ws).Tight := by
  intro user
  unfold ConnectionRegistry.disconnect
  cases hget : c.connections.get? userId with
  | none => exact h user
  | some conns =>
    simp only
    split
    · by_cases hu : user = userId
      · subst hu
        simp [Dict.get?_erase_self]
      · simpa [Dict.get?_erase_ne hu] using h user
    · rename_i hne
      rw [Dict.get?_set]
      split
      · exact fun he => hne (Option.some.inj he)
      · exact h user

end

end ConnectionRegistry

/-! ## The messages of a client -/

inductive ClientMessage where
  | identify (token : JsonValue)
  | chatSend (conversationId content attachments tier : JsonValue)
  | chatAbort (conversationId : JsonValue)
  | toolApprove (conversationId toolCallId approved : JsonValue)
  | pong

inductive MessageError where
  /-- The message is no object, or the token no string. -/
  | attributeError
  /-- A type or a tier that cannot be hashed. -/
  | typeError

/-- A key of a dict or a member of a set. -/
def JsonValue.hashable : JsonValue → Bool
  | .arr _ | .obj _ => false
  | _ => true

def validTiers : List (List Char) := ["read-only".toList, "approval".toList, "yolo".toList]

/-- `tier_value is not None and tier_value not in _VALID_TIERS`. -/
def invalidTier : JsonValue → Bool
  | .null => false
  | .str tier => !validTiers.contains tier
  | _ => true

def parseClientMessage : JsonValue → Except MessageError (Option ClientMessage)
  | .obj data =>
    let field (name : String) (default : JsonValue) := (data.lookup name.toList).getD default
    match field "type" .null with
    | .arr _ | .obj _ => .error .typeError
    | .str name =>
      if name = "identify".toList then .ok (some (.identify (field "token" (.str []))))
      else if name = "chat.send".toList then
        let tier := field "tier" .null
        if tier.hashable then
          if invalidTier tier then .ok none
          else
            .ok (some (.chatSend (field "conversation_id" (.str [])) (field "content" (.str []))
              (field "attachments" (.arr [])) tier))
        else .error .typeError
      else if name = "chat.abort".toList then .ok (some (.chatAbort (field "conversation_id" (.str []))))
      else if name = "tool.approve".toList then
        .ok (some (.toolApprove (field "conversation_id" (.str [])) (field "tool_call_id" (.str []))
          (field "approved" (.bool true))))
      else if name = "pong".toList then .ok (some .pong)
      else .ok none
    | _ => .ok none
  | _ => .error .attributeError

/-! ## The endpoint -/

/-- Where the task of a connection waits. -/
inductive SocketPhase where
  | unknown
  | identifying
  /-- Connected, and sending `READY`. -/
  | greeting (userId : List Char)
  | claiming (userId : List Char)
  | serving (userId : List Char)
  /-- In the `finally` block, until the heartbeat has ended. -/
  | closing (userId : List Char)
  /-- Ended without `disconnect`. -/
  | leaked (userId : List Char)
  /-- With the code it was closed with, or by an error or by the client. -/
  | closed (code : Option Nat)

/-- Whose slot it holds. -/
def SocketPhase.slot : SocketPhase → Option (List Char)
  | .greeting user | .claiming user | .serving user | .closing user | .leaked user => some user
  | _ => none

structure SocketServer where
  registry : ConnectionRegistry := {}
  phases : Nat → SocketPhase := fun _ => .unknown
  tasksClosed : Bool := false
  /-- The requests for tokens, with their times. -/
  requests : List (TokenRequest × Rat) := []
  /-- The token a connection identified with, and when. -/
  identified : Nat → Option (List Char × Rat) := fun _ => none
  /-- The messages handled, with their connections and the users they were handled for. -/
  handled : List (Nat × List Char × ClientMessage) := []

inductive SocketStep where
  | requestsToken (body : TokenRequest) (time : Rat)
  | accepts (ws : Nat)
  /-- The first message. -/
  | identifies (ws : Nat) (raw : JsonValue) (time : Rat)
  /-- 30 s without one, or the client is gone. -/
  | identifyTimeout (ws : Nat)
  /-- `READY` has been sent, or could not be. -/
  | readySent (ws : Nat) (raises : Bool)
  /-- `force_claim` has ended, in whatever way. -/
  | claimed (ws : Nat)
  | receives (ws : Nat) (raw : JsonValue)
  /-- A wait of the connection raises: the client is gone, sends no JSON, or a handler fails. -/
  | raises (ws : Nat)
  /-- The task of the connection is cancelled. -/
  | cancelled (ws : Nat)
  | heartbeatEnded (ws : Nat)
  | tasksShutDown

namespace SocketServer

section
variable (a : WebAuth) (maxConnectionsPerUser : Int) (hasGateway : Bool)

def setPhase (s : SocketServer) (ws : Nat) (p : SocketPhase) : SocketServer :=
  { s with phases := Function.update s.phases ws p }

/-- The heartbeat is spawned, and the dispatch loop begins. -/
def beginLoop (s : SocketServer) (ws : Nat) (user : List Char) : SocketServer :=
  s.setPhase ws (if s.tasksClosed then .leaked user else .serving user)

/-- From the first message to `connect`: nothing is awaited in between. -/
def identify (s : SocketServer) (ws : Nat) (raw : JsonValue) (time : Rat) : SocketServer :=
  match parseClientMessage raw with
  | .ok (some (.identify (.str token))) =>
    match a.verifyJwt time (Utf8.points token) with
    | .ok (some user) =>
      if maxConnectionsPerUser ≤ s.registry.count user then s.setPhase ws (.closed (some 4004))
      else
        { s with
          registry := s.registry.connect user ws
          identified := Function.update s.identified ws (some (token, time)) }.setPhase ws (.greeting user)
    | .ok none => s.setPhase ws (.closed (some 4003))
    | .error _ => s.setPhase ws (.closed none)
  | .ok (some (.identify _)) => s.setPhase ws (.closed none)
  | .ok _ => s.setPhase ws (.closed (some 4002))
  | .error _ => s.setPhase ws (.closed none)

def handle (s : SocketServer) (ws : Nat) (user : List Char) (msg : ClientMessage) : SocketServer :=
  { s with handled := s.handled ++ [(ws, user, msg)] }

/-- One turn of `_dispatch_loop`. -/
def dispatch (s : SocketServer) (ws : Nat) (user : List Char) (raw : JsonValue) : SocketServer :=
  match parseClientMessage raw with
  | .error _ => s.setPhase ws (.closing user)
  | .ok (some (.chatSend conversationId content attachments tier)) =>
    -- `spawn` raises when the task manager is closed
    if s.tasksClosed then s.setPhase ws (.closing user)
    else s.handle ws user (.chatSend conversationId content attachments tier)
  | .ok (some (.chatAbort conversationId)) => s.handle ws user (.chatAbort conversationId)
  | .ok (some (.toolApprove conversationId toolCallId approved)) =>
    s.handle ws user (.toolApprove conversationId toolCallId approved)
  | .ok (some .pong) => s.handle ws user .pong
  -- an error event is sent
  | .ok (some (.identify _)) | .ok none => s

def step (s : SocketServer) : SocketStep → SocketServer
  | .requestsToken body time => { s with requests := s.requests ++ [(body, time)] }
  | .accepts ws =>
    match s.phases ws with
    | .unknown => s.setPhase ws .identifying
    | _ => s
  | .identifies ws raw time =>
    match s.phases ws with
    | .identifying => s.identify a maxConnectionsPerUser ws raw time
    | _ => s
  | .identifyTimeout ws =>
    match s.phases ws with
    | .identifying => s.setPhase ws (.closed (some 4001))
    | _ => s
  | .readySent ws raises =>
    match s.phases ws with
    | .greeting user =>
      if raises then s.setPhase ws (.leaked user)
      else if hasGateway then s.setPhase ws (.claiming user)
      else s.beginLoop ws user
    | _ => s
  | .claimed ws =>
    match s.phases ws with
    | .claiming user => s.beginLoop ws user
    | _ => s
  | .receives ws raw =>
    match s.phases ws with
    | .serving user => s.dispatch ws user raw
    | _ => s
  | .raises ws =>
    match s.phases ws with
    | .identifying => s.setPhase ws (.closed none)
    | .serving user => s.setPhase ws (.closing user)
    | _ => s
  | .cancelled ws =>
    match s.phases ws with
    | .identifying => s.setPhase ws (.closed none)
    | .greeting user | .claiming user | .closing user => s.setPhase ws (.leaked user)
    | .serving user => s.setPhase ws (.closing user)
    | _ => s
  | .heartbeatEnded ws =>
    match s.phases ws with
    | .closing user => { s with registry := s.registry.disconnect user ws }.setPhase ws (.closed none)
    | _ => s
  | .tasksShutDown => { s with tasksClosed := true }

end

/-! ## What a step does to the slots -/

/-- A slot is taken, given back, or none is. -/
inductive Moved (maxConnectionsPerUser : Int) (s s' : SocketServer) : Prop where
  | none (hregistry : s'.registry = s.registry) (hslots : ∀ ws, (s'.phases ws).slot = (s.phases ws).slot)
  | connects (ws : Nat) (user : List Char) (hfree : (s.phases ws).slot = Option.none)
      (hroom : (s.registry.count user : Int) < maxConnectionsPerUser)
      (hregistry : s'.registry = s.registry.connect user ws)
      (hphases : s'.phases = Function.update s.phases ws (.greeting user))
  | disconnects (ws : Nat) (user : List Char) (hheld : (s.phases ws).slot = some user)
      (hregistry : s'.registry = s.registry.disconnect user ws)
      (hphases : s'.phases = Function.update s.phases ws (.closed Option.none))

section
variable {a : WebAuth} {maxConnectionsPerUser : Int} {hasGateway : Bool} {s : SocketServer} {ws : Nat}

theorem moved_setPhase {p : SocketPhase} (h : p.slot = (s.phases ws).slot) :
    Moved maxConnectionsPerUser s (s.setPhase ws p) := by
  refine .none rfl fun other => ?_
  show (Function.update s.phases ws p other).slot = _
  by_cases ho : other = ws
  · rw [ho, Function.update_self, h]
  · rw [Function.update_of_ne ho]

theorem moved_same : Moved maxConnectionsPerUser s s := .none rfl fun _ => rfl

theorem moved_identify (hphase : s.phases ws = .identifying) (raw : JsonValue) (time : Rat) :
    Moved maxConnectionsPerUser s (s.identify a maxConnectionsPerUser ws raw time) := by
  have hfree : (s.phases ws).slot = Option.none := by rw [hphase]; rfl
  have hclosed : ∀ code, Moved maxConnectionsPerUser s (s.setPhase ws (.closed code)) := fun code =>
    moved_setPhase hfree.symm
  unfold identify
  split
  · split
    · rename_i user _
      split
      · exact hclosed _
      · rename_i hroom
        exact .connects ws user hfree (by omega) rfl rfl
    · exact hclosed _
    · exact hclosed _
  · exact hclosed _
  · exact hclosed _
  · exact hclosed _

theorem moved_dispatch {user : List Char} (hphase : s.phases ws = .serving user) (raw : JsonValue) :
    Moved maxConnectionsPerUser s (s.dispatch ws user raw) := by
  have hclosing : Moved maxConnectionsPerUser s (s.setPhase ws (.closing user)) :=
    moved_setPhase (by rw [hphase]; rfl)
  have hhandled : ∀ msg, Moved maxConnectionsPerUser s (s.handle ws user msg) := fun _ => .none rfl fun _ => rfl
  unfold dispatch
  split
  · exact hclosing
  · split
    · exact hclosing
    · exact hhandled _
  · exact hhandled _
  · exact hhandled _
  · exact hhandled _
  · exact moved_same
  · exact moved_same

theorem moved_beginLoop {user : List Char} (hheld : (s.phases ws).slot = some user) :
    Moved maxConnectionsPerUser s (s.beginLoop ws user) := by
  refine moved_setPhase ?_
  rw [hheld]
  split <;> rfl

theorem step_moved (s : SocketServer) (x : SocketStep) :
    Moved maxConnectionsPerUser s (s.step a maxConnectionsPerUser hasGateway x) := by
  cases x with
  | requestsToken body time => exact .none rfl fun _ => rfl
  | tasksShutDown => exact .none rfl fun _ => rfl
  | accepts ws =>
    simp only [step]
    split
    · rename_i hphase
      exact moved_setPhase (by rw [hphase]; rfl)
    · exact moved_same
  | identifies ws raw time =>
    simp only [step]
    split
    · rename_i hphase
      exact moved_identify hphase raw time
    · exact moved_same
  | identifyTimeout ws =>
    simp only [step]
    split
    · rename_i hphase
      exact moved_setPhase (by rw [hphase]; rfl)
    · exact moved_same
  | readySent ws raises =>
    simp only [step]
    split
    · rename_i user hphase
      split
      · exact moved_setPhase (by rw [hphase]; rfl)
      · split
        · exact moved_setPhase (by rw [hphase]; rfl)
        · exact moved_beginLoop (by rw [hphase]; rfl)
    · exact moved_same
  | claimed ws =>
    simp only [step]
    split
    · rename_i hphase
      exact moved_beginLoop (by rw [hphase]; rfl)
    · exact moved_same
  | receives ws raw =>
    simp only [step]
    split
    · rename_i hphase
      exact moved_dispatch hphase raw
    · exact moved_same
  | raises ws =>
    simp only [step]
    split
    · rename_i hphase
      exact moved_setPhase (by rw [hphase]; rfl)
    · rename_i hphase
      exact moved_setPhase (by rw [hphase]; rfl)
    · exact moved_same
  | cancelled ws =>
    simp only [step]
    split
    · rename_i hphase
      exact moved_setPhase (by rw [hphase]; rfl)
    · rename_i hphase
      exact moved_setPhase (by rw [hphase]; rfl)
    · rename_i hphase
      exact moved_setPhase (by rw [hphase]; rfl)
    · rename_i hphase
      exact moved_setPhase (by rw [hphase]; rfl)
    · rename_i hphase
      exact moved_setPhase (by rw [hphase]; rfl)
    · exact moved_same
  | heartbeatEnded ws =>
    simp only [step]
    split
    · rename_i user hphase
      exact .disconnects ws user (by rw [hphase]; rfl) rfl rfl
    · exact moved_same

/-! ## The registry -/

structure Exact (maxConnectionsPerUser : Int) (s : SocketServer) : Prop where
  slots : ∀ user ws, ws ∈ s.registry.getConnections user ↔ (s.phases ws).slot = some user
  tight : s.registry.Tight
  bounded : ∀ user, (s.registry.count user : Int) ≤ max maxConnectionsPerUser 0

theorem Exact.moved {s' : SocketServer} (hs : Exact maxConnectionsPerUser s)
    (h : Moved maxConnectionsPerUser s s') : Exact maxConnectionsPerUser s' := by
  cases h with
  | none hregistry hslots =>
    refine ⟨fun user ws => ?_, hregistry ▸ hs.tight, fun user => hregistry ▸ hs.bounded user⟩
    rw [hregistry, hslots]
    exact hs.slots user ws
  | connects ws user hfree hroom hregistry hphases =>
    refine ⟨fun u w => ?_, hregistry ▸ hs.tight.connect, fun u => ?_⟩
    · have hslots := hs.slots u w
      rw [hregistry, hphases, ConnectionRegistry.getConnections_connect]
      by_cases hw : w = ws
      · subst hw
        rw [Function.update_self]
        rw [hfree] at hslots
        by_cases hu : user = u
        · simp [hu, SocketPhase.slot]
        · simpa [hu, SocketPhase.slot] using hslots
      · rw [Function.update_of_ne hw, ← hslots]
        by_cases hu : user = u
        · simp [hu, hw]
        · simp [hu]
    · have hbound := hs.bounded u
      rw [hregistry, ConnectionRegistry.count, ConnectionRegistry.getConnections_connect]
      by_cases hu : user = u
      · subst hu
        have hcard := Finset.card_insert_le ws (s.registry.getConnections user)
        rw [if_pos rfl]
        unfold ConnectionRegistry.count at hroom
        omega
      · rw [if_neg hu]
        exact hbound
  | disconnects ws user hheld hregistry hphases =>
    refine ⟨fun u w => ?_, hregistry ▸ hs.tight.disconnect, fun u => ?_⟩
    · have hslots := hs.slots u w
      rw [hregistry, hphases, ConnectionRegistry.getConnections_disconnect]
      by_cases hw : w = ws
      · subst hw
        rw [Function.update_self]
        rw [hheld] at hslots
        by_cases hu : user = u
        · simp [hu, SocketPhase.slot]
        · simpa [hu, SocketPhase.slot] using hslots
      · rw [Function.update_of_ne hw, ← hslots]
        by_cases hu : user = u
        · simp [hu, hw]
        · simp [hu]
    · have hbound := hs.bounded u
      rw [hregistry, ConnectionRegistry.count, ConnectionRegistry.getConnections_disconnect]
      by_cases hu : user = u
      · subst hu
        have hcard := Finset.card_erase_le (a := ws) (s := s.registry.getConnections user)
        rw [if_pos rfl]
        unfold ConnectionRegistry.count at hbound
        omega
      · rw [if_neg hu]
        exact hbound

theorem exact_empty : Exact maxConnectionsPerUser {} where
  slots user ws := by simp [SocketPhase.slot]
  tight user := by simp [Dict.get?]
  bounded user := by simp [ConnectionRegistry.count]

end

/-- In every state the server reaches, the connections of a user in the registry are those that have a slot, there
are no more of them than the settings allow, and a user without one is not kept. -/
theorem registry_exact (a : WebAuth) (maxConnectionsPerUser : Int) (hasGateway : Bool) (steps : List SocketStep)
    (userId : List Char) :
    let s := runFrom (step a maxConnectionsPerUser hasGateway) {} steps
    (∀ ws, ws ∈ s.registry.getConnections userId ↔ (s.phases ws).slot = some userId) ∧
      (s.registry.count userId : Int) ≤ max maxConnectionsPerUser 0 ∧
        (userId ∈ s.registry.connections.keys ↔ ∃ ws, (s.phases ws).slot = some userId) := by
  intro s
  have hs : Exact maxConnectionsPerUser s :=
    runFrom_invariant (fun _ x h => h.moved (step_moved _ x)) exact_empty
  refine ⟨hs.slots userId, hs.bounded userId, ?_⟩
  constructor
  · intro hkey
    obtain ⟨conns, hconns⟩ := Dict.exists_get?_of_mem_keys hkey
    have hne : conns.Nonempty := Finset.nonempty_iff_ne_empty.mpr fun he => hs.tight userId (he ▸ hconns)
    obtain ⟨ws, hws⟩ := hne
    refine ⟨ws, (hs.slots userId ws).mp ?_⟩
    simpa [ConnectionRegistry.getConnections, hconns] using hws
  · rintro ⟨ws, hws⟩
    have hmem := (hs.slots userId ws).mpr hws
    by_contra hkey
    simp [ConnectionRegistry.getConnections, Dict.get?_eq_none.mpr hkey] at hmem

end SocketServer

end PyClaw
