import Mathlib.Data.String.Basic
import PyClaw.Lib.Machine
import PyClaw.Lib.SortedSet
import PyClaw.Lib.Text
import PyClaw.Session.Tree

/-!
# Session.Backends

The two backends of `session_backend`: `InMemorySessionStore`, here with the creation times that
`Session.Directory` leaves out, and `RedisSessionStore`, whose keys do not expire and whose commands
succeed. Both are given the operations of `SessionStore` with the clock readings and the random token
that an operation takes.
-/

namespace PyClaw

structure StoredHeader extends SessionHeader where
  createdAt : String
  deriving DecidableEq, Repr

/-- A `SessionTree` with its creation time. -/
structure StoredTree where
  header : StoredHeader
  entries : Dict String SessionEntry := Dict.empty
  order : List String := []
  leafId : Option String := none
  deriving DecidableEq

structure HistorySummary where
  sessionId : String
  createdAt : String
  messageCount : Nat
  lastMessageAt : Option Int
  parentSessionId : Option String
  deriving DecidableEq, Repr

/-- A session of which nothing is stored any more. -/
def HistorySummary.archived (sessionId : String) : HistorySummary :=
  { sessionId, createdAt := "", messageCount := 0, lastMessageAt := none, parentSessionId := none }

def StoredHeader.summary (header : StoredHeader) (sessionId : String) (entries : Dict String SessionEntry) :
    HistorySummary where
  sessionId := sessionId
  createdAt := header.createdAt
  messageCount := entries.values.countP fun e => e.message?.isSome
  lastMessageAt := header.lastInteractionAt
  parentSessionId := header.parentSession

/-- `_generate_session_id`, which draws the token. -/
def sessionIdOf (sessionKey token : String) : String := sessionKey ++ ":s:" ++ token

inductive StoreOp where
  | saveHeader (tree : StoredTree)
  | appendEntry (sessionId : String) (entry : SessionEntry) (leafId : String)
  | getCurrentSessionId (sessionKey : String)
  | setCurrentSessionId (sessionKey sessionId : String) (now : Int)
  | createNewSession (sessionKey workspaceId agentId : String) (parentSessionId : Option String)
      (token createdAt : String) (now : Int)
  | deleteSession (sessionId : String)
  | load (sessionId : String)
  | listSessionHistory (sessionKey : String) (limit : Int)

/-- The reading of the clock in `set_current_session_id`. -/
def StoreOp.reading : StoreOp → Option Int
  | .setCurrentSessionId _ _ now | .createNewSession _ _ _ _ _ _ now => some now
  | _ => none

inductive StoreResult where
  | done
  | keyError (sessionId : String)
  | current (sessionId : Option String)
  | created (tree : StoredTree)
  | deleted (existed : Bool)
  | loaded (tree : Option StoredTree)
  | history (summaries : List HistorySummary)
  deriving DecidableEq

/-- The tree that `create_new_session` makes. -/
def StoredTree.new (sessionKey workspaceId agentId : String) (parentSessionId : Option String)
    (token createdAt : String) : StoredTree where
  header :=
    { id := sessionIdOf sessionKey token
      workspaceId := workspaceId
      agentId := agentId
      sessionKey := sessionKey
      parentSession := parentSessionId
      createdAt := createdAt }

/-- `entries[entry.id] = entry`, `order.append(entry.id)` and `leaf_id = leaf_id`. -/
def StoredTree.append (tree : StoredTree) (entry : SessionEntry) (leafId : String) : StoredTree :=
  { tree with
    entries := tree.entries.set entry.id entry
    order := tree.order ++ [entry.id]
    leafId := some leafId }

/-! ## In memory -/

structure MemorySessionStore where
  trees : Dict String StoredTree := Dict.empty
  /-- `_skey_current`. -/
  current : Dict String String := Dict.empty
  /-- `_skey_history`. -/
  history : Dict String (List (Int × String)) := Dict.empty

namespace MemorySessionStore

variable (s : MemorySessionStore)

def saveHeader (tree : StoredTree) : MemorySessionStore :=
  match s.trees.get? tree.header.id with
  | some stored => { s with trees := s.trees.set tree.header.id { stored with header := tree.header } }
  | none => { s with trees := s.trees.set tree.header.id tree }

/-- None is the `KeyError`. -/
def appendEntry (sessionId : String) (entry : SessionEntry) (leafId : String) :
    Option MemorySessionStore :=
  (s.trees.get? sessionId).map fun tree =>
    { s with trees := s.trees.set sessionId (tree.append entry leafId) }

def pointers (sessionKey : String) : List (Int × String) := (s.history.get? sessionKey).getD []

def setCurrentSessionId (sessionKey sessionId : String) (now : Int) : MemorySessionStore :=
  { s with
    current := s.current.set sessionKey sessionId
    history := s.history.set sessionKey (s.pointers sessionKey ++ [(now, sessionId)]) }

def createNewSession (tree : StoredTree) (now : Int) : MemorySessionStore :=
  { s with trees := s.trees.set tree.header.id tree }.setCurrentSessionId tree.header.sessionKey
    tree.header.id now

/-- Every pointer to the session, of whatever session key. -/
def unpoint (sessionId : String) : MemorySessionStore :=
  { s with
    current := s.current.retain fun _ sid => sid ≠ sessionId
    history := s.history.mapValues fun _ pointers => pointers.filter fun p => p.2 ≠ sessionId }

def deleteSession (sessionId : String) : MemorySessionStore :=
  { s with trees := s.trees.erase sessionId }.unpoint sessionId

def summary (sessionId : String) : HistorySummary :=
  match s.trees.get? sessionId with
  | none => .archived sessionId
  | some tree => tree.header.summary sessionId tree.entries

/-- The newest pointers of a session key. -/
def newest (sessionKey : String) (limit : Int) : List (Int × String) :=
  sliceTo limit (Sql.orderDesc Prod.fst (s.pointers sessionKey))

def listSessionHistory (sessionKey : String) (limit : Int) : List HistorySummary :=
  (s.newest sessionKey limit).map fun p => s.summary p.2

def step : StoreOp → StoreResult × MemorySessionStore
  | .saveHeader tree => (.done, s.saveHeader tree)
  | .appendEntry sessionId entry leafId =>
    match s.appendEntry sessionId entry leafId with
    | some s' => (.done, s')
    | none => (.keyError sessionId, s)
  | .getCurrentSessionId sessionKey => (.current (s.current.get? sessionKey), s)
  | .setCurrentSessionId sessionKey sessionId now =>
    (.done, s.setCurrentSessionId sessionKey sessionId now)
  | .createNewSession sessionKey workspaceId agentId parentSessionId token createdAt now =>
    let tree := StoredTree.new sessionKey workspaceId agentId parentSessionId token createdAt
    (.created tree, s.createNewSession tree now)
  | .deleteSession sessionId => (.deleted (s.trees.contains sessionId), s.deleteSession sessionId)
  | .load sessionId => (.loaded (s.trees.get? sessionId), s)
  | .listSessionHistory sessionKey limit => (.history (s.listSessionHistory sessionKey limit), s)

/-! ### What the operations leave -/

theorem pointers_setCurrent (key sid : String) (now : Int) (key' : String) :
    (s.setCurrentSessionId key sid now).pointers key' =
      if key = key' then s.pointers key ++ [(now, sid)] else s.pointers key' := by
  unfold pointers setCurrentSessionId
  dsimp only
  rw [Dict.get?_set]
  split <;> rfl

theorem pointers_unpoint (sid key : String) :
    (s.unpoint sid).pointers key = (s.pointers key).filter fun p => p.2 ≠ sid := by
  unfold pointers unpoint
  dsimp only
  rw [Dict.get?_mapValues]
  cases s.history.get? key <;> rfl

theorem current_unpoint (sid key : String) :
    (s.unpoint sid).current.get? key = (s.current.get? key).filter fun sid' => sid' ≠ sid :=
  Dict.get?_retain

end MemorySessionStore

/-! ## Redis -/

/-- The values under the keys of each kind. Redis promises no order for the fields of a hash; here they
are in the order in which they were set, and entries are only looked up by their id. -/
structure RedisSessionStore where
  header : Dict String StoredHeader := Dict.empty
  entries : Dict String (Dict String SessionEntry) := Dict.empty
  order : Dict String (List String) := Dict.empty
  leaf : Dict String String := Dict.empty
  current : Dict String String := Dict.empty
  history : Dict String (SortedSet String) := Dict.empty

namespace RedisSessionStore

variable (s : RedisSessionStore)

def saveHeader (tree : StoredTree) : RedisSessionStore :=
  { s with header := s.header.set tree.header.id tree.header }

/-- The fields of a hash; there are none without the key. -/
def hash (sessionId : String) : Dict String SessionEntry := (s.entries.get? sessionId).getD Dict.empty

def list (sessionId : String) : List String := (s.order.get? sessionId).getD []

def members (sessionKey : String) : SortedSet String := (s.history.get? sessionKey).getD .empty

/-- `leaf_raw or None`. -/
def load (sessionId : String) : Option StoredTree :=
  (s.header.get? sessionId).map fun header =>
    { header
      entries := s.hash sessionId
      order := s.list sessionId
      leafId := SessionTree.truthy (s.leaf.get? sessionId) }

def appendEntry (sessionId : String) (entry : SessionEntry) (leafId : String) : RedisSessionStore :=
  { s with
    entries := s.entries.set sessionId ((s.hash sessionId).set entry.id entry)
    order := s.order.set sessionId (s.list sessionId ++ [entry.id])
    leaf := s.leaf.set sessionId leafId }

def setCurrentSessionId (sessionKey sessionId : String) (now : Int) : RedisSessionStore :=
  { s with
    current := s.current.set sessionKey sessionId
    history := s.history.set sessionKey ((s.members sessionKey).zadd now sessionId) }

def createNewSession (tree : StoredTree) (now : Int) : RedisSessionStore :=
  (s.saveHeader tree).setCurrentSessionId tree.header.sessionKey tree.header.id now

/-- `DELETE` of the four keys of a session. -/
def erase (sessionId : String) : RedisSessionStore :=
  { s with
    header := s.header.erase sessionId
    entries := s.entries.erase sessionId
    order := s.order.erase sessionId
    leaf := s.leaf.erase sessionId }

/-- `ZREM`, and `DELETE` of the current pointer if it is one to the session. -/
def unpoint (sessionKey sessionId : String) : RedisSessionStore :=
  { s with
    history := s.history.set sessionKey ((s.members sessionKey).zrem sessionId)
    current :=
      if s.current.get? sessionKey = some sessionId then s.current.erase sessionKey else s.current }

/-- Returns whether there was such a session. Only the session key of its header is looked after. -/
def deleteSession (sessionId : String) : Bool × RedisSessionStore :=
  match s.header.get? sessionId with
  | none => (false, s)
  | some header =>
    if header.sessionKey = "" then (true, s.erase sessionId)
    else (true, (s.erase sessionId).unpoint header.sessionKey sessionId)

def summary (sessionId : String) : HistorySummary :=
  match s.header.get? sessionId with
  | none => .archived sessionId
  | some header => header.summary sessionId (s.hash sessionId)

def listSessionHistory (sessionKey : String) (limit : Int) : List HistorySummary :=
  ((s.members sessionKey).zrevrange limit).map s.summary

def step : StoreOp → StoreResult × RedisSessionStore
  | .saveHeader tree => (.done, s.saveHeader tree)
  | .appendEntry sessionId entry leafId => (.done, s.appendEntry sessionId entry leafId)
  | .getCurrentSessionId sessionKey => (.current (s.current.get? sessionKey), s)
  | .setCurrentSessionId sessionKey sessionId now =>
    (.done, s.setCurrentSessionId sessionKey sessionId now)
  | .createNewSession sessionKey workspaceId agentId parentSessionId token createdAt now =>
    let tree := StoredTree.new sessionKey workspaceId agentId parentSessionId token createdAt
    (.created tree, s.createNewSession tree now)
  | .deleteSession sessionId => ((.deleted (s.deleteSession sessionId).1), (s.deleteSession sessionId).2)
  | .load sessionId => (.loaded (s.load sessionId), s)
  | .listSessionHistory sessionKey limit => (.history (s.listSessionHistory sessionKey limit), s)

/-! ### What the operations leave -/

theorem members_setCurrent (key sid : String) (now : Int) (key' : String) :
    (s.setCurrentSessionId key sid now).members key' =
      if key = key' then (s.members key).zadd now sid else s.members key' := by
  unfold members setCurrentSessionId
  dsimp only
  rw [Dict.get?_set]
  split <;> rfl

theorem members_unpoint (key sid key' : String) :
    (s.unpoint key sid).members key' = if key = key' then (s.members key).zrem sid else s.members key' := by
  unfold members unpoint
  dsimp only
  rw [Dict.get?_set]
  split <;> rfl

theorem current_unpoint (key sid key' : String) :
    (s.unpoint key sid).current.get? key' =
      if key = key' then (s.current.get? key).filter fun sid' => sid' ≠ sid else s.current.get? key' := by
  unfold unpoint
  dsimp only
  by_cases hkey : key = key'
  · rw [if_pos hkey, ← hkey]
    split
    · rename_i hcurrent
      rw [Dict.get?_erase_self, hcurrent, Option.filter_some]
      simp
    · rename_i hcurrent
      cases hget : s.current.get? key with
      | none => rfl
      | some current =>
        rw [hget, Option.some.injEq] at hcurrent
        simp [Option.filter, hcurrent]
  · rw [if_neg hkey]
    split
    · exact Dict.get?_erase_ne fun he => hkey he.symm
    · rfl

end RedisSessionStore

end PyClaw
