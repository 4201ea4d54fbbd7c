import PyClaw.Lib.Sql
import PyClaw.Session.Store

/-!
# Session.Directory

The part of `InMemorySessionStore` that finds sessions: for each session key the current session
and the history of sessions it pointed to. Times are microseconds.
-/

namespace PyClaw

/-- The 8-byte tokens of `_generate_session_id`, drawn while the ids `used` are stored; assumed not
to give one of them again. -/
structure SessionTokens where
  draw : String → List String → String
  fresh : ∀ sessionKey used, sessionKey ++ ":s:" ++ draw sessionKey used ∉ used

def generateSessionId (tokens : SessionTokens) (sessionKey : String) (used : List String) : String :=
  sessionKey ++ ":s:" ++ tokens.draw sessionKey used

/-- Tokens longer than every id in use. -/
def SessionTokens.long : SessionTokens where
  draw _ used := String.ofList (List.replicate ((used.map String.length).sum + 1) 'f')
  fresh := by
    intro sessionKey used hmem
    have hle := List.single_le_sum (fun _ _ => Nat.zero_le _) _
      (List.mem_map_of_mem (f := String.length) hmem)
    simp at hle
    omega

/-- `created_at` is left out. -/
structure SessionHistorySummary where
  sessionId : String
  messageCount : Nat
  lastMessageAt : Option Int
  parentSessionId : Option String
  deriving DecidableEq, Repr

/-- The messages of a tree, in the order of its dictionary. -/
def SessionTree.messages (t : SessionTree) : List MessageBody :=
  t.entries.values.filterMap SessionEntry.message?

structure SessionDirectory where
  store : InMemorySessionStore := .empty
  /-- `_skey_current`. -/
  current : Dict String String := Dict.empty
  /-- `_skey_history`. -/
  history : Dict String (List (Int × String)) := Dict.empty

namespace SessionDirectory

def load (d : SessionDirectory) (sessionId : String) : Option SessionTree := d.store.load sessionId

def getCurrentSessionId (d : SessionDirectory) (sessionKey : String) : Option String :=
  d.current.get? sessionKey

def setCurrentSessionId (d : SessionDirectory) (sessionKey sessionId : String) (now : Int) :
    SessionDirectory :=
  { d with
    current := d.current.set sessionKey sessionId
    history := d.history.set sessionKey ((d.history.get? sessionKey).getD [] ++ [(now, sessionId)]) }

def saveHeader (d : SessionDirectory) (t : SessionTree) : SessionDirectory :=
  { d with store := d.store.saveHeader t }

/-- A `KeyError` leaves the store as it is. -/
def appendEntry (d : SessionDirectory) (sessionId : String) (e : SessionEntry) (leafId : String) :
    SessionDirectory :=
  { d with store := (d.store.appendEntry sessionId e leafId).getD d.store }

/-- Returns whether there was such a session. -/
def deleteSession (d : SessionDirectory) (sessionId : String) : Bool × SessionDirectory :=
  ((d.load sessionId).isSome,
    { store := d.store.pop sessionId
      current := d.current.retain fun _ sid => sid ≠ sessionId
      history := d.history.mapValues fun _ points => points.filter fun p => p.2 ≠ sessionId })

/-- The tree that `create_new_session` stores. -/
def newTree (tokens : SessionTokens) (d : SessionDirectory) (sessionKey workspaceId agentId : String)
    (parentSessionId : Option String) : SessionTree where
  header :=
    { id := generateSessionId tokens sessionKey d.store.trees.keys
      workspaceId := workspaceId
      agentId := agentId
      sessionKey := sessionKey
      parentSession := parentSessionId }

def createNewSession (tokens : SessionTokens) (d : SessionDirectory)
    (sessionKey workspaceId agentId : String) (parentSessionId : Option String) (now : Int) :
    SessionTree × SessionDirectory :=
  let tree := newTree tokens d sessionKey workspaceId agentId parentSessionId
  (tree, { d with store := d.store.put tree }.setCurrentSessionId sessionKey tree.header.id now)

def summary (d : SessionDirectory) (sessionId : String) : SessionHistorySummary :=
  match d.load sessionId with
  | none =>
    { sessionId, messageCount := 0, lastMessageAt := none, parentSessionId := none }
  | some tree =>
    { sessionId
      messageCount := tree.messages.length
      lastMessageAt := tree.header.lastInteractionAt
      parentSessionId := tree.header.parentSession }

/-- The last `limit` pointers of a session key, the newest first. -/
def listSessionHistory (d : SessionDirectory) (sessionKey : String) (limit : Nat := 20) :
    List SessionHistorySummary :=
  ((Sql.orderDesc Prod.fst ((d.history.get? sessionKey).getD [])).take limit).map fun p =>
    d.summary p.2

/-! ## Pointers and trees -/

section
variable {tokens : SessionTokens} {d : SessionDirectory} {key sid : String} {now : Int}

@[simp] theorem load_setCurrent (key' sid' : String) :
    (d.setCurrentSessionId key' sid' now).load sid = d.load sid := rfl

@[simp] theorem load_put_self (t : SessionTree) :
    ({ d with store := d.store.put t } : SessionDirectory).load t.header.id = some t :=
  InMemorySessionStore.load_put d.store t

theorem load_put_ne (t : SessionTree) (h : t.header.id ≠ sid) :
    ({ d with store := d.store.put t } : SessionDirectory).load sid = d.load sid :=
  InMemorySessionStore.load_put_ne d.store h

@[simp] theorem getCurrent_setCurrent :
    (d.setCurrentSessionId key sid now).getCurrentSessionId key = some sid :=
  Dict.get?_set_self _ _ _

theorem getCurrent_setCurrent_ne {key' : String} (h : key' ≠ key) (sid : String) :
    (d.setCurrentSessionId key' sid now).getCurrentSessionId key = d.getCurrentSessionId key :=
  Dict.get?_set_ne _ _ h

theorem load_newTree_id (workspaceId agentId : String) (parent : Option String) :
    d.load (newTree tokens d key workspaceId agentId parent).header.id = none := by
  have hfresh := tokens.fresh key d.store.trees.keys
  exact Dict.get?_eq_none.mpr hfresh

/-- The new session is the current one, and empty. -/
theorem createNewSession_spec (workspaceId agentId : String) (parent : Option String) :
    ∃ t d', d.createNewSession tokens key workspaceId agentId parent now = (t, d') ∧
      t.messages = [] ∧ d.load t.header.id = none ∧ d'.load t.header.id = some t ∧
      d'.getCurrentSessionId key = some t.header.id ∧
      ∀ other, t.header.id ≠ other → d'.load other = d.load other := by
  refine ⟨_, _, rfl, rfl, load_newTree_id workspaceId agentId parent, ?_, ?_, ?_⟩
  · exact load_put_self _
  · exact getCurrent_setCurrent
  · intro other hother
    exact load_put_ne _ hother

/-- Storing a tree under its id forgets no session. -/
theorem load_put_isSome (t : SessionTree) (h : (d.load sid).isSome = true) :
    (({ d with store := d.store.put t } : SessionDirectory).load sid).isSome = true := by
  by_cases hsid : t.header.id = sid
  · rw [← hsid, load_put_self]
    rfl
  · rw [load_put_ne t hsid]
    exact h

theorem load_saveHeader_isSome (t : SessionTree) (h : (d.load sid).isSome = true) :
    ((d.saveHeader t).load sid).isSome = true := by
  unfold saveHeader InMemorySessionStore.saveHeader
  split
  · exact load_put_isSome _ h
  · exact load_put_isSome _ h

theorem load_appendEntry_isSome (sid' : String) (e : SessionEntry) (leafId : String)
    (h : (d.load sid).isSome = true) : ((d.appendEntry sid' e leafId).load sid).isSome = true := by
  unfold appendEntry InMemorySessionStore.appendEntry
  cases d.store.load sid' with
  | none => exact h
  | some t => exact load_put_isSome _ h

theorem load_createNewSession_isSome (workspaceId agentId : String) (parent : Option String)
    (h : (d.load sid).isSome = true) :
    ((d.createNewSession tokens key workspaceId agentId parent now).2.load sid).isSome = true :=
  load_put_isSome _ h

end

end SessionDirectory

end PyClaw
