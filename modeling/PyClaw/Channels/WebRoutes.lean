import PyClaw.Agent.State
import PyClaw.Channels.Switch

/-!
# Channels.WebRoutes

The REST routes of the web channel that look at one session, and the requests of all channels that
create sessions or change their headers, on one store. `WebStore` remembers which request created a
session.
-/

namespace PyClaw

/-! ## The routes -/

structure HttpError where
  status : Nat
  detail : String
  deriving DecidableEq, Repr

namespace SessionDirectory

/-- `_load_and_verify`. -/
def loadAndVerify (d : SessionDirectory) (sessionId userId : String) : Except HttpError SessionTree :=
  match d.load sessionId with
  | none => .error ⟨404, "Session not found"⟩
  | some tree =>
    if ("web:" ++ userId).toList <+: tree.header.sessionKey.toList then .ok tree
    else .error ⟨403, "Access denied"⟩

/-- `POST /sessions`. -/
def createSession (tokens : SessionTokens) (d : SessionDirectory) (userId : String) (now : Int) :
    String × SessionDirectory :=
  d.rotate tokens ("web:" ++ userId) "default" now

/-- `DELETE /sessions/{session_id}`. -/
def deleteRoute (d : SessionDirectory) (userId sessionId : String) :
    Except HttpError Unit × SessionDirectory :=
  match d.loadAndVerify sessionId userId with
  | .error e => (.error e, d)
  | .ok _ =>
    let (deleted, d) := d.deleteSession sessionId
    (if deleted then .ok () else .error ⟨404, "Session not found"⟩, d)

/-- `PATCH /sessions/{session_id}`: the id and the title. -/
def patchSession (py : PyText) (d : SessionDirectory) (userId sessionId : String)
    (title : Option String) : Except HttpError (String × Option String) × SessionDirectory :=
  match d.loadAndVerify sessionId userId with
  | .error e => (.error e, d)
  | .ok tree =>
    match title with
    | none => (.ok (tree.header.id, tree.header.title), d)
    | some title =>
      let title := strip py.isSpace title.toList
      if title.length > 200 then (.error ⟨400, "Title too long (max 200 chars)"⟩, d)
      else
        let title := if title = [] then none else some (String.ofList title)
        (.ok (tree.header.id, title),
          d.saveHeader { tree with header := { tree.header with title } })

/-! ## Headers that other requests change -/

/-- `cmd_idle`. -/
def cmdIdle (d : SessionDirectory) (sessionId : String) (minutes : Int) : SessionDirectory :=
  match d.load sessionId with
  | none => d
  | some tree =>
    d.saveHeader
      { tree with
        header :=
          { tree.header with idleMinutesOverride := if minutes > 0 then some minutes else none } }

/-- `cmd_model`. -/
def cmdModel (d : SessionDirectory) (sessionId target : String) : SessionDirectory :=
  match d.load sessionId with
  | none => d
  | some tree => d.saveHeader { tree with header := { tree.header with modelOverride := some target } }

end SessionDirectory

/-! ## The requests -/

/-- What is done on the store: by the REST routes, by the chat socket (`chat` and the commands of a web
conversation), by the OpenAI-compatible endpoint (`completion`), by Feishu (`message` and the commands
of a Feishu conversation), and by the runs that these start. -/
inductive SessionRequest where
  | create (userId : String) (now : Int)
  | patch (userId sessionId : String) (title : Option String)
  | delete (userId sessionId : String)
  | chat (userId conversationId content : String)
  | command (conv : Conversation) (c : SwitchCommand) (now : Int)
  | completion (userId : String) (now : Int)
  | message (appId : String) (event : FeishuEvent) (scope : String) (now : Int)
  | idle (sessionId : String) (minutes : Int)
  | model (sessionId target : String)
  | append (sessionId : String) (e : SessionEntry) (leafId : String)
  | touch (sessionId : String) (now : Int)

/-- The user of a web request that is not one of the OpenAI-compatible endpoint. -/
def SessionRequest.webUser : SessionRequest → Option String
  | .create userId _ | .patch userId _ _ | .delete userId _ | .chat userId _ _ => some userId
  | .command (.web userId _) _ _ => some userId
  | _ => none

section
variable (py : PyText) (digits : PyDigits) (tokens : SessionTokens) (idleMinutes : Int)

def SessionDirectory.serve (d : SessionDirectory) : SessionRequest → SessionDirectory
  | .create userId now => (d.createSession tokens userId now).2
  | .patch userId sid title => (d.patchSession py userId sid title).2
  | .delete userId sid => (d.deleteRoute userId sid).2
  | .chat userId conversationId content =>
    match webSessionId userId conversationId with
    | none => d
    | some sid =>
      { d with
        store :=
          (ensureSession d.store
            { sessionId := sid
              workspaceId := "default"
              agentId := "default"
              userMessage := content
              userId := some userId }).2 }
  | .command conv c now =>
    match d.command py digits tokens idleMinutes now conv c with
    | some (_, d') => d'
    | none => (d.arrive tokens idleMinutes now conv).2
  | .completion userId now => (d.resolveOrCreate tokens ("openai:" ++ userId) "default" now).2
  | .message appId event scope now => (d.arrive tokens idleMinutes now (.feishu appId event scope)).2
  | .idle sid minutes => d.cmdIdle sid minutes
  | .model sid target => d.cmdModel sid target
  | .append sid e leafId => d.appendEntry sid e leafId
  | .touch sid now => d.updateLastInteraction sid now

structure WebStore where
  directory : SessionDirectory := {}
  /-- The request that created a session. -/
  creator : String → Option SessionRequest := fun _ => none

def WebStore.step (w : WebStore) (r : SessionRequest) : WebStore :=
  let d := w.directory.serve py digits tokens idleMinutes r
  { directory := d
    creator := fun sid =>
      if (w.directory.load sid).isSome then w.creator sid
      else if (d.load sid).isSome then some r
      else none }

end

end PyClaw
