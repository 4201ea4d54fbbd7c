import PyClaw.Channels.SessionRouter
import PyClaw.Lib.Machine
import PyClaw.Memory.Naming

/-!
# Channels.Switch

`/new`, `/reset` and `/resume`, and the session that the next message of the conversation is run
on. Replies other than success are `none`; the texts of the replies are left out.
-/

namespace PyClaw

inductive Conversation where
  | web (userId conversationId : String)
  | feishu (appId : String) (event : FeishuEvent) (scope : String)

/-- The session key of the command context. -/
def Conversation.sessionKey : Conversation → String
  | .web userId _ => "web:" ++ if userId = "" then "unknown" else userId
  | .feishu appId event scope => buildSessionKey appId event scope

def Conversation.workspaceId (conv : Conversation) : String :=
  match conv with
  | .web _ _ => "default"
  | .feishu _ _ _ => String.ofList (replaceEach ':' ['_'] conv.sessionKey.toList)

namespace SessionDirectory

/-- The idle limit of `handle_feishu_message`: that of the session, else that of the channel. -/
def idleLimit (d : SessionDirectory) (idleMinutes : Int) (sessionId : String) : Int :=
  ((d.load sessionId).bind fun tree => tree.header.idleMinutesOverride).getD idleMinutes

def idleExpired (d : SessionDirectory) (idleMinutes : Int) (sessionId : String) (now : Int) : Bool :=
  d.checkIdleReset sessionId (d.idleLimit idleMinutes sessionId) now

/-- The session that a message of the conversation, arriving at `now`, is run on; none when web
answers "Access denied". `_run_chat` does not ask the router. -/
def arrive (tokens : SessionTokens) (idleMinutes : Int) (d : SessionDirectory) (now : Int)
    (conv : Conversation) : Option String × SessionDirectory :=
  match conv with
  | .web userId conversationId => (webSessionId userId conversationId, d)
  | .feishu _ _ _ =>
    let (sid, d) := d.resolveOrCreate tokens conv.sessionKey conv.workspaceId now
    if d.idleExpired idleMinutes sid now then
      let (sid, d) := d.rotate tokens conv.sessionKey conv.workspaceId now
      (some sid, d)
    else (some sid, d)

end SessionDirectory

/-! ## The commands -/

/-- `str.isdigit` of a character, and what `int` makes of it: a superscript is a digit that `int`
refuses. -/
structure PyDigits where
  isDigit : Char → Bool
  value : Char → Option Nat

def PyDigits.ascii : PyDigits where
  isDigit := Char.isDigit
  value c := if c.isDigit then some (c.toNat - '0'.toNat) else none

def PyDigits.int (digits : PyDigits) (text : List Char) : Option Nat :=
  text.foldlM (fun n c => (digits.value c).map (10 * n + ·)) 0

/-- `cmd_resume` up to its `target`. -/
def resumeTarget (digits : PyDigits) (history : List SessionHistorySummary) (arg : List Char) :
    Option String :=
  let recent := history.take 5
  if arg = [] then none
  else if arg.all digits.isDigit ∧ arg.length ≤ 2 then
    match digits.int arg with
    | none => none
    | some idx =>
      if 1 ≤ idx ∧ idx ≤ recent.length then (recent[idx - 1]?).map SessionHistorySummary.sessionId
      else none
  else
    match (history.map SessionHistorySummary.sessionId).filter fun sid => arg <:+ sid.toList with
    | [target] => some target
    | _ => none

inductive SwitchCommand where
  | new
  | reset
  | resume (args : String)

/-- What the reply announces. -/
inductive Switched where
  | fresh
  | to (sessionId : String)
  deriving DecidableEq, Repr

namespace SessionDirectory

def cmdNew (tokens : SessionTokens) (d : SessionDirectory) (now : Int) (conv : Conversation) :
    SessionDirectory :=
  (d.rotate tokens conv.sessionKey conv.workspaceId now).2

def cmdResume (py : PyText) (digits : PyDigits) (d : SessionDirectory) (now : Int)
    (conv : Conversation) (args : String) : Option (String × SessionDirectory) :=
  let arg := strip py.isSpace args.toList
  if py.lower (String.ofList arg) = "current" then none
  else
    match resumeTarget digits (d.listSessionHistory conv.sessionKey) arg with
    | none => none
    | some target =>
      if (d.load target).isSome then
        some (target, d.setCurrentSessionId conv.sessionKey target now)
      else none

/-- The command message arrives like any other message; `none`: no reply of success. -/
def command (py : PyText) (digits : PyDigits) (tokens : SessionTokens) (idleMinutes : Int)
    (d : SessionDirectory) (now : Int) (conv : Conversation) (c : SwitchCommand) :
    Option (Switched × SessionDirectory) :=
  match d.arrive tokens idleMinutes now conv with
  | (none, _) => none
  | (some _, d) =>
    match c with
    | .new | .reset => some (.fresh, d.cmdNew tokens now conv)
    | .resume args =>
      (d.cmdResume py digits now conv args).map fun p => (.to p.1, p.2)

end SessionDirectory

/-! ## What goes on in between -/

/-- What other conversations, and runs in progress, do to the store. -/
inductive DirectoryStep where
  | append (sessionId : String) (e : SessionEntry) (leafId : String)
  | touch (sessionId : String) (now : Int)
  | saveHeader (t : SessionTree)
  | point (sessionKey sessionId : String) (now : Int)
  | create (sessionKey workspaceId agentId : String) (parent : Option String) (now : Int)

/-- The session key whose pointer is set. -/
def DirectoryStep.points : DirectoryStep → Option String
  | .point key _ _ => some key
  | .create key _ _ _ _ => some key
  | _ => none

def SessionDirectory.step (tokens : SessionTokens) (d : SessionDirectory) :
    DirectoryStep → SessionDirectory
  | .append sid e leaf => d.appendEntry sid e leaf
  | .touch sid now => d.updateLastInteraction sid now
  | .saveHeader t => d.saveHeader t
  | .point key sid now => d.setCurrentSessionId key sid now
  | .create key workspaceId agentId parent now =>
    (d.createNewSession tokens key workspaceId agentId parent now).2

/-- On Feishu only the conversation itself sets its pointer; the conversations of a web user share
one. -/
def Conversation.Elsewhere : Conversation → DirectoryStep → Prop
  | .web _ _, _ => True
  | .feishu appId event scope, s => s.points ≠ some (buildSessionKey appId event scope)

/-! ## Taking effect -/

/-- The next message is run on `sid`, while `d` is the store just after the command. -/
def Switched.TakesEffect (d : SessionDirectory) (sid : String) : Switched → Prop
  | .fresh => ∀ tree, d.load sid = some tree → tree.messages = []
  | .to target => sid = target

/-- A web conversation has one session for ever, `own`. -/
def Switched.HoldsOnWeb (before : SessionDirectory) (own : String) : Switched → Prop
  | .fresh => ∀ tree, before.load own = some tree → tree.messages = []
  | .to target => own = target

/-- `d` is the store when the next message arrives. -/
def Switched.HoldsOnFeishu (idleMinutes : Int) (d : SessionDirectory) (now : Int) : Switched → Prop
  | .fresh => True
  | .to target => d.idleExpired idleMinutes target now = false

def Switched.Holds (conv : Conversation) (idleMinutes : Int) (before d : SessionDirectory) (now : Int)
    (r : Switched) : Prop :=
  match conv with
  | .web userId conversationId => ∀ own, webSessionId userId conversationId = some own →
      r.HoldsOnWeb before own
  | .feishu _ _ _ => r.HoldsOnFeishu idleMinutes d now

end PyClaw
