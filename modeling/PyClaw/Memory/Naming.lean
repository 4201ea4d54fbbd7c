import PyClaw.Lib.Text
import PyClaw.Session.Tree

/-!
# Memory.Naming

Session keys as the channels build them, and the database file that `HumanReadableNaming` gives a
key. `filenameFor_channel`: two keys of channels have one file exactly when they become equal once
`:`, `/`, `\` and the control characters are replaced by `_`.
-/

namespace PyClaw

/-! ## Session keys -/

/-- `session_id[: session_id.find(":s:")]`, or the whole id. -/
def deriveSessionKey (sessionId : String) : String :=
  match splitFirst ":s:".toList sessionId.toList with
  | some (key, _) => String.ofList key
  | none => sessionId

/-- The session of `_run_chat`; none when it answers "Access denied". -/
def webSessionId (userId conversationId : String) : Option String :=
  if "web:".toList <+: conversationId.toList then
    if ("web:" ++ userId ++ ":").toList <+: conversationId.toList then some conversationId else none
  else some ("web:" ++ userId ++ ":" ++ conversationId)

/-- What `build_session_key` reads of a Feishu event; missing fields are empty. -/
structure FeishuEvent where
  chatType : String
  chatId : String
  openId : String
  threadId : String

def buildSessionKey (appId : String) (event : FeishuEvent) (scope : String) : String :=
  if event.chatType = "p2p" then "feishu:" ++ appId ++ ":" ++ event.openId
  else if scope = "user" then "feishu:" ++ appId ++ ":" ++ event.chatId ++ ":" ++ event.openId
  else if scope = "thread" ∧ event.threadId ≠ "" then
    "feishu:" ++ appId ++ ":" ++ event.chatId ++ ":thread:" ++ event.threadId
  else "feishu:" ++ appId ++ ":" ++ event.chatId

/-- A session of `SessionRouter`: the key itself, or the key with a random suffix. -/
def routedSessionId (sessionKey : String) : Option String → String
  | none => sessionKey
  | some suffix => sessionKey ++ ":s:" ++ suffix

inductive ChannelRequest where
  | web (userId conversationId : String)
  | openai (userId : String) (suffix : Option String)
  | feishu (appId : String) (event : FeishuEvent) (scope : String) (suffix : Option String)

def ChannelRequest.sessionId : ChannelRequest → Option String
  | .web userId conversationId => webSessionId userId conversationId
  | .openai userId suffix => some (routedSessionId ("openai:" ++ userId) suffix)
  | .feishu appId event scope suffix =>
    some (routedSessionId (buildSessionKey appId event scope) suffix)

/-- The key under which the memory store is asked. -/
def ChannelRequest.sessionKey (r : ChannelRequest) : Option String :=
  r.sessionId.map deriveSessionKey

def ChannelKey (key : String) : Prop := ∃ r : ChannelRequest, r.sessionKey = some key

/-! ## File names -/

/-- `[/\\\x00-\x1f\x7f]`. -/
def dangerousChar (c : Char) : Bool :=
  c = '/' || c = '\\' || decide (c.toNat < 0x20) || decide (c.toNat = 0x7f)

/-- Both stages of the sanitizer. -/
def stage1 (sessionKey : String) : List Char :=
  sessionKey.toList.map fun c => if c = ':' then '_' else c

def stage2 (text : List Char) : List Char := text.map fun c => if dangerousChar c then '_' else c

/-- `HumanReadableNaming.filename_for`, of a key that is not empty; `sha256Hex` is
`hashlib.sha256(key.encode()).hexdigest()`. -/
def filenameFor (py : PyText) (sha256Hex : String → String) (sessionKey : String) : Option String :=
  if sessionKey = "" then none
  else
    let name := stage1 sessionKey
    if name = ".".toList ∨ name = "..".toList ∨ blankText py.isSpace (String.ofList name) = true then
      some ("_unsafe_" ++ String.ofList ((sha256Hex sessionKey).toList.take 16) ++ ".db")
    else some (String.ofList (stage2 name) ++ ".db")

section
variable {py : PyText} {sha256Hex : String → String}

/-- A key that begins with a letter is not degenerate. -/
theorem filenameFor_letter {key : String} {c : Char} {rest : List Char} (hkey : key.toList = c :: rest)
    (hc : c.isAlpha = true) (hspace : ∀ c, py.isSpace c = true → c.isAlpha = false) :
    filenameFor py sha256Hex key = some (String.ofList (stage2 (stage1 key)) ++ ".db") := by
  have hne : key ≠ "" := by
    intro h
    rw [h] at hkey
    cases hkey
  have hcolon : c ≠ ':' := by
    rintro rfl
    exact absurd hc (by decide)
  have hname : stage1 key = c :: rest.map fun c => if c = ':' then '_' else c := by
    rw [stage1, hkey, List.map_cons, if_neg hcolon]
  have hdegenerate : ¬ (stage1 key = ".".toList ∨ stage1 key = "..".toList ∨
      blankText py.isSpace (String.ofList (stage1 key)) = true) := by
    rw [hname]
    rintro (h | h | h)
    · have hdot : c = '.' := (List.cons.inj h).1
      rw [hdot] at hc
      exact absurd hc (by decide)
    · have hdot : c = '.' := (List.cons.inj h).1
      rw [hdot] at hc
      exact absurd hc (by decide)
    · rw [blankText, String.toList_ofList, List.all_cons, Bool.and_eq_true] at h
      rw [hspace c h.1] at hc
      cases hc
  simp only [filenameFor, if_neg hne, if_neg hdegenerate]

/-- Cutting at `:s:` keeps a first character other than `:`. -/
theorem deriveSessionKey_head {sessionId : String} {c : Char} {rest : List Char}
    (h : sessionId.toList = c :: rest) (hc : c ≠ ':') :
    ∃ rest', (deriveSessionKey sessionId).toList = c :: rest' := by
  unfold deriveSessionKey
  cases hs : splitFirst ":s:".toList sessionId.toList with
  | none => exact ⟨rest, h⟩
  | some p =>
    obtain ⟨key, tail⟩ := p
    have hcut : c :: rest = key ++ ":s:".toList ++ tail := h ▸ splitFirst_sound hs
    cases key with
    | nil => exact absurd (List.cons.inj hcut).1 hc
    | cons k ks =>
      refine ⟨ks, ?_⟩
      rw [(List.cons.inj hcut).1]
      exact String.toList_ofList

theorem append_head {s : String} {c : Char} {rest : List Char} (h : s.toList = c :: rest)
    (t : String) : ∃ rest', (s ++ t).toList = c :: rest' := by
  rw [String.toList_append, h]
  exact ⟨_, rfl⟩

theorem buildSessionKey_head (appId : String) (event : FeishuEvent) (scope : String) :
    ∃ rest, (buildSessionKey appId event scope).toList = 'f' :: rest := by
  have hprefix : "feishu:".toList = 'f' :: "eishu:".toList := rfl
  unfold buildSessionKey
  simp only [String.append_assoc]
  split_ifs
  all_goals exact append_head hprefix _

theorem routedSessionId_head {key : String} {c : Char} {rest : List Char}
    (h : key.toList = c :: rest) (suffix : Option String) :
    ∃ rest', (routedSessionId key suffix).toList = c :: rest' := by
  cases suffix with
  | none => exact ⟨rest, h⟩
  | some t =>
    obtain ⟨_, hkey⟩ := append_head h ":s:"
    exact append_head hkey t

theorem ChannelRequest.sessionId_head {r : ChannelRequest} {sid : String}
    (h : r.sessionId = some sid) :
    ∃ c rest, sid.toList = c :: rest ∧ c.isAlpha = true := by
  cases r with
  | web userId conversationId =>
    simp only [ChannelRequest.sessionId, webSessionId] at h
    split at h
    · rename_i hweb
      split at h
      · cases h
        obtain ⟨tail, htail⟩ := hweb
        exact ⟨'w', _, htail.symm, rfl⟩
      · cases h
    · cases h
      have hprefix : "web:".toList = 'w' :: "eb:".toList := rfl
      rw [String.append_assoc, String.append_assoc]
      obtain ⟨rest, hrest⟩ := append_head hprefix (userId ++ (":" ++ conversationId))
      exact ⟨'w', rest, hrest, rfl⟩
  | openai userId suffix =>
    cases h
    have hprefix : "openai:".toList = 'o' :: "penai:".toList := rfl
    obtain ⟨_, hkey⟩ := append_head hprefix userId
    obtain ⟨rest, hrest⟩ := routedSessionId_head hkey suffix
    exact ⟨'o', rest, hrest, rfl⟩
  | feishu appId event scope suffix =>
    cases h
    obtain ⟨_, hkey⟩ := buildSessionKey_head appId event scope
    obtain ⟨rest, hrest⟩ := routedSessionId_head hkey suffix
    exact ⟨'f', rest, hrest, rfl⟩

theorem ChannelKey.head {key : String} (h : ChannelKey key) :
    ∃ c rest, key.toList = c :: rest ∧ c.isAlpha = true := by
  obtain ⟨r, hr⟩ := h
  obtain ⟨sid, hsid, rfl⟩ := Option.map_eq_some_iff.mp hr
  obtain ⟨c, rest, hhead, hc⟩ := ChannelRequest.sessionId_head hsid
  have hcolon : c ≠ ':' := by
    rintro rfl
    exact absurd hc (by decide)
  obtain ⟨rest', hkey⟩ := deriveSessionKey_head hhead hcolon
  exact ⟨c, rest', hkey, hc⟩

/-- The file of a channel's key is its sanitized text. -/
theorem filenameFor_channel {key : String} (h : ChannelKey key)
    (hspace : ∀ c, py.isSpace c = true → c.isAlpha = false) :
    filenameFor py sha256Hex key = some (String.ofList (stage2 (stage1 key)) ++ ".db") := by
  obtain ⟨c, rest, hkey, hc⟩ := h.head
  exact filenameFor_letter hkey hc hspace

theorem filenameFor_channel_eq_iff {key key' : String} (h : ChannelKey key) (h' : ChannelKey key')
    (hspace : ∀ c, py.isSpace c = true → c.isAlpha = false) :
    filenameFor py sha256Hex key = filenameFor py sha256Hex key' ↔
      stage2 (stage1 key) = stage2 (stage1 key') := by
  rw [filenameFor_channel h hspace, filenameFor_channel h' hspace]
  constructor
  · intro he
    have := congrArg String.toList (Option.some.inj he)
    simp only [String.toList_append, String.toList_ofList] at this
    exact List.append_cancel_right this
  · intro he
    rw [he]

end

end PyClaw
