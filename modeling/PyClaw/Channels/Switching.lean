import PyClaw.Channels.Switch

/-!
# Channels.Switching

When `/new`, `/reset` and `/resume` take effect (`takesEffect_iff`). On Feishu a reset always does,
and a resumed session is used unless it is past its idle limit. On the web a conversation keeps its
own session, whatever the pointer says.
-/

namespace PyClaw

namespace SessionDirectory

section
variable {tokens : SessionTokens} {d : SessionDirectory} {key sid : String}

/-! ## In between -/

theorem step_keeps (a : DirectoryStep) (h : (d.load sid).isSome = true) :
    ((d.step tokens a).load sid).isSome = true := by
  cases a with
  | append sid' e leaf => exact load_appendEntry_isSome sid' e leaf h
  | touch sid' now => exact load_updateLastInteraction_isSome sid' h
  | saveHeader t => exact load_saveHeader_isSome t h
  | point key sid' now => exact h
  | create key workspaceId agentId parent now =>
    exact load_createNewSession_isSome workspaceId agentId parent h

theorem step_current {a : DirectoryStep} (ha : a.points ≠ some key) :
    (d.step tokens a).getCurrentSessionId key = d.getCurrentSessionId key := by
  cases a with
  | append sid' e leaf => rfl
  | touch sid' now =>
    simp only [step, updateLastInteraction]
    split
    · rfl
    · rfl
  | saveHeader t => rfl
  | point key' sid' now =>
    have hkey : key' ≠ key := fun h => ha (congrArg some h)
    exact getCurrent_setCurrent_ne hkey sid'
  | create key' workspaceId agentId parent now =>
    have hkey : key' ≠ key := fun h => ha (congrArg some h)
    exact getCurrent_setCurrent_ne hkey _

/-- A stored session that is current stays so while others work. -/
theorem run_current {steps : List DirectoryStep} (hsteps : ∀ a ∈ steps, a.points ≠ some key)
    (hload : (d.load sid).isSome = true) (hcurrent : d.getCurrentSessionId key = some sid) :
    ((runFrom (step tokens) d steps).load sid).isSome = true ∧
      (runFrom (step tokens) d steps).getCurrentSessionId key = some sid := by
  induction steps generalizing d with
  | nil => exact ⟨hload, hcurrent⟩
  | cons a steps ih =>
    have ha : a.points ≠ some key := hsteps a List.mem_cons_self
    have hrest : ∀ b ∈ steps, b.points ≠ some key := fun b hb => hsteps b (List.mem_cons_of_mem a hb)
    exact ih hrest (step_keeps a hload) ((step_current ha).trans hcurrent)

theorem run_keeps {steps : List DirectoryStep} (h : (d.load sid).isSome = true) :
    ((runFrom (step tokens) d steps).load sid).isSome = true :=
  @runFrom_invariant _ _ _ (fun d => (d.load sid).isSome = true) d steps (fun _ a h => step_keeps a h) h

/-! ## The next message on Feishu -/

variable {idleMinutes now : Int} {appId scope : String} {event : FeishuEvent}

/-- A message is run on the current session, or on a new one if that is past its idle limit. -/
theorem arrive_feishu (hload : (d.load sid).isSome = true)
    (hcurrent : d.getCurrentSessionId (buildSessionKey appId event scope) = some sid) :
    if d.idleExpired idleMinutes sid now = true then
      ∃ new, (d.arrive tokens idleMinutes now (.feishu appId event scope)).1 = some new ∧
        d.load new = none
    else (d.arrive tokens idleMinutes now (.feishu appId event scope)).1 = some sid := by
  have hresolve := @resolveOrCreate_current tokens d _ sid
    (Conversation.feishu appId event scope).workspaceId now hcurrent hload
  by_cases hidle : d.idleExpired idleMinutes sid now = true
  · rw [if_pos hidle]
    obtain ⟨new, d', hrotate, hnew, -⟩ := @rotate_spec tokens
      (Conversation.feishu appId event scope).sessionKey
      (Conversation.feishu appId event scope).workspaceId now d
    refine ⟨new, ?_, hnew⟩
    simp only [arrive, Conversation.sessionKey] at hrotate ⊢
    simp only [hresolve, if_pos hidle, hrotate]
  · rw [if_neg hidle]
    simp only [arrive, Conversation.sessionKey, hresolve, if_neg hidle]

/-! ## After a command -/

variable {py : PyText} {digits : PyDigits} {d' : SessionDirectory} {conv : Conversation}
  {c : SwitchCommand}
  {r : Switched}

theorem cmdResume_spec {args target : String}
    (h : d.cmdResume py digits now conv args = some (target, d')) :
    (d'.load target).isSome = true ∧ d'.getCurrentSessionId conv.sessionKey = some target := by
  unfold cmdResume at h
  dsimp only at h
  split at h
  · cases h
  · split at h
    · cases h
    · split at h
      · rename_i hload
        cases h
        exact ⟨hload, getCurrent_setCurrent⟩
      · cases h

theorem cmdNew_spec (d : SessionDirectory) : ∃ new, d.load new = none ∧
    (∃ t, (d.cmdNew tokens now conv).load new = some t ∧ t.messages = []) ∧
    (d.cmdNew tokens now conv).getCurrentSessionId conv.sessionKey = some new ∧
    ∀ other, new ≠ other → (d.cmdNew tokens now conv).load other = d.load other := by
  obtain ⟨new, d', hrotate, hspec⟩ :=
    @rotate_spec tokens conv.sessionKey conv.workspaceId now d
  refine ⟨new, ?_⟩
  rw [cmdNew, hrotate]
  exact hspec

/-- A command that replied success ran in the session its message arrived at. -/
theorem command_cases (h : d.command py digits tokens idleMinutes now conv c = some (r, d')) :
    ∃ own d₀, d.arrive tokens idleMinutes now conv = (some own, d₀) ∧
      ((r = .fresh ∧ d' = d₀.cmdNew tokens now conv) ∨
        ∃ args target, r = .to target ∧ d₀.cmdResume py digits now conv args = some (target, d')) := by
  unfold command at h
  split at h
  · cases h
  · rename_i own d₀ harrive
    refine ⟨own, d₀, harrive, ?_⟩
    split at h
    · cases h
      exact .inl ⟨rfl, rfl⟩
    · cases h
      exact .inl ⟨rfl, rfl⟩
    · rename_i args
      obtain ⟨⟨target, d''⟩, hresume, he⟩ := Option.map_eq_some_iff.mp h
      cases he
      exact .inr ⟨args, target, rfl, hresume⟩

/-- The history of a web conversation is touched by `/new` only when the new session is its own. -/
theorem cmdNew_messages (d : SessionDirectory) (sid : String) :
    (∀ t, (d.cmdNew tokens now conv).load sid = some t → t.messages = []) ↔
      ∀ t, d.load sid = some t → t.messages = [] := by
  obtain ⟨new, hnew, ⟨t, hload, hempty⟩, -, hothers⟩ := @cmdNew_spec tokens now conv d
  by_cases hsid : new = sid
  · subst hsid
    simp [hnew, hload, hempty]
  · rw [hothers sid hsid]

end

end SessionDirectory

/-! ## The law -/

section
variable {py : PyText} {digits : PyDigits} {tokens : SessionTokens} {idleMinutes now next : Int}
  {d d' : SessionDirectory} {conv : Conversation} {c : SwitchCommand} {r : Switched}
  {steps : List DirectoryStep} {sid : String}

open SessionDirectory

theorem takesEffect_web {userId conversationId : String}
    (hcmd : d.command py digits tokens idleMinutes now (.web userId conversationId) c = some (r, d'))
    (sid : String) : r.TakesEffect d' sid ↔ r.HoldsOnWeb d sid := by
  obtain ⟨own, d₀, harrive, hr⟩ := command_cases hcmd
  have hd : d₀ = d := (congrArg Prod.snd harrive).symm
  subst hd
  rcases hr with ⟨rfl, rfl⟩ | ⟨args, target, rfl, hresume⟩
  · exact cmdNew_messages d₀ sid
  · exact Iff.rfl

theorem takesEffect_feishu {appId scope : String} {event : FeishuEvent}
    (hcmd : d.command py digits tokens idleMinutes now (.feishu appId event scope) c = some (r, d'))
    (hsteps : ∀ a ∈ steps, a.points ≠ some (buildSessionKey appId event scope))
    (hsid : ((runFrom (step tokens) d' steps).arrive tokens idleMinutes next
      (.feishu appId event scope)).1 = some sid) :
    r.TakesEffect d' sid ↔ r.HoldsOnFeishu idleMinutes (runFrom (step tokens) d' steps) next := by
  obtain ⟨own, d₀, -, hr⟩ := command_cases hcmd
  rcases hr with ⟨rfl, rfl⟩ | ⟨args, target, rfl, hresume⟩
  · -- the session of the next message is the new one, or a newer one
    obtain ⟨new, -, ⟨t, hload, hempty⟩, hcurrent, -⟩ :=
      @cmdNew_spec tokens now (.feishu appId event scope) d₀
    have hstored := Option.isSome_iff_exists.mpr ⟨t, hload⟩
    obtain ⟨hlater, hcurrent'⟩ := @run_current tokens _ _ _ steps hsteps hstored hcurrent
    have hnext := @arrive_feishu tokens _ _ idleMinutes next appId scope event hlater hcurrent'
    refine iff_of_true ?_ trivial
    intro tree htree
    split at hnext
    · obtain ⟨newer, hnewer, hfresh⟩ := hnext
      rw [hsid] at hnewer
      cases hnewer
      have hkept := @run_keeps tokens _ _ steps (Option.isSome_iff_exists.mpr ⟨tree, htree⟩)
      rw [hfresh] at hkept
      cases hkept
    · rw [hsid] at hnext
      cases hnext
      rw [hload] at htree
      cases htree
      exact hempty
  · obtain ⟨hload, hcurrent⟩ := cmdResume_spec hresume
    obtain ⟨hlater, hcurrent'⟩ := @run_current tokens _ _ _ steps hsteps hload hcurrent
    have hnext := @arrive_feishu tokens _ _ idleMinutes next appId scope event hlater hcurrent'
    simp only [Switched.TakesEffect, Switched.HoldsOnFeishu]
    by_cases hidle : (runFrom (step tokens) d' steps).idleExpired idleMinutes target next = true
    · rw [if_pos hidle] at hnext
      obtain ⟨new, hnew, hfresh⟩ := hnext
      have hne : sid ≠ target := by
        rintro rfl
        rw [hsid] at hnew
        cases hnew
        rw [hfresh] at hlater
        cases hlater
      simp [hne, hidle]
    · rw [if_neg hidle, hsid] at hnext
      cases hnext
      simp [hidle]

/-- After a command that replied success, and anything that goes on elsewhere, the next message is
run where the reply said exactly when: on Feishu, the resumed session is within its idle limit; on
the web, the conversation's own session had no message, or is the resumed one. -/
theorem takesEffect_iff
    (hcmd : d.command py digits tokens idleMinutes now conv c = some (r, d'))
    (hsteps : ∀ a ∈ steps, conv.Elsewhere a)
    (hsid : ((runFrom (step tokens) d' steps).arrive tokens idleMinutes next conv).1 = some sid) :
    r.TakesEffect d' sid ↔
      r.Holds conv idleMinutes d (runFrom (step tokens) d' steps) next := by
  cases conv with
  | web userId conversationId =>
    have hown : webSessionId userId conversationId = some sid := hsid
    rw [takesEffect_web hcmd sid, Switched.Holds]
    simp [hown]
  | feishu appId event scope => exact takesEffect_feishu hcmd hsteps hsid

end

/-! ## Two conversations -/

/-- Alice has said hello in a web conversation. -/
def webHistory : SessionDirectory where
  store := InMemorySessionStore.empty.put
    (SessionTree.push { header := { id := "web:alice:c", workspaceId := "default", agentId := "default" } }
      { id := "1", parentId := none, body := .message { role := .user, content := .str "hello" } })

/-- A Feishu user's old session, last used at time 0, and the current one. -/
def feishuHistory : SessionDirectory where
  store := (InMemorySessionStore.empty.put
    { header := { id := "feishu:app:ou:s:old", workspaceId := "feishu_app_ou", agentId := "default",
                  lastInteractionAt := some 0 } }).put
    { header := { id := "feishu:app:ou:s:now", workspaceId := "feishu_app_ou", agentId := "default" } }
  current := Dict.empty.set "feishu:app:ou" "feishu:app:ou:s:now"
  history := Dict.empty.set "feishu:app:ou"
    [(0, "feishu:app:ou:s:old"), (60000000, "feishu:app:ou:s:now")]

def feishuUser : Conversation :=
  .feishu "app" { chatType := "p2p", chatId := "oc", openId := "ou", threadId := "" } "chat"

/-- `/resume 2` within the idle limit of thirty minutes. -/
theorem takesEffect_resumed : ∃ d', feishuHistory.command PyText.ascii PyDigits.ascii SessionTokens.long 30
    120000000 feishuUser (.resume "2") = some (.to "feishu:app:ou:s:old", d') ∧
    (d'.arrive SessionTokens.long 30 1799000000 feishuUser).1 = some "feishu:app:ou:s:old" ∧
    (Switched.to "feishu:app:ou:s:old").TakesEffect d' "feishu:app:ou:s:old" := by
  let d' := feishuHistory.setCurrentSessionId "feishu:app:ou" "feishu:app:ou:s:old" 120000000
  have hcmd : feishuHistory.command PyText.ascii PyDigits.ascii SessionTokens.long 30 120000000
      feishuUser (.resume "2") = some (.to "feishu:app:ou:s:old", d') := by rfl
  have hnext : (d'.arrive SessionTokens.long 30 1799000000 feishuUser).1 =
      some "feishu:app:ou:s:old" := by decide +kernel
  have hidle : d'.idleExpired 30 "feishu:app:ou:s:old" 1799000000 = false := by decide +kernel
  have heffect := (@takesEffect_iff _ _ _ 30 _ _ _ d' _ _ _ [] _ hcmd
    (fun _ h => absurd h List.not_mem_nil) hnext).mpr hidle
  exact ⟨d', hcmd, hnext, heffect⟩

/-- After `/new` on the web the next message is run on the old history, and a Feishu session that was
resumed past its idle limit is replaced. -/
theorem switching_fails :
    (∃ d', webHistory.command PyText.ascii PyDigits.ascii SessionTokens.long 0 0 (.web "alice" "c") .new =
        some (.fresh, d') ∧
      (d'.arrive SessionTokens.long 0 0 (.web "alice" "c")).1 = some "web:alice:c" ∧
      ¬ Switched.fresh.TakesEffect d' "web:alice:c") ∧
    ∃ d' sid, feishuHistory.command PyText.ascii PyDigits.ascii SessionTokens.long 30 120000000 feishuUser
        (.resume "2") = some (.to "feishu:app:ou:s:old", d') ∧
      (d'.arrive SessionTokens.long 30 1800000000 feishuUser).1 = some sid ∧
      ¬ (Switched.to "feishu:app:ou:s:old").TakesEffect d' sid := by
  constructor
  · let d' := webHistory.cmdNew SessionTokens.long 0 (.web "alice" "c")
    have hmessages : ((d'.load "web:alice:c").map SessionTree.messages) ≠ some [] ∧
        (d'.load "web:alice:c").isSome = true := by decide +kernel
    refine ⟨d', by rfl, by decide +kernel, ?_⟩
    intro heffect
    obtain ⟨t, ht⟩ := Option.isSome_iff_exists.mp hmessages.2
    rw [ht, Option.map_some, heffect t ht] at hmessages
    exact hmessages.1 rfl
  · let d' := feishuHistory.setCurrentSessionId "feishu:app:ou" "feishu:app:ou:s:old" 120000000
    have hnext : (d'.arrive SessionTokens.long 30 1800000000 feishuUser).1 ≠
        some "feishu:app:ou:s:old" ∧
        (d'.arrive SessionTokens.long 30 1800000000 feishuUser).1.isSome = true := by
      decide +kernel
    have hcmd : feishuHistory.command PyText.ascii PyDigits.ascii SessionTokens.long 30 120000000
        feishuUser (.resume "2") = some (.to "feishu:app:ou:s:old", d') := by rfl
    obtain ⟨sid, hsid⟩ := Option.isSome_iff_exists.mp hnext.2
    refine ⟨d', sid, hcmd, hsid, ?_⟩
    rintro rfl
    exact hnext.1 hsid

end PyClaw
