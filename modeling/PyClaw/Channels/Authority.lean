import PyClaw.Auth.Profile
import PyClaw.Session.KeyDerivation

/-!
# Channels.Authority

The authority with which the channels start agent runs: the user, the profile and the permission
tier of the `RunRequest`, for each way in which a run comes about. `authority_iff`: for which of them
the profile is the user's and the tier the first one set.
-/

namespace PyClaw

structure Deployment where
  redisProfile : AuthChannel → String → Option UserProfile
  /-- What `get_session_tier` finds under a session key. -/
  sessionTier : String → Option PermissionTier
  web : ChannelSettings
  feishu : ChannelSettings

/-- These fields of `RunRequest`. -/
structure RunAuthority where
  userId : Option String
  role : Option UserRole
  userProfile : Option UserProfile
  permissionTierOverride : PermissionTier
  deriving DecidableEq, Repr

namespace Deployment

section
variable (dep : Deployment)

def webAuthority (userId : String) (messageTier : Option PermissionTier) : RunAuthority :=
  let (profile, tier) := resolveProfileAndTier .web userId dep.redisProfile dep.web.users messageTier
    none dep.web.defaultPermissionTier
  { userId := some userId, role := some profile.role, userProfile := some profile
    permissionTierOverride := tier }

/-- `_dispatch_and_reply`; without a sender no profile is looked up. -/
def dispatchAndReply (sessionId senderOpenId : String) : RunAuthority :=
  let sessionTier := dep.sessionTier (deriveSessionKey sessionId)
  if senderOpenId = "" then
    { userId := none, role := none, userProfile := none
      permissionTierOverride := sessionTier.getD dep.feishu.defaultPermissionTier }
  else
    let (profile, tier) := resolveProfileAndTier .feishu senderOpenId dep.redisProfile
      dep.feishu.users none sessionTier dep.feishu.defaultPermissionTier
    { userId := some senderOpenId, role := some profile.role, userProfile := some profile
      permissionTierOverride := tier }

end

end Deployment

/-! ## Ways to start a run -/

/-- A Feishu run has a session key and the suffix of the current session under it. -/
inductive RunTrigger where
  /-- `chat.send`, which may carry a tier. -/
  | webMessage (userId : String) (tier : Option PermissionTier)
  /-- The text after a slash command that came with `tier`. -/
  | webFollowUp (userId : String) (tier : Option PermissionTier)
  | openai (userId : String)
  | feishuMessage (sessionKey : String) (suffix : Option String) (openId : String)
  | feishuFollowUp (sessionKey : String) (suffix : Option String) (openId : String)
  | feishuReaction (sessionKey : String) (suffix : Option String) (openId : String)

namespace RunTrigger

def start (dep : Deployment) : RunTrigger → RunAuthority
  | .webMessage userId tier => dep.webAuthority userId tier
  -- `dispatch_user_message` builds a `ChatSendMessage` without a tier
  | .webFollowUp userId _ => dep.webAuthority userId none
  | .openai userId => dep.webAuthority userId none
  | .feishuMessage key suffix openId => dep.dispatchAndReply (routedSessionId key suffix) openId
  -- these two build an `InboundMessage` without `raw`
  | .feishuFollowUp key suffix _ => dep.dispatchAndReply (routedSessionId key suffix) ""
  | .feishuReaction key suffix _ => dep.dispatchAndReply (routedSessionId key suffix) ""

/-! ## What the run should be made with -/

def channel : RunTrigger → AuthChannel
  | .webMessage _ _ | .webFollowUp _ _ | .openai _ => .web
  | .feishuMessage _ _ _ | .feishuFollowUp _ _ _ | .feishuReaction _ _ _ => .feishu

def user : RunTrigger → String
  | .webMessage user _ | .webFollowUp user _ | .openai user => user
  | .feishuMessage _ _ user | .feishuFollowUp _ _ user | .feishuReaction _ _ user => user

def messageTier : RunTrigger → Option PermissionTier
  | .webMessage _ tier | .webFollowUp _ tier => tier
  | _ => none

/-- `/tier` sets it for a Feishu session key; the web has none. -/
def sessionTier (dep : Deployment) : RunTrigger → Option PermissionTier
  | .webMessage _ _ | .webFollowUp _ _ | .openai _ => none
  | .feishuMessage key _ _ | .feishuFollowUp key _ _ | .feishuReaction key _ _ => dep.sessionTier key

def settings (dep : Deployment) (t : RunTrigger) : ChannelSettings :=
  match t.channel with
  | .web => dep.web
  | .feishu => dep.feishu

def profile (dep : Deployment) (t : RunTrigger) : UserProfile :=
  (buildDefaultStore t.channel dep.redisProfile (t.settings dep).users).get t.channel t.user

/-- The tier that the layers give a run of the user. -/
def layeredTier (dep : Deployment) (t : RunTrigger) (messageTier sessionTier : Option PermissionTier) :
    PermissionTier :=
  firstSet [messageTier, sessionTier, (t.profile dep).tierDefault]
    (t.settings dep).defaultPermissionTier

def Faithful (dep : Deployment) (t : RunTrigger) : Prop :=
  (t.start dep).userProfile = some (t.profile dep) ∧
    (t.start dep).permissionTierOverride = t.layeredTier dep t.messageTier (t.sessionTier dep)

/-- Nothing that decides the authority is lost on the way to the run. -/
def Carried (dep : Deployment) (t : RunTrigger) : Prop :=
  match t with
  | .webMessage _ _ | .openai _ => True
  | .webFollowUp _ tier => ∀ messageTier, tier = some messageTier →
      t.layeredTier dep none none = messageTier
  | .feishuMessage key suffix openId =>
    openId ≠ "" ∧ (deriveSessionKey (routedSessionId key suffix) = key ∨
      t.layeredTier dep none (dep.sessionTier (deriveSessionKey (routedSessionId key suffix))) =
        t.layeredTier dep none (dep.sessionTier key))
  | .feishuFollowUp _ _ _ | .feishuReaction _ _ _ => False

end RunTrigger

/-! ## The law -/

section
variable {dep : Deployment}

theorem webAuthority_spec (userId : String) (tier : Option PermissionTier) :
    (dep.webAuthority userId tier).userProfile =
        some ((RunTrigger.webMessage userId tier).profile dep) ∧
      (dep.webAuthority userId tier).permissionTierOverride =
        (RunTrigger.webMessage userId tier).layeredTier dep tier none := by
  rw [Deployment.webAuthority, resolveProfileAndTier_eq]
  exact ⟨rfl, rfl⟩

theorem dispatchAndReply_sender {openId : String} (h : openId ≠ "") (key : String)
    (suffix : Option String) (sessionId : String) :
    (dep.dispatchAndReply sessionId openId).userProfile =
        some ((RunTrigger.feishuMessage key suffix openId).profile dep) ∧
      (dep.dispatchAndReply sessionId openId).permissionTierOverride =
        (RunTrigger.feishuMessage key suffix openId).layeredTier dep none
          (dep.sessionTier (deriveSessionKey sessionId)) := by
  rw [Deployment.dispatchAndReply, resolveProfileAndTier_eq]
  dsimp only
  rw [if_neg h]
  exact ⟨rfl, rfl⟩

/-- A message whose sender is known. -/
theorem RunTrigger.faithful_sender_iff {openId : String} (hopen : openId ≠ "") (key : String)
    (suffix : Option String) : (RunTrigger.feishuMessage key suffix openId).Faithful dep ↔
      (RunTrigger.feishuMessage key suffix openId).Carried dep := by
  obtain ⟨hprofile, htier⟩ :=
    @dispatchAndReply_sender dep openId hopen key suffix (routedSessionId key suffix)
  constructor
  · rintro ⟨-, h⟩
    exact ⟨hopen, .inr (htier.symm.trans h)⟩
  · rintro ⟨-, hkey | hsame⟩
    · rw [hkey] at htier
      exact ⟨hprofile, htier⟩
    · exact ⟨hprofile, htier.trans hsame⟩

/-- A run is made with the user's profile and the first tier set exactly when nothing of them is
lost on the way. -/
theorem RunTrigger.authority_iff (t : RunTrigger) : t.Faithful dep ↔ t.Carried dep := by
  cases t with
  | webMessage userId tier => exact iff_of_true (webAuthority_spec userId tier) trivial
  | openai userId => exact iff_of_true (webAuthority_spec userId none) trivial
  | webFollowUp userId tier =>
    obtain ⟨hprofile, htier⟩ := @webAuthority_spec dep userId none
    cases tier with
    | none =>
      refine iff_of_true ⟨hprofile, htier⟩ ?_
      intro messageTier h
      cases h
    | some messageTier =>
      have hwant : (RunTrigger.webFollowUp userId (some messageTier)).layeredTier dep
          (some messageTier) none = messageTier := rfl
      constructor
      · rintro ⟨-, h⟩ m hm
        cases hm
        exact htier.symm.trans (h.trans hwant)
      · intro h
        exact ⟨hprofile, htier.trans ((h messageTier rfl).trans hwant.symm)⟩
  | feishuMessage key suffix openId =>
    by_cases hopen : openId = ""
    · subst hopen
      refine iff_of_false ?_ ?_
      · rintro ⟨hprofile, -⟩
        cases hprofile
      · rintro ⟨h, -⟩
        exact h rfl
    · exact faithful_sender_iff hopen key suffix
  | feishuFollowUp key suffix openId =>
    refine iff_of_false ?_ id
    rintro ⟨hprofile, -⟩
    cases hprofile
  | feishuReaction key suffix openId =>
    refine iff_of_false ?_ id
    rintro ⟨hprofile, -⟩
    cases hprofile

/-- The key is read back from a session id as it was, if `:s:` does not begin inside it. -/
theorem deriveSessionKey_routed {key : String} (h : ¬ ":s:".toList <:+: (key ++ ":s").toList)
    (suffix : Option String) : deriveSessionKey (routedSessionId key suffix) = key := by
  have hkey : Separable key := separable_iff.mpr h
  cases suffix with
  | none => exact (deriveSessionKey_self_iff key).mpr hkey.1
  | some token => exact (deriveSessionKey_routed_iff key token).mpr hkey

theorem RunTrigger.faithful_feishuMessage {key openId : String} (suffix : Option String)
    (hopen : openId ≠ "") (hkey : ¬ ":s:".toList <:+: (key ++ ":s").toList) :
    (RunTrigger.feishuMessage key suffix openId).Faithful dep :=
  (faithful_sender_iff hopen key suffix).mpr ⟨hopen, .inl (deriveSessionKey_routed hkey suffix)⟩

end

/-- The deployment lets every tool run; Alice and Bob are read-only users of the web and of Feishu. -/
def readOnlyUsers : Deployment where
  redisProfile _ _ := none
  sessionTier _ := none
  web := { users := [{ id := "alice" }], defaultPermissionTier := .yolo }
  feishu := { users := [{ id := "ou_bob", tierDefault := some .readOnly }],
              defaultPermissionTier := .yolo }

/-- Bob's reaction, and the text after a slash command that Alice sent as read-only, run without
restriction. -/
theorem dropped_sender_and_tier :
    let reaction := RunTrigger.feishuReaction "feishu:app:ou_bob" none "ou_bob"
    let followUp := RunTrigger.webFollowUp "alice" (some .readOnly)
    ((reaction.start readOnlyUsers).userProfile = none ∧
        (reaction.start readOnlyUsers).permissionTierOverride = .yolo ∧
        ¬ reaction.Faithful readOnlyUsers) ∧
      (followUp.start readOnlyUsers).permissionTierOverride = .yolo ∧
      ¬ followUp.Faithful readOnlyUsers := by
  refine ⟨⟨rfl, rfl, ?_⟩, rfl, ?_⟩
  · rintro ⟨hprofile, -⟩
    cases hprofile
  · rintro ⟨-, htier⟩
    cases htier

end PyClaw
