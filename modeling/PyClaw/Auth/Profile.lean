import PyClaw.Agent.Hooks

/-!
# Auth.Profile

User profiles and the permission tier of a run: `auth/profile_store.py`, `auth/tier_resolution.py`,
`auth/tools_requiring_approval.py` and `auth/handler_helpers.py`. The environment and sandbox
fields of a profile are left out.
-/

namespace PyClaw

inductive AuthChannel where
  | web
  | feishu
  deriving DecidableEq, Repr

inductive UserRole where
  | admin
  | member
  deriving DecidableEq, Repr

structure UserProfile where
  channel : AuthChannel
  userId : String
  role : UserRole := .member
  tierDefault : Option PermissionTier := none
  toolsRequiringApproval : Option (List String) := none
  deriving DecidableEq, Repr

/-- `WebUserConfig` and `FeishuUserConfig`, whose `id` is `open_id`. -/
structure UserConfig where
  id : String
  role : Option UserRole := none
  tierDefault : Option PermissionTier := none
  toolsRequiringApproval : Option (List String) := none

/-- The fields of the channel settings that permissions are read from. -/
structure ChannelSettings where
  users : List UserConfig := []
  defaultPermissionTier : PermissionTier
  toolsRequiringApproval : List String := []

/-! ## Profiles -/

/-- `redis` is what `_deserialize` makes of the value under a key: none where there is no client, no
value or no profile. -/
structure RedisJsonStore where
  redis : AuthChannel → String → Option UserProfile
  jsonSource : AuthChannel → List UserProfile

/-- `_build_default_store`. -/
def buildDefaultStore (channel : AuthChannel) (redis : AuthChannel → String → Option UserProfile)
    (userConfigs : List UserConfig) : RedisJsonStore where
  redis := redis
  jsonSource c :=
    if c = channel then
      userConfigs.filterMap fun cfg =>
        if cfg.id = "" then none
        else some
          { channel, userId := cfg.id
            role := cfg.role.getD .member
            tierDefault := cfg.tierDefault
            toolsRequiringApproval := cfg.toolsRequiringApproval }
    else []

def RedisJsonStore.get (store : RedisJsonStore) (channel : AuthChannel) (userId : String) :
    UserProfile :=
  match if userId = "" then none else store.redis channel userId with
  | some profile => profile
  | none =>
    ((store.jsonSource channel).find? fun entry => entry.userId = userId).getD { channel, userId }

/-! ## Tiers -/

def resolveEffectiveTier (messageTier sessionTier userDefault : Option PermissionTier)
    (deploymentDefault : PermissionTier) : PermissionTier :=
  match messageTier with
  | some tier => tier
  | none =>
    match sessionTier with
    | some tier => tier
    | none =>
      match userDefault with
      | some tier => tier
      | none => deploymentDefault

/-- The first layer that is set. -/
def firstSet {α : Type} (layers : List (Option α)) (default : α) : α :=
  (layers.findSome? id).getD default

theorem resolveEffectiveTier_eq (messageTier sessionTier userDefault : Option PermissionTier)
    (deploymentDefault : PermissionTier) :
    resolveEffectiveTier messageTier sessionTier userDefault deploymentDefault =
      firstSet [messageTier, sessionTier, userDefault] deploymentDefault := by
  cases messageTier with
  | some tier => rfl
  | none =>
    cases sessionTier with
    | some tier => rfl
    | none =>
      cases userDefault with
      | some tier => rfl
      | none => rfl

def resolveProfileAndTier (channel : AuthChannel) (userId : String)
    (redis : AuthChannel → String → Option UserProfile) (userConfigs : List UserConfig)
    (messageTier sessionTier : Option PermissionTier) (deploymentDefault : PermissionTier) :
    UserProfile × PermissionTier :=
  let profile := (buildDefaultStore channel redis userConfigs).get channel userId
  (profile, resolveEffectiveTier messageTier sessionTier profile.tierDefault deploymentDefault)

theorem resolveProfileAndTier_eq (channel : AuthChannel) (userId : String)
    (redis : AuthChannel → String → Option UserProfile) (userConfigs : List UserConfig)
    (messageTier sessionTier : Option PermissionTier) (deploymentDefault : PermissionTier) :
    resolveProfileAndTier channel userId redis userConfigs messageTier sessionTier deploymentDefault =
      ((buildDefaultStore channel redis userConfigs).get channel userId,
        firstSet [messageTier, sessionTier,
          ((buildDefaultStore channel redis userConfigs).get channel userId).tierDefault] deploymentDefault) := by
  rw [resolveProfileAndTier, resolveEffectiveTier_eq]

/-! ## Tools that need an approval -/

def resolveToolsRequiringApproval (profile : Option UserProfile) (channelDefault : List String) :
    List String :=
  (profile.bind UserProfile.toolsRequiringApproval).getD channelDefault

end PyClaw
