import Mathlib.Data.List.Dedup
import PyClaw.Auth.Profile
import PyClaw.Lib.Dict
import PyClaw.Lib.Tasks
import PyClaw.Lib.Text

/-!
# Commands.Admin

`/admin user set` of one channel, on the profile store of Redis and the configured users. A command
reads the profile of its target, and where an admin demotes themself it lists the admins first; what
other commands write in between does not stop it. No profile expires, and Redis does not fail.
-/

namespace PyClaw

/-! ## Requests -/

def parseKvArgs (py : PyText) (tokens : List String) : Dict String String :=
  tokens.foldl (fun out token =>
    match splitFirst ['='] token.toList with
    | some (k, v) =>
      out.set (py.lower (String.ofList (strip py.isSpace k))) (String.ofList (strip py.isSpace v))
    | none => out) Dict.empty

/-- `_VALID_TIERS`. -/
def tierOfText (text : String) : Option PermissionTier :=
  [PermissionTier.readOnly, .approval, .yolo].find? fun tier => tier.text = text

def UserRole.text : UserRole → String
  | .admin => "admin"
  | .member => "member"

/-- `_VALID_ROLES`. -/
def roleOfText (text : String) : Option UserRole :=
  [UserRole.admin, .member].find? fun role => role.text = text

/-- A `/admin user set` behind `shlex.split`: who sends it, with the role that the channel has read
for them and the configured admins, and the words behind `set`. -/
structure AdminSet where
  userId : String
  userRole : Option String
  adminUserIds : List String
  rest : List String

/-- `_is_admin`. -/
def AdminSet.isAdmin (op : AdminSet) : Bool :=
  op.userRole = some "admin" || op.adminUserIds.contains op.userId

structure SetRequest where
  actor : String
  target : String
  newTier : Option PermissionTier
  newRole : Option UserRole
  deriving DecidableEq, Repr

def AdminSet.request (py : PyText) (op : AdminSet) : Except String SetRequest :=
  match op.rest with
  | [] => .error "❌ usage: /admin user set <user_id> tier=<tier> [role=admin|member]"
  | target :: tokens =>
    let kvs := parseKvArgs py tokens
    let newTier := kvs.get? "tier"
    let newRole := kvs.get? "role"
    match newTier.map tierOfText with
    | some none =>
      .error ("❌ invalid tier " ++ py.repr (newTier.getD "") ++
        "; expected one of ['approval', 'read-only', 'yolo']")
    | tier =>
      match newRole.map roleOfText with
      | some none =>
        .error ("❌ invalid role " ++ py.repr (newRole.getD "") ++
          "; expected one of ['admin', 'member']")
      | role => .ok { actor := op.userId, target, newTier := tier.join, newRole := role.join }

/-! ## The profile store -/

/-- The profiles of the channel that are stored in Redis, each under its user id. -/
structure ProfileTable where
  profiles : Dict String UserProfile
  keyed : ∀ p ∈ profiles.items, p.2.userId = p.1 ∧ p.1 ≠ ""

/-- `RedisJsonStore.set`. -/
def ProfileTable.put (table : ProfileTable) (profile : UserProfile) (h : profile.userId ≠ "") :
    ProfileTable where
  profiles := table.profiles.set profile.userId profile
  keyed := by
    rintro ⟨userId, p⟩ hp
    rcases Dict.mem_items_set hp with ⟨rfl, rfl⟩ | hold
    · exact ⟨rfl, h⟩
    · exact table.keyed _ hold

structure ProfileState where
  table : ProfileTable
  /-- The replies, each with the user that gets it. -/
  replies : List (String × String) := []

section
variable (channel : AuthChannel) (users : List UserConfig)

/-- `store.get`. -/
def ProfileState.profile (s : ProfileState) (userId : String) : UserProfile :=
  (buildDefaultStore channel (fun _ userId => s.table.profiles.get? userId) users).get channel userId

def ProfileState.role (s : ProfileState) (userId : String) : UserRole := (s.profile channel users userId).role

/-- The configured profiles. -/
def jsonProfiles : List UserProfile :=
  (buildDefaultStore channel (fun _ _ => none) users).jsonSource channel

/-- `seen.setdefault(entry.user_id, entry)` for the configured profiles. -/
def withJson (seen : Dict String UserProfile) : Dict String UserProfile :=
  (jsonProfiles channel users).foldl (fun seen entry =>
    if seen.contains entry.userId then seen else seen.set entry.userId entry) seen

/-- `list_users` when nothing comes between its reads: what it has seen of Redis is the whole table. -/
def ProfileState.listUsers (s : ProfileState) : List UserProfile :=
  (withJson channel users s.table.profiles).values

/-- The store lists an admin. -/
def ProfileState.ListsAdmin (s : ProfileState) : Prop :=
  ∃ p ∈ s.listUsers channel users, p.role = .admin

/-- The store lists an admin other than the user. -/
def ProfileState.ListsAdminBut (s : ProfileState) (userId : String) : Prop :=
  ∃ p ∈ s.listUsers channel users, p.role = .admin ∧ p.userId ≠ userId

instance (s : ProfileState) : Decidable (s.ListsAdmin channel users) :=
  inferInstanceAs (Decidable (∃ p ∈ s.listUsers channel users, p.role = .admin))

instance (s : ProfileState) (userId : String) : Decidable (s.ListsAdminBut channel users userId) :=
  inferInstanceAs (Decidable (∃ p ∈ s.listUsers channel users, p.role = .admin ∧ p.userId ≠ userId))

end

/-! ## Commands -/

inductive AdminCommand where
  | reply (actor text : String)
  | get (req : SetRequest)
  /-- `scan_iter` of `list_users`. -/
  | scan (req : SetRequest) (current : UserProfile)
  /-- The `GET` of one key that the scan has found. -/
  | getUser (req : SetRequest) (current : UserProfile) (key : String) (keys : List String)
      (seen : Dict String UserProfile)
  /-- `store.set`, with the ids of the admins if they were counted. -/
  | set (actor : String) (updated : UserProfile) (counted : Option (List String))

def AdminSet.program (py : PyText) (op : AdminSet) : List AdminCommand :=
  if op.isAdmin then
    match op.request py with
    | .error text => [.reply op.userId text]
    | .ok req => [.get req]
  else [.reply op.userId "❌ Permission denied. /admin commands require admin role."]

/-- `replace(current, role=..., tier_default=...)`. -/
def SetRequest.updated (req : SetRequest) (current : UserProfile) : UserProfile :=
  { current with
    role := req.newRole.getD current.role
    tierDefault := req.newTier.or current.tierDefault }

section
variable (channel : AuthChannel) (users : List UserConfig)

/-- `admin_count <= 1`, of the ids `{u.user_id for u in admins}`. -/
def afterCount (req : SetRequest) (current : UserProfile) (seen : Dict String UserProfile) :
    List AdminCommand :=
  let admins := (withJson channel users seen).values.filter fun p => p.role = .admin
  let ids := (admins.map UserProfile.userId).dedup
  if ids.length ≤ 1 then
    [.reply req.actor "❌ Cannot demote the last admin. Promote another user to admin first."]
  else [.set req.actor (req.updated current) (some ids)]

/-- The rest of `list_users`. -/
def listKeys (req : SetRequest) (current : UserProfile) (keys : List String)
    (seen : Dict String UserProfile) : List AdminCommand :=
  match keys with
  | [] => afterCount channel users req current seen
  | key :: keys => [.getUser req current key keys seen]

def adminExec (s : ProfileState) (c : AdminCommand) (_ : Unit) : ProfileState × List AdminCommand :=
  match c with
  | .reply actor text => ({ s with replies := s.replies ++ [(actor, text)] }, [])
  | .get req =>
    let current := s.profile channel users req.target
    let targetRole := req.newRole.getD current.role
    (s, if req.target = req.actor ∧ current.role = .admin ∧ targetRole ≠ .admin then
        [.scan req current]
      else [.set req.actor (req.updated current) none])
  | .scan req current => (s, listKeys channel users req current s.table.profiles.keys Dict.empty)
  | .getUser req current key keys seen =>
    let seen :=
      match s.table.profiles.get? key with
      | some p => seen.set p.userId p
      | none => seen
    (s, listKeys channel users req current keys seen)
  | .set actor updated _ =>
    if h : updated.userId = "" then
      (s, [.reply actor ("⚠️ Failed to persist profile for " ++ updated.userId ++ " (Redis unavailable?)")])
    else
      ({ s with table := s.table.put updated h },
        [.reply actor ("✅ User profile updated for " ++ updated.userId)])

def adminSystem (py : PyText) : TaskSystem ProfileState AdminSet AdminCommand Unit where
  program := AdminSet.program py
  exec := adminExec channel users

end

end PyClaw
