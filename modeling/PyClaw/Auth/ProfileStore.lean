import PyClaw.Commands.Admin
import PyClaw.Lib.JsonData
import PyClaw.Lib.Redis

/-!
# Auth.ProfileStore

`RedisJsonStore` (`auth/profile_store.py`) on a server whose keys expire: profiles are written as JSON under
one key for each channel and user, with configured profiles behind them.

The store is a book of profiles by channel and user (`get_store`), and what it lists is what it gives
(`mem_listUsers`).
-/

namespace PyClaw

/-- A profile as it is stored; of the last three fields nothing is checked. -/
structure StoredProfile where
  channel : AuthChannel
  userId : String
  role : UserRole := .member
  tierDefault : Option PermissionTier := none
  toolsRequiringApproval : Json.Data := .null
  envAllowlist : Json.Data := .null
  sandboxOverrides : Json.Data := .null

def AuthChannel.text : AuthChannel → String
  | .web => "web"
  | .feishu => "feishu"

namespace StoredProfile

/-! ## Records -/

def payload (p : StoredProfile) : JsonValue :=
  .obj [("channel".toList, .str p.channel.text.toList), ("user_id".toList, .str p.userId.toList),
    ("role".toList, .str p.role.text.toList),
    ("tier_default".toList, (p.tierDefault.map fun tier => .str tier.text.toList).getD .null),
    ("tools_requiring_approval".toList, p.toolsRequiringApproval.1),
    ("env_allowlist".toList, p.envAllowlist.1), ("sandbox_overrides".toList, p.sandboxOverrides.1)]

theorem payload_proper (p : StoredProfile) : Json.Proper p.payload := by
  have hkeys : (["channel", "user_id", "role", "tier_default", "tools_requiring_approval", "env_allowlist",
      "sandbox_overrides"].map String.toList).Nodup := by decide
  refine ⟨hkeys, trivial, trivial, trivial, ?_, p.toolsRequiringApproval.2, p.envAllowlist.2,
    p.sandboxOverrides.2, trivial⟩
  cases p.tierDefault <;> exact trivial

/-- `_serialize`. -/
def serialize (p : StoredProfile) : List Char := Json.dumps false p.payload

def channelOf : JsonValue → Option AuthChannel
  | .str s => [AuthChannel.web, .feishu].find? fun channel => channel.text.toList = s
  | _ => none

def userIdOf : JsonValue → Option String
  | .str [] => none
  | .str s => some (String.ofList s)
  | _ => none

/-- Another role is that of a member. -/
def roleOf : JsonValue → UserRole
  | .str s => (roleOfText (String.ofList s)).getD .member
  | _ => .member

def tierOf : JsonValue → Option PermissionTier
  | .str s => tierOfText (String.ofList s)
  | _ => none

/-- `_deserialize`; a payload that is no object has no channel. -/
def deserialize (text : List Char) : Option StoredProfile :=
  (Json.parse text).bind fun payload =>
    (channelOf (payload.field "channel").1).bind fun channel =>
      (userIdOf (payload.field "user_id").1).map fun userId =>
        { channel, userId
          role := roleOf (payload.field "role").1
          tierDefault := tierOf (payload.field "tier_default").1
          toolsRequiringApproval := payload.field "tools_requiring_approval"
          envAllowlist := payload.field "env_allowlist"
          sandboxOverrides := payload.field "sandbox_overrides" }

theorem channelOf_text (channel : AuthChannel) : channelOf (.str channel.text.toList) = some channel := by
  cases channel <;> rfl

theorem roleOf_text (role : UserRole) : roleOf (.str role.text.toList) = role := by
  cases role <;> rfl

theorem tierOf_text (tier : Option PermissionTier) :
    tierOf ((tier.map fun tier => JsonValue.str tier.text.toList).getD .null) = tier := by
  match tier with
  | none | some .readOnly | some .approval | some .yolo => rfl

theorem userIdOf_text {userId : String} (h : userId ≠ "") : userIdOf (.str userId.toList) = some userId := by
  unfold userIdOf
  split
  · rename_i he
    exact absurd (String.toList_inj.mp (JsonValue.str.inj he)) h
  · rename_i s _ he
    rw [← JsonValue.str.inj he, String.ofList_toList]
  · rename_i he
    exact absurd rfl (he _)

/-- A stored profile is read back, whatever its fields hold. -/
theorem deserialize_serialize {p : StoredProfile} (h : p.userId ≠ "") : deserialize p.serialize = some p := by
  have hparse : Json.parse p.serialize = some ⟨p.payload, p.payload_proper⟩ :=
    Json.parse_text false ⟨p.payload, p.payload_proper⟩
  have hchannel : channelOf (Json.Data.field ⟨p.payload, p.payload_proper⟩ "channel").1 = some p.channel :=
    channelOf_text p.channel
  have hid : userIdOf (Json.Data.field ⟨p.payload, p.payload_proper⟩ "user_id").1 = some p.userId :=
    userIdOf_text h
  rw [deserialize, hparse, Option.bind_some, hchannel, Option.bind_some, hid, Option.map_some]
  have hrole : roleOf (Json.Data.field ⟨p.payload, p.payload_proper⟩ "role").1 = p.role := roleOf_text p.role
  have htier : tierOf (Json.Data.field ⟨p.payload, p.payload_proper⟩ "tier_default").1 = p.tierDefault :=
    tierOf_text p.tierDefault
  rw [hrole, htier]
  rfl

end StoredProfile

/-! ## The store -/

/-- `_KEY_PREFIX`. -/
def profileKeyPrefix : String := "pyclaw:userprofile"

/-- `_redis_key`. -/
def profileKey (channel : AuthChannel) (userId : String) : String :=
  profileKeyPrefix ++ (":" ++ (channel.text ++ (":" ++ userId)))

/-- `json_source`, as `_build_default_store` makes it. -/
structure ConfiguredProfiles where
  source : AuthChannel → List StoredProfile
  named : ∀ channel, ∀ p ∈ source channel, p.channel = channel ∧ p.userId ≠ ""

inductive ProfileOp where
  | set (p : StoredProfile) (ttlSeconds : Option Int) (fate : Delivery)
  | discard (channel : AuthChannel) (userId : String) (fate : Delivery)
  | passes (ms : Nat)

abbrev ProfileServer := KeySpace String (List Char)

namespace ProfileServer

variable (ks : ProfileServer)

/-- `set`: whether it says that it has stored the profile. The server refuses an expire time that is not
positive. -/
def set (p : StoredProfile) (ttlSeconds : Option Int) (fate : Delivery) : Bool × ProfileServer :=
  let ttl := ttlSeconds.getD (30 * 24 * 3600)
  if p.userId = "" ∨ ttl ≤ 0 then (false, ks)
  else
    (fate = .answered,
      if fate.sent then ks.put (profileKey p.channel p.userId) (some (p.serialize, ks.now + 1000 * ttl))
      else ks)

def discard (channel : AuthChannel) (userId : String) (fate : Delivery) : Bool × ProfileServer :=
  if userId = "" then (false, ks)
  else (fate = .answered, if fate.sent then (ks.del (profileKey channel userId)).2 else ks)

/-- The profile under a key. -/
def profile (key : String) : Option StoredProfile := (ks.get key).bind StoredProfile.deserialize

/-- `get`, where Redis answers. -/
def get (cfg : ConfiguredProfiles) (channel : AuthChannel) (userId : String) : StoredProfile :=
  match if userId = "" then none else ks.profile (profileKey channel userId) with
  | some p => p
  | none => ((cfg.source channel).find? fun entry => entry.userId = userId).getD { channel, userId }

/-- What `list_users` has seen, where nothing comes between its reads: `keys` is what `scan_iter` finds. -/
def listed (cfg : ConfiguredProfiles) (channel : AuthChannel) (keys : List String) :
    Dict String StoredProfile :=
  let seen := keys.foldl (fun (seen : Dict String StoredProfile) key =>
    match ks.profile key with
    | some p => if p.channel = channel then seen.set p.userId p else seen
    | none => seen) Dict.empty
  (cfg.source channel).foldl (fun (seen : Dict String StoredProfile) entry =>
    if seen.contains entry.userId then seen else seen.set entry.userId entry) seen

def listUsers (cfg : ConfiguredProfiles) (channel : AuthChannel) (keys : List String)
    (roleFilter : Option UserRole) : List StoredProfile :=
  (ks.listed cfg channel keys).values.filter fun p => roleFilter.all (p.role = ·)

def step (ks : ProfileServer) : ProfileOp → ProfileServer
  | .set p ttlSeconds fate => (ks.set p ttlSeconds fate).2
  | .discard channel userId fate => (ks.discard channel userId fate).2
  | .passes ms => ks.pass ms

end ProfileServer

/-! ## What it is for -/

/-- A profile for each channel and user, until it expires. -/
abbrev ProfileBook := KeySpace (AuthChannel × String) StoredProfile

namespace ProfileBook

def step (book : ProfileBook) : ProfileOp → ProfileBook
  | .set p ttlSeconds fate =>
    let ttl := ttlSeconds.getD (30 * 24 * 3600)
    if p.userId ≠ "" ∧ 0 < ttl ∧ fate.sent then
      book.put (p.channel, p.userId) (some (p, book.now + 1000 * ttl))
    else book
  | .discard channel userId fate =>
    if userId ≠ "" ∧ fate.sent then book.put (channel, userId) none else book
  | .passes ms => book.pass ms

/-- The stored profile, or the configured one, or that of a member. -/
def get (book : ProfileBook) (cfg : ConfiguredProfiles) (channel : AuthChannel) (userId : String) :
    StoredProfile :=
  ((KeySpace.get book (channel, userId)).or
    ((cfg.source channel).find? fun entry => entry.userId = userId)).getD { channel, userId }

end ProfileBook

theorem toList_text (c : AuthChannel) :
    c.text.toList = match c with
      | .web => ['w', 'e', 'b']
      | .feishu => ['f', 'e', 'i', 's', 'h', 'u'] := by
  cases c <;> rfl

theorem profileKey_inj {c c' : AuthChannel} {u u' : String} (h : profileKey c u = profileKey c' u') :
    c = c' ∧ u = u' := by
  have hlist := congrArg String.toList h
  simp only [profileKey, String.toList_append] at hlist
  generalize profileKeyPrefix.toList = before at hlist
  generalize ":".toList = colon at hlist
  have htail := List.append_cancel_left (List.append_cancel_left hlist)
  rw [toList_text, toList_text] at htail
  cases c with
  | web =>
    cases c' with
    | web => exact ⟨rfl, String.toList_inj.mp (List.append_cancel_left (List.append_cancel_left htail))⟩
    | feishu => cases htail
  | feishu =>
    cases c' with
    | web => cases htail
    | feishu => exact ⟨rfl, String.toList_inj.mp (List.append_cancel_left (List.append_cancel_left htail))⟩

namespace ProfileServer

theorem set_snd (ks : ProfileServer) (p : StoredProfile) (ttlSeconds : Option Int) (fate : Delivery) :
    (ks.set p ttlSeconds fate).2 =
      if p.userId ≠ "" ∧ 0 < ttlSeconds.getD (30 * 24 * 3600) ∧ fate.sent then
        KeySpace.put ks (profileKey p.channel p.userId)
          (some (p.serialize, ks.now + 1000 * ttlSeconds.getD (30 * 24 * 3600)))
      else ks := by
  rw [set]
  by_cases hid : p.userId = ""
  · rw [if_pos (.inl hid), if_neg fun h => h.1 hid]
  · by_cases httl : ttlSeconds.getD (30 * 24 * 3600) ≤ 0
    · rw [if_pos (.inr httl), if_neg fun h => absurd h.2.1 (by omega)]
    · rw [if_neg (not_or.mpr ⟨hid, httl⟩)]
      by_cases hsent : fate.sent = true
      · rw [if_pos hsent, if_pos ⟨hid, by omega, hsent⟩]
      · rw [if_neg hsent, if_neg fun h => hsent h.2.2]

theorem discard_snd (ks : ProfileServer) (channel : AuthChannel) (userId : String) (fate : Delivery) :
    (ks.discard channel userId fate).2 =
      if userId ≠ "" ∧ fate.sent then KeySpace.put ks (profileKey channel userId) none else ks := by
  rw [discard]
  by_cases hid : userId = ""
  · rw [if_pos hid, if_neg fun h => h.1 hid]
  · rw [if_neg hid]
    by_cases hsent : fate.sent = true
    · rw [if_pos hsent, if_pos ⟨hid, hsent⟩, KeySpace.del]
    · rw [if_neg hsent, if_neg fun h => hsent h.2]

end ProfileServer

/-- The server holds the profiles of the book. -/
structure Stores (ks : ProfileServer) (book : ProfileBook) : Prop where
  now : ks.now = book.now
  cells : ∀ c u, ks.cells (profileKey c u) = (book.cells (c, u)).map fun e => (e.1.serialize, e.2)
  named : ∀ c u p deadline, book.cells (c, u) = some (p, deadline) → p.channel = c ∧ p.userId = u ∧ u ≠ ""

theorem Stores.put {ks : ProfileServer} {book : ProfileBook} (h : Stores ks book) (c : AuthChannel) (u : String)
    (e : Option (StoredProfile × Int))
    (he : ∀ p deadline, e = some (p, deadline) → p.channel = c ∧ p.userId = u ∧ u ≠ "") :
    Stores (KeySpace.put ks (profileKey c u) (e.map fun e => (e.1.serialize, e.2)))
      (KeySpace.put book (c, u) e) := by
  refine ⟨h.now, fun c' u' => ?_, fun c' u' p deadline hcell => ?_⟩
  · by_cases hkey : (c', u') = (c, u)
    · cases hkey
      rw [KeySpace.put_cells_self, KeySpace.put_cells_self]
    · rw [KeySpace.put_cells_ne _ hkey, KeySpace.put_cells_ne, h.cells]
      exact fun he => hkey (Prod.ext_iff.mpr (profileKey_inj he))
  · by_cases hkey : (c', u') = (c, u)
    · cases hkey
      rw [KeySpace.put_cells_self] at hcell
      exact he p deadline hcell
    · rw [KeySpace.put_cells_ne _ hkey] at hcell
      exact h.named c' u' p deadline hcell

theorem Stores.step {ks : ProfileServer} {book : ProfileBook} (h : Stores ks book) (op : ProfileOp) :
    Stores (ProfileServer.step ks op) (ProfileBook.step book op) := by
  cases op with
  | set p ttlSeconds fate =>
    rw [ProfileServer.step, ProfileServer.set_snd, ProfileBook.step, h.now]
    split
    · rename_i hset
      refine h.put p.channel p.userId (some (p, book.now + 1000 * ttlSeconds.getD (30 * 24 * 3600)))
        fun p' deadline he => ?_
      cases he
      exact ⟨rfl, rfl, hset.1⟩
    · exact h
  | discard channel userId fate =>
    rw [ProfileServer.step, ProfileServer.discard_snd, ProfileBook.step]
    split
    · exact h.put channel userId none fun _ _ he => nomatch he
    · exact h
  | passes ms => exact ⟨congrArg (· + (ms : Int)) h.now, h.cells, h.named⟩

/-- The profile that the server gives under a key is that of the book. -/
theorem Stores.profile {ks : ProfileServer} {book : ProfileBook} (h : Stores ks book) (c : AuthChannel)
    (u : String) : ProfileServer.profile ks (profileKey c u) = KeySpace.get book (c, u) := by
  have hcells := h.cells c u
  cases hcell : book.cells (c, u) with
  | none =>
    rw [hcell, Option.map_none] at hcells
    simp [ProfileServer.profile, KeySpace.get, KeySpace.find, hcells, hcell]
  | some e =>
    obtain ⟨p, deadline⟩ := e
    obtain ⟨-, hid, hne⟩ := h.named c u p deadline hcell
    rw [hcell, Option.map_some] at hcells
    by_cases hlive : book.now < deadline
    · rw [ProfileServer.profile, KeySpace.get, KeySpace.find_of_cell hcells (h.now ▸ hlive), KeySpace.get,
        KeySpace.find_of_cell hcell hlive]
      exact StoredProfile.deserialize_serialize (hid ▸ hne)
    · have hgone : ∀ {α : Type} (x : α), (some (x, deadline)).filter (fun e => decide (book.now < e.2)) = none :=
        fun x => by rw [Option.filter_some, decide_eq_false hlive]; rfl
      rw [ProfileServer.profile, KeySpace.get, KeySpace.find, hcells, h.now, hgone, KeySpace.get, KeySpace.find,
        hcell, hgone]
      rfl

theorem Stores.get {ks : ProfileServer} {book : ProfileBook} (h : Stores ks book) (cfg : ConfiguredProfiles)
    (c : AuthChannel) (u : String) : ProfileServer.get ks cfg c u = ProfileBook.get book cfg c u := by
  rw [ProfileServer.get, ProfileBook.get, h.profile]
  by_cases hid : u = ""
  · have hnone : KeySpace.get book (c, u) = none := by
      rw [KeySpace.get_eq_none, Option.eq_none_iff_forall_ne_some]
      rintro ⟨p, deadline⟩ hfind
      exact (h.named c u p deadline (KeySpace.find_eq_some.mp hfind).1).2.2 hid
    rw [if_pos hid, hnone]
    rfl
  · rw [if_neg hid]
    cases KeySpace.get book (c, u) <;> rfl

theorem stores_start : Stores {} {} := ⟨rfl, fun _ _ => rfl, fun _ _ _ _ h => nomatch h⟩

theorem stores_run {ks : ProfileServer} {book : ProfileBook} (h : Stores ks book) (ops : List ProfileOp) :
    Stores (runFrom ProfileServer.step ks ops) (runFrom ProfileBook.step book ops) := by
  induction ops generalizing ks book with
  | nil => exact h
  | cons op ops ih => exact ih (h.step op)

/-- Over any run, `get` gives the profile that was last stored for the channel and the user, in every field, until
it expires or is discarded; behind it the configured one, and else that of a member. -/
theorem get_store (ops : List ProfileOp) (cfg : ConfiguredProfiles) (channel : AuthChannel) (userId : String) :
    ProfileServer.get (runFrom ProfileServer.step {} ops) cfg channel userId =
      ProfileBook.get (runFrom ProfileBook.step {} ops) cfg channel userId :=
  (stores_run stores_start ops).get cfg channel userId

/-! ## What is listed -/

/-- What `scan_iter` finds with the pattern of a channel. -/
def ProfileServer.Scans (ks : ProfileServer) (channel : AuthChannel) (keys : List String) : Prop :=
  ∀ key, key ∈ keys ↔ (∃ userId, key = profileKey channel userId) ∧ (KeySpace.find ks key).isSome = true

section
variable {ks : ProfileServer} {book : ProfileBook} {c : AuthChannel}

theorem Stores.named_get (h : Stores ks book) {u : String} {p : StoredProfile}
    (hp : KeySpace.get book (c, u) = some p) : p.channel = c ∧ p.userId = u ∧ u ≠ "" := by
  obtain ⟨⟨p', deadline⟩, hfind, rfl⟩ := Option.map_eq_some_iff.mp hp
  exact h.named c u p' deadline (KeySpace.find_eq_some.mp hfind).1

theorem Stores.live (h : Stores ks book) (u : String) :
    (KeySpace.find ks (profileKey c u)).isSome = (KeySpace.get book (c, u)).isSome := by
  have hcells := h.cells c u
  cases hcell : book.cells (c, u) with
  | none =>
    rw [hcell, Option.map_none] at hcells
    simp [KeySpace.get, KeySpace.find, hcells, hcell]
  | some e =>
    rw [hcell, Option.map_some] at hcells
    simp only [KeySpace.get, KeySpace.find, hcells, hcell, h.now, Option.filter_some]
    split <;> rfl

/-- The stored profiles, as the scan collects them. -/
theorem Stores.get?_scanned (h : Stores ks book) {keys : List String}
    (hkeys : ∀ key ∈ keys, ∃ userId, key = profileKey c userId) (seen : Dict String StoredProfile)
    (u : String) :
    (keys.foldl (fun (seen : Dict String StoredProfile) key =>
      match ks.profile key with
      | some p => if p.channel = c then seen.set p.userId p else seen
      | none => seen) seen).get? u =
      if profileKey c u ∈ keys then (KeySpace.get book (c, u)).or (seen.get? u) else seen.get? u := by
  induction keys generalizing seen with
  | nil => rfl
  | cons key keys ih =>
    obtain ⟨u', rfl⟩ := hkeys key List.mem_cons_self
    have ih := ih fun k hk => hkeys k (List.mem_cons_of_mem _ hk)
    rw [List.foldl_cons, ih, h.profile]
    cases hget : KeySpace.get book (c, u') with
    | none =>
      by_cases hu : u = u'
      · subst hu
        simp [hget]
      · have hkey : profileKey c u ≠ profileKey c u' := fun e => hu (profileKey_inj e).2
        simp [hkey]
    | some p =>
      obtain ⟨hchannel, hid, -⟩ := h.named_get hget
      simp only [hchannel, hid, if_true]
      by_cases hu : u = u'
      · subst hu
        simp [hget]
      · have hkey : profileKey c u ≠ profileKey c u' := fun e => hu (profileKey_inj e).2
        rw [Dict.get?_set_ne _ _ fun e => hu e.symm]
        simp [hkey]

/-- The configured profiles behind those that are there. -/
theorem get?_configured (source : List StoredProfile) (seen : Dict String StoredProfile) (u : String) :
    (source.foldl (fun (seen : Dict String StoredProfile) entry =>
      if seen.contains entry.userId then seen else seen.set entry.userId entry) seen).get? u =
      (seen.get? u).or (source.find? fun entry => entry.userId = u) := by
  induction source generalizing seen with
  | nil => simp
  | cons entry source ih =>
    rw [List.foldl_cons, ih]
    by_cases hin : seen.contains entry.userId = true
    · rw [if_pos hin]
      by_cases hu : entry.userId = u
      · obtain ⟨p, hp⟩ := Option.isSome_iff_exists.mp hin
        rw [← hu, hp]
        rfl
      · simp [hu]
    · rw [if_neg hin]
      by_cases hu : entry.userId = u
      · have hnone : seen.get? u = none := by
          rw [← Option.not_isSome_iff_eq_none, ← hu]
          exact hin
        simp [← hu] at hnone ⊢
        rw [hnone]
        rfl
      · rw [Dict.get?_set_ne _ _ hu]
        simp [hu]

theorem Stores.get?_listed (h : Stores ks book) {keys : List String} (hkeys : ks.Scans c keys)
    (cfg : ConfiguredProfiles) (u : String) :
    (ks.listed cfg c keys).get? u =
      (KeySpace.get book (c, u)).or ((cfg.source c).find? fun entry => entry.userId = u) := by
  rw [ProfileServer.listed, get?_configured, h.get?_scanned (fun key hk => ((hkeys key).mp hk).1)]
  by_cases hin : profileKey c u ∈ keys
  · rw [if_pos hin]
    show ((KeySpace.get book (c, u)).or none).or _ = _
    rw [Option.or_none]
  · rw [if_neg hin]
    have hnone : KeySpace.get book (c, u) = none := by
      rw [← Option.not_isSome_iff_eq_none, ← h.live u]
      exact fun hlive => hin ((hkeys _).mpr ⟨⟨u, rfl⟩, hlive⟩)
    rw [hnone]
    rfl

theorem Stores.listed_named (h : Stores ks book) {keys : List String} (hkeys : ks.Scans c keys)
    (cfg : ConfiguredProfiles) {u : String} {p : StoredProfile}
    (hp : (ks.listed cfg c keys).get? u = some p) : p.userId = u := by
  rw [h.get?_listed hkeys cfg, Option.or_eq_some_iff] at hp
  rcases hp with hp | ⟨-, hp⟩
  · exact (h.named_get hp).2.1
  · simpa using List.find?_some hp

/-- A user is listed with the profile that `get` gives. -/
theorem Stores.listed_iff (h : Stores ks book) {keys : List String} (hkeys : ks.Scans c keys)
    (cfg : ConfiguredProfiles) (p : StoredProfile) :
    p ∈ (ks.listed cfg c keys).values ↔ p = ks.get cfg c p.userId ∧
      ((KeySpace.find ks (profileKey c p.userId)).isSome = true ∨ ∃ e ∈ cfg.source c, e.userId = p.userId) := by
  have hget : ks.get cfg c p.userId =
      ((ks.listed cfg c keys).get? p.userId).getD { channel := c, userId := p.userId } := by
    rw [h.get, ProfileBook.get, h.get?_listed hkeys cfg]
  have hknown : ((ks.listed cfg c keys).get? p.userId).isSome = true ↔
      ((KeySpace.find ks (profileKey c p.userId)).isSome = true ∨ ∃ e ∈ cfg.source c, e.userId = p.userId) := by
    rw [h.get?_listed hkeys cfg, Option.isSome_or, Bool.or_eq_true, h.live, List.find?_isSome]
    simp
  rw [hget, ← hknown, Dict.mem_values]
  constructor
  · rintro ⟨u, hu⟩
    obtain rfl := h.listed_named hkeys cfg hu
    rw [hu]
    exact ⟨rfl, rfl⟩
  · rintro ⟨hp, hsome⟩
    obtain ⟨q, hq⟩ := Option.isSome_iff_exists.mp hsome
    rw [hq] at hp
    exact ⟨p.userId, hq.trans (congrArg some hp.symm)⟩

end

/-- In every state that is reached, `list_users` gives each user once, with the profile that `get` gives, and
these are the users that are stored or configured. -/
theorem listUsers_store (ops : List ProfileOp) (cfg : ConfiguredProfiles) (channel : AuthChannel)
    (keys : List String) (roleFilter : Option UserRole)
    (hkeys : ProfileServer.Scans (runFrom ProfileServer.step {} ops) channel keys) :
    let ks := runFrom ProfileServer.step {} ops
    ((ks.listUsers cfg channel keys roleFilter).map StoredProfile.userId).Nodup ∧
      ∀ p, p ∈ ks.listUsers cfg channel keys roleFilter ↔
        (p = ks.get cfg channel p.userId ∧ ((KeySpace.find ks (profileKey channel p.userId)).isSome = true ∨
          ∃ e ∈ cfg.source channel, e.userId = p.userId)) ∧ roleFilter.all (p.role = ·) = true := by
  have h := stores_run stores_start ops
  have hids : (ProfileServer.listed (runFrom ProfileServer.step {} ops) cfg channel keys).values.map
      StoredProfile.userId = (ProfileServer.listed (runFrom ProfileServer.step {} ops) cfg channel keys).keys := by
    rw [Dict.values, Dict.keys, List.map_map]
    refine List.map_congr_left fun e he => ?_
    exact h.listed_named hkeys cfg (Dict.get?_of_mem_items he)
  constructor
  · refine List.Nodup.sublist (List.Sublist.map _ List.filter_sublist) ?_
    rw [hids]
    exact Dict.keys_nodup _
  · intro p
    rw [← h.listed_iff hkeys cfg p]
    exact List.mem_filter

/-- The scan after one profile has been stored. -/
theorem scans_set {p : StoredProfile} (hid : p.userId ≠ "") :
    ProfileServer.Scans (runFrom ProfileServer.step {} [.set p none .answered]) p.channel
      [profileKey p.channel p.userId] := by
  have hput : runFrom ProfileServer.step {} [.set p none .answered] =
      KeySpace.put {} (profileKey p.channel p.userId) (some (p.serialize, 0 + 1000 * (30 * 24 * 3600))) := by
    rw [runFrom, runFrom, ProfileServer.step, ProfileServer.set_snd, if_pos ⟨hid, by decide, rfl⟩]
    rfl
  intro key
  rw [hput, List.mem_singleton]
  constructor
  · rintro rfl
    refine ⟨⟨_, rfl⟩, ?_⟩
    have hfuture : (0 : Int) < 0 + 1000 * (30 * 24 * 3600) := by decide
    rw [KeySpace.find_of_cell (KeySpace.put_cells_self _) hfuture]
    rfl
  · rintro ⟨-, hlive⟩
    by_contra hkey
    obtain ⟨e, he⟩ := Option.isSome_iff_exists.mp hlive
    have hcell := (KeySpace.find_eq_some.mp he).1
    rw [KeySpace.put_cells_ne _ hkey] at hcell
    cases hcell

/-- An admin is stored, and nobody is configured. -/
theorem listUsers_store_one :
    ((ProfileServer.listUsers (runFrom ProfileServer.step {}
      [.set { channel := .web, userId := "ada", role := .admin } none .answered])
      ⟨fun _ => [], fun _ _ h => nomatch h⟩ .web [profileKey .web "ada"] (some .admin)).map
        StoredProfile.userId).Nodup :=
  (listUsers_store [.set { channel := .web, userId := "ada", role := .admin } none .answered]
    ⟨fun _ => [], fun _ _ h => nomatch h⟩ .web [profileKey .web "ada"] (some .admin)
    (scans_set (p := { channel := .web, userId := "ada", role := .admin }) (by decide))).1

end PyClaw
