import PyClaw.Commands.Admin

/-!
# Commands.LastAdmin

Whether an admin is left. The check of `/admin user set` is about admins who demote themselves, on a
count that may be old. `admin_left_iff`: the store lists an admin all along exactly when each write that
makes an admin a member finds another one listed, or, after a count, finds that nobody counted has
lost the role since.
-/

namespace PyClaw

section
variable {channel : AuthChannel} {users : List UserConfig} {s : ProfileState} {userId : String}

/-! ## What is listed -/

theorem get?_withJson (seen : Dict String UserProfile) (userId : String) :
    (withJson channel users seen).get? userId =
      (seen.get? userId).or ((jsonProfiles channel users).find? fun p => p.userId = userId) := by
  unfold withJson
  induction jsonProfiles channel users generalizing seen with
  | nil => simp
  | cons entry rest ih =>
    rw [List.foldl_cons, ih, List.find?_cons]
    by_cases hseen : seen.contains entry.userId = true
    · rw [if_pos hseen]
      by_cases hid : entry.userId = userId
      · obtain ⟨p, hp⟩ := Option.isSome_iff_exists.mp (hid ▸ hseen : seen.contains userId = true)
        simp [hp]
      · simp [hid]
    · rw [if_neg hseen, Dict.get?_set]
      by_cases hid : entry.userId = userId
      · have hnone : seen.get? userId = none := by
          rw [← hid]
          simpa [Dict.contains] using hseen
        simp [hid, hnone]
      · simp [hid]

theorem ProfileTable.userId_of_get? {table : ProfileTable} {p : UserProfile}
    (h : table.profiles.get? userId = some p) : p.userId = userId ∧ userId ≠ "" :=
  table.keyed (userId, p) (Dict.mem_items_of_get? h)

/-- A profile is read as it is listed. -/
theorem ProfileState.profile_eq (s : ProfileState) (userId : String) : s.profile channel users userId =
    ((withJson channel users s.table.profiles).get? userId).getD { channel, userId } := by
  have hread : (if userId = "" then none else s.table.profiles.get? userId) =
      s.table.profiles.get? userId := by
    split_ifs with hempty
    · cases hget : s.table.profiles.get? userId with
      | none => rfl
      | some p => exact absurd hempty (ProfileTable.userId_of_get? hget).2
    · rfl
  rw [get?_withJson]
  unfold ProfileState.profile RedisJsonStore.get
  have hredis : (buildDefaultStore channel (fun _ userId => s.table.profiles.get? userId) users).redis
      channel userId = s.table.profiles.get? userId := rfl
  rw [hredis, hread]
  cases s.table.profiles.get? userId <;> rfl

theorem userId_of_listed {p : UserProfile}
    (h : (withJson channel users s.table.profiles).get? userId = some p) : p.userId = userId := by
  rw [get?_withJson, Option.or_eq_some_iff] at h
  rcases h with hstored | ⟨-, hconfigured⟩
  · exact (ProfileTable.userId_of_get? hstored).1
  · simpa using List.find?_some hconfigured

/-- Who is listed as an admin is one when the profile is read, and nobody else is. -/
theorem exists_listed_admin_iff {Q : String → Prop} :
    (∃ p ∈ s.listUsers channel users, p.role = .admin ∧ Q p.userId) ↔
      ∃ userId, Q userId ∧ s.role channel users userId = .admin := by
  constructor
  · rintro ⟨p, hp, hrole, hq⟩
    obtain ⟨userId, hlisted⟩ := Dict.mem_values.mp hp
    have huserId := userId_of_listed hlisted
    refine ⟨userId, huserId ▸ hq, ?_⟩
    rw [ProfileState.role, ProfileState.profile_eq, hlisted]
    exact hrole
  · rintro ⟨userId, hq, hrole⟩
    rw [ProfileState.role, ProfileState.profile_eq] at hrole
    cases hlisted : (withJson channel users s.table.profiles).get? userId with
    | none =>
      rw [hlisted] at hrole
      cases hrole
    | some p =>
      rw [hlisted] at hrole
      exact ⟨p, Dict.mem_values.mpr ⟨userId, hlisted⟩, hrole, (userId_of_listed hlisted).symm ▸ hq⟩

theorem listsAdminBut_iff : s.ListsAdminBut channel users userId ↔
    ∃ other, other ≠ userId ∧ s.role channel users other = .admin :=
  exists_listed_admin_iff (Q := fun other => other ≠ userId)

theorem listsAdmin_iff : s.ListsAdmin channel users ↔
    ∃ userId, s.role channel users userId = .admin := by
  have h : (∃ p ∈ s.listUsers channel users, p.role = .admin ∧ True) ↔
      ∃ userId, True ∧ s.role channel users userId = .admin :=
    exists_listed_admin_iff (Q := fun _ => True)
  simpa only [and_true, true_and, ProfileState.ListsAdmin] using h

theorem jsonProfiles_userId {p : UserProfile} (h : p ∈ jsonProfiles channel users) : p.userId ≠ "" := by
  have hmem : p ∈ (buildDefaultStore channel (fun _ _ => none) users).jsonSource channel := h
  simp only [buildDefaultStore, if_true] at hmem
  obtain ⟨cfg, -, hcfg⟩ := List.mem_filterMap.mp hmem
  split_ifs at hcfg with hid
  cases hcfg
  exact hid

theorem role_empty : s.role channel users "" = .member := by
  have hlisted : (withJson channel users s.table.profiles).get? "" = none := by
    cases hget : (withJson channel users s.table.profiles).get? "" with
    | none => rfl
    | some p =>
      have hempty := userId_of_listed hget
      rw [get?_withJson, Option.or_eq_some_iff] at hget
      rcases hget with hstored | ⟨-, hconfigured⟩
      · exact absurd rfl (ProfileTable.userId_of_get? hstored).2
      · exact absurd hempty (jsonProfiles_userId (List.mem_of_find?_eq_some hconfigured))
  rw [ProfileState.role, ProfileState.profile_eq, hlisted]
  rfl

theorem role_put (updated : UserProfile) (h : updated.userId ≠ "") (userId : String) :
    ({ s with table := s.table.put updated h } : ProfileState).role channel users userId =
      if updated.userId = userId then updated.role else s.role channel users userId := by
  simp only [ProfileState.role, ProfileState.profile_eq, get?_withJson, ProfileTable.put, Dict.get?_set]
  split_ifs <;> rfl

/-! ## Commands and runs -/

/-- A profile that is written after a count, of at least two. -/
def Counted (_ : ProfileState) : AdminCommand → Prop
  | .set _ _ (some ids) => ids.Nodup ∧ 1 < ids.length
  | _ => True

end

section
variable (channel : AuthChannel) (users : List UserConfig)

/-- The write takes the role from nobody who has it, or another admin is listed, or nobody who was
counted has lost the role since. -/
def SparesAdmin (s : ProfileState) (c : AdminCommand) (_ : Unit) : Prop :=
  match c with
  | .set _ updated counted =>
    updated.role = .admin ∨ s.role channel users updated.userId ≠ .admin ∨
      s.ListsAdminBut channel users updated.userId ∨
      ∃ ids ∈ counted, ∀ userId ∈ ids, s.role channel users userId = .admin
  | _ => True

instance (s : ProfileState) (c : AdminCommand) (answer : Unit) :
    Decidable (SparesAdmin channel users s c answer) :=
  match c with
  | .set _ updated counted =>
    inferInstanceAs (Decidable (updated.role = .admin ∨ s.role channel users updated.userId ≠ .admin ∨
      s.ListsAdminBut channel users updated.userId ∨
      ∃ ids ∈ counted, ∀ userId ∈ ids, s.role channel users userId = .admin))
  | .reply .. | .get _ | .scan .. | .getUser .. => .isTrue trivial

end

section
variable {channel : AuthChannel} {users : List UserConfig} {s : ProfileState}

/-- Of two different users one is not the given one. -/
theorem exists_mem_ne {ids : List String} (hnodup : ids.Nodup) (hlength : 1 < ids.length)
    (userId : String) : ∃ other ∈ ids, other ≠ userId := by
  match ids, hnodup, hlength with
  | a :: b :: rest, hnodup, _ =>
    by_cases ha : a = userId
    · refine ⟨b, by simp, ?_⟩
      rintro rfl
      simp [ha] at hnodup
    · exact ⟨a, by simp, ha⟩

/-- With two admins counted, one of them is not the user who is demoted. -/
theorem sparesAdmin_set_iff {actor : String} {updated : UserProfile} {counted : Option (List String)}
    (h : s.ListsAdmin channel users) (hc : Counted s (.set actor updated counted)) :
    SparesAdmin channel users s (.set actor updated counted) () ↔
      updated.role = .admin ∨ ∃ other, other ≠ updated.userId ∧ s.role channel users other = .admin := by
  rw [← listsAdminBut_iff]
  constructor
  · rintro (hrole | hmember | hother | ⟨ids, hids, hadmins⟩)
    · exact .inl hrole
    · obtain ⟨userId, huserId⟩ := listsAdmin_iff.mp h
      refine .inr (listsAdminBut_iff.mpr ⟨userId, ?_, huserId⟩)
      rintro rfl
      exact hmember huserId
    · exact .inr hother
    · cases hids
      obtain ⟨hnodup, hlength⟩ := hc
      obtain ⟨other, hmem, hne⟩ := exists_mem_ne hnodup hlength updated.userId
      exact .inr (listsAdminBut_iff.mpr ⟨other, hne, hadmins other hmem⟩)
  · rintro (hrole | hother)
    · exact .inl hrole
    · exact .inr (.inr (.inl hother))

/-- A command leaves an admin exactly when it spares one. -/
theorem listsAdmin_exec_iff (h : s.ListsAdmin channel users) (c : AdminCommand) (hc : Counted s c) :
    (adminExec channel users s c ()).1.ListsAdmin channel users ↔ SparesAdmin channel users s c () := by
  cases c with
  | set actor updated counted =>
    by_cases hempty : updated.userId = ""
    · -- nothing is written
      have hstate : (adminExec channel users s (.set actor updated counted) ()).1 = s := by
        simp only [adminExec, dif_pos hempty]
      have hmember : s.role channel users updated.userId ≠ .admin := by
        rw [hempty, role_empty]
        exact UserRole.noConfusion
      rw [hstate]
      exact iff_of_true h (.inr (.inl hmember))
    · have hstate : (adminExec channel users s (.set actor updated counted) ()).1 =
          { s with table := s.table.put updated hempty } := by
        simp only [adminExec, dif_neg hempty]
      rw [hstate, sparesAdmin_set_iff h hc, listsAdmin_iff]
      constructor
      · rintro ⟨userId, hrole⟩
        rw [role_put] at hrole
        split_ifs at hrole with huserId
        · exact .inl hrole
        · exact .inr ⟨userId, fun he => huserId he.symm, hrole⟩
      · rintro (hrole | ⟨other, hne, hrole⟩)
        · refine ⟨updated.userId, ?_⟩
          rw [role_put, if_pos rfl]
          exact hrole
        · refine ⟨other, ?_⟩
          rw [role_put, if_neg hne.symm]
          exact hrole
  | reply actor text => exact iff_of_true h trivial
  | get req => exact iff_of_true h trivial
  | scan req current => exact iff_of_true h trivial
  | getUser req current key keys seen => exact iff_of_true h trivial

theorem counted_afterCount {req : SetRequest} {current : UserProfile} {seen : Dict String UserProfile} :
    ∀ c ∈ afterCount channel users req current seen, Counted s c := by
  unfold afterCount
  dsimp only
  split_ifs with hcount
  · simp [Counted]
  · simp only [List.mem_singleton, forall_eq, Counted]
    exact ⟨List.nodup_dedup _, Nat.lt_of_not_le hcount⟩

theorem counted_listKeys {req : SetRequest} {current : UserProfile} (keys : List String)
    {seen : Dict String UserProfile} :
    ∀ c ∈ listKeys channel users req current keys seen, Counted s c := by
  cases keys with
  | nil => exact counted_afterCount
  | cons key keys => simp [listKeys, Counted]

theorem counted_exec (s s' : ProfileState) (c : AdminCommand) :
    ∀ c' ∈ (adminExec channel users s c ()).2, Counted s' c' := by
  cases c with
  | set actor updated counted =>
    simp only [adminExec]
    split_ifs <;> simp [Counted]
  | reply actor text => simp [adminExec]
  | get req =>
    simp only [adminExec]
    split_ifs <;> simp [Counted]
  | scan req current => exact counted_listKeys _
  | getUser req current key keys seen => exact counted_listKeys _

theorem counted_program (py : PyText) (s : ProfileState) (op : AdminSet) :
    ∀ c ∈ op.program py, Counted s c := by
  unfold AdminSet.program
  split
  · split <;> simp [Counted]
  · simp [Counted]

end

/-- The commands that are running write to a store of this table. -/
def adminStart (table : ProfileTable) : Tasks ProfileState AdminCommand where
  state := { table }

/-- In every interleaving the store lists an admin all along exactly when each write spares one. -/
theorem admin_left_iff (py : PyText) (channel : AuthChannel) (users : List UserConfig)
    (table : ProfileTable) (h : (adminStart table).state.ListsAdmin channel users)
    (steps : List (TaskStep AdminSet Unit)) :
    Along (adminSystem channel users py).step (fun t a =>
        ((adminSystem channel users py).step t a).state.ListsAdmin channel users)
        (adminStart table) steps ↔
      Along (adminSystem channel users py).step (Tasks.OnRun (SparesAdmin channel users))
        (adminStart table) steps :=
  TaskSystem.along_iff_of_holds (T := adminSystem channel users py) (L := Counted)
    (counted_program py) (fun _ c _ hs hc => listsAdmin_exec_iff hs c hc)
    (fun s c _ _ _ => ⟨counted_exec s _ c, fun _ hc' => hc'⟩)
    ⟨h, fun c hc => by obtain ⟨_, hmem⟩ := hc; cases hmem⟩ steps

/-- Alice and Bob are admins of the web. -/
def twoAdmins : List UserConfig :=
  [{ id := "alice", role := some .admin }, { id := "bob", role := some .admin }]

def emptyTable : ProfileTable where
  profiles := Dict.empty
  keyed := fun _ h => by cases h

/-- Bob demotes himself. -/
def selfDemotion : List (TaskStep AdminSet Unit) :=
  [.starts 0 { userId := "bob", userRole := some "admin", adminUserIds := [], rest := ["bob", "role=member"] },
    .runs 0 (), .runs 0 (), .runs 0 ()]

theorem selfDemotion_leaves_alice :
    (runFrom (adminSystem .web twoAdmins .ascii).step (adminStart emptyTable) selfDemotion).state.role
        .web twoAdmins "bob" = .member ∧
      Along (adminSystem .web twoAdmins .ascii).step (fun t a =>
        ((adminSystem .web twoAdmins .ascii).step t a).state.ListsAdmin .web twoAdmins)
        (adminStart emptyTable) selfDemotion :=
  ⟨by decide +kernel,
    (admin_left_iff .ascii .web twoAdmins emptyTable (by decide +kernel) selfDemotion).mpr
      (by decide +kernel)⟩

/-- The operator, an admin by the configured ids only, demotes Alice, the only admin that is listed. -/
def operatorDemotes : List (TaskStep AdminSet Unit) :=
  [.starts 0 { userId := "ops", userRole := some "member", adminUserIds := ["ops"],
               rest := ["alice", "role=member"] },
    .runs 0 (), .runs 0 ()]

theorem operatorDemotes_none_left :
    ¬ ∀ (py : PyText) (channel : AuthChannel) (users : List UserConfig) (table : ProfileTable)
        (steps : List (TaskStep AdminSet Unit)), (adminStart table).state.ListsAdmin channel users →
      (runFrom (adminSystem channel users py).step (adminStart table) steps).state.ListsAdmin
        channel users := by
  intro h
  have hleft := h .ascii .web [{ id := "alice", role := some .admin }] emptyTable operatorDemotes
    (by decide +kernel)
  revert hleft
  decide +kernel

end PyClaw
