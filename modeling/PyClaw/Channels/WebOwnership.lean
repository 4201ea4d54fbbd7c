import PyClaw.Channels.WebRoutes

/-!
# Channels.WebOwnership

Whether the ownership check of the REST routes lets users at their own sessions, and at no others.

`ownership_iff`: it does for a session made through REST or a web command exactly if the asking user's
id is not a proper prefix of the creator's, and for one made by a chat message exactly if someone else
asks; sessions of other channels are always kept.
-/

namespace PyClaw

namespace SessionDirectory

/-! ## What operations add to a store -/

/-- The sessions of `d` stay, with their session keys, and those that are new have the key `key`. -/
structure Adds (key : Option String) (d d' : SessionDirectory) : Prop where
  kept : ∀ sid, (d.load sid).isSome = true → (d'.load sid).isSome = true
  header : ∀ sid t', d'.load sid = some t' →
    (∃ t, d.load sid = some t ∧ t'.header.sessionKey = t.header.sessionKey) ∨
      d.load sid = none ∧ key = some t'.header.sessionKey

section
variable {key : Option String} {d d' d'' : SessionDirectory} {sid : String} {t t₀ : SessionTree}
  {now : Int}

theorem adds_of_load_eq (h : ∀ sid, d'.load sid = d.load sid) : Adds key d d' where
  kept sid hsid := by rw [h]; exact hsid
  header sid t' ht' := .inl ⟨t', h sid ▸ ht', rfl⟩

theorem Adds.refl (key : Option String) (d : SessionDirectory) :
    Adds key d d :=
  adds_of_load_eq fun _ => rfl

theorem Adds.trans (h : Adds key d d') (h' : Adds key d' d'') : Adds key d d'' where
  kept sid hsid := h'.kept sid (h.kept sid hsid)
  header sid t' ht' := by
    rcases h'.header sid t' ht' with ⟨t, ht, hkey⟩ | ⟨hnone, hkey⟩
    · rw [hkey]
      exact h.header sid t ht
    · refine .inr ⟨?_, hkey⟩
      cases hd : d.load sid with
      | none => rfl
      | some t =>
        have hkept := h.kept sid (by rw [hd]; rfl)
        rw [hnone] at hkept
        cases hkept

theorem adds_put (h : (∃ t₀, d.load t.header.id = some t₀ ∧ t.header.sessionKey = t₀.header.sessionKey) ∨
    d.load t.header.id = none ∧ key = some t.header.sessionKey) :
    Adds key d { d with store := d.store.put t } where
  kept sid hsid := load_put_isSome t hsid
  header sid t' ht' := by
    by_cases hsid : t.header.id = sid
    · subst hsid
      rw [load_put_self] at ht'
      cases ht'
      exact h
    · rw [load_put_ne t hsid] at ht'
      exact .inl ⟨t', ht', rfl⟩

/-- Saving the header of a stored session under its session key. -/
theorem adds_saveHeader (ht : d.load sid = some t₀) (hid : t.header.id = t₀.header.id)
    (hkey : t.header.sessionKey = t₀.header.sessionKey) : Adds key d (d.saveHeader t) := by
  have hsid : t.header.id = sid := hid.trans (InMemorySessionStore.header_of_load ht)
  have hload : d.store.load t.header.id = some t₀ := hsid ▸ ht
  unfold saveHeader InMemorySessionStore.saveHeader
  rw [hload]
  exact adds_put (.inl ⟨t₀, hload, hkey⟩)

theorem adds_appendEntry (sid : String) (e : SessionEntry) (leafId : String) :
    Adds key d (d.appendEntry sid e leafId) := by
  unfold appendEntry InMemorySessionStore.appendEntry
  cases hload : d.store.load sid with
  | none => exact Adds.refl key d
  | some t =>
    have hid : t.header.id = sid := InMemorySessionStore.header_of_load hload
    exact adds_put (.inl ⟨t, (congrArg d.load hid).trans hload, rfl⟩)

theorem adds_setCurrent (sessionKey sid : String) :
    Adds key d (d.setCurrentSessionId sessionKey sid now) := adds_of_load_eq fun _ => rfl

variable {tokens : SessionTokens} {py : PyText} {digits : PyDigits} {idleMinutes : Int}

theorem adds_createNewSession (sessionKey workspaceId agentId : String) (parent : Option String) :
    Adds (some sessionKey) d (d.createNewSession tokens sessionKey workspaceId agentId parent now).2 :=
  (adds_put (.inr ⟨load_newTree_id workspaceId agentId parent, rfl⟩)).trans (adds_setCurrent _ _)

theorem adds_rotate (sessionKey workspaceId agentId : String) :
    Adds (some sessionKey) d (d.rotate tokens sessionKey workspaceId now agentId).2 :=
  adds_createNewSession sessionKey workspaceId agentId _

theorem adds_resolveOrCreate (sessionKey workspaceId agentId : String) :
    Adds (some sessionKey) d (d.resolveOrCreate tokens sessionKey workspaceId now agentId).2 := by
  unfold resolveOrCreate
  split
  · exact Adds.refl _ d
  · split
    · exact adds_setCurrent _ _
    · exact adds_createNewSession sessionKey workspaceId agentId none

theorem adds_arrive (conv : Conversation) :
    Adds (some conv.sessionKey) d (d.arrive tokens idleMinutes now conv).2 := by
  cases conv with
  | web userId conversationId => exact Adds.refl _ d
  | feishu appId event scope =>
    simp only [arrive]
    split
    · exact (adds_resolveOrCreate _ _ _).trans (adds_rotate _ _ _)
    · exact adds_resolveOrCreate _ _ _

theorem adds_cmdResume {conv : Conversation} {args target : String}
    (h : d.cmdResume py digits now conv args = some (target, d')) : Adds key d d' := by
  simp only [cmdResume] at h
  split at h
  · cases h
  · split at h
    · cases h
    · split at h
      · cases h
        exact adds_setCurrent _ _
      · cases h

theorem adds_command {conv : Conversation} {c : SwitchCommand} {r : Switched}
    (h : d.command py digits tokens idleMinutes now conv c = some (r, d')) :
    Adds (some conv.sessionKey) d d' := by
  have harrive : Adds (some conv.sessionKey) d (d.arrive tokens idleMinutes now conv).2 :=
    adds_arrive conv
  unfold command at h
  split at h
  · cases h
  · rename_i sid d₁ hd₁
    rw [hd₁] at harrive
    cases c with
    | new =>
      cases h
      exact harrive.trans (adds_rotate _ _ _)
    | reset =>
      cases h
      exact harrive.trans (adds_rotate _ _ _)
    | resume args =>
      obtain ⟨⟨target, d₂⟩, hresume, heq⟩ := Option.map_eq_some_iff.mp h
      cases heq
      exact harrive.trans (adds_cmdResume hresume)

theorem adds_ensureSession (request : RunRequest) :
    Adds (some "") d { d with store := (ensureSession d.store request).2 } := by
  unfold ensureSession
  cases hload : d.store.load request.sessionId with
  | some t => exact Adds.refl _ d
  | none =>
    dsimp only
    rw [InMemorySessionStore.saveHeader, hload]
    exact adds_put (.inr ⟨hload, rfl⟩)

theorem adds_touch (sid : String) : Adds key d (d.updateLastInteraction sid now) := by
  unfold updateLastInteraction
  split
  · exact Adds.refl key d
  · rename_i ht
    exact adds_saveHeader ht rfl rfl

theorem adds_cmdIdle (sid : String) (minutes : Int) : Adds key d (d.cmdIdle sid minutes) := by
  unfold cmdIdle
  split
  · exact Adds.refl key d
  · rename_i ht
    exact adds_saveHeader ht rfl rfl

theorem adds_cmdModel (sid target : String) : Adds key d (d.cmdModel sid target) := by
  unfold cmdModel
  split
  · exact Adds.refl key d
  · rename_i ht
    exact adds_saveHeader ht rfl rfl

/-! ## The ownership check -/

theorem loadAndVerify_ok_iff {userId : String} {t' : SessionTree} :
    d.loadAndVerify sid userId = .ok t' ↔
      d.load sid = some t' ∧ ("web:" ++ userId).toList <+: t'.header.sessionKey.toList := by
  unfold loadAndVerify
  cases d.load sid with
  | none => simp
  | some t =>
    by_cases hkey : ("web:" ++ userId).toList <+: t.header.sessionKey.toList
    · simp only [if_pos hkey, Except.ok.injEq, Option.some.injEq]
      constructor
      · rintro rfl
        exact ⟨rfl, hkey⟩
      · exact fun h => h.1
    · simp only [if_neg hkey, reduceCtorEq, Option.some.injEq, false_iff, not_and]
      rintro rfl
      exact hkey

theorem adds_patchSession (userId sid : String) (title : Option String) :
    Adds key d (d.patchSession py userId sid title).2 := by
  unfold patchSession
  split
  · exact Adds.refl key d
  · rename_i t ht
    split
    · exact Adds.refl key d
    · dsimp only
      split
      · exact Adds.refl key d
      · exact adds_saveHeader (loadAndVerify_ok_iff.mp ht).1 rfl rfl

theorem load_deleteRoute {userId sid' : String} {t' : SessionTree}
    (h : (d.deleteRoute userId sid).2.load sid' = some t') : d.load sid' = some t' := by
  unfold deleteRoute at h
  split at h
  · exact h
  · by_cases hsid : sid' = sid
    · subst hsid
      cases (InMemorySessionStore.load_pop_self d.store sid').symm.trans h
    · exact (InMemorySessionStore.load_pop_ne d.store hsid).symm.trans h

end

end SessionDirectory

open SessionDirectory

/-! ## Who created a session -/

/-- The session key of the sessions that a request creates. -/
def SessionRequest.sessionKey : SessionRequest → Option String
  | .create userId _ => some ("web:" ++ userId)
  | .chat _ _ _ => some ""
  | .command conv _ _ => some conv.sessionKey
  | .completion userId _ => some ("openai:" ++ userId)
  | .message appId event scope _ => some (buildSessionKey appId event scope)
  | _ => none

section
variable {py : PyText} {digits : PyDigits} {tokens : SessionTokens} {idleMinutes : Int}

theorem serve_header (d : SessionDirectory) (r : SessionRequest) {sid : String} {t' : SessionTree}
    (h : (d.serve py digits tokens idleMinutes r).load sid = some t') :
    (∃ t, d.load sid = some t ∧ t'.header.sessionKey = t.header.sessionKey) ∨
      d.load sid = none ∧ r.sessionKey = some t'.header.sessionKey := by
  cases r with
  | create userId now => exact (adds_rotate _ _ _).header sid t' h
  | patch userId sid' title => exact (adds_patchSession userId sid' title).header sid t' h
  | delete userId sid' => exact .inl ⟨t', load_deleteRoute h, rfl⟩
  | chat userId conversationId content =>
    simp only [serve] at h
    split at h
    · exact .inl ⟨t', h, rfl⟩
    · exact (adds_ensureSession _).header sid t' h
  | command conv c now =>
    simp only [serve] at h
    split at h
    · rename_i hcommand
      exact (adds_command hcommand).header sid t' h
    · exact (adds_arrive conv).header sid t' h
  | completion userId now => exact (adds_resolveOrCreate _ _ _).header sid t' h
  | message appId event scope now => exact (adds_arrive (.feishu appId event scope)).header sid t' h
  | idle sid' minutes => exact (adds_cmdIdle sid' minutes).header sid t' h
  | model sid' target => exact (adds_cmdModel sid' target).header sid t' h
  | append sid' e leafId => exact (adds_appendEntry sid' e leafId).header sid t' h
  | touch sid' now => exact (adds_touch sid').header sid t' h

/-- Every session has a creator, which gave it its session key. -/
def WebStore.Attributed (w : WebStore) : Prop :=
  ∀ sid t, w.directory.load sid = some t →
    ∃ r, w.creator sid = some r ∧ r.sessionKey = some t.header.sessionKey

theorem attributed_empty : WebStore.Attributed {} := by
  intro sid t h
  cases h

theorem attributed_step (w : WebStore) (r : SessionRequest) (hw : w.Attributed) :
    (w.step py digits tokens idleMinutes r).Attributed := by
  intro sid t' h
  rcases serve_header w.directory r h with ⟨t, ht, hkey⟩ | ⟨hnone, hkey⟩
  · obtain ⟨r₀, hr₀, hkey₀⟩ := hw sid t ht
    refine ⟨r₀, ?_, by rw [hkey₀, hkey]⟩
    simp only [WebStore.step, ht, Option.isSome_some, if_true, hr₀]
  · refine ⟨r, ?_, hkey⟩
    have hload : (w.directory.serve py digits tokens idleMinutes r).load sid = some t' := h
    simp only [WebStore.step, hnone, hload, Option.isSome_none, Option.isSome_some, if_true,
      Bool.false_eq_true, if_false]

/-! ## Ownership -/

/-- The check reads the creator back: no proper prefix of his id asks, and the session has a key. -/
def SessionRequest.ReadBack (userId : String) : SessionRequest → Prop
  | .create owner _ => userId.toList <+: owner.toList → userId = owner
  | .command (.web owner _) _ _ =>
    userId.toList <+: (if owner = "" then "unknown" else owner).toList → userId = owner
  | .chat owner _ _ => userId ≠ owner
  | _ => True

theorem web_prefix_iff {userId owner : String} :
    ("web:" ++ userId).toList <+: ("web:" ++ owner).toList ↔ userId.toList <+: owner.toList := by
  rw [String.toList_append, String.toList_append, List.prefix_append_right_inj]

theorem not_web_of_head {userId : String} {c : Char} {rest : List Char} (hc : 'w' ≠ c) :
    ¬ ("web:" ++ userId).toList <+: c :: rest := by
  have hweb : ("web:" ++ userId).toList = 'w' :: ("eb:".toList ++ userId.toList) := by
    rw [String.toList_append]
    rfl
  rw [hweb, List.cons_prefix_cons]
  exact fun h => hc h.1

theorem feishuKey_not_web (userId appId : String) (event : FeishuEvent) (scope : String) :
    ¬ ("web:" ++ userId).toList <+: (buildSessionKey appId event scope).toList := by
  obtain ⟨rest, hrest⟩ : ∃ rest, (buildSessionKey appId event scope).toList = 'f' :: rest := by
    have hfeishu : "feishu:".toList = 'f' :: "eishu:".toList := rfl
    unfold buildSessionKey
    split_ifs
    all_goals
      simp only [String.toList_append, hfeishu, List.cons_append]
      exact ⟨_, rfl⟩
  rw [hrest]
  exact not_web_of_head (by decide)

theorem granted_iff {d : SessionDirectory} {sid userId : String} {t : SessionTree}
    (h : d.load sid = some t) :
    (∃ t', d.loadAndVerify sid userId = .ok t') ↔
      ("web:" ++ userId).toList <+: t.header.sessionKey.toList := by
  constructor
  · rintro ⟨t', ht'⟩
    obtain ⟨hload, hprefix⟩ := loadAndVerify_ok_iff.mp ht'
    cases h.symm.trans hload
    exact hprefix
  · intro hprefix
    exact ⟨t, loadAndVerify_ok_iff.mpr ⟨h, hprefix⟩⟩

/-- Of the sessions with the key of a web user. -/
theorem prefix_iff_owner {userId owner name : String}
    (hown : userId = owner → userId.toList <+: name.toList) :
    (("web:" ++ userId).toList <+: ("web:" ++ name).toList ↔ some owner = some userId) ↔
      (userId.toList <+: name.toList → userId = owner) := by
  rw [web_prefix_iff, Option.some.injEq, eq_comm (a := owner)]
  exact ⟨fun h => h.mp, fun h => ⟨h, hown⟩⟩

theorem readBack_iff {r : SessionRequest} {key userId : String} (hkey : r.sessionKey = some key) :
    (("web:" ++ userId).toList <+: key.toList ↔ r.webUser = some userId) ↔ r.ReadBack userId := by
  cases r with
  | create owner now =>
    cases hkey
    exact prefix_iff_owner fun h => h ▸ List.prefix_refl _
  | chat owner conversationId content =>
    cases hkey
    have hempty : ¬ ("web:" ++ userId).toList <+: "".toList := by simp
    rw [iff_false_left hempty]
    simp [SessionRequest.webUser, SessionRequest.ReadBack, eq_comm]
  | command conv c now =>
    cases hkey
    cases conv with
    | web owner conversationId =>
      refine prefix_iff_owner fun h => ?_
      subst h
      split
      · rename_i hempty
        rw [hempty]
        exact List.nil_prefix
      · exact List.prefix_refl _
    | feishu appId event scope =>
      refine (iff_false_left (feishuKey_not_web userId appId event scope)).trans ?_
      simp [SessionRequest.webUser, SessionRequest.ReadBack]
  | completion owner now =>
    cases hkey
    have hopenai : ("openai:" ++ owner).toList = 'o' :: ("penai:".toList ++ owner.toList) := by
      rw [String.toList_append]
      rfl
    rw [hopenai, iff_false_left (not_web_of_head (by decide))]
    simp [SessionRequest.webUser, SessionRequest.ReadBack]
  | message appId event scope now =>
    cases hkey
    rw [iff_false_left (feishuKey_not_web userId appId event scope)]
    simp [SessionRequest.webUser, SessionRequest.ReadBack]
  | _ => cases hkey

/-- After any requests, the check lets a user at a session exactly if one of his web requests created it,
precisely when the check reads the creator back. -/
theorem ownership_iff (py : PyText) (digits : PyDigits) (tokens : SessionTokens) (idleMinutes : Int)
    (requests : List SessionRequest) (sid userId : String) (t : SessionTree)
    (h : (runFrom (WebStore.step py digits tokens idleMinutes) {} requests).directory.load sid =
      some t) :
    ∃ r, (runFrom (WebStore.step py digits tokens idleMinutes) {} requests).creator sid = some r ∧
      (((∃ t', (runFrom (WebStore.step py digits tokens idleMinutes) {} requests).directory.loadAndVerify
            sid userId = .ok t') ↔ r.webUser = some userId) ↔
        r.ReadBack userId) := by
  have hattributed :
      (runFrom (WebStore.step py digits tokens idleMinutes) {} requests).Attributed :=
    runFrom_invariant attributed_step attributed_empty
  obtain ⟨r, hr, hkey⟩ := hattributed sid t h
  refine ⟨r, hr, ?_⟩
  rw [granted_iff h]
  exact readBack_iff hkey

end

/-! ## Alice and Al -/

/-- Alice creates a session through REST, and Al one with a chat message. -/
def aliceAndAl : List SessionRequest := [.create "alice" 0, .chat "al" "c" "hi"]

def aliceAndAlStore : WebStore := runFrom (WebStore.step .ascii .ascii .long 0) {} aliceAndAl

theorem bob_kept_out :
    ¬ ∃ t', aliceAndAlStore.directory.loadAndVerify "web:alice:s:f" "bob" = .ok t' := by
  obtain ⟨r, hr, hiff⟩ :=
    ownership_iff .ascii .ascii .long 0 aliceAndAl "web:alice:s:f" "bob" _ rfl
  have hcreator : aliceAndAlStore.creator "web:alice:s:f" = some (.create "alice" 0) := rfl
  cases hcreator.symm.trans hr
  have hback : SessionRequest.ReadBack "bob" (.create "alice" 0) := fun h => absurd h (by decide)
  intro hgranted
  exact absurd ((hiff.mpr hback).mp hgranted) (by decide)

/-- Al is let at Alice's session, and not at his own. -/
theorem al_at_alices_session :
    (aliceAndAlStore.directory.loadAndVerify "web:alice:s:f" "al").isOk = true ∧
    aliceAndAlStore.directory.loadAndVerify "web:al:c" "al" = .error ⟨403, "Access denied"⟩ ∧
    aliceAndAlStore.creator "web:alice:s:f" = some (.create "alice" 0) ∧
    aliceAndAlStore.creator "web:al:c" = some (.chat "al" "c" "hi") :=
  ⟨rfl, rfl, rfl, rfl⟩

end PyClaw
