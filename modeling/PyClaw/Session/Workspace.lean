import PyClaw.Lib.Path
import PyClaw.Memory.Naming

/-!
# Session.Workspace

The three directories of a web run: the one of its tools, from the user id; the one its bootstrap
files are read from, from the session id; and the one its SOPs graduate into, from the session key.
`ownWorkspace_iff`: the last two are the user's own only when the session id is cut right behind the
user id, or when the conversation id climbs out of its directory and back.
-/

namespace PyClaw

/-- `_derive_workspace_id`. -/
def deriveWorkspaceId (sessionId : String) : String :=
  String.ofList (stage1 (deriveSessionKey sessionId))

section
variable (base : List (List Char)) (users : List String)

/-- Where `FileWorkspaceStore` looks for the bootstrap files of a session. -/
def bootstrapDir (sessionId : String) : List (List Char) :=
  Posix.resolve base (deriveWorkspaceId sessionId).toList

/-- `workspace_path` of `graduate_single_sop`, for the rows of a session key. -/
def graduationDir (sessionKey : String) : List (List Char) := Posix.resolve base (stage1 sessionKey)

/-- `user_workspace` of `_run_chat`. -/
def userWorkspace (userId : String) : List (List Char) := Posix.resolve base ("web_" ++ userId).toList

/-- A run on the session reads its bootstrap files from the user's workspace, what it learns
graduates into it, and neither happens in the workspace of another of the users. -/
def OwnWorkspace (userId sessionId : String) : Prop :=
  bootstrapDir base sessionId = userWorkspace base userId ∧
    graduationDir base (deriveSessionKey sessionId) = userWorkspace base userId ∧
    ∀ other ∈ users, other ≠ userId → bootstrapDir base sessionId ≠ userWorkspace base other ∧
      graduationDir base (deriveSessionKey sessionId) ≠ userWorkspace base other

/-- The conversation id without the prefix that the client may have put before it. -/
def conversationPart (userId conversationId : String) : List Char :=
  if "web:".toList <+: conversationId.toList then
    conversationId.toList.drop ("web:" ++ userId ++ ":").length
  else conversationId.toList

/-- `:s:` follows the user id, and does not occur before. -/
def CutAtUser (userId conversationId : String) : Prop :=
  ':' ∉ userId.toList ∧ userId ≠ "s" ∧ "s:".toList <+: conversationPart userId conversationId

/-- The path of the user or that of the session has an empty part, `.` or `..`, and the second leads
back to where the first leads. -/
def WindsBack (userId sessionId : String) : Prop :=
  ¬ (Posix.Straight ("web_" ++ userId).toList ∧ Posix.Straight (deriveWorkspaceId sessionId).toList) ∧
    Posix.resolve base (deriveWorkspaceId sessionId).toList = Posix.resolve base ("web_" ++ userId).toList

end

section
variable {base : List (List Char)} {users : List String} {userId conversationId sessionId : String}

theorem webSessionId_toList (h : webSessionId userId conversationId = some sessionId) :
    sessionId.toList =
      ("web:" ++ userId).toList ++ ':' :: conversationPart userId conversationId := by
  unfold webSessionId at h
  unfold conversationPart
  split at h
  · rename_i hweb
    rw [if_pos hweb]
    split at h
    · rename_i hown
      cases h
      obtain ⟨tail, htail⟩ := hown
      have hdrop : conversationId.toList.drop ("web:" ++ userId ++ ":").length = tail := by
        rw [← htail, ← String.length_toList]
        exact List.drop_left
      rw [hdrop, ← htail, String.toList_append, List.append_assoc]
      rfl
    · cases h
  · rename_i hweb
    cases h
    rw [if_neg hweb]
    simp

/-- Replacing the colons keeps the length, so what becomes `web_` and the user id is as long. -/
theorem stage1_length (key : String) : (stage1 key).length = key.toList.length := List.length_map _

theorem stage1_web (hcolon : ':' ∉ userId.toList) :
    stage1 ("web:" ++ userId) = ("web_" ++ userId).toList := by
  have huser : userId.toList.map (fun c => if c = ':' then '_' else c) = userId.toList := by
    conv_rhs => rw [← List.map_id userId.toList]
    refine List.map_congr_left fun c hc => if_neg ?_
    rintro rfl
    exact hcolon hc
  rw [stage1, String.toList_append, List.map_append, huser, String.toList_append]
  rfl

theorem colon_not_mem_of_stage1_web (h : stage1 ("web:" ++ userId) = ("web_" ++ userId).toList) :
    ':' ∉ userId.toList := by
  rw [stage1, String.toList_append, List.map_append, String.toList_append] at h
  have huser := List.append_cancel_left h
  intro hmem
  rw [← huser] at hmem
  obtain ⟨c, -, hc⟩ := List.mem_map.mp hmem
  split at hc
  · cases hc
  · rename_i hne
    exact hne hc

/-- Up to the user id the session id holds `:s:` only for the user `s`. -/
theorem not_starts_before_user (hcolon : ':' ∉ userId.toList) (hs : userId ≠ "s") {rest : List Char}
    {i : Nat} (hi : i < ("web:" ++ userId).toList.length) :
    ¬ ":s:".toList <+: (("web:" ++ userId).toList ++ ":s:".toList ++ rest).drop i := by
  have hlist : ("web:" ++ userId).toList = 'w' :: 'e' :: 'b' :: ':' :: userId.toList := by
    rw [String.toList_append]
    rfl
  have hsep : ":s:".toList = [':', 's', ':'] := rfl
  rw [hlist] at hi ⊢
  rw [hsep]
  rcases i with _ | _ | _ | _ | j
  · simp
  · simp
  · simp
  · intro h
    -- behind `web:` stands the whole user id
    cases huser : userId.toList with
    | nil => simp [huser] at h
    | cons c tail =>
      rw [huser] at hcolon h
      simp only [List.mem_cons, not_or] at hcolon
      cases tail with
      | nil =>
        simp only [List.drop_succ_cons, List.drop_zero, List.cons_append, List.nil_append,
          List.cons_prefix_cons] at h
        exact hs (String.toList_inj.mp (by rw [huser, ← h.2.1]; rfl))
      | cons d tail =>
        simp only [List.drop_succ_cons, List.drop_zero, List.cons_append,
          List.cons_prefix_cons] at h
        exact hcolon.2 (h.2.2.1 ▸ List.mem_cons_self)
  · intro h
    have hj : j < userId.toList.length := by simpa using hi
    simp only [List.drop_succ_cons, List.cons_append, List.append_assoc] at h
    rw [List.drop_append_of_le_length (by omega), List.drop_eq_getElem_cons hj, List.cons_append,
      List.cons_prefix_cons] at h
    exact hcolon (h.1 ▸ List.getElem_mem hj)

theorem deriveSessionKey_cut (h : webSessionId userId conversationId = some sessionId)
    (hcut : CutAtUser userId conversationId) : deriveSessionKey sessionId = "web:" ++ userId := by
  obtain ⟨hcolon, hs, rest, hrest⟩ := hcut
  have hsession : sessionId.toList = ("web:" ++ userId).toList ++ ":s:".toList ++ rest := by
    rw [webSessionId_toList h, ← hrest]
    simp
  have hsplit := splitFirst_append rest fun i hi => not_starts_before_user hcolon hs hi
  rw [deriveSessionKey, hsession, hsplit]
  exact String.ofList_toList

/-- The session key becomes the name of the user's workspace only when it is cut right behind the
user id. -/
theorem cutAtUser_of_stage1 (h : webSessionId userId conversationId = some sessionId)
    (hname : stage1 (deriveSessionKey sessionId) = ("web_" ++ userId).toList) :
    CutAtUser userId conversationId := by
  have hsession := webSessionId_toList h
  have hlength : (deriveSessionKey sessionId).toList.length = ("web:" ++ userId).toList.length := by
    rw [← stage1_length, hname]
    simp
  unfold deriveSessionKey at hname hlength
  cases hsplit : splitFirst ":s:".toList sessionId.toList with
  | none =>
    rw [hsplit] at hlength
    dsimp only at hlength
    rw [hsession] at hlength
    simp at hlength
  | some p =>
    obtain ⟨key, tail⟩ := p
    rw [hsplit] at hname hlength
    simp only [String.toList_ofList] at hlength
    have hcut := splitFirst_sound hsplit
    rw [hsession, List.append_assoc] at hcut
    obtain ⟨hkey, hrest⟩ := List.append_inj hcut hlength.symm
    have hpart : "s:".toList <+: conversationPart userId conversationId :=
      ⟨tail, (List.cons.inj hrest).2.symm⟩
    dsimp only at hname
    rw [← hkey, String.ofList_toList] at hname
    refine ⟨colon_not_mem_of_stage1_web hname, ?_, hpart⟩
    rintro rfl
    rw [hsession] at hsplit
    -- the session id of the user `s` is cut before the user id
    have hfirst : splitFirst ":s:".toList ("web".toList ++ ":s:".toList ++
        conversationPart "s" conversationId) =
          some ("web".toList, conversationPart "s" conversationId) := by
      refine splitFirst_append _ fun i hi => ?_
      have hcases : i = 0 ∨ i = 1 ∨ i = 2 := by
        have : i < 3 := hi
        omega
      rcases hcases with rfl | rfl | rfl <;> simp
    have hsame : ("web:" ++ "s").toList ++ ':' :: conversationPart "s" conversationId =
        "web".toList ++ ":s:".toList ++ conversationPart "s" conversationId := rfl
    rw [hsame, hfirst] at hsplit
    have hshort : key.length = 3 := by
      rw [← (Prod.mk.inj (Option.some.inj hsplit)).1]
      rfl
    simp [hshort] at hlength

theorem stage1_eq_iff (h : webSessionId userId conversationId = some sessionId) :
    stage1 (deriveSessionKey sessionId) = ("web_" ++ userId).toList ↔
      CutAtUser userId conversationId := by
  constructor
  · exact cutAtUser_of_stage1 h
  · intro hcut
    rw [deriveSessionKey_cut h hcut, stage1_web hcut.1]

theorem resolve_eq_iff (h : webSessionId userId conversationId = some sessionId) :
    bootstrapDir base sessionId = userWorkspace base userId ↔
      CutAtUser userId conversationId ∨ WindsBack base userId sessionId := by
  have hname : (deriveWorkspaceId sessionId).toList = stage1 (deriveSessionKey sessionId) :=
    String.toList_ofList
  unfold bootstrapDir userWorkspace WindsBack
  by_cases hstraight :
      Posix.Straight ("web_" ++ userId).toList ∧ Posix.Straight (deriveWorkspaceId sessionId).toList
  · rw [Posix.resolve_inj hstraight.2 hstraight.1, hname, stage1_eq_iff h]
    exact ⟨.inl, fun hc => hc.resolve_right fun hw => hw.1 (hname ▸ hstraight)⟩
  · constructor
    · intro he
      exact .inr ⟨hstraight, he⟩
    · rintro (hcut | ⟨-, he⟩)
      · rw [hname, (stage1_eq_iff h).mpr hcut]
      · exact he

/-- Bootstrap and graduation agree; they are in the user's workspace exactly when the session id is
cut behind the user id, or its path winds back there. -/
theorem ownWorkspace_iff (h : webSessionId userId conversationId = some sessionId) :
    OwnWorkspace base users userId sessionId ↔
      (CutAtUser userId conversationId ∨ WindsBack base userId sessionId) ∧
        ∀ other ∈ users, other ≠ userId → userWorkspace base other ≠ userWorkspace base userId := by
  have hsame : graduationDir base (deriveSessionKey sessionId) = bootstrapDir base sessionId := by
    rw [graduationDir, bootstrapDir, deriveWorkspaceId, String.toList_ofList]
  unfold OwnWorkspace
  rw [hsame, ← resolve_eq_iff h]
  constructor
  · rintro ⟨hown, -, hothers⟩
    exact ⟨hown, fun other hmem hne he => (hothers other hmem hne).1 (hown.trans he.symm)⟩
  · rintro ⟨hown, hapart⟩
    have hothers : ∀ other ∈ users, other ≠ userId →
        bootstrapDir base sessionId ≠ userWorkspace base other :=
      fun other hmem hne he => hapart other hmem hne (he.symm.trans hown)
    exact ⟨hown, hown, fun other hmem hne => ⟨hothers other hmem hne, hothers other hmem hne⟩⟩

/-- A conversation named `s:1` happens to be in its user's workspace. -/
theorem ownWorkspace_cut :
    OwnWorkspace ["srv".toList] ["alice", "bob"] "alice" "web:alice:s:1" := by
  have hsession : webSessionId "alice" "s:1" = some "web:alice:s:1" := by decide
  refine (ownWorkspace_iff hsession).mpr ⟨.inl ⟨by decide, by decide, by decide⟩, ?_⟩
  decide

/-- Alice's conversation `c` reads and learns in the directory of the user `alice_c`, and her
conversation `x/../web_bob` in Bob's. -/
theorem workspaces_disagree :
    webSessionId "alice" "c" = some "web:alice:c" ∧
    ¬ OwnWorkspace ["srv".toList] ["alice", "alice_c", "bob"] "alice" "web:alice:c" ∧
    bootstrapDir ["srv".toList] "web:alice:c" = userWorkspace ["srv".toList] "alice_c" ∧
    webSessionId "alice" "x/../web_bob" = some "web:alice:x/../web_bob" ∧
    bootstrapDir ["srv".toList] "web:alice:x/../web_bob" = userWorkspace ["srv".toList] "bob" := by
  have hdir : bootstrapDir ["srv".toList] "web:alice:c" = userWorkspace ["srv".toList] "alice_c" := by
    decide
  refine ⟨by decide, fun hown => ?_, hdir, by decide, by decide⟩
  exact (hown.2.2 "alice_c" (by decide) (by decide)).1 hdir

end

end PyClaw
