import PyClaw.Memory.Naming

/-!
# Session.KeyDerivation

The way from a session key to a session id and back. The generator puts `:s:` and a suffix behind the
key, and several modules cut the id at its first `:s:`. `sessionKey_recovered_iff`: the key comes back
exactly when `:s:` neither is in it nor begins at its end; all the cuts agree, on every id.
-/

namespace PyClaw

/-- `secrets.token_hex(8)`. -/
structure SessionSuffix where
  text : String
  length_eq : text.toList.length = 16
  hex : ∀ c ∈ text.toList, c ∈ "0123456789abcdef".toList

/-- Where a session key comes from: the web routes and commands, a web chat, the completions endpoint
and Feishu. -/
inductive KeySource where
  | web (userId : String)
  | webChat (userId conversationId : String)
  | openai (userId : String)
  | feishu (appId : String) (event : FeishuEvent) (scope : String)

def KeySource.sessionKey : KeySource → Option String
  | .web userId => some ("web:" ++ userId)
  | .webChat userId conversationId => webSessionId userId conversationId
  | .openai userId => some ("openai:" ++ userId)
  | .feishu appId event scope => some (buildSessionKey appId event scope)

/-! ## The derivations -/

/-- `session_id[:idx] if idx != -1 else session_id`. -/
def cutAtSuffix (sessionId : String) : String :=
  let idx := find ":s:".toList sessionId.toList
  if idx ≠ -1 then String.ofList (sliceTo idx sessionId.toList) else sessionId

/-- `session_id.split(":s:", 1)[0]`. -/
def splitAtSuffix (sessionId : String) : String :=
  String.ofList ((splitOnce ":s:".toList sessionId.toList).headD [])

/-- `_derive_session_key` of the context engine. -/
def ContextEngine.deriveSessionKey (sessionId : String) : String := cutAtSuffix sessionId

/-- The first line of `_derive_workspace_id`. -/
def ContextEngine.workspaceSessionKey (sessionId : String) : String := cutAtSuffix sessionId

def SopExtraction.deriveSessionKey (sessionId : String) : String := cutAtSuffix sessionId

def MemoryArchive.deriveSessionKey (sessionId : String) : String := cutAtSuffix sessionId

def Memorize.deriveSessionKey (sessionId : String) : String := cutAtSuffix sessionId

def Forget.deriveSessionKey (sessionId : String) : String := cutAtSuffix sessionId

/-- `session_key_for_tier` of the Feishu handler. -/
def FeishuHandler.sessionKeyForTier (sessionId : String) : String := splitAtSuffix sessionId

/-- `archive_owner` of the two rotation callbacks. -/
def archiveOwner (sessionId : String) : Option String :=
  if occurs ":s:".toList sessionId.toList then some (splitAtSuffix sessionId) else none

theorem cutAtSuffix_eq (sessionId : String) : cutAtSuffix sessionId = deriveSessionKey sessionId := by
  unfold cutAtSuffix deriveSessionKey find
  cases hsplit : splitFirst ":s:".toList sessionId.toList with
  | none => rfl
  | some p =>
    obtain ⟨key, rest⟩ := p
    have hcut := splitFirst_sound hsplit
    have hidx : (key.length : Int) ≠ -1 := by omega
    simp only [if_pos hidx, sliceTo, if_neg (Int.not_lt.mpr (Int.natCast_nonneg key.length))]
    rw [Int.toNat_natCast, hcut, List.append_assoc, List.take_left]

theorem splitAtSuffix_eq (sessionId : String) :
    splitAtSuffix sessionId = deriveSessionKey sessionId := by
  unfold splitAtSuffix deriveSessionKey splitOnce
  cases splitFirst ":s:".toList sessionId.toList with
  | none => exact String.ofList_toList
  | some p => rfl

/-- What every derivation gives for an id. -/
structure DerivationsGive (sessionId key : String) : Prop where
  contextEngine : ContextEngine.deriveSessionKey sessionId = key
  workspace : ContextEngine.workspaceSessionKey sessionId = key
  sopExtraction : SopExtraction.deriveSessionKey sessionId = key
  memoryArchive : MemoryArchive.deriveSessionKey sessionId = key
  memorize : Memorize.deriveSessionKey sessionId = key
  forget : Forget.deriveSessionKey sessionId = key
  tier : FeishuHandler.sessionKeyForTier sessionId = key
  archive : ∀ owner ∈ archiveOwner sessionId, owner = key

theorem derivations_agree (sessionId : String) :
    DerivationsGive sessionId (deriveSessionKey sessionId) where
  contextEngine := cutAtSuffix_eq sessionId
  workspace := cutAtSuffix_eq sessionId
  sopExtraction := cutAtSuffix_eq sessionId
  memoryArchive := cutAtSuffix_eq sessionId
  memorize := cutAtSuffix_eq sessionId
  forget := cutAtSuffix_eq sessionId
  tier := splitAtSuffix_eq sessionId
  archive owner howner := by
    unfold archiveOwner at howner
    split at howner
    · cases howner
      exact splitAtSuffix_eq sessionId
    · cases howner

/-! ## The round trip -/

/-- `:s:` is not in the key, and would not begin in it if the key were followed by one. -/
def Separable (key : String) : Prop :=
  ¬ ":s:".toList <:+: key.toList ∧ ¬ ":s".toList <:+ key.toList

instance (key : String) : Decidable (Separable key) :=
  inferInstanceAs (Decidable (_ ∧ _))

theorem separable_iff {key : String} : Separable key ↔ ¬ ":s:".toList <:+: (key ++ ":s").toList := by
  have hsplit : (key ++ ":s").toList = key.toList ++ [':'] ++ ['s'] := by simp
  have hend : ¬ ":s:".toList <:+ key.toList ++ [':'] ++ ['s'] := by
    rintro ⟨before, h⟩
    have hlast := congrArg List.getLast? h
    simp at hlast
  have hcolon : ":s:".toList <:+ key.toList ++ [':'] ↔ ":s".toList <:+ key.toList := by
    have hmarker : ":s:".toList = ":s".toList ++ [':'] := rfl
    rw [hmarker]
    exact List.suffix_append_self_iff
  rw [Separable, hsplit, List.infix_concat_iff, List.infix_concat_iff, hcolon]
  simp only [hend, false_or, not_or, and_comm]

theorem routedSessionId_toList (key suffix : String) :
    (routedSessionId key (some suffix)).toList = key.toList ++ ":s:".toList ++ suffix.toList := by
  rw [routedSessionId, String.toList_append, String.toList_append]

/-- A key comes back from a session id that it is given, whatever the suffix. -/
theorem deriveSessionKey_routed_iff (key suffix : String) :
    deriveSessionKey (routedSessionId key (some suffix)) = key ↔ Separable key := by
  have hsplit := splitFirst_append_iff (a := key.toList) suffix.toList
    (by decide : ":s:".toList ≠ [])
  have hseparable : Separable key ↔ ¬ ":s:".toList <:+: key.toList ++ ":s:".toList.dropLast := by
    rw [separable_iff, String.toList_append]
    rfl
  rw [hseparable, ← hsplit, deriveSessionKey, routedSessionId_toList]
  cases hcut : splitFirst ":s:".toList (key.toList ++ ":s:".toList ++ suffix.toList) with
  | none =>
    have hnone := splitFirst_eq_none.mp hcut
    exact absurd (List.infix_append key.toList ":s:".toList suffix.toList) hnone
  | some p =>
    obtain ⟨a, b⟩ := p
    constructor
    · intro hkey
      have ha : a = key.toList := by
        rw [← show String.ofList a = key from hkey, String.toList_ofList]
      have hsound := splitFirst_sound hcut
      rw [ha] at hsound
      rw [ha, List.append_cancel_left hsound]
    · intro h
      cases h
      exact String.ofList_toList

/-- An id is its own key exactly when nothing is cut off. -/
theorem deriveSessionKey_self_iff (sessionId : String) :
    deriveSessionKey sessionId = sessionId ↔ ¬ ":s:".toList <:+: sessionId.toList := by
  rw [← splitFirst_eq_none, deriveSessionKey]
  cases hcut : splitFirst ":s:".toList sessionId.toList with
  | none => exact iff_of_true rfl rfl
  | some p =>
    obtain ⟨a, b⟩ := p
    refine iff_of_false (fun hkey => ?_) (fun h => by cases h)
    have hsound := congrArg List.length (splitFirst_sound hcut)
    have ha : a = sessionId.toList := by
      rw [← show String.ofList a = sessionId from hkey, String.toList_ofList]
    rw [ha] at hsound
    simp at hsound

/-- A session key comes back from every session id that the generator makes of it exactly when it is
separable, a web session id without a suffix exactly when `:s:` is not in it, and all derivations
agree on every id. -/
theorem sessionKey_recovered_iff (source : KeySource) (suffix : SessionSuffix)
    (userId conversationId id : String) :
    (∀ key ∈ source.sessionKey,
      deriveSessionKey (routedSessionId key (some suffix.text)) = key ↔ Separable key) ∧
    (∀ sessionId ∈ webSessionId userId conversationId,
      deriveSessionKey sessionId = sessionId ↔ ¬ ":s:".toList <:+: sessionId.toList) ∧
    DerivationsGive id (deriveSessionKey id) :=
  ⟨fun key _ => deriveSessionKey_routed_iff key suffix.text,
    fun sessionId _ => deriveSessionKey_self_iff sessionId, derivations_agree id⟩

def plainSuffix : SessionSuffix where
  text := "0123456789abcdef"
  length_eq := by decide
  hex := by
    have hall : "0123456789abcdef".toList.all "0123456789abcdef".toList.contains = true := by decide
    intro c hc
    simpa using List.all_eq_true.mp hall c hc

/-- The session ids of the user `s` are all cut behind `web`. -/
theorem sessionKey_not_recovered :
    ¬ ((∀ (source : KeySource) (suffix : SessionSuffix), ∀ key ∈ source.sessionKey,
        deriveSessionKey (routedSessionId key (some suffix.text)) = key) ∧
      ∀ userId conversationId, ∀ sessionId ∈ webSessionId userId conversationId,
        (∀ key (suffix : SessionSuffix), sessionId ≠ routedSessionId key (some suffix.text)) →
        deriveSessionKey sessionId = sessionId) := by
  rintro ⟨hgenerated, -⟩
  have hkey := hgenerated (.web "s") plainSuffix "web:s" rfl
  revert hkey
  decide

end PyClaw
