import PyClaw.Channels.CardCallback

/-!
# Channels.Originator

Whether only the originator of a run decides on its approvals (`originatorOnly_iff`): which clicks
are recorded, and for which session keys the hook finds the sender of the message.
-/

namespace PyClaw

/-! ## Segments -/

def firstSegment (text : List Char) : List Char := text.takeWhile (· != ':')

theorem firstSegment_colon (text : List Char) : firstSegment (':' :: text) = [] := rfl

theorem firstSegment_cons {c : Char} (hc : c ≠ ':') (text : List Char) :
    firstSegment (c :: text) = c :: firstSegment text := by
  simp [firstSegment, hc]

theorem splitOn_head (text : List Char) : ∃ rest, text.splitOn ':' = firstSegment text :: rest := by
  induction text with
  | nil => exact ⟨[], List.splitOn_nil ':'⟩
  | cons c text ih =>
    obtain ⟨rest, hrest⟩ := ih
    rw [List.splitOn_cons_eq_if_modifyHead]
    by_cases hc : c = ':'
    · subst hc
      exact ⟨text.splitOn ':', by simp [firstSegment_colon]⟩
    · exact ⟨rest, by simp [hc, hrest, firstSegment_cons hc]⟩

theorem firstSegment_append {body tail : List Char} (h : tail = [] ∨ ∃ t, tail = ':' :: t) :
    firstSegment (body ++ tail) = firstSegment body := by
  induction body with
  | nil =>
    rcases h with rfl | ⟨t, rfl⟩
    · rfl
    · rfl
  | cons c body ih =>
    by_cases hc : c = ':'
    · subst hc
      rfl
    · rw [List.cons_append, firstSegment_cons hc, firstSegment_cons hc, ih]

theorem firstSegment_eq_self_iff {text : List Char} : firstSegment text = text ↔ ':' ∉ text := by
  induction text with
  | nil => simp [firstSegment]
  | cons c text ih =>
    by_cases hc : c = ':'
    · subst hc
      simp [firstSegment_colon]
    · have hc' : ¬ ':' = c := fun h => hc h.symm
      simp [firstSegment_cons hc, ih, hc']

/-- The segment of a session key after the application. -/
def ownerSegment (event : FeishuEvent) : String :=
  if event.chatType = "p2p" then event.openId else event.chatId

theorem colon_append {tail : List Char} (h : tail = [] ∨ ∃ t, tail = ':' :: t) (more : List Char) :
    ∃ t, tail ++ ':' :: more = ':' :: t := by
  rcases h with rfl | ⟨t, rfl⟩
  · exact ⟨more, rfl⟩
  · exact ⟨t ++ ':' :: more, rfl⟩

theorem sessionKey_shape (appId : String) (event : FeishuEvent) (scope : String) :
    ∃ tail, (tail = [] ∨ ∃ t, tail = ':' :: t) ∧ (buildSessionKey appId event scope).toList =
      "feishu".toList ++ ':' :: (appId.toList ++ ':' :: ((ownerSegment event).toList ++ tail)) := by
  have hfeishu : "feishu:".toList = "feishu".toList ++ [':'] := rfl
  have hcolon : ":".toList = [':'] := rfl
  have hthread : ":thread:".toList = ':' :: "thread:".toList := rfl
  unfold buildSessionKey ownerSegment
  split_ifs
  · exact ⟨[], .inl rfl, by simp [String.toList_append, hfeishu, hcolon]⟩
  · exact ⟨':' :: event.openId.toList, .inr ⟨_, rfl⟩, by simp [String.toList_append, hfeishu, hcolon]⟩
  · refine ⟨':' :: ("thread:".toList ++ event.threadId.toList), .inr ⟨_, rfl⟩, ?_⟩
    simp only [String.toList_append, hfeishu, hcolon, hthread, List.append_assoc, List.cons_append,
      List.nil_append]
  · exact ⟨[], .inl rfl, by simp [String.toList_append, hfeishu, hcolon]⟩

theorem sessionId_shape (appId : String) (event : FeishuEvent) (scope : String)
    (suffix : Option String) : ∃ tail, (tail = [] ∨ ∃ t, tail = ':' :: t) ∧
      (routedSessionId (buildSessionKey appId event scope) suffix).toList =
        "feishu".toList ++ ':' :: (appId.toList ++ ':' :: ((ownerSegment event).toList ++ tail)) := by
  obtain ⟨tail, htail, hkey⟩ := sessionKey_shape appId event scope
  cases suffix with
  | none => exact ⟨tail, htail, hkey⟩
  | some token =>
    have hs : ":s:".toList = ':' :: "s:".toList := rfl
    obtain ⟨t, ht⟩ := colon_append htail ("s:".toList ++ token.toList)
    refine ⟨':' :: t, .inr ⟨t, rfl⟩, ?_⟩
    rw [routedSessionId, String.toList_append, String.toList_append, hkey, hs, ← ht]
    simp only [List.append_assoc, List.cons_append]

/-! ## Reading the originator back -/

/-- The hook takes the third part of the session id: the second part of an application id that has a
colon, else what follows it up to the next colon. -/
theorem resolveOriginator_eq (appId : String) (event : FeishuEvent) (scope : String)
    (suffix : Option String) :
    (resolveOriginator (routedSessionId (buildSessionKey appId event scope) suffix)).toList =
      match appId.toList.splitOn ':' with
      | _ :: second :: _ => second
      | _ => firstSegment (ownerSegment event).toList := by
  obtain ⟨tail, htail, hshape⟩ := sessionId_shape appId event scope suffix
  have hfeishu : ':' ∉ "feishu".toList := by decide
  obtain ⟨rest, hrest⟩ := splitOn_head ((ownerSegment event).toList ++ tail)
  rw [firstSegment_append htail] at hrest
  have hparts : (routedSessionId (buildSessionKey appId event scope) suffix).toList.splitOn ':' =
      "feishu".toList :: (appId.toList.splitOn ':' ++ firstSegment (ownerSegment event).toList :: rest) := by
    rw [hshape, List.splitOn_append_cons_self_of_not_mem hfeishu, List.splitOn_append_cons_self, hrest]
  rw [resolveOriginator, hparts]
  cases happ : appId.toList.splitOn ':' with
  | nil => exact absurd happ (List.splitOn_ne_nil ':' _)
  | cons first others =>
    cases others with
    | nil => simp
    | cons second others => simp

/-- The third part of the session id is the sender. -/
def SenderInKey (appId : String) (event : FeishuEvent) : Prop :=
  match appId.toList.splitOn ':' with
  | _ :: second :: _ => second = event.openId.toList
  | _ =>
    if event.chatType = "p2p" then ':' ∉ event.openId.toList
    else firstSegment event.chatId.toList = event.openId.toList

theorem resolveOriginator_iff (appId : String) (event : FeishuEvent) (scope : String)
    (suffix : Option String) :
    resolveOriginator (routedSessionId (buildSessionKey appId event scope) suffix) = event.openId ↔
      SenderInKey appId event := by
  rw [← String.toList_inj, resolveOriginator_eq, SenderInKey]
  split
  · exact Iff.rfl
  · unfold ownerSegment
    split
    · exact firstSegment_eq_self_iff
    · exact Iff.rfl

/-! ## Who decides -/

/-- The action asks for a decision on a pending approval. -/
def CardAction.Names (action : CardAction) (key : String × String) : Prop :=
  ∃ value, action.value = some value ∧
    ((value.get? "type").getD .null).isText "pyclaw_tool_approval" = true ∧
    (cardField value "conv_id" "").isText key.1 = true ∧
    (cardField value "tool_call_id" "").isText key.2 = true

/-- The payload's own originator turns the operator away. -/
def CardAction.TurnedAway (nonzero : String → Bool) (action : CardAction) : Prop :=
  ∃ value, action.value = some value ∧ action.operatorOpenId ≠ "" ∧
    (cardField value "originator_open_id" "").truthy nonzero = true ∧
    (cardField value "originator_open_id" "").isText action.operatorOpenId = false

/-- `_record_decision` is called for the pending approval. -/
def CardAction.Records (nonzero : String → Bool) (action : CardAction) (key : String × String) :
    Prop :=
  ∃ r, (route nonzero action).2 = some r ∧ r.convId.isText key.1 = true ∧
    r.toolCallId.isText key.2 = true

section
variable {nonzero : String → Bool} {registry : FeishuApprovalRegistry} {action : CardAction}
  {key : String × String}

theorem eq_str_of_isText {j : Json} {s : String} (h : j.isText s = true) : j = .str s := by
  cases j with
  | str t =>
    have ht : t = s := of_decide_eq_true h
    rw [ht]
  | _ => cases h

theorem records_iff : action.Records nonzero key ↔ action.Names key ∧ ¬ action.TurnedAway nonzero := by
  unfold CardAction.Records CardAction.Names CardAction.TurnedAway route
  cases action.value with
  | none => simp
  | some value =>
    cases htype : ((value.get? "type").getD .null).isText "pyclaw_tool_approval" with
    | false => simp [htype]
    | true =>
      by_cases haway : action.operatorOpenId ≠ "" ∧
          (cardField value "originator_open_id" "").truthy nonzero = true ∧
          (cardField value "originator_open_id" "").isText action.operatorOpenId = false
      · simp [htype, haway]
      · simp only [htype, Bool.not_true, Bool.false_eq_true, if_false, if_neg haway]
        constructor
        · rintro ⟨r, hr, hconv, hcall⟩
          cases hr
          refine ⟨⟨value, rfl, htype, hconv, hcall⟩, ?_⟩
          rintro ⟨_, hvalue, h⟩
          cases hvalue
          exact haway h
        · rintro ⟨⟨_, hvalue, -, hconv, hcall⟩, -⟩
          cases hvalue
          exact ⟨_, rfl, hconv, hcall⟩

/-- What a click leaves of a pending approval. -/
theorem click_records {p : FeishuPendingDecision} (hp : registry.pending key = some p)
    (h : action.Records nonzero key) : ∃ approved, (registry.click nonzero action).pending key =
      some { p with
        approved := some approved, operatorOpenId := some action.operatorOpenId, event := true } := by
  obtain ⟨r, hr, hconv, hcall⟩ := h
  have hoperator : r.operatorOpenId = action.operatorOpenId := by
    unfold route at hr
    split at hr
    · cases hr
    · split at hr
      · cases hr
      · dsimp only at hr
        split at hr
        · cases hr
        · cases hr
          rfl
  refine ⟨r.approved, ?_⟩
  rw [FeishuApprovalRegistry.click, hr]
  simp only [FeishuApprovalRegistry.record, eq_str_of_isText hconv, eq_str_of_isText hcall,
    FeishuApprovalRegistry.setDecision, hp, Function.update_self, hoperator]

/-- A decision is recorded for pending approvals of the operator's own only, exactly if the operator
of an action that names one is known, and is its originator or turned away by the payload; and the
hook finds the sender exactly if the session key carries him in its third part. -/
theorem originatorOnly_iff (nonzero : String → Bool) (registry : FeishuApprovalRegistry)
    (action : CardAction) (appId : String) (event : FeishuEvent) (scope : String)
    (suffix : Option String) :
    ((∀ key p, registry.pending key = some p → action.Records nonzero key →
          action.operatorOpenId ≠ "" ∧ action.operatorOpenId = p.originatorOpenId) ↔
        ∀ key p, registry.pending key = some p → action.Names key → action.operatorOpenId ≠ "" ∧
          (action.operatorOpenId = p.originatorOpenId ∨ action.TurnedAway nonzero)) ∧
      (resolveOriginator (routedSessionId (buildSessionKey appId event scope) suffix) = event.openId ↔
        SenderInKey appId event) := by
  refine ⟨⟨?_, ?_⟩, resolveOriginator_iff appId event scope suffix⟩
  · intro h key p hp hnames
    by_cases haway : action.TurnedAway nonzero
    · obtain ⟨_, -, hoperator, -⟩ := id haway
      exact ⟨hoperator, .inr haway⟩
    · obtain ⟨hoperator, horiginator⟩ := h key p hp (records_iff.mpr ⟨hnames, haway⟩)
      exact ⟨hoperator, .inl horiginator⟩
  · intro h key p hp hrecords
    obtain ⟨hnames, haway⟩ := records_iff.mp hrecords
    obtain ⟨hoperator, horiginator⟩ := h key p hp hnames
    exact ⟨hoperator, horiginator.resolve_right haway⟩

end

/-! ## A stranger, and a group -/

/-- Bob's click, with a payload that names no originator. -/
def strangerClick : CardAction where
  operatorOpenId := "ou_bob"
  value := some (((Dict.empty.set "type" (.str "pyclaw_tool_approval")).set "conv_id" (.str "feishu:app:ou_alice")).set
    "tool_call_id" (.str "call_1") |>.set "decision" (.str "approve"))

def groupEvent : FeishuEvent where
  chatType := "group"
  chatId := "oc_group"
  openId := "ou_alice"
  threadId := ""

theorem stranger_decides :
    ((({} : FeishuApprovalRegistry).createPending "feishu:app:ou_alice" "call_1" "ou_alice").click
        (fun _ => true) strangerClick).pending ("feishu:app:ou_alice", "call_1") =
      some { event := true, approved := some true, originatorOpenId := "ou_alice",
             operatorOpenId := some "ou_bob" } ∧
    resolveOriginator (routedSessionId (buildSessionKey "app" groupEvent "user") none) = "oc_group" ∧
    resolveOriginator (routedSessionId (buildSessionKey "app" groupEvent "chat") none) = "oc_group" := by
  decide +kernel

end PyClaw
