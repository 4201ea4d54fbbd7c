import PyClaw.Channels.WebServer
import PyClaw.Lib.Machine

/-!
# Channels.WebApproval

`WebToolApprovalHook.before_tool_execution`: all requests are shown at once, and the hook waits for
one call after the other. `approvals_faithful_iff`: when its decisions are the user's first answers.
-/

namespace PyClaw

/-- The wait for one call: the `tool.approve` messages that are handled while it lasts, and whether it ends
with its timeout. It does if no message sets the event, and it may if one does: `wait_for` raises
`TimeoutError` when its timer fires before the hook has woken up. -/
structure ApprovalWait where
  toolCallId : String
  arrives : List ToolApproveMessage
  timedOut : Bool := false

/-- The messages handled after the first request was sent and before the hook begins, and the waits
of the hook. -/
structure ApprovalTimeline where
  before : List ToolApproveMessage
  waits : List ApprovalWait

namespace SessionQueue

def handleToolApproves (q : SessionQueue) (msgs : List ToolApproveMessage) : SessionQueue :=
  msgs.foldl handleToolApprove q

section
variable (nonzero : String → Bool) (sessionId : String)

def waitForUserDecision (q : SessionQueue) (w : ApprovalWait) : ApprovalDecision × SessionQueue :=
  let pending := q.created
  let q := (q.createPending sessionId w.toolCallId).handleToolApproves w.arrives
  (if w.timedOut then .deny else WebServer.outcome nonzero (q.decisions pending),
    q.discardPending sessionId w.toolCallId)

def webDecisions : SessionQueue → List ApprovalWait → List ApprovalDecision
  | _, [] => []
  | q, w :: waits =>
    let (decision, q) := q.waitForUserDecision nonzero sessionId w
    decision :: webDecisions q waits

/-- `before_tool_execution`, started on `q` when the requests are sent. -/
def webBeforeToolExecution (q : SessionQueue) (t : ApprovalTimeline) : List ApprovalDecision :=
  webDecisions nonzero sessionId (q.handleToolApproves t.before) t.waits

end

/-! ## The table of pending decisions -/

/-- A key of the table refers to a decision that was created. -/
def Referenced (q : SessionQueue) : Prop := ∀ key i, q.approvalPending key = some i → i < q.created

section
variable {q : SessionQueue} {key : String} {i : Nat}

theorem referenced_empty : Referenced {} := by
  intro key i h
  cases h

theorem handleToolApprove_pending (q : SessionQueue) (msg : ToolApproveMessage) :
    (q.handleToolApprove msg).approvalPending = q.approvalPending := by
  simp only [handleToolApprove, setApprovalDecision]
  split
  · rfl
  · rfl

theorem handleToolApprove_created (q : SessionQueue) (msg : ToolApproveMessage) :
    (q.handleToolApprove msg).created = q.created := by
  simp only [handleToolApprove, setApprovalDecision]
  split
  · rfl
  · rfl

theorem Referenced.handleToolApproves (h : q.Referenced) (msgs : List ToolApproveMessage) :
    (q.handleToolApproves msgs).Referenced := by
  induction msgs generalizing q with
  | nil => exact h
  | cons msg msgs ih =>
    refine ih ?_
    intro key i hi
    rw [handleToolApprove_pending] at hi
    rw [handleToolApprove_created]
    exact h key i hi

theorem Referenced.createPending (h : q.Referenced) (sessionId toolCallId : String) :
    (q.createPending sessionId toolCallId).Referenced := by
  intro key i hi
  simp only [SessionQueue.createPending, Function.update_apply] at hi ⊢
  split at hi
  · cases hi
    omega
  · have := h key i hi
    omega

theorem Referenced.discardPending (h : q.Referenced) (sessionId toolCallId : String) :
    (q.discardPending sessionId toolCallId).Referenced := by
  intro key i hi
  simp only [SessionQueue.discardPending, Function.update_apply] at hi ⊢
  split at hi
  · cases hi
  · exact h key i hi

/-! ## One wait -/

/-- The values of the messages under a key. -/
def hits (key : String) (msgs : List ToolApproveMessage) : List Json :=
  (msgs.filter fun m => approvalKey m.conversationId m.toolCallId = key).map ToolApproveMessage.value

/-- The last message under the key decides. -/
theorem handleToolApproves_decision (hown : q.approvalPending key = some i)
    (hother : ∀ key', key' ≠ key → q.approvalPending key' ≠ some i) (msgs : List ToolApproveMessage) :
    (q.handleToolApproves msgs).decisions i =
      match (hits key msgs).getLast? with
      | some v => { event := true, approved := some v }
      | none => q.decisions i := by
  induction msgs generalizing q with
  | nil => rfl
  | cons msg msgs ih =>
    have hrest := @ih (q.handleToolApprove msg) (by rw [handleToolApprove_pending]; exact hown)
      (by rw [handleToolApprove_pending]; exact hother)
    rw [handleToolApproves, List.foldl_cons, ← handleToolApproves, hrest]
    by_cases hkey : approvalKey msg.conversationId msg.toolCallId = key
    · have hset : (q.handleToolApprove msg).decisions i =
          { event := true, approved := some msg.value } := by
        simp [handleToolApprove, setApprovalDecision, hkey, hown]
      have hhits : hits key (msg :: msgs) = msg.value :: hits key msgs := by simp [hits, hkey]
      rw [hset, hhits, List.getLast?_cons]
      cases (hits key msgs).getLast? with
      | none => rfl
      | some v => rfl
    · have hkeep : (q.handleToolApprove msg).decisions i = q.decisions i := by
        simp only [handleToolApprove, setApprovalDecision]
        split
        · rename_i j hj
          have hne : i ≠ j := by
            rintro rfl
            exact hother _ hkey hj
          exact Function.update_of_ne hne _ _
        · rfl
      have hhits : hits key (msg :: msgs) = hits key msgs := by simp [hits, hkey]
      rw [hkeep, hhits]

variable {nonzero : String → Bool} {sessionId : String}

/-- The last message that hits the call's key while the hook waits for it says yes, and wakes it up. -/
def lastHitApproves (nonzero : String → Bool) (sessionId : String) (w : ApprovalWait) : Bool :=
  match (hits (approvalKey sessionId w.toolCallId) w.arrives).getLast? with
  | some v => !w.timedOut && v.truthy nonzero
  | none => false

theorem waitForUserDecision_decision (h : q.Referenced) (w : ApprovalWait) :
    (q.waitForUserDecision nonzero sessionId w).1 =
      if lastHitApproves nonzero sessionId w then .approve else .deny := by
  have hown : (q.createPending sessionId w.toolCallId).approvalPending
      (approvalKey sessionId w.toolCallId) = some q.created := Function.update_self _ _ _
  have hother : ∀ key, key ≠ approvalKey sessionId w.toolCallId →
      (q.createPending sessionId w.toolCallId).approvalPending key ≠ some q.created := by
    intro key hkey hi
    have hold : q.approvalPending key = some q.created :=
      (Function.update_of_ne hkey _ _).symm.trans hi
    have := h key _ hold
    omega
  have hnew : (q.createPending sessionId w.toolCallId).decisions q.created = {} :=
    Function.update_self _ _ _
  rw [waitForUserDecision]
  dsimp only
  rw [handleToolApproves_decision hown hother, lastHitApproves, hnew]
  cases (hits (approvalKey sessionId w.toolCallId) w.arrives).getLast? with
  | none => exact ite_self _
  | some v => cases w.timedOut <;> simp [WebServer.outcome, PendingDecision.isApproved]

theorem waitForUserDecision_referenced (h : q.Referenced) (w : ApprovalWait) :
    (q.waitForUserDecision nonzero sessionId w).2.Referenced :=
  ((h.createPending sessionId w.toolCallId).handleToolApproves w.arrives).discardPending _ _

theorem webDecisions_eq (h : q.Referenced) (waits : List ApprovalWait) :
    webDecisions nonzero sessionId q waits =
      waits.map fun w => if lastHitApproves nonzero sessionId w then .approve else .deny := by
  induction waits generalizing q with
  | nil => rfl
  | cons w waits ih =>
    rw [webDecisions, List.map_cons, ← waitForUserDecision_decision h w,
      ← ih (waitForUserDecision_referenced h w)]

theorem webBeforeToolExecution_eq (h : q.Referenced) (t : ApprovalTimeline) :
    webBeforeToolExecution nonzero sessionId q t =
      t.waits.map fun w => if lastHitApproves nonzero sessionId w then .approve else .deny :=
  webDecisions_eq (h.handleToolApproves t.before) t.waits

end

end SessionQueue

/-! ## The server keeps its table -/

theorem WebServer.step_referenced {py : PyText} {nonzero : String → Bool} {w : WebServer}
    (h : w.queue.Referenced) (a : WebStep) : (w.step py nonzero a).queue.Referenced := by
  cases a with
  | abort user conv => exact h
  | approve user msg => exact h.handleToolApproves [msg]
  | stop user conv =>
    simp only [WebServer.step, SessionQueue.handleStopCommand]
    split
    · exact h
    · exact h
  | inject user conv kind args =>
    simp only [WebServer.step, SessionQueue.handleInjection]
    split
    · exact h
    · exact h
  | takes user conv =>
    simp only [WebServer.step]
    split
    · exact h
    · exact h
  | activates conv => exact h
  | starts conv => exact h
  | polls conv =>
    simp only [WebServer.step]
    split
    · exact h
    · exact h
  | drains conv =>
    simp only [WebServer.step]
    split
    · split
      · exact h
      · exact h
    · exact h
  | asks conv call =>
    simp only [WebServer.step]
    split
    · split
      · exact h.createPending _ _
      · exact h
    · exact h
  | concludes i =>
    simp only [WebServer.step]
    split
    · exact h.discardPending _ _
    · exact h
  | finishes conv => exact h
  | exits conv =>
    simp only [WebServer.step]
    split
    · exact h
    · exact h

theorem WebServer.run_referenced {py : PyText} {nonzero : String → Bool} {w : WebServer}
    (h : w.queue.Referenced) (steps : List WebStep) :
    (runFrom (WebServer.step py nonzero) w steps).queue.Referenced :=
  @runFrom_invariant _ _ _ (fun w => w.queue.Referenced) w steps (fun _ a h => step_referenced h a) h

/-! ## The law -/

/-- The message is an answer for the call: its conversation id, in either form, stands for the
session. -/
def ToolApproveMessage.Answers (userId sessionId toolCallId : String) (m : ToolApproveMessage) :
    Prop :=
  webSessionId userId m.conversationId = some sessionId ∧ m.toolCallId = toolCallId

instance (userId sessionId toolCallId : String) (m : ToolApproveMessage) :
    Decidable (m.Answers userId sessionId toolCallId) := inferInstanceAs (Decidable (_ ∧ _))

def isTrue : Option Json → Bool
  | some (.bool b) => b
  | _ => false

/-- The first answer for the `k`th call before its wait ends has `approved` equal to `true`. -/
def firstAnswerTrue (userId sessionId : String) (t : ApprovalTimeline) (k : Nat)
    (toolCallId : String) :
    Bool :=
  ((t.before ++ (t.waits.take (k + 1)).flatMap ApprovalWait.arrives).find?
    fun m => m.Answers userId sessionId toolCallId).any fun m => isTrue m.approved

/-- The messages around the wait for the `k`th call. -/
structure ApprovalTimeline.Clean (nonzero : String → Bool) (userId sessionId : String)
    (t : ApprovalTimeline) (k : Nat) (w : ApprovalWait) : Prop where
  /-- A first answer `true` is heard, and not taken back. -/
  heard : firstAnswerTrue userId sessionId t k w.toolCallId = true → w.timedOut = false ∧
    ∃ v, (SessionQueue.hits (approvalKey sessionId w.toolCallId) w.arrives).getLast? = some v ∧
      v.truthy nonzero = true
  /-- Nothing else is heard as a yes. -/
  sole : w.timedOut = false →
    ∀ v, (SessionQueue.hits (approvalKey sessionId w.toolCallId) w.arrives).getLast? = some v →
      v.truthy nonzero = true → firstAnswerTrue userId sessionId t k w.toolCallId = true

section
variable {py : PyText} {nonzero : String → Bool}

/-- The decisions of a hook that runs in a server after `steps`. -/
def hookDecisions (py : PyText) (nonzero : String → Bool) (steps : List WebStep) (sessionId : String)
    (t : ApprovalTimeline) : List ApprovalDecision :=
  (runFrom (WebServer.step py nonzero) {} steps).queue.webBeforeToolExecution nonzero sessionId t

theorem hookDecisions_approve {steps : List WebStep} {sessionId : String} {t : ApprovalTimeline}
    {k : Nat} {w : ApprovalWait} (hw : t.waits[k]? = some w) :
    (hookDecisions py nonzero steps sessionId t)[k]? = some .approve ↔ w.timedOut = false ∧
      ∃ v, (SessionQueue.hits (approvalKey sessionId w.toolCallId) w.arrives).getLast? = some v ∧
        v.truthy nonzero = true := by
  have hreferenced := @WebServer.run_referenced py nonzero {} SessionQueue.referenced_empty steps
  rw [hookDecisions, SessionQueue.webBeforeToolExecution_eq hreferenced, List.getElem?_map, hw,
    Option.map_some, SessionQueue.lastHitApproves]
  cases (SessionQueue.hits (approvalKey sessionId w.toolCallId) w.arrives).getLast? with
  | none => simp
  | some v => simp

/-- Each call is approved if and only if the user's first answer for it is `true`, exactly if the
messages around each wait are clean. -/
theorem approvals_faithful_iff (steps : List WebStep) (userId sessionId : String)
    (t : ApprovalTimeline) :
    (∀ k w, t.waits[k]? = some w → ((hookDecisions py nonzero steps sessionId t)[k]? = some .approve ↔
        firstAnswerTrue userId sessionId t k w.toolCallId = true)) ↔
      ∀ k w, t.waits[k]? = some w → t.Clean nonzero userId sessionId k w := by
  constructor
  · intro h k w hw
    constructor
    · intro hfirst
      exact (hookDecisions_approve hw).mp ((h k w hw).mpr hfirst)
    · intro hwoken v hv htruthy
      exact (h k w hw).mp ((hookDecisions_approve hw).mpr ⟨hwoken, v, hv, htruthy⟩)
  · intro h k w hw
    rw [hookDecisions_approve hw]
    constructor
    · rintro ⟨hwoken, v, hv, htruthy⟩
      exact (h k w hw).sole hwoken v hv htruthy
    · exact (h k w hw).heard

end

/-! ## Answers that go wrong -/

/-- Alice's answers `true` for two calls of one batch: the one for the second comes while the hook
waits for the first. -/
def answersAtOnce : ApprovalTimeline where
  before := []
  waits :=
    [{ toolCallId := "call_1"
       arrives :=
        [{ conversationId := "web:alice:c", toolCallId := "call_2", approved := some (.bool true) },
          { conversationId := "web:alice:c", toolCallId := "call_1", approved := some (.bool true) }] },
      { toolCallId := "call_2", arrives := [] }]

/-- The client names the conversation as it did in `chat.send`. -/
def bareAnswer : ApprovalTimeline where
  before := []
  waits :=
    [{ toolCallId := "call_1"
       arrives := [{ conversationId := "c", toolCallId := "call_1", approved := some (.bool true) }] }]

/-- `"false"` is a string that is true. -/
def textAnswer : ApprovalTimeline where
  before := []
  waits :=
    [{ toolCallId := "call_1"
       arrives := [
         { conversationId := "web:alice:c", toolCallId := "call_1", approved := some (.str "false") }] }]

theorem approvals_unfaithful :
    (hookDecisions .ascii (fun _ => true) [] "web:alice:c" answersAtOnce = [.approve, .deny] ∧
        firstAnswerTrue "alice" "web:alice:c" answersAtOnce 1 "call_2" = true) ∧
      (hookDecisions .ascii (fun _ => true) [] "web:alice:c" bareAnswer = [.deny] ∧
        firstAnswerTrue "alice" "web:alice:c" bareAnswer 0 "call_1" = true) ∧
      (hookDecisions .ascii (fun _ => true) [] "web:alice:c" textAnswer = [.approve] ∧
        firstAnswerTrue "alice" "web:alice:c" textAnswer 0 "call_1" = false) := by
  decide +kernel

end PyClaw
