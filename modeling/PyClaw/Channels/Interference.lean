import PyClaw.Channels.WebServer
import PyClaw.Lib.Unwinding

/-!
# Channels.Interference

Whether the control messages of one web user can influence the runs of another. The messages act on
whatever conversation and call they name; they do no harm while they name nothing that a run of the
other user reads (`noninterference`).
-/

namespace PyClaw

namespace WebServer

section
variable (py : PyText) (nonzero : String → Bool)

/-- The step, if it is a control message, acts on nothing that a run of `userId` will read. -/
def Spares (userId : String) (w : WebServer) : WebStep → Prop
  | .abort _ conv => w.serving conv = some userId → (w.queue.runControls conv).abort = true
  | .stop _ conv => w.serving conv = some userId → (w.queue.runControls conv).isActive = false
  | .inject _ conv _ args => w.serving conv = some userId → w.started conv = true →
      SessionQueue.injected py (w.queue.runControls conv) args = none
  | .approve _ msg => ∀ i asked,
      w.queue.approvalPending (approvalKey msg.conversationId msg.toolCallId) = some i →
      w.waiting i = some asked → asked.userId ≠ userId
  | _ => True

/-- What the runs of `userId` can read of the two servers is the same. -/
structure Same (userId : String) (w w' : WebServer) : Prop where
  serving : w.serving = w'.serving
  started : w.started = w'.started
  waiting : w.waiting = w'.waiting
  active : ∀ conv, (w.queue.runControls conv).active = (w'.queue.runControls conv).active
  pending : w.queue.approvalPending = w'.queue.approvalPending
  created : w.queue.created = w'.queue.created
  abort : ∀ conv, w.serving conv = some userId →
    (w.queue.runControls conv).abort = (w'.queue.runControls conv).abort
  steers : ∀ conv, w.serving conv = some userId → w.started conv = true →
    (w.queue.runControls conv).pendingSteers = (w'.queue.runControls conv).pendingSteers
  decisions : ∀ i asked, w.waiting i = some asked → asked.userId = userId →
    w.queue.decisions i = w'.queue.decisions i
  seen : w.seen.filter (fun o => o.1 = userId) = w'.seen.filter fun o => o.1 = userId

end

section
variable {userId : String} {w w' : WebServer}

theorem Same.refl (userId : String) (w : WebServer) : Same userId w w where
  serving := rfl
  started := rfl
  waiting := rfl
  active _ := rfl
  pending := rfl
  created := rfl
  abort _ _ := rfl
  steers _ _ _ := rfl
  decisions _ _ _ _ := rfl
  seen := rfl

/-! ## Run controls -/

/-- A step that changes one run control. -/
def onRunControl (w : WebServer) (conv : String) (f : RunControl → RunControl) : WebServer :=
  { w with queue := w.queue.setRunControl conv (f (w.queue.runControls conv)) }

theorem onRunControl_self (w : WebServer) (conv : String) (f : RunControl → RunControl) :
    ((w.onRunControl conv f).queue.runControls conv) = f (w.queue.runControls conv) :=
  Function.update_self _ _ _

theorem onRunControl_ne (w : WebServer) {conv conv' : String} (f : RunControl → RunControl)
    (h : conv' ≠ conv) : (w.onRunControl conv f).queue.runControls conv' = w.queue.runControls conv' :=
  Function.update_of_ne h _ _

/-- A change on one side that the user's run does not read. -/
theorem Same.onRunControl_left (h : Same userId w w') {conv : String} {f : RunControl → RunControl}
    (hactive : (f (w.queue.runControls conv)).active = (w.queue.runControls conv).active)
    (habort : w.serving conv = some userId →
      (f (w.queue.runControls conv)).abort = (w.queue.runControls conv).abort)
    (hsteers : w.serving conv = some userId → w.started conv = true →
      (f (w.queue.runControls conv)).pendingSteers = (w.queue.runControls conv).pendingSteers) :
    Same userId (w.onRunControl conv f) w' where
  serving := h.serving
  started := h.started
  waiting := h.waiting
  active conv' := by
    by_cases hconv : conv' = conv
    · subst hconv
      rw [onRunControl_self, hactive, h.active]
    · rw [onRunControl_ne w f hconv, h.active]
  pending := h.pending
  created := h.created
  abort conv' hserving := by
    by_cases hconv : conv' = conv
    · subst hconv
      rw [onRunControl_self, habort hserving, h.abort _ hserving]
    · rw [onRunControl_ne w f hconv, h.abort _ hserving]
  steers conv' hserving hstarted := by
    by_cases hconv : conv' = conv
    · subst hconv
      rw [onRunControl_self, hsteers hserving hstarted, h.steers _ hserving hstarted]
    · rw [onRunControl_ne w f hconv, h.steers _ hserving hstarted]
  decisions := h.decisions
  seen := h.seen

/-- A change of run controls that depends on nothing else. -/
structure Uniform (f : RunControl → RunControl) : Prop where
  active : ∀ rc rc', rc.active = rc'.active → (f rc).active = (f rc').active
  abort : ∀ rc rc', rc.active = rc'.active → rc.abort = rc'.abort → (f rc).abort = (f rc').abort
  steers : ∀ rc rc', rc.active = rc'.active → rc.abort = rc'.abort →
    rc.pendingSteers = rc'.pendingSteers → (f rc).pendingSteers = (f rc').pendingSteers

theorem Same.onRunControl (h : Same userId w w') (conv : String) {f : RunControl → RunControl}
    (hf : Uniform f) : Same userId (w.onRunControl conv f) (w'.onRunControl conv f) where
  serving := h.serving
  started := h.started
  waiting := h.waiting
  active conv' := by
    by_cases hconv : conv' = conv
    · subst hconv
      rw [onRunControl_self, onRunControl_self]
      exact hf.active _ _ (h.active _)
    · rw [onRunControl_ne w f hconv, onRunControl_ne w' f hconv, h.active]
  pending := h.pending
  created := h.created
  abort conv' hserving := by
    by_cases hconv : conv' = conv
    · subst hconv
      rw [onRunControl_self, onRunControl_self]
      exact hf.abort _ _ (h.active _) (h.abort _ hserving)
    · rw [onRunControl_ne w f hconv, onRunControl_ne w' f hconv, h.abort _ hserving]
  steers conv' hserving hstarted := by
    by_cases hconv : conv' = conv
    · subst hconv
      rw [onRunControl_self, onRunControl_self]
      exact hf.steers _ _ (h.active _) (h.abort _ hserving) (h.steers _ hserving hstarted)
    · rw [onRunControl_ne w f hconv, onRunControl_ne w' f hconv, h.steers _ hserving hstarted]
  decisions := h.decisions
  seen := h.seen

/-! ## The handlers as changes of a run control -/

def stopped (rc : RunControl) : RunControl :=
  if rc.isActive then { rc with chatDoneHandledExternally := true }.stop else rc

def steered (py : PyText) (kind : SteerKind) (args : String) (rc : RunControl) : RunControl :=
  match SessionQueue.injected py rc args with
  | some (steers, payload) => { rc with pendingSteers := steers ++ [{ kind, text := payload }] }
  | none => rc

theorem setRunControl_self (q : SessionQueue) (conv : String) :
    q.setRunControl conv (q.runControls conv) = q := by
  unfold SessionQueue.setRunControl
  rw [Function.update_eq_self]

variable {py : PyText} {nonzero : String → Bool}

theorem step_stop (w : WebServer) (user conv : String) :
    w.step py nonzero (.stop user conv) = w.onRunControl conv stopped := by
  simp only [step, onRunControl, SessionQueue.handleStopCommand, stopped]
  split
  · rfl
  · rw [setRunControl_self]

theorem step_inject (w : WebServer) (user conv : String) (kind : SteerKind) (args : String) :
    w.step py nonzero (.inject user conv kind args) = w.onRunControl conv (steered py kind args) := by
  cases hinjected : SessionQueue.injected py (w.queue.runControls conv) args with
  | none =>
    simp only [step, onRunControl, SessionQueue.handleInjection, steered, hinjected,
      setRunControl_self]
  | some p => simp only [step, onRunControl, SessionQueue.handleInjection, steered, hinjected]

@[simp] theorem stopped_active (rc : RunControl) : (stopped rc).active = rc.active := by
  unfold stopped
  split
  · rfl
  · rfl

@[simp] theorem steered_active (kind : SteerKind) (args : String) (rc : RunControl) :
    (steered py kind args rc).active = rc.active := by
  unfold steered
  split
  · rfl
  · rfl

@[simp] theorem steered_abort (kind : SteerKind) (args : String) (rc : RunControl) :
    (steered py kind args rc).abort = rc.abort := by
  unfold steered
  split
  · rfl
  · rfl

theorem stopped_abort (rc : RunControl) : (stopped rc).abort = (rc.isActive || rc.abort) := by
  unfold stopped
  cases hidle : rc.isActive with
  | true => rfl
  | false => rfl

theorem stopped_steers (rc : RunControl) :
    (stopped rc).pendingSteers = if rc.isActive then [] else rc.pendingSteers := by
  unfold stopped
  cases hidle : rc.isActive with
  | true => rfl
  | false => rfl

theorem isActive_congr {rc rc' : RunControl} (hactive : rc.active = rc'.active)
    (habort : rc.abort = rc'.abort) : rc.isActive = rc'.isActive := by
  rw [RunControl.isActive, RunControl.isActive, hactive, habort]

theorem uniform_stopped : Uniform stopped where
  active rc rc' h := by simp [h]
  abort rc rc' hactive habort := by
    rw [stopped_abort, stopped_abort, isActive_congr hactive habort, habort]
  steers rc rc' hactive habort hsteers := by
    rw [stopped_steers, stopped_steers, isActive_congr hactive habort, hsteers]

theorem uniform_steered (kind : SteerKind) (args : String) : Uniform (steered py kind args) where
  active rc rc' h := by simp [h]
  abort rc rc' _ habort := by simp [habort]
  steers rc rc' hactive habort hsteers := by
    have hinjected : SessionQueue.injected py rc args = SessionQueue.injected py rc' args := by
      simp only [SessionQueue.injected, isActive_congr hactive habort, hsteers]
    rw [steered, steered, hinjected]
    cases SessionQueue.injected py rc' args with
    | none => exact hsteers
    | some p => rfl

theorem uniform_abort (b : Bool) : Uniform fun rc => { rc with abort := b } where
  active _ _ h := h
  abort _ _ _ _ := rfl
  steers _ _ _ _ h := h

theorem uniform_active (b : Bool) : Uniform fun rc => { rc with active := b } where
  active _ _ _ := rfl
  abort _ _ _ h := h
  steers _ _ _ _ h := h

theorem uniform_clear : Uniform fun rc => { rc with pendingSteers := [] } where
  active _ _ h := h
  abort _ _ _ h := h
  steers _ _ _ _ _ := rfl

theorem uniform_fresh : Uniform fun _ => {} where
  active _ _ _ := rfl
  abort _ _ _ _ := rfl
  steers _ _ _ _ _ := rfl

/-! ## Observations and approvals -/

theorem Same.see (h : Same userId w w') {user : String} {o o' : Observation}
    (ho : user = userId → o = o') : Same userId (w.see user o) (w'.see user o') where
  serving := h.serving
  started := h.started
  waiting := h.waiting
  active := h.active
  pending := h.pending
  created := h.created
  abort := h.abort
  steers := h.steers
  decisions := h.decisions
  seen := by
    simp only [WebServer.see, List.filter_append, h.seen]
    by_cases huser : user = userId
    · rw [ho huser]
    · simp [huser]

theorem Same.approve_left (h : Same userId w w') {msg : ToolApproveMessage}
    (hspares : ∀ i asked,
      w.queue.approvalPending (approvalKey msg.conversationId msg.toolCallId) = some i →
      w.waiting i = some asked → asked.userId ≠ userId) (user : String) :
    Same userId (w.step py nonzero (.approve user msg)) w' := by
  simp only [step, SessionQueue.handleToolApprove, SessionQueue.setApprovalDecision]
  split
  · rename_i i hi
    refine { h with decisions := ?_ }
    intro j asked hj huser
    have hne : j ≠ i := by
      rintro rfl
      exact hspares j asked hi hj huser
    exact (Function.update_of_ne hne _ _).trans (h.decisions j asked hj huser)
  · exact { h with }

theorem Same.approve (h : Same userId w w') (user : String) (msg : ToolApproveMessage) :
    Same userId (w.step py nonzero (.approve user msg)) (w'.step py nonzero (.approve user msg)) := by
  have hpending := congrFun h.pending (approvalKey msg.conversationId msg.toolCallId)
  cases hi : w.queue.approvalPending (approvalKey msg.conversationId msg.toolCallId) with
  | none =>
    simp only [step, SessionQueue.handleToolApprove, SessionQueue.setApprovalDecision, hi, ← hpending]
    exact { h with }
  | some i =>
    simp only [step, SessionQueue.handleToolApprove, SessionQueue.setApprovalDecision, hi, ← hpending]
    refine { h with decisions := ?_ }
    intro j asked hj huser
    by_cases hji : j = i
    · subst hji
      simp only [Function.update_self]
    · simp only [Function.update_of_ne hji]
      exact h.decisions j asked hj huser

/-! ## Steps of both servers -/

theorem Same.hidden (h : Same userId w w') {a : WebStep} (ha : a.controlBy.isSome = true)
    (hspares : Spares py userId w a) : Same userId (w.step py nonzero a) w' := by
  cases a with
  | abort user conv =>
    exact @Same.onRunControl_left userId w w' h conv (fun rc => { rc with abort := true }) rfl
      (fun hs => (hspares hs).symm) fun _ _ => rfl
  | stop user conv =>
    rw [step_stop]
    have hidle : w.serving conv = some userId →
        stopped (w.queue.runControls conv) = w.queue.runControls conv := by
      intro hs
      rw [stopped, hspares hs]
      rfl
    exact h.onRunControl_left (stopped_active _) (fun hs => by rw [hidle hs])
      fun hs _ => by rw [hidle hs]
  | inject user conv kind args =>
    rw [step_inject]
    refine h.onRunControl_left (steered_active kind args _) (fun _ => steered_abort kind args _) ?_
    intro hs hstarted
    rw [steered, hspares hs hstarted]
  | approve user msg => exact h.approve_left hspares user
  | takes user conv => cases ha
  | activates conv => cases ha
  | starts conv => cases ha
  | polls conv => cases ha
  | drains conv => cases ha
  | asks conv call => cases ha
  | concludes i => cases ha
  | finishes conv => cases ha
  | exits conv => cases ha

theorem update_congr {β : Type} {f g : String → β} (h : f = g) (k : String) (v : β) :
    Function.update f k v = Function.update g k v := by
  rw [h]

/-- A conversation that `userId`'s message is taken from: its abort event is clear, and no steers
count until the run starts. -/
theorem Same.takes (h : Same userId w w') (user conv : String) :
    Same userId (w.step py nonzero (.takes user conv)) (w'.step py nonzero (.takes user conv)) := by
  have hserving := congrFun h.serving conv
  cases hs : w.serving conv with
  | some other =>
    simp only [WebServer.step, hs, ← hserving]
    exact h
  | none =>
    simp only [WebServer.step, hs, ← hserving]
    have hreset := h.onRunControl conv (uniform_abort false)
    refine
      { hreset with
        serving := update_congr h.serving conv (some user)
        started := update_congr h.started conv false
        abort := ?_
        steers := ?_ }
    · intro conv' hconv'
      by_cases hconv : conv' = conv
      · subst hconv
        have hleft := onRunControl_self w conv' fun rc => { rc with abort := false }
        have hright := onRunControl_self w' conv' fun rc => { rc with abort := false }
        exact (congrArg RunControl.abort hleft).trans (congrArg RunControl.abort hright).symm
      · exact hreset.abort conv' ((Function.update_of_ne hconv _ _).symm.trans hconv')
    · intro conv' hconv' hstarted
      by_cases hconv : conv' = conv
      · subst hconv
        exact absurd ((Function.update_self _ _ _).symm.trans hstarted) Bool.false_ne_true
      · exact hreset.steers conv' ((Function.update_of_ne hconv _ _).symm.trans hconv')
          ((Function.update_of_ne hconv _ _).symm.trans hstarted)

theorem Same.starts (h : Same userId w w') (conv : String) :
    Same userId (w.step py nonzero (.starts conv)) (w'.step py nonzero (.starts conv)) := by
  have hclear := h.onRunControl conv uniform_clear
  refine { hclear with started := update_congr h.started conv true, steers := ?_ }
  intro conv' hconv' hstarted
  by_cases hconv : conv' = conv
  · subst hconv
    have hleft := onRunControl_self w conv' fun rc => { rc with pendingSteers := [] }
    have hright := onRunControl_self w' conv' fun rc => { rc with pendingSteers := [] }
    exact (congrArg RunControl.pendingSteers hleft).trans
      (congrArg RunControl.pendingSteers hright).symm
  · exact hclear.steers conv' hconv' ((Function.update_of_ne hconv _ _).symm.trans hstarted)

theorem Same.drains (h : Same userId w w') (conv : String) :
    Same userId (w.step py nonzero (.drains conv)) (w'.step py nonzero (.drains conv)) := by
  have hserving := congrFun h.serving conv
  have hstarted := congrFun h.started conv
  cases hs : w.serving conv with
  | none =>
    simp only [WebServer.step, hs, ← hserving]
    exact h
  | some user =>
    cases hb : w.started conv with
    | false =>
      simp only [WebServer.step, hs, ← hserving, hb, ← hstarted]
      exact h
    | true =>
      simp only [WebServer.step, hs, ← hserving, hb, ← hstarted]
      refine (h.onRunControl conv uniform_clear).see fun huser => ?_
      rw [huser] at hs
      rw [h.steers conv hs hb]

theorem Same.finishes (h : Same userId w w') (conv : String) :
    Same userId (w.step py nonzero (.finishes conv)) (w'.step py nonzero (.finishes conv)) := by
  have hdone := h.onRunControl conv (uniform_active false)
  -- what `serving` loses is only constrained less
  have hkept : ∀ {conv'}, Function.update w.serving conv none conv' = some userId →
      w.serving conv' = some userId := by
    intro conv' hconv'
    by_cases hconv : conv' = conv
    · subst hconv
      rw [Function.update_self] at hconv'
      cases hconv'
    · exact (Function.update_of_ne hconv _ _).symm.trans hconv'
  exact
    { hdone with
      serving := update_congr h.serving conv none
      abort := fun conv' hconv' => hdone.abort conv' (hkept hconv')
      steers := fun conv' hconv' => hdone.steers conv' (hkept hconv') }

theorem Same.asks (h : Same userId w w') (conv call : String) :
    Same userId (w.step py nonzero (.asks conv call)) (w'.step py nonzero (.asks conv call)) := by
  have hserving := congrFun h.serving conv
  cases hs : w.serving conv with
  | none =>
    simp only [WebServer.step, hs, ← hserving]
    exact h
  | some user =>
    cases hsid : webSessionId user conv with
    | none =>
      simp only [WebServer.step, hs, ← hserving, hsid]
      exact h
    | some sid =>
      simp only [WebServer.step, hs, ← hserving, hsid, SessionQueue.createPending, ← h.created]
      refine { h with waiting := ?_, pending := ?_, created := rfl, decisions := ?_ }
      · rw [h.waiting]
      · rw [h.pending]
      · intro i asked hi huser
        by_cases hnew : i = w.queue.created
        · subst hnew
          simp only [Function.update_self]
        · simp only [Function.update_of_ne hnew] at hi ⊢
          exact h.decisions i asked hi huser

theorem Same.concludes (h : Same userId w w') (i : Nat) :
    Same userId (w.step py nonzero (.concludes i)) (w'.step py nonzero (.concludes i)) := by
  have hwaiting := congrFun h.waiting i
  cases hi : w.waiting i with
  | none =>
    simp only [WebServer.step, hi, ← hwaiting]
    exact h
  | some asked =>
    simp only [WebServer.step, hi, ← hwaiting]
    refine Same.see ?_ fun huser => by rw [h.decisions i asked hi huser]
    refine { h with waiting := ?_, pending := ?_, decisions := ?_ }
    · rw [h.waiting]
    · simp only [SessionQueue.discardPending, h.pending]
    · intro j other hj huser
      by_cases hji : j = i
      · subst hji
        cases (Function.update_self j none w.waiting).symm.trans hj
      · exact h.decisions j other ((Function.update_of_ne hji _ _).symm.trans hj) huser

theorem Same.step (h : Same userId w w') (a : WebStep) :
    Same userId (w.step py nonzero a) (w'.step py nonzero a) := by
  cases a with
  | abort user conv => exact h.onRunControl conv (uniform_abort true)
  | stop user conv =>
    rw [step_stop, step_stop]
    exact h.onRunControl conv uniform_stopped
  | inject user conv kind args =>
    rw [step_inject, step_inject]
    exact h.onRunControl conv (uniform_steered kind args)
  | approve user msg => exact h.approve user msg
  | takes user conv => exact h.takes user conv
  | activates conv => exact h.onRunControl conv (uniform_active true)
  | starts conv => exact h.starts conv
  | polls conv =>
    have hserving := congrFun h.serving conv
    cases hs : w.serving conv with
    | none =>
      simp only [WebServer.step, hs, ← hserving]
      exact h
    | some user =>
      simp only [WebServer.step, hs, ← hserving]
      refine h.see fun huser => ?_
      rw [huser] at hs
      rw [h.abort conv hs]
  | drains conv => exact h.drains conv
  | asks conv call => exact h.asks conv call
  | concludes i => exact h.concludes i
  | finishes conv => exact h.finishes conv
  | exits conv =>
    have hserving := congrFun h.serving conv
    cases hs : w.serving conv with
    | some user =>
      simp only [WebServer.step, hs, ← hserving]
      exact h
    | none =>
      simp only [WebServer.step, hs, ← hserving]
      exact h.onRunControl conv uniform_fresh

/-! ## The law -/

end

/-! ## Alice and Bob -/

/-- Alice's run in conversation `c` waits for an approval. -/
def aliceAsks : List WebStep :=
  [.takes "alice" "c", .activates "c", .starts "c", .asks "c" "call_1"]

def aliceReads : List WebStep := [.drains "c", .polls "c", .concludes 0]

/-- Bob names Alice's conversation and call. -/
def bobIntrudes : List WebStep :=
  [.inject "bob" "c" .steer "delete it all",
    .approve "bob" { conversationId := "web:alice:c", toolCallId := "call_1", approved := some (.bool true) },
    .abort "bob" "c"]

end WebServer

end PyClaw
