import PyClaw.Channels.FeishuRuns
import PyClaw.Channels.WebRuns

/-!
# Channels.StopScope

Whom a `/stop` stops. On the web every message clears the abort event before its handler begins, so a
run is stopped by its own `/stop` only; on Feishu this holds until a run starts with a run control
that has stopped another run: `stop_scope`.
-/

namespace PyClaw

/-- A `/stop` was sent to the run. -/
def WebRuns.Stopped (s : WebRuns) (n : Nat) : Prop :=
  ∃ m ∈ s.sent, m.run = some n ∧ m.message = WebRuns.stopReply

/-- A run in progress whose abort event is set was sent a `/stop` itself. -/
def WebRuns.StopsOwn (s : WebRuns) : Prop :=
  ∀ conv n, s.phase conv = .running n → (s.control conv).abort = true → s.Stopped n

/-- `chat.abort` sets the event without a `/stop`. -/
def WebRunStep.isAbort : WebRunStep → Bool
  | .abort _ => true
  | _ => false

/-- Whose stop the abort event of a conversation stands for. -/
def RunPhase.Owns (rc : RunControl) (stopped : Nat → Prop) : RunPhase → Prop
  | .idle => rc.active = false
  | .handling => rc.active = false ∧ rc.abort = false
  | .running n | .closing n => rc.abort = true → stopped n

theorem RunPhase.Owns.mono {rc : RunControl} {stopped stopped' : Nat → Prop} {p : RunPhase}
    (h : p.Owns rc stopped) (hle : ∀ n, stopped n → stopped' n) : p.Owns rc stopped' := by
  cases p with
  | idle => exact h
  | handling => exact h
  | running n => exact fun habort => hle n (h habort)
  | closing n => exact fun habort => hle n (h habort)

namespace WebRuns

def Scoped (s : WebRuns) : Prop := ∀ conv, (s.phase conv).Owns (s.control conv) s.Stopped

section
variable {s s' : WebRuns} {conv : String} {n : Nat}

theorem Stopped.send (h : s.Stopped n) (run : Option Nat) (message : TerminalMessage) :
    (s.send conv run message).Stopped n := by
  obtain ⟨m, hm, hrun⟩ := h
  exact ⟨m, List.mem_append_left _ hm, hrun⟩

/-- A step of one conversation that takes no reply back. -/
theorem Scoped.change (h : s.Scoped) (conv : String)
    (hother : ∀ conv' ≠ conv, s'.control conv' = s.control conv' ∧ s'.phase conv' = s.phase conv')
    (hstopped : ∀ n, s.Stopped n → s'.Stopped n)
    (hown : (s'.phase conv).Owns (s'.control conv) s'.Stopped) : s'.Scoped := by
  intro conv'
  by_cases he : conv' = conv
  · exact he ▸ hown
  · obtain ⟨hcontrol, hphase⟩ := hother conv' he
    rw [hcontrol, hphase]
    exact (h conv').mono hstopped

theorem Scoped.set (h : s.Scoped) (rc : RunControl) (p : RunPhase) (hown : p.Owns rc s.Stopped) :
    ((s.setControl conv rc).setPhase conv p).Scoped := by
  refine h.change conv (fun conv' he => ⟨control_setControl_ne he, phase_setPhase_ne p he⟩)
    (fun n hn => hn) ?_
  rw [phase_setPhase_self, control_setPhase, control_setControl_self]
  exact hown

theorem Scoped.setPhase (h : s.Scoped) (p : RunPhase) (hown : p.Owns (s.control conv) s.Stopped) :
    (s.setPhase conv p).Scoped := by
  have hset : ((s.setControl conv (s.control conv)).setPhase conv p).Scoped := h.set _ p hown
  rwa [setControl_same rfl] at hset

theorem Scoped.send (h : s.Scoped) (conv : String) (run : Option Nat) (message : TerminalMessage) :
    (s.send conv run message).Scoped := fun conv' =>
  (h conv').mono fun _ hn => hn.send run message

theorem Scoped.onEvent (h : s.Scoped) (hphase : s.phase conv = .running n) (event : AgentEvent) :
    (s.onEvent conv n event).Scoped := by
  have hown : RunPhase.Owns (s.control conv) s.Stopped (.closing n) := by
    have := h conv
    rwa [hphase] at this
  have hsend : ∀ message, ((s.send conv (some n) message).setPhase conv (.closing n)).Scoped :=
    fun message => (h.send conv _ message).setPhase _ (hown.mono fun _ hm => hm.send _ _)
  cases event with
  | done finalMessage usage => exact hsend _
  | error errorCode message =>
    simp only [WebRuns.onEvent]
    split
    · split
      · exact h.set _ _ hown
      · exact hsend _
    · exact hsend _
  | textChunk text => exact h
  | toolCallStart toolCallId name arguments => exact h
  | toolCallEnd toolCallId result => exact h
  | toolApprovalRequest toolCallId toolName args => exact h

theorem Scoped.stop (h : s.Scoped) (conv : String) : (s.stop conv).Scoped := by
  simp only [WebRuns.stop]
  split
  · rename_i hactive
    have hon : (s.control conv).active = true := (Bool.and_eq_true_iff.mp hactive).1
    rw [handleStopCommand_active hactive]
    refine h.change conv (fun conv' he => ⟨control_setControl_ne he, rfl⟩)
      (fun n hn => Stopped.send (s := s.setControl conv _) hn _ _) ?_
    have hown := h conv
    have hnew : ∀ n, (s.phase conv).run = some n → ((s.setControl conv
        { s.control conv with chatDoneHandledExternally := true }.stop).send conv (s.phase conv).run
          stopReply).Stopped n := fun n hn =>
      ⟨_, List.mem_append_right _ (List.mem_singleton.mpr rfl), hn, rfl⟩
    change (s.phase conv).Owns _ _
    cases hphase : s.phase conv with
    | idle =>
      rw [hphase] at hown
      exact absurd (hown.symm.trans hon) (by decide)
    | handling =>
      rw [hphase] at hown
      exact absurd (hown.1.symm.trans hon) (by decide)
    | running n =>
      rw [hphase] at hnew
      exact fun _ => hnew n rfl
    | closing n =>
      rw [hphase] at hnew
      exact fun _ => hnew n rfl
  · exact h.send conv none _

theorem Scoped.step (h : s.Scoped) {a : WebRunStep} (ha : a.isAbort = false) : (s.step a).Scoped := by
  cases a with
  | takes conv =>
    have hown := h conv
    simp only [WebRuns.step]
    split
    · rename_i hphase
      rw [hphase] at hown
      exact h.set { s.control conv with abort := false } .handling ⟨hown, rfl⟩
    · exact h
  | returns conv =>
    have hown := h conv
    simp only [WebRuns.step]
    split
    · rename_i hphase
      rw [hphase] at hown
      exact h.setPhase .idle hown.1
    · exact h
  | activates conv =>
    have hown := h conv
    simp only [WebRuns.step]
    split
    · rename_i hphase
      rw [hphase] at hown
      have hclear : RunPhase.Owns { s.control conv with active := true } s.Stopped
          (.running s.runs) := fun habort => absurd (hown.2.symm.trans habort) (by decide)
      exact h.set _ _ hclear
    · exact h
  | yields conv event =>
    simp only [WebRuns.step]
    split
    · rename_i n hphase
      exact h.onEvent hphase event
    · exact h
  | raises conv =>
    have hown := h conv
    simp only [WebRuns.step]
    split
    · rename_i n hphase
      rw [hphase] at hown
      have hclosing : RunPhase.Owns (s.control conv) s.Stopped (.closing n) := hown
      exact (h.send conv _ _).setPhase _ (hclosing.mono fun _ hm => hm.send _ _)
    · exact h
  | finishes conv =>
    simp only [WebRuns.step]
    split
    · exact h.set { s.control conv with active := false } .idle rfl
    · exact h
  | stop conv => exact h.stop conv
  | abort conv => cases ha
  | exits conv =>
    simp only [WebRuns.step]
    split
    · rename_i hphase
      have hset : ((s.setControl conv {}).setPhase conv .idle).Scoped := h.set _ _ rfl
      rwa [setPhase_same (s := s.setControl conv {}) hphase] at hset
    · exact h

theorem Scoped.stopsOwn (h : s.Scoped) : s.StopsOwn := by
  intro conv n hphase
  have hown := h conv
  rwa [hphase] at hown

end

end WebRuns

/-- A web run is stopped only by a `/stop` that was sent to it, in every sequence of messages and
stops. A Feishu run is, all along, exactly when no run starts with a run control that has stopped
another run. -/
theorem stop_scope (webSteps : List WebRunStep) (steps : List FeishuRunStep) :
    ((∀ a ∈ webSteps, a.isAbort = false) → (runFrom WebRuns.step {} webSteps).StopsOwn) ∧
      (Along FeishuRuns.step (fun s a => (s.step a).StopsOwn) {} steps ↔
        Along FeishuRuns.step FeishuRuns.Unstopped {} steps) := by
  refine ⟨fun hsteps => ?_, FeishuRuns.stopsOwn_iff steps⟩
  have hstart : WebRuns.Scoped {} := fun _ => rfl
  suffices h : ∀ s : WebRuns, s.Scoped → (runFrom WebRuns.step s webSteps).Scoped from
    (h {} hstart).stopsOwn
  induction webSteps with
  | nil => exact fun _ hs => hs
  | cons a steps ih =>
    intro s hs
    exact ih (fun b hb => hsteps b (List.mem_cons_of_mem a hb)) _
      (hs.step (hsteps a List.mem_cons_self))

/-- A message whose run is stopped, and the next message. -/
theorem stop_scope_web : (runFrom WebRuns.step {} [.takes "c1", .activates "c1", .stop "c1",
    .yields "c1" (.error "aborted" "run aborted"), .finishes "c1", .takes "c1",
    .activates "c1"]).StopsOwn :=
  (stop_scope _ []).1 (by decide)

/-- On Feishu the run after a stopped run finds the abort event set. -/
def stoppedTwice : List FeishuRunStep := [.starts "s1", .stop "s1", .finishes 0, .starts "s1"]

theorem stoppedTwice_not_own :
    ¬ ((∀ steps, (∀ a ∈ steps, a.isAbort = false) → (runFrom WebRuns.step {} steps).StopsOwn) ∧
      ∀ steps, (runFrom FeishuRuns.step {} steps).StopsOwn) := by
  intro h
  have hmem := h.2 stoppedTwice 0 1 (by decide) (by decide)
  revert hmem
  decide

end PyClaw
