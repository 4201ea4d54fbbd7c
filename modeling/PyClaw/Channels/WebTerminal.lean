import Mathlib.Tactic.Set
import PyClaw.Channels.WebRuns

/-!
# Channels.WebTerminal

How many terminal messages a web run gets. `WebRuns.oneTerminal_iff`: every run gets one exactly when
each run that a `/stop` found active had not ended yet and ends aborted.
-/

namespace PyClaw

/-- What the flags of a conversation say about its run, given how many runs there were and how many
terminal messages each of them got. -/
def RunPhase.Accounts (rc : RunControl) (runs : Nat) (terminals : Nat → Nat) : RunPhase → Prop
  | .idle | .handling => rc.active = false ∧ rc.chatDoneHandledExternally = false
  | .running n => rc.active = true ∧ n < runs ∧
    terminals n = rc.chatDoneHandledExternally.toNat ∧
      (rc.chatDoneHandledExternally = true → rc.abort = true)
  | .closing n => rc.active = true ∧ n < runs ∧ terminals n = 1 ∧
    rc.chatDoneHandledExternally = false

theorem RunPhase.Accounts.run_lt {rc : RunControl} {runs n : Nat} {terminals : Nat → Nat}
    {p : RunPhase} (h : p.Accounts rc runs terminals) (hn : p.run = some n) : n < runs := by
  cases p <;> cases hn
  · exact h.2.1
  · exact h.2.1

theorem RunPhase.Accounts.congr {rc : RunControl} {runs : Nat} {terminals terminals' : Nat → Nat}
    {p : RunPhase} (h : p.Accounts rc runs terminals)
    (ht : ∀ n, p.run = some n → terminals' n = terminals n) : p.Accounts rc runs terminals' := by
  cases p with
  | idle => exact h
  | handling => exact h
  | running n =>
    rw [RunPhase.Accounts, ht n rfl]
    exact h
  | closing n =>
    rw [RunPhase.Accounts, ht n rfl]
    exact h

theorem RunPhase.Accounts.mono {rc : RunControl} {runs runs' : Nat} {terminals : Nat → Nat}
    {p : RunPhase} (h : p.Accounts rc runs terminals) (hruns : runs ≤ runs') :
    p.Accounts rc runs' terminals := by
  cases p with
  | idle => exact h
  | handling => exact h
  | running n => exact ⟨h.1, Nat.lt_of_lt_of_le h.2.1 hruns, h.2.2⟩
  | closing n => exact ⟨h.1, Nat.lt_of_lt_of_le h.2.1 hruns, h.2.2⟩

namespace WebRuns

section
variable (s : WebRuns)

/-- The terminal messages of a run. -/
def terminals (n : Nat) : Nat := s.sent.countP fun m => m.run = some n

/-- One terminal message for each run that is not streaming any more, at most one before that, and no
flag is left for the run of the message being handled. -/
structure OneTerminal : Prop where
  ended : ∀ n < s.runs, (∀ conv, s.phase conv ≠ .running n) → s.terminals n = 1
  running : ∀ conv n, s.phase conv = .running n → s.terminals n ≤ 1
  flag : ∀ conv, s.phase conv = .handling → (s.control conv).chatDoneHandledExternally = false

/-- A `/stop` comes before the end of the run that it finds active, and such a run ends aborted. -/
def EndsStopped : WebRunStep → Prop
  | .stop conv => (s.control conv).isActive = true → ∀ n, s.phase conv ≠ .closing n
  | .yields conv event => (s.control conv).chatDoneHandledExternally = true →
    event.reason = none ∨ event.reason = some "aborted"
  | .raises conv => (s.control conv).chatDoneHandledExternally = false
  | _ => True

/-! ## The books of a run -/

structure Accounted : Prop where
  own : ∀ conv, (s.phase conv).Accounts (s.control conv) s.runs s.terminals
  distinct : ∀ conv conv' n, (s.phase conv).run = some n → (s.phase conv').run = some n →
    conv = conv'
  ended : ∀ n < s.runs, (∀ conv, (s.phase conv).run ≠ some n) → s.terminals n = 1
  fresh : ∀ n, s.runs ≤ n → s.terminals n = 0

end

section
variable {s s' : WebRuns} {conv conv' : String} {rc : RunControl} {n m : Nat}

@[simp] theorem terminals_setPhase (phase : RunPhase) :
    (s.setPhase conv phase).terminals n = s.terminals n := rfl

@[simp] theorem terminals_setControl : (s.setControl conv rc).terminals n = s.terminals n := rfl

theorem terminals_send (run : Option Nat) (message : TerminalMessage) :
    (s.send conv run message).terminals n = s.terminals n + if run = some n then 1 else 0 := by
  simp [terminals, send, List.countP_append, List.countP_cons]

/-- A step of one conversation that begins and ends no run of it. -/
theorem Accounted.change (h : s.Accounted) (conv : String)
    (hother : ∀ conv' ≠ conv, s'.control conv' = s.control conv' ∧ s'.phase conv' = s.phase conv')
    (hrun : (s'.phase conv).run = (s.phase conv).run) (hruns : s'.runs = s.runs)
    (hterminals : ∀ n, (s.phase conv).run ≠ some n → s'.terminals n = s.terminals n)
    (hown : (s'.phase conv).Accounts (s'.control conv) s'.runs s'.terminals) : s'.Accounted := by
  have hrun' : ∀ conv', (s'.phase conv').run = (s.phase conv').run := by
    intro conv'
    by_cases he : conv' = conv
    · rw [he, hrun]
    · rw [(hother conv' he).2]
  refine ⟨fun conv' => ?_, fun a b n ha hb => ?_, fun n hn hfree => ?_, fun n hn => ?_⟩
  · by_cases he : conv' = conv
    · exact he ▸ hown
    · obtain ⟨hcontrol, hphase⟩ := hother conv' he
      rw [hcontrol, hphase, hruns]
      refine (h.own conv').congr fun n hn => hterminals n fun hc => ?_
      exact he (h.distinct conv' conv n hn hc)
  · rw [hrun'] at ha hb
    exact h.distinct a b n ha hb
  · simp only [hrun'] at hfree
    rw [hterminals n (hfree conv)]
    exact h.ended n (hruns ▸ hn) hfree
  · rw [hruns] at hn
    rw [hterminals n fun hc => absurd ((h.own conv).run_lt hc) (Nat.not_lt.mpr hn)]
    exact h.fresh n hn

/-! ## Steps -/

/-- A step that writes the control and the phase of a conversation. -/
theorem Accounted.set (h : s.Accounted) (rc : RunControl) {p : RunPhase} (hrun : p.run = (s.phase conv).run)
    (hown : p.Accounts rc s.runs s.terminals) : ((s.setControl conv rc).setPhase conv p).Accounted := by
  refine h.change conv (fun conv' he => ⟨control_setControl_ne he, phase_setPhase_ne p he⟩) ?_ rfl
    (fun n _ => rfl) ?_
  · rw [phase_setPhase_self, hrun]
  · rw [phase_setPhase_self, control_setPhase, control_setControl_self]
    exact hown

theorem Accounted.setControl (h : s.Accounted) (rc : RunControl)
    (hown : (s.phase conv).Accounts rc s.runs s.terminals) : (s.setControl conv rc).Accounted := by
  have hset := h.set rc rfl hown
  have hsame : (s.setControl conv rc).setPhase conv (s.phase conv) = s.setControl conv rc :=
    setPhase_same rfl
  rwa [hsame] at hset

/-- The run of the conversation gets a terminal message. -/
theorem Accounted.send (h : s.Accounted) (rc : RunControl) {p : RunPhase} (hn : (s.phase conv).run = some n)
    (hrun : p.run = some n) (message : TerminalMessage)
    (hown : p.Accounts rc s.runs fun m => s.terminals m + if n = m then 1 else 0) :
    (((s.setControl conv rc).send conv (some n) message).setPhase conv p).Accounted := by
  refine h.change conv (fun conv' he => ⟨control_setControl_ne he, phase_setPhase_ne p he⟩) ?_ rfl
    (fun m hm => ?_) ?_
  · rw [phase_setPhase_self, hrun, hn]
  · rw [terminals_setPhase, terminals_send, if_neg fun he => hm (hn.trans he)]
    rfl
  · have hcontrol : (((s.setControl conv rc).send conv (some n) message).setPhase conv p).control
        conv = rc := control_setControl_self
    rw [phase_setPhase_self, hcontrol]
    refine RunPhase.Accounts.congr hown fun m _ => ?_
    rw [terminals_setPhase, terminals_send]
    simp

theorem Accounted.activates (h : s.Accounted) (hphase : s.phase conv = .handling) :
    (s.step (.activates conv)).Accounted := by
  have hown := h.own conv
  rw [hphase] at hown
  have hlt : ∀ conv', (s.phase conv').run ≠ some s.runs := fun conv' hn =>
    Nat.lt_irrefl _ ((h.own conv').run_lt hn)
  simp only [step, hphase]
  set rc : RunControl := { s.control conv with active := true } with hrc
  set s' : WebRuns :=
    { (s.setControl conv rc).setPhase conv (.running s.runs) with runs := s.runs + 1 } with hs'
  have hself : s'.phase conv = .running s.runs := phase_setPhase_self (s := s.setControl conv rc) _
  have hne : ∀ conv' ≠ conv, s'.phase conv' = s.phase conv' := fun conv' he =>
    phase_setPhase_ne (s := s.setControl conv rc) _ he
  refine ⟨fun conv' => ?_, fun a b n ha hb => ?_, fun n hn hfree => ?_, fun n hn => ?_⟩
  · by_cases he : conv' = conv
    · subst he
      have hcontrol : s'.control conv' = rc := control_setControl_self
      rw [hself, hcontrol]
      refine ⟨rfl, Nat.lt_succ_self _, ?_, ?_⟩
      · rw [hrc, hown.2]
        exact h.fresh s.runs (Nat.le_refl _)
      · rw [hrc, hown.2]
        exact fun hflag => by cases hflag
    · have hcontrol : s'.control conv' = s.control conv' := control_setControl_ne he
      rw [hne conv' he, hcontrol]
      exact (h.own conv').mono (Nat.le_succ _)
  · by_cases hea : a = conv
    · by_cases heb : b = conv
      · rw [hea, heb]
      · rw [hea, hself] at ha
        rw [hne b heb, ← ha] at hb
        exact absurd hb (hlt b)
    · by_cases heb : b = conv
      · rw [heb, hself] at hb
        rw [hne a hea, ← hb] at ha
        exact absurd ha (hlt a)
      · rw [hne a hea] at ha
        rw [hne b heb] at hb
        exact h.distinct a b n ha hb
  · have hnew : n ≠ s.runs := by
      rintro rfl
      exact hfree conv (by rw [hself]; rfl)
    refine h.ended n (Nat.lt_of_le_of_ne (Nat.le_of_lt_succ hn) hnew) fun conv' => ?_
    by_cases he : conv' = conv
    · rw [he, hphase]
      exact fun hnone => by cases hnone
    · rw [← hne conv' he]
      exact hfree conv'
  · exact h.fresh n (Nat.le_of_succ_le hn)

theorem Accounted.finishes (h : s.Accounted) (hphase : s.phase conv = .closing n) :
    (s.step (.finishes conv)).Accounted := by
  have hown := h.own conv
  rw [hphase] at hown
  simp only [step, hphase]
  set rc : RunControl := { s.control conv with active := false } with hrc
  have hself : ((s.setControl conv rc).setPhase conv .idle).phase conv = .idle := phase_setPhase_self _
  have hne : ∀ conv' ≠ conv,
      ((s.setControl conv rc).setPhase conv .idle).phase conv' = s.phase conv' := fun conv' he =>
    phase_setPhase_ne (s := s.setControl conv rc) _ he
  refine ⟨fun conv' => ?_, fun a b m ha hb => ?_, fun m hm hfree => ?_, h.fresh⟩
  · by_cases he : conv' = conv
    · subst he
      rw [hself, control_setPhase, control_setControl_self]
      exact ⟨rfl, hown.2.2.2⟩
    · rw [hne conv' he, control_setPhase, control_setControl_ne he]
      exact h.own conv'
  · by_cases hea : a = conv
    · rw [hea, hself] at ha
      cases ha
    · by_cases heb : b = conv
      · rw [heb, hself] at hb
        cases hb
      · rw [hne a hea] at ha
        rw [hne b heb] at hb
        exact h.distinct a b m ha hb
  · by_cases hmn : m = n
    · rw [hmn]
      exact hown.2.2.1
    · refine h.ended m hm fun conv' => ?_
      by_cases he : conv' = conv
      · rw [he, hphase]
        exact fun hsome => hmn (Option.some.inj hsome).symm
      · rw [← hne conv' he]
        exact hfree conv'

/-- A reply that ends no run. -/
theorem Accounted.sendNone (h : s.Accounted) (message : TerminalMessage) :
    (s.send conv none message).Accounted := by
  have hterminals : ∀ n, (s.send conv none message).terminals n = s.terminals n := fun n =>
    (terminals_send none message).trans (by simp)
  exact h.change conv (fun _ _ => ⟨rfl, rfl⟩) rfl rfl (fun n _ => hterminals n)
    ((h.own conv).congr fun n _ => hterminals n)

/-- The terminal message of a run that had none. -/
theorem Accounted.close (h : s.Accounted) (hphase : s.phase conv = .running n)
    (hflag : (s.control conv).chatDoneHandledExternally = false) (message : TerminalMessage) :
    ((s.send conv (some n) message).setPhase conv (.closing n)).Accounted := by
  have hown := h.own conv
  rw [hphase] at hown
  obtain ⟨hactive, hlt, hterminals, -⟩ := hown
  rw [hflag] at hterminals
  have hsend := h.send (s.control conv) (by rw [hphase]; rfl) (p := .closing n) rfl message
    ⟨hactive, hlt, by simp [hterminals], hflag⟩
  rwa [setControl_same rfl] at hsend

theorem Accounted.onEvent (h : s.Accounted) (hphase : s.phase conv = .running n) {event : AgentEvent}
    (hevent : (s.control conv).chatDoneHandledExternally = true →
      event.reason = none ∨ event.reason = some "aborted") : (s.onEvent conv n event).Accounted := by
  have hown := h.own conv
  rw [hphase] at hown
  have hflag : ∀ reason, event.reason = some reason → reason ≠ "aborted" →
      (s.control conv).chatDoneHandledExternally = false := by
    intro reason hreason hne
    rw [← Bool.not_eq_true]
    intro hset
    rcases hevent hset with hnone | haborted
    · rw [hnone] at hreason
      cases hreason
    · rw [haborted] at hreason
      exact hne (Option.some.inj hreason).symm
  cases event with
  | done finalMessage usage => exact h.close hphase (hflag "done" rfl (by decide)) _
  | error errorCode message =>
    simp only [WebRuns.onEvent]
    split
    · split
      · rename_i hset
        obtain ⟨hactive, hlt, hterminals, -⟩ := hown
        rw [hset] at hterminals
        exact h.set _ (by rw [hphase]; rfl) ⟨hactive, hlt, hterminals, rfl⟩
      · rename_i hset
        exact h.close hphase (Bool.not_eq_true _ ▸ hset) _
    · rename_i hcode
      exact h.close hphase (hflag errorCode rfl hcode) _
  | textChunk text => exact h
  | toolCallStart toolCallId name arguments => exact h
  | toolCallEnd toolCallId result => exact h
  | toolApprovalRequest toolCallId toolName args => exact h

/-- The run that a `/stop` finds active is streaming and was not stopped before. -/
theorem Accounted.stop (h : s.Accounted)
    (hstop : (s.control conv).isActive = true → ∀ n, s.phase conv ≠ .closing n) :
    (s.stop conv).Accounted := by
  simp only [WebRuns.stop]
  split
  · rename_i hactive
    obtain ⟨hon, habort⟩ := Bool.and_eq_true_iff.mp hactive
    have hown := h.own conv
    cases hphase : s.phase conv with
    | idle =>
      rw [hphase] at hown
      exact absurd (hown.1.symm.trans hon) (by decide)
    | handling =>
      rw [hphase] at hown
      exact absurd (hown.1.symm.trans hon) (by decide)
    | closing n => exact absurd hphase (hstop hactive n)
    | running n =>
      rw [hphase] at hown
      obtain ⟨-, hlt, hterminals, himp⟩ := hown
      have hflag : (s.control conv).chatDoneHandledExternally = false := by
        rw [← Bool.not_eq_true]
        intro hset
        rw [himp hset] at habort
        cases habort
      rw [hflag] at hterminals
      have hsend := h.send { s.control conv with chatDoneHandledExternally := true }.stop
        (by rw [hphase]; rfl) (p := .running n) rfl stopReply
        ⟨hon, hlt, by simp [hterminals, RunControl.stop], fun _ => rfl⟩
      have hsame : ((s.setControl conv { s.control conv with chatDoneHandledExternally := true }.stop).send
          conv (some n) stopReply).phase conv = .running n := hphase
      rw [setPhase_same hsame] at hsend
      rw [handleStopCommand_active hactive]
      exact hsend
  · exact h.sendNone _

theorem Accounted.step (h : s.Accounted) {a : WebRunStep} (ha : s.EndsStopped a) :
    (s.step a).Accounted := by
  cases a with
  | takes conv =>
    simp only [WebRuns.step]
    split
    · rename_i hphase
      have hown := h.own conv
      rw [hphase] at hown
      exact h.set { s.control conv with abort := false } (by rw [hphase]; rfl) hown
    · exact h
  | returns conv =>
    simp only [WebRuns.step]
    split
    · rename_i hphase
      have hown := h.own conv
      rw [hphase] at hown
      have hset := h.set (s.control conv) (p := .idle) (by rw [hphase]; rfl) hown
      rwa [setControl_same rfl] at hset
    · exact h
  | activates conv =>
    cases hphase : s.phase conv with
    | handling => exact h.activates hphase
    | idle => simpa only [WebRuns.step, hphase] using h
    | running n => simpa only [WebRuns.step, hphase] using h
    | closing n => simpa only [WebRuns.step, hphase] using h
  | yields conv event =>
    simp only [WebRuns.step]
    split
    · rename_i n hphase
      exact h.onEvent hphase ha
    · exact h
  | raises conv =>
    simp only [WebRuns.step]
    split
    · rename_i n hphase
      exact h.close hphase ha _
    · exact h
  | finishes conv =>
    cases hphase : s.phase conv with
    | closing n => exact h.finishes hphase
    | idle => simpa only [WebRuns.step, hphase] using h
    | handling => simpa only [WebRuns.step, hphase] using h
    | running n => simpa only [WebRuns.step, hphase] using h
  | stop conv => exact h.stop ha
  | abort conv =>
    refine h.setControl { s.control conv with abort := true } ?_
    have hown := h.own conv
    cases hphase : s.phase conv with
    | idle =>
      rw [hphase] at hown
      exact hown
    | handling =>
      rw [hphase] at hown
      exact hown
    | closing n =>
      rw [hphase] at hown
      exact hown
    | running n =>
      rw [hphase] at hown
      exact ⟨hown.1, hown.2.1, hown.2.2.1, fun _ => rfl⟩
  | exits conv =>
    simp only [WebRuns.step]
    split
    · rename_i hphase
      refine h.setControl {} ?_
      rw [hphase]
      exact ⟨rfl, rfl⟩
    · exact h

theorem Accounted.oneTerminal (h : s.Accounted) : s.OneTerminal where
  ended n hn hrunning := by
    by_cases hfree : ∀ conv, (s.phase conv).run ≠ some n
    · exact h.ended n hn hfree
    · simp only [ne_eq, not_forall, not_not] at hfree
      obtain ⟨conv, hconv⟩ := hfree
      have hown := h.own conv
      cases hphase : s.phase conv with
      | idle =>
        rw [hphase] at hconv
        cases hconv
      | handling =>
        rw [hphase] at hconv
        cases hconv
      | running m =>
        rw [hphase] at hconv
        cases hconv
        exact absurd hphase (hrunning conv)
      | closing m =>
        rw [hphase] at hconv hown
        cases hconv
        exact hown.2.2.1
  running conv n hphase := by
    have hown := h.own conv
    rw [hphase] at hown
    rw [hown.2.2.1]
    exact Bool.toNat_le _
  flag conv hphase := by
    have hown := h.own conv
    rw [hphase] at hown
    exact hown.2

/-- A second terminal message of a run that is closing breaks the count. -/
theorem Accounted.not_oneTerminal (h : s.Accounted) (hn : (s.phase conv).run = some n)
    (hruns : s'.runs = s.runs) (hphase : s'.phase conv = .closing n)
    (hother : ∀ conv' ≠ conv, s'.phase conv' = s.phase conv') (hterminals : s'.terminals n = 2) :
    ¬ s'.OneTerminal := by
  intro hone
  have hended := hone.ended n (hruns ▸ (h.own conv).run_lt hn) fun conv' hrunning => ?_
  · omega
  · by_cases he : conv' = conv
    · rw [he, hphase] at hrunning
      cases hrunning
    · rw [hother conv' he] at hrunning
      exact he (h.distinct conv' conv n (by rw [hrunning]; rfl) hn)

theorem Accounted.not_oneTerminal_close (h : s.Accounted) (hphase : s.phase conv = .running n)
    (hflag : (s.control conv).chatDoneHandledExternally = true) (message : TerminalMessage) :
    ¬ ((s.send conv (some n) message).setPhase conv (.closing n)).OneTerminal := by
  have hown := h.own conv
  rw [hphase] at hown
  obtain ⟨-, -, hterminals, -⟩ := hown
  rw [hflag] at hterminals
  refine h.not_oneTerminal (by rw [hphase]; rfl) rfl (phase_setPhase_self _)
    (fun conv' he => phase_setPhase_ne _ he) ?_
  rw [terminals_setPhase, terminals_send, hterminals]
  simp

/-- A step keeps the count of terminal messages right exactly when it is of the kind that does. -/
theorem Accounted.oneTerminal_step_iff (h : s.Accounted) (a : WebRunStep) :
    (s.step a).OneTerminal ↔ s.EndsStopped a := by
  refine ⟨fun hone => ?_, fun ha => (h.step ha).oneTerminal⟩
  have hrunning : ∀ conv, (s.control conv).chatDoneHandledExternally = true →
      ∃ n, s.phase conv = .running n := by
    intro conv hflag
    have hown := h.own conv
    cases hphase : s.phase conv with
    | running n => exact ⟨n, rfl⟩
    | idle =>
      rw [hphase] at hown
      exact absurd (hown.2.symm.trans hflag) (by decide)
    | handling =>
      rw [hphase] at hown
      exact absurd (hown.2.symm.trans hflag) (by decide)
    | closing n =>
      rw [hphase] at hown
      exact absurd (hown.2.2.2.symm.trans hflag) (by decide)
  cases a with
  | stop conv =>
    intro hactive n hphase
    have hown := h.own conv
    rw [hphase] at hown
    have hstop : s.stop conv = { s with queue := s.queue.handleStopCommand conv }.send conv (some n)
        stopReply := by
      simp only [WebRuns.stop, hactive, if_true, hphase, RunPhase.run]
    rw [WebRuns.step, hstop] at hone
    refine absurd hone (h.not_oneTerminal (by rw [hphase]; rfl) rfl hphase (fun _ _ => rfl) ?_)
    rw [terminals_send, if_pos rfl]
    exact congrArg (· + 1) hown.2.2.1
  | yields conv event =>
    intro hflag
    obtain ⟨n, hphase⟩ := hrunning conv hflag
    simp only [WebRuns.step, hphase] at hone
    cases event with
    | done finalMessage usage => exact absurd hone (h.not_oneTerminal_close hphase hflag _)
    | error errorCode message =>
      by_cases hcode : errorCode = "aborted"
      · exact .inr (congrArg some hcode)
      · simp only [WebRuns.onEvent, if_neg hcode] at hone
        exact absurd hone (h.not_oneTerminal_close hphase hflag _)
    | textChunk text => exact .inl rfl
    | toolCallStart toolCallId name arguments => exact .inl rfl
    | toolCallEnd toolCallId result => exact .inl rfl
    | toolApprovalRequest toolCallId toolName args => exact .inl rfl
  | raises conv =>
    rw [EndsStopped, ← Bool.not_eq_true]
    intro hflag
    obtain ⟨n, hphase⟩ := hrunning conv hflag
    simp only [WebRuns.step, hphase] at hone
    exact h.not_oneTerminal_close hphase hflag _ hone
  | takes conv => trivial
  | returns conv => trivial
  | activates conv => trivial
  | finishes conv => trivial
  | abort conv => trivial
  | exits conv => trivial

theorem start_accounted : ({} : WebRuns).Accounted where
  own _ := ⟨rfl, rfl⟩
  distinct _ _ _ h := by cases h
  ended _ h := absurd h (Nat.not_lt_zero _)
  fresh _ _ := rfl

/-- The client gets one terminal message for every run, all along, exactly when every run that a
`/stop` finds active has not ended yet and ends aborted. -/
theorem oneTerminal_iff (steps : List WebRunStep) :
    Along step (fun s a => (s.step a).OneTerminal) {} steps ↔ Along step EndsStopped {} steps :=
  along_iff_of_invariant (I := Accounted) (fun _ a h => h.oneTerminal_step_iff a)
    (fun _ _ h ha => h.step ha) start_accounted

/-- The run ends by itself before it looks at the abort event that a `/stop` has set. -/
def stopThenDone : List WebRunStep :=
  [.takes "c1", .activates "c1", .stop "c1", .yields "c1" (.done "answer" {}), .finishes "c1"]

theorem stopThenDone_two :
    ¬ (∀ steps, Along step (fun s a => (s.step a).OneTerminal) {} steps) ∧
      (runFrom step {} stopThenDone).terminals 0 = 2 ∧
        ((runFrom step {} (stopThenDone ++ [.takes "c1"])).control "c1").chatDoneHandledExternally =
          true := by
  refine ⟨fun h => ?_, by decide, by decide⟩
  have hstopped : (runFrom step {} [.takes "c1", .activates "c1", .stop "c1"]).Accounted := by
    refine ((start_accounted.step (a := .takes "c1") trivial).step (a := .activates "c1")
      trivial).step (a := .stop "c1") fun _ n hphase => ?_
    cases hphase
  have hends := (hstopped.oneTerminal_step_iff (.yields "c1" (.done "answer" {}))).mp
    (h stopThenDone).2.2.2.1
  rcases hends (by decide) with hnone | haborted
  · cases hnone
  · exact absurd haborted (by decide)

end

end WebRuns

end PyClaw
