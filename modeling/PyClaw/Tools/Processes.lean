import PyClaw.Tools.Bash

/-!
# Tools.Processes

What becomes of the processes of `BashTool`. `ended_calls`: the process of a call that has ended has ended
or been sent `SIGKILL`, or else the call was cancelled during the grace period after `SIGTERM`; and a
result without an error is the output of a process that ran to its end by itself.
-/

namespace PyClaw

def Process.Stopped (p : Process) : Prop :=
  p.returncode.isSome = true ∨ p.killed = true

/-- The process has ended by itself, with code 0, and `text` is its output. -/
def Process.Wrote (p : Process) (text : String) : Prop :=
  p.returncode = some 0 ∧ p.terminated = false ∧ p.killed = false ∧ ∃ out err, text = bashBody out err 0

/-- What is known of the process of a call in each phase. -/
def Settled : BashPhase → Option Process → Prop
  | .unknown, process | .spawning _, process => process = none
  | .waiting _, process => ∃ p, process = some p ∧ p.terminated = false ∧ p.killed = false
  | .stopping _, process => ∃ p, process = some p ∧ (p.returncode.isSome = true ∨ p.terminated = true)
  | .killing _, process => ∃ p, process = some p ∧ p.Stopped
  | .ended (.result false text), process => ∃ p, process = some p ∧ p.Wrote text
  | .ended (.result true _), process => ∀ p, process = some p → p.Stopped
  | .ended .raised, process => ∀ p, process = some p → p.Stopped ∨ p.terminated = true

theorem Process.kill_stopped (p : Process) : p.kill.Stopped := by
  unfold Process.kill Process.Stopped
  split
  · rename_i hcode
    exact .inl hcode
  · exact .inr rfl

theorem Process.terminate_signalled (p : Process) :
    p.terminate.returncode.isSome = true ∨ p.terminate.terminated = true := by
  unfold Process.terminate
  split
  · rename_i hcode
    exact .inl hcode
  · exact .inr rfl

theorem settled_result_true {process : Option Process} {text : String} {p : Process}
    (hp : process = some p) (hstopped : p.Stopped) : Settled (.ended (.result true text)) process := by
  rintro q hq
  obtain rfl := Option.some.inj (hp.symm.trans hq)
  exact hstopped

theorem Settled.exits {phase : BashPhase} {p : Process} (h : Settled phase (some p))
    (hcode : p.returncode = none) (code : Int) : Settled phase (some { p with returncode := some code }) := by
  cases phase with
  | unknown => cases h
  | spawning timeout => cases h
  | waiting timeout =>
    obtain ⟨q, heq, hq⟩ := h
    obtain rfl := Option.some.inj heq
    exact ⟨_, rfl, hq⟩
  | stopping why => exact ⟨_, rfl, .inl rfl⟩
  | killing why => exact ⟨_, rfl, .inl rfl⟩
  | ended e =>
    cases e with
    | raised =>
      rintro q ⟨⟩
      exact .inl (.inl rfl)
    | result isError text =>
      cases isError with
      | true =>
        rintro q ⟨⟩
        exact .inl rfl
      | false =>
        obtain ⟨q, heq, hzero, -⟩ := h
        obtain rfl := Option.some.inj heq
        rw [hcode] at hzero
        cases hzero

namespace BashHost

section
variable {py : PyText} {s : BashHost} {n : Nat}

def AllSettled (s : BashHost) : Prop :=
  ∀ n, Settled (s.phases n) (s.processes n)

theorem AllSettled.setPhase (h : AllSettled s) {p : BashPhase} (hp : Settled p (s.processes n)) :
    AllSettled (s.setPhase n p) := by
  intro m
  show Settled (Function.update s.phases n p m) (s.processes m)
  by_cases hm : m = n
  · subst hm
    rwa [Function.update_self]
  · rw [Function.update_of_ne hm]
    exact h m

theorem AllSettled.setBoth (h : AllSettled s) {process : Process} {p : BashPhase}
    (hp : Settled p (some process)) : AllSettled ((s.setProcess n process).setPhase n p) := by
  intro m
  show Settled (Function.update s.phases n p m) (Function.update s.processes n (some process) m)
  by_cases hm : m = n
  · subst hm
    rwa [Function.update_self, Function.update_self]
  · rw [Function.update_of_ne hm, Function.update_of_ne hm]
    exact h m

theorem AllSettled.of_eq {s' : BashHost} (h : AllSettled s) (hphases : s'.phases = s.phases)
    (hprocesses : s'.processes = s.processes) : AllSettled s' := by
  intro m
  rw [hphases, hprocesses]
  exact h m

theorem AllSettled.finish (h : AllSettled s) {e : BashEnd} (unlinks : Bool)
    (he : Settled (.ended e) (s.processes n)) : AllSettled (s.finish n e unlinks) := by
  obtain ⟨hphases, hprocesses, -⟩ := cleanupSettingsFile_frame s n unlinks
  refine (h.of_eq hphases hprocesses).setPhase ?_
  rwa [hprocesses]

theorem AllSettled.finishWith (h : AllSettled s) {process : Process} {e : BashEnd} (unlinks : Bool)
    (he : Settled (.ended e) (some process)) : AllSettled ((s.setProcess n process).finish n e unlinks) := by
  obtain ⟨hphases, hprocesses, -⟩ := cleanupSettingsFile_frame (s.setProcess n process) n unlinks
  intro m
  show Settled (Function.update ((s.setProcess n process).cleanupSettingsFile n unlinks).phases n _ m)
    (((s.setProcess n process).cleanupSettingsFile n unlinks).processes m)
  rw [hphases, hprocesses]
  exact h.setBoth he m

theorem AllSettled.refuse (h : AllSettled s) (hnone : s.processes n = none) (text : String) :
    AllSettled (s.refuse n text) := by
  refine h.setPhase ?_
  rintro p hp
  rw [hnone] at hp
  cases hp

theorem AllSettled.raise (h : AllSettled s) (hnone : s.processes n = none) :
    AllSettled (s.setPhase n (.ended .raised)) := by
  refine h.setPhase ?_
  rintro p hp
  rw [hnone] at hp
  cases hp

theorem AllSettled.launch (h : AllSettled s) (hnone : s.processes n = none) (call : BashCall) (timeout : Rat)
    (spawn : Spawn) (written : Bool) : AllSettled (s.launch n call timeout spawn written) := by
  unfold BashHost.launch
  split
  · exact (h.of_eq rfl rfl).setPhase hnone
  · split
    · exact (h.of_eq rfl rfl).setPhase hnone
    · exact (h.of_eq rfl rfl).raise hnone

theorem AllSettled.begin (h : AllSettled s) (hphase : s.phases n = .unknown) (call : BashCall)
    (isAborted : Bool) (path : String) (written : Bool) :
    AllSettled (s.begin py n call isAborted path written) := by
  have hnone : s.processes n = none := by
    have hsettled := h n
    rw [hphase] at hsettled
    exact hsettled
  unfold BashHost.begin
  split
  · exact h.refuse hnone _
  · split
    · exact h.refuse hnone _
    · split
      · exact h.refuse hnone _
      · split
        · exact h.raise hnone
        · split
          · exact h.refuse hnone _
          · exact h.launch hnone _ _ _ written

theorem AllSettled.stop (h : AllSettled s) {p : Process} (hp : s.processes n = some p) (why : StopReason)
    (unlinks : Bool) : AllSettled (s.stop py n p why unlinks) := by
  unfold BashHost.stop
  split
  · rename_i hcode
    exact h.finish unlinks (settled_result_true hp (.inl hcode))
  · exact h.setBoth ⟨_, rfl, p.terminate_signalled⟩

theorem AllSettled.step (h : AllSettled s) (a : BashStep) : AllSettled (s.step py a) := by
  cases a with
  | begins m call isAborted path written =>
    simp only [BashHost.step]
    split
    · rename_i hphase
      split
      · exact h
      · exact h.begin hphase call isAborted path written
    · exact h
  | spawnFails m reason unlinks =>
    simp only [BashHost.step]
    split
    · rename_i hphase
      have hnone : s.processes m = none := by
        have hsettled := h m
        rw [hphase] at hsettled
        exact hsettled
      refine h.finish unlinks ?_
      rintro p hp
      rw [hnone] at hp
      cases hp
    · exact h
  | spawned m =>
    simp only [BashHost.step]
    split
    · exact h.setBoth ⟨_, rfl, rfl, rfl⟩
    · exact h
  | exits m code =>
    simp only [BashHost.step]
    split
    · rename_i p hp
      split
      · exact h
      · rename_i hcode
        have hsettled := h m
        rw [hp] at hsettled
        intro k
        show Settled (s.phases k) (Function.update s.processes m _ k)
        by_cases hk : k = m
        · subst hk
          rw [Function.update_self]
          exact hsettled.exits (by simpa using hcode) code
        · rw [Function.update_of_ne hk]
          exact h k
    · exact h
  | communicated m out err unlinks =>
    simp only [BashHost.step]
    split
    · rename_i p hphase hp
      split
      · rename_i code hcode
        refine h.finish unlinks ?_
        have hsettled := h m
        rw [hphase] at hsettled
        obtain ⟨q, hq, hterminated, hkilled⟩ := hsettled
        obtain rfl := Option.some.inj (hp.symm.trans hq)
        by_cases hzero : code = 0
        · subst hzero
          exact ⟨p, hp, hcode, hterminated, hkilled, out, err, rfl⟩
        · rw [decide_eq_true hzero]
          exact settled_result_true hp (.inl (by rw [hcode]; rfl))
      · exact h
    · exact h
  | aborted m unlinks =>
    simp only [BashHost.step]
    split
    · rename_i hp
      exact h.stop hp _ unlinks
    · exact h
  | timedOut m unlinks =>
    simp only [BashHost.step]
    split
    · rename_i hp
      exact h.stop hp _ unlinks
    · exact h
  | reaped m unlinks =>
    simp only [BashHost.step]
    split
    · rename_i hp
      split
      · rename_i hcode
        exact h.finish unlinks (settled_result_true hp (.inl hcode))
      · exact h
    · rename_i hp
      split
      · rename_i hcode
        exact h.finish unlinks (settled_result_true hp (.inl hcode))
      · exact h
    · exact h
  | graceOver m unlinks =>
    simp only [BashHost.step]
    split
    · rename_i p _ hp
      split
      · rename_i hcode
        exact h.finish unlinks (settled_result_true hp (.inl hcode))
      · exact h.setBoth ⟨_, rfl, Process.kill_stopped _⟩
    · rename_i hphase hp
      have hsettled := h m
      rw [hphase] at hsettled
      obtain ⟨q, hq, hstopped⟩ := hsettled
      exact h.finish unlinks (settled_result_true hq hstopped)
    · exact h
  | cancelled m unlinks =>
    simp only [BashHost.step]
    have hsettled := h m
    split
    · rename_i hphase
      rw [hphase] at hsettled
      refine h.finish unlinks ?_
      rintro p hp
      rw [hsettled] at hp
      cases hp
    · refine h.finishWith unlinks ?_
      rintro q ⟨⟩
      exact .inl (Process.kill_stopped _)
    · rename_i hphase
      rw [hphase] at hsettled
      obtain ⟨q, hq, hsignalled⟩ := hsettled
      refine h.finish unlinks ?_
      rintro p hp
      obtain rfl := Option.some.inj (hq.symm.trans hp)
      rcases hsignalled with hcode | hterminated
      · exact .inl (.inl hcode)
      · exact .inr hterminated
    · rename_i hphase
      rw [hphase] at hsettled
      obtain ⟨q, hq, hstopped⟩ := hsettled
      refine h.finish unlinks ?_
      rintro p hp
      obtain rfl := Option.some.inj (hq.symm.trans hp)
      exact .inl hstopped
    · exact h

end

/-- A call that has ended leaves no process behind that was not sent a signal; `SIGTERM` is all it was sent
only where the call was cancelled while it waited for the process to end. -/
theorem ended_calls (py : PyText) (steps : List BashStep) (n : Nat) (e : BashEnd)
    (h : (runFrom (BashHost.step py) {} steps).phases n = .ended e) :
    let processes := (runFrom (BashHost.step py) {} steps).processes
    (∀ p, processes n = some p → p.returncode.isSome = true ∨ p.killed = true ∨
      p.terminated = true ∧ e = .raised) ∧
    ∀ text, e = .result false text → ∃ p out err, processes n = some p ∧ p.returncode = some 0 ∧
      p.terminated = false ∧ p.killed = false ∧ text = bashBody out err 0 := by
  intro processes
  have hall : AllSettled (runFrom (BashHost.step py) {} steps) :=
    runFrom_invariant (fun _ a hs => hs.step a) fun _ => rfl
  have hsettled := hall n
  rw [h] at hsettled
  constructor
  · intro p hp
    cases e with
    | raised =>
      rcases hsettled p hp with (hcode | hkilled) | hterminated
      · exact .inl hcode
      · exact .inr (.inl hkilled)
      · exact .inr (.inr ⟨hterminated, rfl⟩)
    | result isError text =>
      cases isError with
      | true =>
        rcases hsettled p hp with hcode | hkilled
        · exact .inl hcode
        · exact .inr (.inl hkilled)
      | false =>
        obtain ⟨q, hq, hzero, -⟩ := hsettled
        obtain rfl := Option.some.inj (hp.symm.trans hq)
        exact .inl (by rw [hzero]; rfl)
  · rintro text rfl
    obtain ⟨p, hp, hzero, hterminated, hkilled, out, err, htext⟩ := hsettled
    exact ⟨p, out, err, hp, hzero, hterminated, hkilled, htext⟩

def lsRun : List BashStep :=
  [.begins 0 sandboxedLs false "/tmp/a.json" true, .spawned 0, .exits 0 0, .communicated 0 [104, 105] [] true]

theorem ended_calls_ls :
    ∃ p out err, (runFrom (BashHost.step PyText.ascii) {} lsRun).processes 0 = some p ∧
      p.returncode = some 0 ∧ p.terminated = false ∧ p.killed = false ∧
      "[stdout]\nhi\n[exit_code=0]" = bashBody out err 0 :=
  (ended_calls PyText.ascii lsRun 0 (.result false "[stdout]\nhi\n[exit_code=0]") rfl).2 _ rfl

/-- A call that is cancelled during the grace period leaves its process to `SIGTERM`. -/
example :
    let s := runFrom (BashHost.step PyText.ascii) {}
      [.begins 0 sandboxedLs false "/tmp/a.json" true, .spawned 0, .aborted 0 true, .cancelled 0 true]
    s.phases 0 = .ended .raised ∧ s.processes 0 = some { terminated := true } ∧ s.files = [] :=
  ⟨rfl, rfl, rfl⟩

end BashHost

end PyClaw
