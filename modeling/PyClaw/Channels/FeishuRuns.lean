import PyClaw.Channels.SessionQueue
import PyClaw.Lib.Machine
import PyClaw.Lib.Table

/-!
# Channels.FeishuRuns

The agent runs of the Feishu channel and the `/stop` messages that reach them. The registry keeps one
run control for a session until the session is rotated away, and no run clears its abort event.
-/

namespace PyClaw

/-- A run, and the run control that it was started with. -/
structure FeishuRun where
  number : Nat
  control : Nat
  deriving DecidableEq, Repr

/-- The run controls are objects, numbered in the order of their creation. A consumer serves one
message at a time, so at most one run is in progress on each of them. -/
structure FeishuRuns where
  controls : String → Option Nat := fun _ => none
  objects : Nat → RunControl := fun _ => {}
  created : Nat := 0
  inProgress : Nat → Option Nat := fun _ => none
  runs : Nat := 0
  /-- The runs that a `/stop` found active. -/
  stopped : List FeishuRun := []

inductive FeishuRunStep where
  /-- `dispatch_message`, up to `rc.active = True`. -/
  | starts (sessionId : String)
  /-- Its `finally`, in the run that holds this run control. -/
  | finishes (control : Nat)
  | stop (sessionId : String)
  /-- `cleanup_session`. -/
  | cleans (sessionId : String)
  deriving DecidableEq, Repr

namespace FeishuRuns

section
variable (s : FeishuRuns)

def getRunControl (sessionId : String) : FeishuRuns × Nat :=
  match s.controls sessionId with
  | some r => (s, r)
  | none =>
    ({ s with
      controls := Function.update s.controls sessionId (some s.created)
      created := s.created + 1 }, s.created)

def setObject (r : Nat) (rc : RunControl) : FeishuRuns :=
  { s with objects := Function.update s.objects r rc }

/-- A run begins with the run control `r`. -/
def start (r : Nat) : FeishuRuns :=
  match s.inProgress r with
  | some _ => s
  | none =>
    { s.setObject r { s.objects r with active := true } with
      inProgress := Function.update s.inProgress r (some s.runs)
      runs := s.runs + 1 }

/-- `handle_stop_feishu`, on the run control `r`. -/
def handleStop (r : Nat) : FeishuRuns :=
  if (s.objects r).isActive then
    { s.setObject r { s.objects r with chatDoneHandledExternally := true }.stop with
      stopped := s.stopped ++
        (s.inProgress r).toList.map fun n => { number := n, control := r } }
  else s

def step : FeishuRunStep → FeishuRuns
  | .starts sessionId =>
    let (s, r) := s.getRunControl sessionId
    s.start r
  | .finishes r =>
    match s.inProgress r with
    | some _ =>
      { s.setObject r { s.objects r with active := false } with
        inProgress := Function.update s.inProgress r none }
    | none => s
  | .stop sessionId =>
    let (s, r) := s.getRunControl sessionId
    s.handleStop r
  | .cleans sessionId => { s with controls := Function.update s.controls sessionId none }

/-- A run in progress whose abort event is set was sent a `/stop` itself. -/
def StopsOwn : Prop :=
  ∀ r n, s.inProgress r = some n → (s.objects r).abort = true →
    { number := n, control := r } ∈ s.stopped

/-- The session's run control has not been used to stop an earlier run. -/
def Unstopped : FeishuRunStep → Prop
  | .starts sessionId => ∀ r ∈ s.controls sessionId, s.inProgress r = none →
    ∀ run ∈ s.stopped, run.control ≠ r
  | _ => True

/-- What the objects and the log say of each other. -/
structure Logged : Prop where
  abort : ∀ r, (s.objects r).abort = true ↔ ∃ run ∈ s.stopped, run.control = r
  active : ∀ r, (s.objects r).active = (s.inProgress r).isSome
  running : ∀ r n, s.inProgress r = some n → n < s.runs
  number : ∀ run ∈ s.stopped, run.number < s.runs
  control : ∀ run ∈ s.stopped, run.control < s.created
  fresh : ∀ r, s.created ≤ r → s.inProgress r = none
  allocated : ∀ sid r, s.controls sid = some r → r < s.created

end

section
variable {s : FeishuRuns} {r n : Nat} {sid : String}

/-- The run control of a session, created if it has none. -/
theorem getRunControl_cases (s : FeishuRuns) (sid : String) :
    (∃ r, s.controls sid = some r ∧ s.getRunControl sid = (s, r)) ∨
      s.controls sid = none ∧ s.getRunControl sid = ({ s with
        controls := Function.update s.controls sid (some s.created)
        created := s.created + 1 }, s.created) := by
  unfold getRunControl
  cases h : s.controls sid with
  | some r => exact .inl ⟨r, rfl, rfl⟩
  | none => exact .inr ⟨rfl, rfl⟩

theorem Logged.getRunControl (h : s.Logged) (hown : s.StopsOwn) (sid : String) :
    (s.getRunControl sid).1.Logged ∧ (s.getRunControl sid).1.StopsOwn ∧
      (s.getRunControl sid).2 < (s.getRunControl sid).1.created := by
  rcases getRunControl_cases s sid with ⟨r, hr, he⟩ | ⟨-, he⟩
  · rw [he]
    exact ⟨h, hown, h.allocated sid r hr⟩
  · rw [he]
    refine ⟨⟨h.abort, h.active, h.running, h.number,
      fun run hrun => Nat.lt_succ_of_lt (h.control run hrun),
      fun r hr => h.fresh r (Nat.le_of_succ_le hr), fun sid' r hr => ?_⟩, hown, Nat.lt_succ_self _⟩
    rcases update_eq_some.mp hr with ⟨-, hnew⟩ | ⟨-, hold⟩
    · cases hnew
      exact Nat.lt_succ_self _
    · exact Nat.lt_succ_of_lt (h.allocated sid' r hold)

theorem Logged.start (h : s.Logged) (hown : s.StopsOwn) (hr : r < s.created)
    (hclean : s.inProgress r = none → ∀ run ∈ s.stopped, run.control ≠ r) :
    (s.start r).Logged ∧ (s.start r).StopsOwn := by
  unfold FeishuRuns.start
  cases hfree : s.inProgress r with
  | some n => exact ⟨h, hown⟩
  | none =>
    have habort : ∀ r', (Function.update s.objects r { s.objects r with active := true } r').abort =
        (s.objects r').abort := by
      intro r'
      by_cases he : r' = r
      · subst he
        rw [Function.update_self]
      · rw [Function.update_of_ne he]
    refine ⟨⟨fun r' => ?_, fun r' => ?_, fun r' n hn => ?_, fun run hrun => ?_, h.control,
      fun r' hr' => ?_, h.allocated⟩, fun r' n hn hset => ?_⟩
    · exact (iff_of_eq (congrArg (· = true) (habort r'))).trans (h.abort r')
    · by_cases he : r' = r
      · subst he
        simp [setObject]
      · simp only [setObject, Function.update_of_ne he]
        exact h.active r'
    · rcases update_eq_some.mp hn with ⟨-, hnew⟩ | ⟨-, hold⟩
      · cases hnew
        exact Nat.lt_succ_self _
      · exact Nat.lt_succ_of_lt (h.running r' n hold)
    · exact Nat.lt_succ_of_lt (h.number run hrun)
    · have hne : r' ≠ r := Nat.ne_of_gt (Nat.lt_of_lt_of_le hr hr')
      exact (Function.update_of_ne hne ..).trans (h.fresh r' hr')
    · rcases update_eq_some.mp hn with ⟨rfl, -⟩ | ⟨-, hold⟩
      · obtain ⟨run, hrun, hcontrol⟩ := (h.abort r').mp ((habort r').symm.trans hset)
        exact absurd hcontrol (hclean hfree run hrun)
      · exact hown r' n hold ((habort r').symm.trans hset)

/-- A run that starts with a run control that stopped another run breaks the rule. -/
theorem Logged.not_stopsOwn (h : s.Logged) (hfree : s.inProgress r = none)
    (hused : ∃ run ∈ s.stopped, run.control = r) : ¬ (s.start r).StopsOwn := by
  intro hown
  have habort := (h.abort r).mpr hused
  simp only [FeishuRuns.start, hfree] at hown
  have hmem := hown r s.runs (Function.update_self ..) (by simpa [setObject] using habort)
  exact Nat.lt_irrefl _ (h.number _ hmem)

theorem Logged.handleStop (h : s.Logged) (hown : s.StopsOwn) (hr : r < s.created) :
    (s.handleStop r).Logged ∧ (s.handleStop r).StopsOwn := by
  unfold FeishuRuns.handleStop
  split
  · rename_i hactive
    have hon : (s.objects r).active = true := (Bool.and_eq_true_iff.mp hactive).1
    rw [h.active] at hon
    obtain ⟨n, hn⟩ := Option.isSome_iff_exists.mp hon
    simp only [hn, Option.toList_some, List.map_cons, List.map_nil]
    refine ⟨⟨fun r' => ?_, fun r' => ?_, h.running, fun run hrun => ?_, fun run hrun => ?_, h.fresh,
      h.allocated⟩, fun r' m hm hset => ?_⟩
    · by_cases he : r' = r
      · subst he
        simp [setObject, RunControl.stop]
      · have hne : ¬ r = r' := fun h => he h.symm
        simp only [setObject, Function.update_of_ne he, h.abort r', List.mem_append,
          List.mem_singleton, or_and_right, exists_or, exists_eq_left, hne, or_false]
    · by_cases he : r' = r
      · subst he
        simp only [setObject, Function.update_self, RunControl.stop]
        exact h.active r'
      · simp only [setObject, Function.update_of_ne he]
        exact h.active r'
    · rcases List.mem_append.mp hrun with hold | hnew
      · exact h.number run hold
      · rw [List.mem_singleton.mp hnew]
        exact h.running r n hn
    · rcases List.mem_append.mp hrun with hold | hnew
      · exact h.control run hold
      · rw [List.mem_singleton.mp hnew]
        exact hr
    · by_cases he : r' = r
      · subst he
        cases hn.symm.trans hm
        exact List.mem_append_right _ (List.mem_singleton.mpr rfl)
      · simp only [setObject, Function.update_of_ne he] at hset
        exact List.mem_append_left _ (hown r' m hm hset)
  · exact ⟨h, hown⟩

theorem Logged.finishes (h : s.Logged) (hown : s.StopsOwn) (r : Nat) :
    (s.step (.finishes r)).Logged ∧ (s.step (.finishes r)).StopsOwn := by
  simp only [FeishuRuns.step]
  split
  · have habort : ∀ r', (Function.update s.objects r { s.objects r with active := false } r').abort =
        (s.objects r').abort := by
      intro r'
      by_cases he : r' = r
      · subst he
        rw [Function.update_self]
      · rw [Function.update_of_ne he]
    refine ⟨⟨fun r' => ?_, fun r' => ?_, fun r' n hn => ?_, h.number, h.control, fun r' hr' => ?_,
      h.allocated⟩, fun r' n hn hset => ?_⟩
    · exact (iff_of_eq (congrArg (· = true) (habort r'))).trans (h.abort r')
    · by_cases he : r' = r
      · subst he
        simp [setObject]
      · simp only [setObject, Function.update_of_ne he]
        exact h.active r'
    · exact h.running r' n (update_none_eq_some.mp hn).2
    · by_cases he : r' = r
      · subst he
        exact Function.update_self ..
      · exact (Function.update_of_ne he ..).trans (h.fresh r' hr')
    · exact hown r' n (update_none_eq_some.mp hn).2 ((habort r').symm.trans hset)
  · exact ⟨h, hown⟩

theorem Logged.step (h : s.Logged) (hown : s.StopsOwn) {a : FeishuRunStep} (ha : s.Unstopped a) :
    (s.step a).Logged ∧ (s.step a).StopsOwn := by
  cases a with
  | starts sid =>
    obtain ⟨hlogged, hown', hlt⟩ := h.getRunControl hown sid
    have hclean : (s.getRunControl sid).1.inProgress (s.getRunControl sid).2 = none →
        ∀ run ∈ (s.getRunControl sid).1.stopped, run.control ≠ (s.getRunControl sid).2 := by
      rcases getRunControl_cases s sid with ⟨r, hr, he⟩ | ⟨-, he⟩
      · rw [he]
        exact ha r hr
      · rw [he]
        exact fun _ run hrun => Nat.ne_of_lt (h.control run hrun)
    exact hlogged.start hown' hlt hclean
  | finishes r => exact h.finishes hown r
  | stop sid =>
    obtain ⟨hlogged, hown', hlt⟩ := h.getRunControl hown sid
    exact hlogged.handleStop hown' hlt
  | cleans sid =>
    refine ⟨⟨h.abort, h.active, h.running, h.number, h.control, h.fresh, fun sid' r hr => ?_⟩, hown⟩
    exact h.allocated sid' r (update_none_eq_some.mp hr).2

/-- A step keeps the stops of Feishu runs to their own run exactly when it starts no run with a run
control that stopped another one. -/
theorem Logged.stopsOwn_step_iff (h : s.Logged) (hown : s.StopsOwn) (a : FeishuRunStep) :
    (s.step a).StopsOwn ↔ s.Unstopped a := by
  refine ⟨fun hnext => ?_, fun ha => (h.step hown ha).2⟩
  cases a with
  | starts sid =>
    intro r hr hfree run hrun hcontrol
    have hget : s.getRunControl sid = (s, r) := by
      rw [FeishuRuns.getRunControl, show s.controls sid = some r from hr]
    rw [FeishuRuns.step, hget] at hnext
    exact h.not_stopsOwn hfree ⟨run, hrun, hcontrol⟩ hnext
  | finishes r => trivial
  | stop sid => trivial
  | cleans sid => trivial

theorem start_logged : ({} : FeishuRuns).Logged where
  abort _ := ⟨fun h => (by cases h), fun ⟨_, h, _⟩ => (by cases h)⟩
  active _ := rfl
  running _ _ h := by cases h
  number _ h := by cases h
  control _ h := by cases h
  fresh _ _ := rfl
  allocated _ _ h := by cases h

theorem stopsOwn_iff (steps : List FeishuRunStep) :
    Along step (fun s a => (s.step a).StopsOwn) {} steps ↔ Along step Unstopped {} steps :=
  along_iff_of_invariant (I := fun s => Logged s ∧ StopsOwn s)
    (fun _ a h => h.1.stopsOwn_step_iff h.2 a) (fun _ _ h ha => h.1.step h.2 ha)
    ⟨start_logged, fun _ _ h => by cases h⟩

end

end FeishuRuns

end PyClaw
