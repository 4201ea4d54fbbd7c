import Mathlib.Logic.Function.Basic
import PyClaw.Lib.Machine

/-!
# Lib.Tasks

Tasks that share a state. A task is the list of the commands it still has to run; running the first
one changes the state and puts what follows from its answer in front of the rest, so another task
may run between any two commands. An invariant of such a system has two parts, one about the state
and one about each command that is still to run (`Tasks.Holds`); both are kept as soon as every
command keeps them (`TaskSystem.holds_runs`).
-/

namespace PyClaw

/-- The shared state, and in each slot the task that runs there. -/
structure Tasks (σ κ : Type) where
  state : σ
  pending : Nat → List κ := fun _ => []

inductive TaskStep (ω α : Type) where
  /-- An operation begins in a slot that is free. -/
  | starts (slot : Nat) (op : ω)
  /-- The task runs its next command, which gets this answer. -/
  | runs (slot : Nat) (answer : α)
  /-- The task ends without the rest of its commands. -/
  | stops (slot : Nat)
  deriving DecidableEq, Repr

def TaskStep.slot {ω α : Type} : TaskStep ω α → Nat
  | .starts slot _ | .runs slot _ | .stops slot => slot

structure TaskSystem (σ ω κ α : Type) where
  program : ω → List κ
  /-- The state after a command, and what the task does next because of it. -/
  exec : σ → κ → α → σ × List κ

namespace Tasks

variable {σ κ : Type} (t : Tasks σ κ)

def put (slot : Nat) (cs : List κ) : Tasks σ κ :=
  { t with pending := Function.update t.pending slot cs }

def Pending (c : κ) : Prop := ∃ slot, c ∈ t.pending slot

/-- No task has anything left to do. -/
def Quiet : Prop := ∀ slot, t.pending slot = []

/-- `I` holds of the state, and `L` of each command that is still to run. -/
structure Holds (I : σ → Prop) (L : σ → κ → Prop) : Prop where
  state : I t.state
  pending : ∀ c, t.Pending c → L t.state c

/-- The condition `C` on the command that the step runs, if it runs one. -/
def OnRun {ω α : Type} (C : σ → κ → α → Prop) (t : Tasks σ κ) : TaskStep ω α → Prop
  | .runs slot answer => ∀ c ∈ (t.pending slot).head?, C t.state c answer
  | _ => True

instance {ω α : Type} (C : σ → κ → α → Prop) [∀ s c answer, Decidable (C s c answer)]
    (a : TaskStep ω α) : Decidable (t.OnRun C a) :=
  match a with
  | .runs slot answer => inferInstanceAs (Decidable (∀ c ∈ (t.pending slot).head?, C t.state c answer))
  | .starts .. | .stops _ => .isTrue trivial

variable {t}

@[simp] theorem put_state (slot : Nat) (cs : List κ) : (t.put slot cs).state = t.state := rfl

@[simp] theorem put_pending_self (slot : Nat) (cs : List κ) : (t.put slot cs).pending slot = cs :=
  Function.update_self ..

theorem put_pending_ne {slot i : Nat} (cs : List κ) (h : i ≠ slot) :
    (t.put slot cs).pending i = t.pending i :=
  Function.update_of_ne h ..

theorem Quiet.not_pending (h : t.Quiet) (c : κ) : ¬ t.Pending c := by
  rintro ⟨slot, hc⟩
  rw [h slot] at hc
  cases hc

theorem pending_of_cons {slot : Nat} {c : κ} {cs : List κ} (h : t.pending slot = c :: cs) :
    t.Pending c :=
  ⟨slot, by rw [h]; exact List.mem_cons_self⟩

theorem Pending.below {n : Nat} {c : κ} (h : t.Pending c) (hfree : ∀ i, n ≤ i → t.pending i = []) :
    ∃ slot < n, c ∈ t.pending slot := by
  obtain ⟨slot, hc⟩ := h
  refine ⟨slot, ?_, hc⟩
  by_cases hslot : slot < n
  · exact hslot
  · rw [hfree slot (Nat.le_of_not_lt hslot)] at hc
    cases hc

theorem pending_put {slot : Nat} {cs : List κ} {c : κ} (h : (t.put slot cs).Pending c) :
    c ∈ cs ∨ t.Pending c := by
  obtain ⟨i, hi⟩ := h
  by_cases he : i = slot
  · rw [he, put_pending_self] at hi
    exact .inl hi
  · rw [put_pending_ne cs he] at hi
    exact .inr ⟨i, hi⟩

theorem pending_put_of_mem {slot : Nat} {cs : List κ} {c : κ} (h : c ∈ cs) :
    (t.put slot cs).Pending c :=
  ⟨slot, by simpa using h⟩

/-- What another slot has to do, or what is put back, stays to be done. -/
theorem Pending.put {c : κ} (h : t.Pending c) {slot : Nat} {cs : List κ}
    (hkept : c ∈ t.pending slot → c ∈ cs) : (t.put slot cs).Pending c := by
  obtain ⟨i, hi⟩ := h
  by_cases he : i = slot
  · exact pending_put_of_mem (hkept (he ▸ hi))
  · refine ⟨i, ?_⟩
    rw [put_pending_ne cs he]
    exact hi

end Tasks

namespace TaskSystem

variable {σ ω κ α : Type} (T : TaskSystem σ ω κ α)

/-- A step that the slot is not ready for changes nothing. -/
def step (t : Tasks σ κ) : TaskStep ω α → Tasks σ κ
  | .starts slot op =>
    match t.pending slot with
    | [] => t.put slot (T.program op)
    | _ :: _ => t
  | .runs slot answer =>
    match t.pending slot with
    | [] => t
    | c :: cs =>
      let r := T.exec t.state c answer
      { t.put slot (r.2 ++ cs) with state := r.1 }
  | .stops slot => t.put slot []

variable {T} {t : Tasks σ κ} {slot : Nat} {answer : α} {I : σ → Prop} {L : σ → κ → Prop}

/-! ## Steps -/

theorem step_runs_cons {c : κ} {cs : List κ} (h : t.pending slot = c :: cs) :
    T.step t (.runs slot answer) =
      { t.put slot ((T.exec t.state c answer).2 ++ cs) with
        state := (T.exec t.state c answer).1 } := by
  simp only [step, h]

theorem state_runs {c : κ} {cs : List κ} (h : t.pending slot = c :: cs) :
    (T.step t (.runs slot answer)).state = (T.exec t.state c answer).1 := by
  rw [step_runs_cons h]

/-- A step runs nothing, or it runs the first command of a slot. -/
theorem runs_cases (t : Tasks σ κ) (slot : Nat) (answer : α) :
    T.step t (.runs slot answer) = t ∨ ∃ c cs, t.pending slot = c :: cs := by
  cases h : t.pending slot with
  | nil =>
    left
    simp only [step, h]
  | cons c cs => exact .inr ⟨c, cs, rfl⟩

theorem pending_runs {c c' : κ} {cs : List κ} (h : t.pending slot = c :: cs)
    (hc' : (T.step t (.runs slot answer)).Pending c') :
    c' ∈ (T.exec t.state c answer).2 ∨ t.Pending c' := by
  rw [step_runs_cons h] at hc'
  rcases Tasks.pending_put (t := t) hc' with hmem | hpending
  · rcases List.mem_append.mp hmem with hnew | hrest
    · exact .inl hnew
    · exact .inr ⟨slot, by rw [h]; exact List.mem_cons_of_mem _ hrest⟩
  · exact .inr hpending

/-- Running a command leaves every other one to run. -/
theorem Pending.runs {c c' : κ} {cs : List κ} (hpending : t.Pending c') (h : t.pending slot = c :: cs)
    (hne : c' ≠ c) : (T.step t (.runs slot answer)).Pending c' := by
  rw [step_runs_cons h]
  refine hpending.put (t := t) fun hmem => ?_
  rw [h] at hmem
  exact List.mem_append_right _ ((List.mem_cons.mp hmem).resolve_left hne)

theorem pending_of_exec {c c' : κ} {cs : List κ} (h : t.pending slot = c :: cs)
    (hnew : c' ∈ (T.exec t.state c answer).2) : (T.step t (.runs slot answer)).Pending c' := by
  rw [step_runs_cons h]
  exact Tasks.pending_put_of_mem (t := t) (List.mem_append_left _ hnew)

theorem pending_starts {op : ω} {c : κ} (h : (T.step t (.starts slot op)).Pending c) :
    c ∈ T.program op ∨ t.Pending c := by
  simp only [step] at h
  split at h
  · exact Tasks.pending_put h
  · exact .inr h

theorem Pending.starts {op : ω} {c : κ} (h : t.Pending c) :
    (T.step t (.starts slot op)).Pending c := by
  simp only [step]
  split
  · rename_i hfree
    refine h.put fun hmem => ?_
    rw [hfree] at hmem
    cases hmem
  · exact h

theorem state_starts {op : ω} : (T.step t (.starts slot op)).state = t.state := by
  simp only [step]
  split <;> rfl

theorem pending_starts_self {op : ω} (h : t.pending slot = []) :
    (T.step t (.starts slot op)).pending slot = T.program op := by
  simp only [step, h]
  exact Tasks.put_pending_self _ _

/-- A task that has one command left goes on with what follows from it. -/
theorem runs_singleton {c : κ} (h : t.pending slot = [c]) :
    (T.step t (.runs slot answer)).state = (T.exec t.state c answer).1 ∧
      (T.step t (.runs slot answer)).pending slot = (T.exec t.state c answer).2 := by
  refine ⟨state_runs h, ?_⟩
  rw [step_runs_cons h, List.append_nil]
  exact Tasks.put_pending_self (t := t) _ _

theorem step_runs_nil (h : t.pending slot = []) : T.step t (.runs slot answer) = t := by
  simp only [step, h]

theorem pending_stops {c : κ} (h : (T.step t (.stops slot)).Pending c) : t.Pending c :=
  (Tasks.pending_put h).resolve_left (by simp)

theorem pending_step_ne {a : TaskStep ω α} {i : Nat} (h : i ≠ a.slot) :
    (T.step t a).pending i = t.pending i := by
  cases a with
  | starts slot op =>
    simp only [step]
    split
    · exact Tasks.put_pending_ne _ h
    · rfl
  | runs slot answer =>
    rcases runs_cases (T := T) t slot answer with hsame | ⟨c, cs, hcons⟩
    · rw [hsame]
    · rw [step_runs_cons hcons]
      exact Tasks.put_pending_ne (t := t) _ h
  | stops slot => exact Tasks.put_pending_ne _ h

/-- A run is quiet at its end if the slots that its steps are about are. -/
theorem quiet_of_slots {n : Nat} {steps : List (TaskStep ω α)} (ht : ∀ i, n ≤ i → t.pending i = [])
    (hslots : ∀ a ∈ steps, a.slot < n)
    (hdone : ∀ i < n, (runFrom T.step t steps).pending i = []) :
    (runFrom T.step t steps).Quiet := by
  induction steps generalizing t with
  | nil =>
    intro i
    by_cases hi : i < n
    · exact hdone i hi
    · exact ht i (Nat.le_of_not_lt hi)
  | cons a steps ih =>
    refine ih (fun i hi => ?_) (fun b hb => hslots b (List.mem_cons_of_mem _ hb)) hdone
    have hslot := hslots a List.mem_cons_self
    rw [pending_step_ne (by omega)]
    exact ht i hi

/-! ## Invariants -/

theorem holds_starts (h : t.Holds I L) {op : ω} (hnew : ∀ c ∈ T.program op, L t.state c) :
    (T.step t (.starts slot op)).Holds I L where
  state := by
    rw [state_starts]
    exact h.state
  pending c hc := by
    rw [state_starts]
    rcases pending_starts hc with hmem | hpending
    · exact hnew c hmem
    · exact h.pending c hpending

theorem holds_stops (h : t.Holds I L) : (T.step t (.stops slot)).Holds I L where
  state := h.state
  pending c hc := h.pending c (pending_stops hc)

/-- The command keeps `I`, what it adds to the task has `L`, and so has what was to run before. -/
theorem holds_runs (h : t.Holds I L)
    (hstep : ∀ c, t.Pending c → (t.pending slot).head? = some c →
      I (T.exec t.state c answer).1 ∧
        (∀ c' ∈ (T.exec t.state c answer).2, L (T.exec t.state c answer).1 c') ∧
          ∀ c', t.Pending c' → L (T.exec t.state c answer).1 c') :
    (T.step t (.runs slot answer)).Holds I L := by
  rcases runs_cases (T := T) t slot answer with hsame | ⟨c, cs, hcons⟩
  · rw [hsame]
    exact h
  · obtain ⟨hstate, hnew, hold⟩ := hstep c (Tasks.pending_of_cons hcons) (by rw [hcons]; rfl)
    refine ⟨by rw [state_runs hcons]; exact hstate, fun c' hc' => ?_⟩
    rw [state_runs hcons]
    rcases pending_runs hcons hc' with hmem | hbefore
    · exact hnew c' hmem
    · exact hold c' hbefore

/-- Commands that keep the invariant and meet `D` when they meet `C` make runs that do so. -/
theorem along_of_exec {C D : σ → κ → α → Prop} (hprogram : ∀ s op, ∀ c ∈ T.program op, L s c)
    (hexec : ∀ s c answer, I s → L s c → C s c answer → D s c answer ∧
      I (T.exec s c answer).1 ∧ (∀ c' ∈ (T.exec s c answer).2, L (T.exec s c answer).1 c') ∧
        ∀ c', L s c' → L (T.exec s c answer).1 c')
    (h : t.Holds I L) {steps : List (TaskStep ω α)}
    (hsteps : Along T.step (Tasks.OnRun C) t steps) : Along T.step (Tasks.OnRun D) t steps := by
  refine Along.of_invariant (I := fun t => Tasks.Holds t I L) (fun t a ht hmet => ?_) h hsteps
  cases a with
  | starts slot op => exact ⟨holds_starts ht (hprogram _ _), trivial⟩
  | runs slot answer =>
    refine ⟨holds_runs ht fun c hpending hhead => ?_, fun c hhead => ?_⟩
    · obtain ⟨-, hstate, hnew, hold⟩ :=
        hexec t.state c answer ht.state (ht.pending c hpending) (hmet c hhead)
      exact ⟨hstate, hnew, fun c' hc' => hold c' (ht.pending c' hc')⟩
    · have hpending : t.Pending c := ⟨slot, List.mem_of_mem_head? hhead⟩
      exact (hexec t.state c answer ht.state (ht.pending c hpending) (hmet c hhead)).1
  | stops slot => exact ⟨holds_stops ht, trivial⟩

/-- What a command with `L` keeps exactly under `C`, a run keeps exactly when its commands meet `C`. -/
theorem along_iff_of_holds {C : σ → κ → α → Prop} (hprogram : ∀ s op, ∀ c ∈ T.program op, L s c)
    (hexec : ∀ s c answer, I s → L s c → (I (T.exec s c answer).1 ↔ C s c answer))
    (hlocal : ∀ s c answer, I s → L s c → (∀ c' ∈ (T.exec s c answer).2, L (T.exec s c answer).1 c') ∧
      ∀ c', L s c' → L (T.exec s c answer).1 c')
    (h : t.Holds I L) (steps : List (TaskStep ω α)) :
    Along T.step (fun t a => I (T.step t a).state) t steps ↔
      Along T.step (Tasks.OnRun C) t steps := by
  have hiff : ∀ t a, Tasks.Holds t I L → (I (T.step t a).state ↔ Tasks.OnRun C t a) := by
    intro t a ht
    cases a with
    | starts slot op =>
      rw [state_starts]
      exact iff_of_true ht.state trivial
    | runs slot answer =>
      cases hslot : t.pending slot with
      | nil => simpa [step, hslot, Tasks.OnRun] using ht.state
      | cons c cs =>
        have hc := ht.pending c (Tasks.pending_of_cons hslot)
        rw [state_runs hslot, hexec t.state c answer ht.state hc]
        simp [Tasks.OnRun, hslot]
    | stops slot => exact iff_of_true ht.state trivial
  refine along_iff_of_invariant hiff (fun t a ht hmet => ?_) h
  cases a with
  | starts slot op => exact holds_starts ht (hprogram _ _)
  | runs slot answer =>
    refine holds_runs ht fun c hpending hhead => ?_
    have hc := ht.pending c hpending
    obtain ⟨hnew, hold⟩ := hlocal t.state c answer ht.state hc
    exact ⟨(hexec t.state c answer ht.state hc).mpr (hmet c hhead), hnew,
      fun c' hc' => hold c' (ht.pending c' hc')⟩
  | stops slot => exact holds_stops ht

/-- What a command keeps exactly under `C`, a run keeps exactly when its commands meet `C`. -/
theorem along_iff {P : σ → Prop} {C : σ → κ → α → Prop}
    (hexec : ∀ s c answer, P s → (P (T.exec s c answer).1 ↔ C s c answer)) (hP : P t.state)
    (steps : List (TaskStep ω α)) :
    Along T.step (fun t a => P (T.step t a).state) t steps ↔
      Along T.step (Tasks.OnRun C) t steps :=
  along_iff_of_holds (L := fun _ _ => True) (fun _ _ _ _ => trivial)
    (fun s c answer h _ => hexec s c answer h) (fun _ _ _ _ _ => ⟨fun _ _ => trivial, fun _ _ => trivial⟩)
    ⟨hP, fun _ _ => trivial⟩ steps

end TaskSystem

end PyClaw
