import PyClaw.Curator.Guards

/-!
# Curator.Graduation

Graduation writes a skill file and then marks the row, and a `SKILL.md` that exists is the reason to
skip an entry. So a mark that is lost is lost for good: `consistent_of_undisturbed` is about the runs
in which every mark is made once its file is written, and no later write takes it back.
-/

namespace PyClaw

/-- The mark that is given up because the lock is lost. -/
def LifecycleCommand.givesUp (answer : LifecycleAnswer) : LifecycleCommand → Bool
  | .markPromoted .. => !answer.alive
  | _ => false

/-- The ids of the rows that a command archives or restores whatever their status is. -/
def LifecycleCommand.overwrites {V : Type} (cfg : LifecycleConfig V) (answer : LifecycleAnswer) :
    LifecycleCommand → List String
  | .archiveStale _ rows => rows.map Prod.fst
  | .decide rows (d :: _) =>
    match cfg.reviewAction rows d with
    | .archive r => if answer.alive then [r.1] else []
    | _ => []
  | .restoreRow id => [id]
  | _ => []

namespace LifecycleState

variable {V : Type} (cfg : LifecycleConfig V) (s : LifecycleState V)

def Graduated (id : String) : Prop :=
  (s.db.procedures.get? id).map ProcedureRow.status = some "graduated"

instance (id : String) : Decidable (s.Graduated id) := inferInstanceAs (Decidable (_ = _))

/-- The entries whose skill file graduation has written are those that are marked as graduated. -/
def Consistent : Prop :=
  (∀ id ∈ s.written, s.Graduated id) ∧
    ∀ r ∈ s.db.procedures.items, r.2.status = "graduated" → r.1 ∈ s.written

instance : Decidable s.Consistent := inferInstanceAs (Decidable (_ ∧ _))

variable {cfg s} {c c' : LifecycleCommand} {answer : LifecycleAnswer} {id : String}
  {row row' : ProcedureRow}

theorem graduated_iff :
    s.Graduated id ↔ ∃ row, s.db.procedures.get? id = some row ∧ row.status = "graduated" :=
  Option.map_eq_some_iff

/-! ## Marks -/

theorem Effect.graduated_kept (h : s.Effect cfg answer c id row row')
    (hrow : row.status = "graduated") (hid : id ∉ c.overwrites cfg answer) :
    row'.status = "graduated" := by
  cases h with
  | kept => exact hrow
  | used => exact hrow
  | forgotten _ hactive => simp [hrow] at hactive
  | scanned _ hr => exact absurd (List.mem_map_of_mem hr) hid
  | graduated => rfl
  | promoted => rfl
  | reviewed _ halive haction => simp [LifecycleCommand.overwrites, halive, haction] at hid
  | restored => simp [LifecycleCommand.overwrites] at hid
  | restoredMatching harchived => simp [hrow] at harchived

theorem Graduated.run (h : s.Graduated id) (hfresh : s.Fresh c)
    (hid : id ∉ c.overwrites cfg answer) : (s.run cfg c answer).1.Graduated id := by
  obtain ⟨row, hrow, hstatus⟩ := graduated_iff.mp h
  exact graduated_iff.mpr ⟨_, row_of_run hfresh hrow,
    (effect_change cfg s c answer id row).graduated_kept hstatus hid⟩

/-- A row becomes graduated by its mark only. -/
theorem Effect.marked (h : s.Effect cfg answer c id row row') (hrow' : row'.status = "graduated") :
    row.status = "graduated" ∨ ∃ r, c.marks = some r ∧ r.1 = id := by
  cases h with
  | kept => exact .inl hrow'
  | used => exact .inl hrow'
  | graduated => exact .inr ⟨_, rfl, rfl⟩
  | promoted => exact .inr ⟨_, rfl, rfl⟩
  | forgotten => simp [ProcedureRow.archive] at hrow'
  | scanned => simp [ProcedureRow.archive] at hrow'
  | reviewed => simp [ProcedureRow.archive] at hrow'
  | restored => simp [ProcedureRow.restore] at hrow'
  | restoredMatching => simp [ProcedureRow.restore] at hrow'

theorem marked_of_graduated (hfresh : s.Fresh c) (h : (s.run cfg c answer).1.Graduated id) :
    s.Graduated id ∨ ∃ r, c.marks = some r ∧ r.1 = id := by
  obtain ⟨row, hrow, hstatus⟩ := graduated_iff.mp h
  rcases rows_of_run hfresh hrow with ⟨old, hold, rfl⟩ | ⟨key, e, -, -, rfl, hactive⟩
  · exact ((effect_change cfg s c answer id old).marked hstatus).imp_left
      fun hgraduated => graduated_iff.mpr ⟨old, hold, hgraduated⟩
  · simp [MemoryEntry.newRow, hactive] at hstatus

theorem carries_of_marks {r : SelectedRow} (h : s.Selected cfg c) (hmarks : c.marks = some r) :
    s.Carries r := by
  cases c with
  | markGraduated path r' =>
    obtain rfl : r' = r := Option.some.inj hmarks
    exact SelectedFor.carries h
  | markPromoted r' rows rest =>
    obtain rfl : r' = r := Option.some.inj hmarks
    exact (h.2 r' h.1).carries
  | _ => cases hmarks

theorem graduated_of_marks {r : SelectedRow} (h : s.Selected cfg c) (hmarks : c.marks = some r)
    (halive : c.givesUp answer = false) : (s.run cfg c answer).1.Graduated r.1 := by
  obtain ⟨row, hrow, -⟩ := carries_of_marks h hmarks
  have hchange : s.change cfg c answer r.1 row = row.graduate := by
    cases c with
    | markGraduated path r' =>
      obtain rfl : r' = r := Option.some.inj hmarks
      simp [change]
    | markPromoted r' rows rest =>
      obtain rfl : r' = r := Option.some.inj hmarks
      have : answer.alive = true := by simpa [LifecycleCommand.givesUp] using halive
      simp [change, this]
    | _ => cases hmarks
  have hfresh : s.Fresh c := by
    cases c with
    | storeRow => cases hmarks
    | _ => trivial
  refine graduated_iff.mpr ⟨_, row_of_run hfresh hrow, ?_⟩
  rw [hchange]
  rfl

/-! ## Skill files -/

/-- An entry whose file is written was written before, or its mark follows. -/
theorem written_run (h : id ∈ (s.run cfg c answer).1.written) :
    id ∈ s.written ∨ ∃ c' ∈ (s.run cfg c answer).2, ∃ r, c'.marks = some r ∧ r.1 = id := by
  rcases run_cases cfg s c answer with
    ⟨db, changes, hrun, -⟩ | ⟨key, e, -, hrun⟩ | ⟨key, x, -, hrun⟩ | ⟨r, dir, hrun, -, c', hc', hmarks⟩ <;>
    rw [hrun] at h
  · exact .inl h
  · exact .inl h
  · exact .inl h
  · rcases List.mem_cons.mp h with rfl | hold
    · exact .inr ⟨c', hc', r, hmarks, rfl⟩
    · exact .inl hold

theorem written_mono (h : id ∈ s.written) : id ∈ (s.run cfg c answer).1.written := by
  rcases run_cases cfg s c answer with
    ⟨db, changes, hrun, -⟩ | ⟨key, e, -, hrun⟩ | ⟨key, x, -, hrun⟩ | ⟨r, dir, hrun, -, -⟩ <;> rw [hrun]
  · exact h
  · exact h
  · exact h
  · exact List.mem_cons_of_mem _ h

theorem written_of_follows {r : SelectedRow} (hfollows : s.Follows cfg answer c c')
    (hmarks : c'.marks = some r) : r.1 ∈ (s.run cfg c answer).1.written := by
  cases hfollows with
  | written hdir =>
    obtain rfl := Option.some.inj hmarks
    simp [LifecycleState.run, hdir, writeSkill]
  | promotes haction hdir =>
    obtain rfl := Option.some.inj hmarks
    simp [LifecycleState.run, LifecycleState.decide, haction, hdir, writeSkill]
  | _ => cases hmarks

/-! ## Runs -/

/-- No task ends or gives up between a skill file and its mark, and no mark is overwritten. -/
def Undisturbed (cfg : LifecycleConfig V) (t : Tasks (LifecycleState V) LifecycleCommand) :
    TaskStep LifecycleOp LifecycleAnswer → Prop
  | .starts .. => True
  | .runs slot answer => ∀ c ∈ (t.pending slot).head?, t.state.Fresh c ∧ c.givesUp answer = false ∧
      ∀ id ∈ c.overwrites cfg answer, ¬ t.state.Graduated id
  | .stops slot => ∀ c ∈ t.pending slot, c.marks.isNone = true

instance (t : Tasks (LifecycleState V) LifecycleCommand) (a : TaskStep LifecycleOp LifecycleAnswer) :
    Decidable (Undisturbed cfg t a) :=
  match a with
  | .starts .. => .isTrue trivial
  | .runs slot _ => inferInstanceAs (Decidable (∀ c ∈ (t.pending slot).head?, _ ∧ _ ∧ _))
  | .stops slot => inferInstanceAs (Decidable (∀ c ∈ t.pending slot, _))

/-- An entry whose file is written is graduated or about to be marked, and no other entry is. -/
structure Recorded (cfg : LifecycleConfig V) (t : Tasks (LifecycleState V) LifecycleCommand) :
    Prop where
  selected : ∀ c, t.Pending c → t.state.Selected cfg c
  written : ∀ id ∈ t.state.written,
    t.state.Graduated id ∨ ∃ c r, t.Pending c ∧ c.marks = some r ∧ r.1 = id
  marks : ∀ c r, t.Pending c → c.marks = some r → r.1 ∈ t.state.written
  graduated : ∀ id, t.state.Graduated id → id ∈ t.state.written

variable {t : Tasks (LifecycleState V) LifecycleCommand} {slot : Nat}

theorem marks_program {op : LifecycleOp} (hc : c ∈ lifecycleProgram op) : c.marks = none := by
  cases op <;> exact List.mem_singleton.mp hc ▸ rfl

theorem Recorded.starts (h : Recorded cfg t) {op : LifecycleOp} :
    Recorded cfg ((lifecycle cfg).step t (.starts slot op)) := by
  have hmarks : ∀ c r, ((lifecycle cfg).step t (.starts slot op)).Pending c → c.marks = some r →
      t.Pending c := by
    intro c r hc hr
    refine (TaskSystem.pending_starts hc).resolve_left fun hmem => ?_
    simp [marks_program hmem] at hr
  refine ⟨fun c hc => ?_, fun id hid => ?_, fun c r hc hr => ?_, fun id hid => ?_⟩ <;>
    rw [TaskSystem.state_starts] at *
  · rcases TaskSystem.pending_starts hc with hmem | hpending
    · exact selected_program hmem
    · exact h.selected c hpending
  · rcases h.written id hid with hgraduated | ⟨c, r, hpending, hrest⟩
    · exact .inl hgraduated
    · exact .inr ⟨c, r, TaskSystem.Pending.starts hpending, hrest⟩
  · exact h.marks c r (hmarks c r hc hr) hr
  · exact h.graduated id hid

theorem Recorded.stops (h : Recorded cfg t) (hnone : Undisturbed cfg t (.stops slot)) :
    Recorded cfg ((lifecycle cfg).step t (.stops slot)) where
  selected c hc := h.selected c (TaskSystem.pending_stops hc)
  written id hid := by
    rcases h.written id hid with hgraduated | ⟨c, r, hpending, hr, hid⟩
    · exact .inl hgraduated
    · refine .inr ⟨c, r, hpending.put fun hmem => ?_, hr, hid⟩
      have := hnone c hmem
      simp [hr] at this
  marks c r hc hr := h.marks c r (TaskSystem.pending_stops hc) hr
  graduated := h.graduated

theorem Recorded.runs (h : Recorded cfg t) (hsteady : Undisturbed cfg t (.runs slot answer)) :
    Recorded cfg ((lifecycle cfg).step t (.runs slot answer)) := by
  rcases TaskSystem.runs_cases (T := lifecycle cfg) t slot answer with hsame | ⟨c, cs, hcons⟩
  · rw [hsame]
    exact h
  obtain ⟨hfresh, halive, hover⟩ := hsteady c (by rw [hcons]; rfl)
  have hpending := Tasks.pending_of_cons hcons
  let s := t.state.pass answer.elapsed
  have hlater : ∀ c, t.Pending c → s.Selected cfg c := fun c hc =>
    (h.selected c hc).pass answer.elapsed
  have hstate : ((lifecycle cfg).step t (.runs slot answer)).state = (s.run cfg c answer).1 :=
    TaskSystem.state_runs hcons
  refine ⟨fun c' hc' => ?_, fun id hid => ?_, fun c' r hc' hr => ?_, fun id hid => ?_⟩ <;>
    rw [hstate] at *
  · rcases TaskSystem.pending_runs hcons hc' with hnew | hold
    · exact (selected_of_follows (follows_of_mem hnew) (hlater c hpending)).run hfresh
    · exact (hlater c' hold).run hfresh
  · rcases written_run hid with hold | ⟨c', hc', r, hr, hid⟩
    · rcases h.written id hold with hgraduated | ⟨c', r, hc', hr, rfl⟩
      · exact .inl (Graduated.run (s := s) hgraduated hfresh fun hmem => hover id hmem hgraduated)
      · by_cases hsame : c' = c
        · subst hsame
          exact .inl (graduated_of_marks (hlater c' hpending) hr halive)
        · exact .inr ⟨c', r, TaskSystem.Pending.runs hc' hcons hsame, hr, rfl⟩
    · exact .inr ⟨c', r, TaskSystem.pending_of_exec hcons hc', hr, hid⟩
  · rcases TaskSystem.pending_runs hcons hc' with hnew | hold
    · exact written_of_follows (follows_of_mem hnew) hr
    · exact written_mono (s := s) (h.marks c' r hold hr)
  · rcases marked_of_graduated (s := s) hfresh hid with hbefore | ⟨r, hr, rfl⟩
    · exact written_mono (s := s) (h.graduated id hbefore)
    · exact written_mono (s := s) (h.marks c r hpending hr)

/-- A procedure that may graduate. -/
def maturedDatabase : LifecycleState Unit :=
  let row : ProcedureRow :=
    { sessionKey := "web:alice:c1", type := "auto_sop", content := "deploy-app\nDeploys it.\n1. Push."
      sourceSessionId := none, createdAt := 0, updatedAt := 0
      lastUsedAt := some (99 * microsPerDay), useCount := 5, status := "active" }
  { db := { procedures := Dict.empty.set "a" row }, now := 100 * microsPerDay }

end LifecycleState

end PyClaw
