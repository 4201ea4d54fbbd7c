import PyClaw.Curator.Changes
import PyClaw.Memory.Isolation

/-!
# Curator.Guards

The guards of the status changes. A scan, a graduation and a review write by id what they decided on
rows they read before, and `restore_sop` writes by id after a count; `guarded_of_unraced` is about
the runs in which such a write finds the row as it was read. The rest of what a guard says is about
columns that no command changes, a count that no command lowers, and a time that only grows.
-/

namespace PyClaw

/-- The time as of which a path selects by age has come. -/
def GraduationPath.Before (now : Int) : GraduationPath → Prop
  | .scan selectedAt | .cli selectedAt => selectedAt ≤ now
  | .review | .cliTarget => True

/-- The path with the thresholds of another time. -/
def GraduationPath.asOf (now : Int) : GraduationPath → GraduationPath
  | .scan _ => .scan now
  | .cli _ => .cli now
  | .review => .review
  | .cliTarget => .cliTarget

/-- The guard of a status change by the command; no other command makes one. -/
def LifecycleConfig.guard {V : Type} (cfg : LifecycleConfig V) (now : Int) (c : LifecycleCommand)
    (row : ProcedureRow) : Bool :=
  match c with
  | .archiveEntry .. => row.status = "active"
  | .archiveStale .. => cfg.isStale now row
  | .markGraduated path _ => cfg.isCandidate (path.asOf now) row
  | .markPromoted .. | .decide .. => cfg.isCandidate .review row
  | .restoreRow _ | .restoreMatching _ => row.status = "archived"
  | _ => false

def legalChanges : List (String × String) :=
  [("active", "archived"), ("active", "graduated"), ("archived", "active")]

def ProcedureRow.ArchivedAtSet (row : ProcedureRow) : Prop :=
  row.archivedAt.isSome ↔ row.status = "archived"

instance (row : ProcedureRow) : Decidable row.ArchivedAtSet := inferInstanceAs (Decidable (_ ↔ _))

namespace LifecycleState

variable {V : Type} (cfg : LifecycleConfig V) (s : LifecycleState V)

def ArchivedAtSet : Prop := ∀ r ∈ s.db.procedures.items, r.2.ArchivedAtSet

instance : Decidable s.ArchivedAtSet := inferInstanceAs (Decidable (∀ r ∈ _, _))

/-- What a command may do to the statuses at the time of the state. -/
def Guarded (c : LifecycleCommand) (answer : LifecycleAnswer) : Prop :=
  (∀ r ∈ s.db.procedures.items, ∀ row ∈ (s.run cfg c answer).1.db.procedures.get? r.1,
    row.status ≠ r.2.status →
      (r.2.status, row.status) ∈ legalChanges ∧ cfg.guard s.now c r.2 = true) ∧
    (s.run cfg c answer).1.ArchivedAtSet

instance (c : LifecycleCommand) (answer : LifecycleAnswer) : Decidable (s.Guarded cfg c answer) :=
  inferInstanceAs (Decidable (_ ∧ _))

/-! ## Races -/

/-- The row has the status with which it was read, or already the one to be written. -/
def StatusKept (written : String) (r : SelectedRow) : Prop :=
  ∀ row ∈ s.db.procedures.get? r.1, row.status = written ∨ row.status = r.2.status

instance (written : String) (r : SelectedRow) : Decidable (s.StatusKept written r) :=
  inferInstanceAs (Decidable (∀ row ∈ _, _))

/-- What the scan archives has neither changed its status nor been used since it was read. -/
def ScanUnraced (rows : List SelectedRow) : Prop :=
  ∀ r ∈ rows, ∀ row ∈ s.db.procedures.get? r.1,
    row.status = "archived" ∨ row.status = r.2.status ∧ row.lastUsedAt = r.2.lastUsedAt

instance (rows : List SelectedRow) : Decidable (s.ScanUnraced rows) :=
  inferInstanceAs (Decidable (∀ r ∈ rows, ∀ row ∈ s.db.procedures.get? r.1, _ ∨ _ ∧ _))

/-- `restore_sop` restores a row that is archived still, or active already. -/
def RestoreUnraced (id : String) : Prop :=
  ∀ row ∈ s.db.procedures.get? id, row.status = "active" ∨ row.status = "archived"

instance (id : String) : Decidable (s.RestoreUnraced id) :=
  inferInstanceAs (Decidable (∀ row ∈ s.db.procedures.get? id, _ ∨ _))

/-- What the review archives has the status with which it was read. -/
def DecisionUnraced (answer : LifecycleAnswer) : LifecycleConfig.ReviewAction → Prop
  | .archive r => answer.alive = true → s.StatusKept "archived" r
  | .keep | .promote _ => True

instance (answer : LifecycleAnswer) (action : LifecycleConfig.ReviewAction) :
    Decidable (s.DecisionUnraced answer action) :=
  match action with
  | .archive _ => inferInstanceAs (Decidable (_ → _))
  | .keep | .promote _ => .isTrue trivial

/-- A write by id finds the row as its task has read it. -/
def Unraced (c : LifecycleCommand) (answer : LifecycleAnswer) : Prop :=
  match c with
  | .storeRow .. => s.Fresh c
  | .archiveStale _ rows => s.ScanUnraced rows
  | .markGraduated _ r => s.StatusKept "graduated" r
  | .markPromoted r _ _ => answer.alive = true → s.StatusKept "graduated" r
  | .decide rows (d :: _) => s.DecisionUnraced answer (cfg.reviewAction rows d)
  | .restoreRow id => s.RestoreUnraced id
  | _ => True

instance (c : LifecycleCommand) (answer : LifecycleAnswer) : Decidable (s.Unraced cfg c answer) :=
  match c with
  | .storeRow key e => inferInstanceAs (Decidable (s.Fresh (.storeRow key e)))
  | .archiveStale _ rows => inferInstanceAs (Decidable (s.ScanUnraced rows))
  | .markGraduated _ r => inferInstanceAs (Decidable (s.StatusKept "graduated" r))
  | .markPromoted r _ _ =>
    inferInstanceAs (Decidable (answer.alive = true → s.StatusKept "graduated" r))
  | .decide rows (d :: _) =>
    inferInstanceAs (Decidable (s.DecisionUnraced answer (cfg.reviewAction rows d)))
  | .restoreRow id => inferInstanceAs (Decidable (s.RestoreUnraced id))
  | .decide _ [] | .indexPut .. | .indexEvict _ | .indexRemove .. | .searchRows .. | .markUsed ..
  | .resolveEntryId .. | .archiveEntry .. | .readChanges .. | .selectStale | .selectCandidates
  | .selectForCli _ | .graduate .. | .selectForReview | .askReview _ | .countArchived _
  | .restoreMatching _ => .isTrue trivial

/-! ## Selected rows -/

/-- The row was selected on this path, and has only been rewritten by commands since. -/
structure SelectedFor (path : GraduationPath) (r : SelectedRow) : Prop where
  before : path.Before s.now
  candidate : cfg.isCandidate path r.2 = true
  carries : s.Carries r

def Selected (c : LifecycleCommand) : Prop :=
  match c with
  | .archiveStale selectedAt rows =>
    selectedAt ≤ s.now ∧ ∀ r ∈ rows, cfg.isStale selectedAt r.2 = true ∧ s.Carries r
  | .graduate path r | .markGraduated path r => s.SelectedFor cfg path r
  | .askReview rows | .decide rows _ => ∀ r ∈ rows, s.SelectedFor cfg .review r
  | .markPromoted r rows _ => r ∈ rows ∧ ∀ r ∈ rows, s.SelectedFor cfg .review r
  | _ => True

variable {cfg s} {c c' : LifecycleCommand} {answer : LifecycleAnswer} {id : String}
  {row row' : ProcedureRow}

theorem Unraced.fresh (h : s.Unraced cfg c answer) : s.Fresh c := by
  cases c with
  | storeRow => exact h
  | _ => trivial

/-- What was selected stays so while the time grows and the rows are still carried. -/
theorem Selected.mono {s' : LifecycleState V} (hnow : s.now ≤ s'.now)
    (hcarries : ∀ r, s.Carries r → s'.Carries r) (h : s.Selected cfg c) : s'.Selected cfg c := by
  have hfor : ∀ {path r}, s.SelectedFor cfg path r → s'.SelectedFor cfg path r := by
    intro path r hr
    refine ⟨?_, hr.candidate, hcarries r hr.carries⟩
    cases path with
    | scan selectedAt => exact le_trans hr.before hnow
    | cli selectedAt => exact le_trans hr.before hnow
    | _ => trivial
  cases c with
  | archiveStale selectedAt rows =>
    exact ⟨h.1.trans hnow, fun r hr => ⟨(h.2 r hr).1, hcarries r (h.2 r hr).2⟩⟩
  | graduate path r => exact hfor h
  | markGraduated path r => exact hfor h
  | askReview rows => exact fun r hr => hfor (h r hr)
  | decide rows decisions => exact fun r hr => hfor (h r hr)
  | markPromoted r rows rest => exact ⟨h.1, fun r hr => hfor (h.2 r hr)⟩
  | _ => trivial

theorem Selected.pass (h : s.Selected cfg c) (elapsed : Nat) : (s.pass elapsed).Selected cfg c :=
  h.mono (Int.le_add_of_nonneg_right (Int.natCast_nonneg _)) fun _ hr => hr

theorem selected_program {op : LifecycleOp} (hc : c ∈ lifecycleProgram op) : s.Selected cfg c := by
  cases op <;> exact List.mem_singleton.mp hc ▸ trivial

theorem Selected.run (h : s.Selected cfg c') (hfresh : s.Fresh c) :
    (s.run cfg c answer).1.Selected cfg c' :=
  h.mono (le_of_eq now_run.symm) fun _ hr => hr.run hfresh

/-- The commands that a task runs next carry rows that it has just read, or rows it had before. -/
theorem selected_of_follows (hfollows : s.Follows cfg answer c c') (h : s.Selected cfg c) :
    s.Selected cfg c' := by
  cases hfollows with
  | stale hrows =>
    refine ⟨le_refl _, fun r hr => ?_⟩
    obtain ⟨hmem, hstale⟩ := List.mem_filter.mp (hrows ▸ hr)
    exact ⟨hstale, carries_of_mem_items hmem⟩
  | candidate hmem hcandidate => exact ⟨le_refl _, hcandidate, carries_of_mem_items hmem⟩
  | cliCandidate hbefore hmem hcandidate => exact ⟨hbefore, hcandidate, carries_of_mem_items hmem⟩
  | cliTarget hmem hcandidate => exact ⟨trivial, hcandidate, carries_of_mem_items hmem⟩
  | written => exact h
  | selected hrows =>
    intro r hr
    obtain ⟨hmem, hcandidate⟩ := hrows r hr
    exact ⟨trivial, hcandidate, carries_of_mem_items hmem⟩
  | replied => exact h
  | next => exact h
  | promotes haction => exact ⟨mem_of_reviewAction (.inl haction), h⟩
  | promotedNext => exact h.2
  | _ => trivial

/-! ## Guarded runs -/

theorem isStale_iff {now : Int} : cfg.isStale now row = true ↔
    row.status = "active" ∧ row.lastUse < now - cfg.curator.archiveAfterDays * microsPerDay := by
  simp [LifecycleConfig.isStale]

theorem isAutoSop_iff : row.isAutoSop = true ↔ row.type = "auto_sop" ∧ row.status = "active" := by
  simp [ProcedureRow.isAutoSop]

theorem isCandidate_active {path : GraduationPath} (h : cfg.isCandidate path row = true) :
    row.status = "active" := by
  cases path <;> simp_all [LifecycleConfig.isCandidate, isAutoSop_iff]

/-- A row that was stale when it was read is so now, if it has not been used or rewritten. -/
theorem stale_of_selected {selectedAt : Int} {r : SelectedRow} (hnow : selectedAt ≤ s.now)
    (hstale : cfg.isStale selectedAt r.2 = true) (hevolves : Evolves r.2 row)
    (hstatus : row.status = r.2.status) (hused : row.lastUsedAt = r.2.lastUsedAt) :
    cfg.isStale s.now row = true := by
  obtain ⟨hactive, hlast⟩ := isStale_iff.mp hstale
  refine isStale_iff.mpr ⟨hstatus.trans hactive, ?_⟩
  have hsame : row.lastUse = r.2.lastUse := by
    rw [ProcedureRow.lastUse, ProcedureRow.lastUse, hused, hevolves.createdAt]
  omega

theorem isAutoSop_of_evolves (hevolves : Evolves row row') (hstatus : row'.status = row.status) :
    row'.isAutoSop = row.isAutoSop := by
  rw [ProcedureRow.isAutoSop, ProcedureRow.isAutoSop, hevolves.type, hstatus]

theorem isCandidate_scan_iff {selectedAt : Int} : cfg.isCandidate (.scan selectedAt) row = true ↔
    row.isAutoSop = true ∧ cfg.curator.promotionMinUseCount ≤ row.useCount ∧
      row.createdAt ≤ selectedAt - cfg.curator.promotionMinDays * microsPerDay := by
  simp [LifecycleConfig.isCandidate, and_assoc]

theorem isCandidate_later {selectedAt now : Int} (hnow : selectedAt ≤ now)
    (hevolves : Evolves row row') (hstatus : row'.status = row.status)
    (h : cfg.isCandidate (.scan selectedAt) row = true) :
    cfg.isCandidate (.scan now) row' = true := by
  obtain ⟨hauto, hcount, hcreated⟩ := isCandidate_scan_iff.mp h
  refine isCandidate_scan_iff.mpr ⟨?_, ?_, ?_⟩
  · rw [isAutoSop_of_evolves hevolves hstatus]
    exact hauto
  · exact hcount.trans hevolves.useCount
  · have hsame := hevolves.createdAt
    omega

theorem candidate_of_selected {path : GraduationPath} {r : SelectedRow}
    (h : s.SelectedFor cfg path r) (hrow : s.db.procedures.get? r.1 = some row)
    (hstatus : row.status = r.2.status) : cfg.isCandidate (path.asOf s.now) row = true := by
  obtain ⟨cur, hcur, hevolves⟩ := h.carries
  obtain rfl : cur = row := Option.some.inj (hcur.symm.trans hrow)
  have hcandidate := h.candidate
  cases path with
  | scan selectedAt => exact isCandidate_later h.before hevolves hstatus hcandidate
  | cli selectedAt => exact isCandidate_later h.before hevolves hstatus hcandidate
  | review => exact (isAutoSop_of_evolves hevolves hstatus).trans hcandidate
  | cliTarget => exact (isAutoSop_of_evolves hevolves hstatus).trans hcandidate

theorem archivedAtSet_archive (why : Option String) : (row.archive s.now why).ArchivedAtSet := by
  simp [ProcedureRow.ArchivedAtSet, ProcedureRow.archive]

theorem archivedAtSet_graduate (h : row.ArchivedAtSet) (hstatus : row.status ≠ "archived") :
    row.graduate.ArchivedAtSet := by
  have hnone := mt h.mp hstatus
  simpa [ProcedureRow.ArchivedAtSet, ProcedureRow.graduate] using hnone

theorem archive_legal {now : Int} {why : Option String} (h : row.status = "active") :
    (row.status, (row.archive now why).status) ∈ legalChanges := by
  simp [h, ProcedureRow.archive, legalChanges]

theorem graduate_legal (h : row.status = "active") :
    (row.status, row.graduate.status) ∈ legalChanges := by
  simp [h, ProcedureRow.graduate, legalChanges]

theorem restore_legal (h : row.status = "archived") :
    (row.status, row.restore.status) ∈ legalChanges := by
  simp [h, ProcedureRow.restore, legalChanges]

/-- A change that meets no race is a legal one, meets its guard, and sets `archived_at` rightly. -/
theorem Effect.guarded (h : s.Effect cfg answer c id row row')
    (hrow : s.db.procedures.get? id = some row) (hset : row.ArchivedAtSet)
    (hselected : s.Selected cfg c) (hunraced : s.Unraced cfg c answer) :
    row'.ArchivedAtSet ∧ (row'.status ≠ row.status →
      (row.status, row'.status) ∈ legalChanges ∧ cfg.guard s.now c row = true) := by
  -- a mark of a row that was selected for graduation
  have hmark : ∀ {path : GraduationPath} {r : SelectedRow}, s.SelectedFor cfg path r →
      s.db.procedures.get? r.1 = some row → s.StatusKept "graduated" r →
        row.graduate.ArchivedAtSet ∧ (row.graduate.status ≠ row.status →
          (row.status, row.graduate.status) ∈ legalChanges ∧
            cfg.isCandidate (path.asOf s.now) row = true) := by
    intro path r hr hget hkept
    have hread := isCandidate_active hr.candidate
    rcases hkept row hget with hdone | hstatus
    · exact ⟨archivedAtSet_graduate hset (by simp [hdone]), fun hne => absurd hdone.symm hne⟩
    · refine ⟨archivedAtSet_graduate hset (by simp [hstatus, hread]), fun _ => ⟨?_, ?_⟩⟩
      · exact graduate_legal (hstatus.trans hread)
      · exact candidate_of_selected hr hget hstatus
  cases h with
  | kept => exact ⟨hset, fun hne => absurd rfl hne⟩
  | used => exact ⟨hset, fun hne => absurd rfl hne⟩
  | forgotten why hactive =>
    refine ⟨archivedAtSet_archive why, fun _ => ⟨archive_legal hactive, ?_⟩⟩
    simpa [LifecycleConfig.guard] using hactive
  | scanned why hr =>
    refine ⟨archivedAtSet_archive why, fun hne => ?_⟩
    obtain ⟨hstale, cur, hcur, hevolves⟩ := hselected.2 _ hr
    obtain rfl : cur = row := Option.some.inj (hcur.symm.trans hrow)
    obtain ⟨hstatus, hused⟩ := (hunraced _ hr cur hrow).resolve_left fun hdone => hne hdone.symm
    have hnow := stale_of_selected hselected.1 hstale hevolves hstatus hused
    exact ⟨archive_legal (isStale_iff.mp hnow).1, hnow⟩
  | graduated => exact hmark hselected hrow hunraced
  | promoted halive => exact hmark (hselected.2 _ hselected.1) hrow (hunraced halive)
  | reviewed why halive haction =>
    refine ⟨archivedAtSet_archive why, fun hne => ?_⟩
    simp only [Unraced, haction, DecisionUnraced] at hunraced
    have hr := hselected _ (mem_of_reviewAction (.inr haction))
    have hstatus := (hunraced halive row hrow).resolve_left fun hdone => hne hdone.symm
    have hactive := hstatus.trans (isCandidate_active hr.candidate)
    exact ⟨archive_legal hactive, candidate_of_selected hr hrow hstatus⟩
  | restored =>
    refine ⟨by simp [ProcedureRow.ArchivedAtSet, ProcedureRow.restore], fun hne => ?_⟩
    have harchived := (hunraced row hrow).resolve_left fun hactive => hne hactive.symm
    exact ⟨restore_legal harchived, by simpa [LifecycleConfig.guard] using harchived⟩
  | restoredMatching harchived =>
    refine ⟨by simp [ProcedureRow.ArchivedAtSet, ProcedureRow.restore], fun _ => ?_⟩
    exact ⟨restore_legal harchived, by simpa [LifecycleConfig.guard] using harchived⟩

theorem archivedAtSet_newRow {e : MemoryEntry} {key : String} (h : e.status = "active") :
    (e.newRow key).ArchivedAtSet := by
  simp [ProcedureRow.ArchivedAtSet, MemoryEntry.newRow, h]

/-- A command that meets no race keeps the guards. -/
theorem guarded_run (hset : s.ArchivedAtSet) (hselected : s.Selected cfg c)
    (hunraced : s.Unraced cfg c answer) : s.Guarded cfg c answer := by
  have hrows : ∀ {id row row'}, s.db.procedures.get? id = some row →
      (s.run cfg c answer).1.db.procedures.get? id = some row' →
        row'.ArchivedAtSet ∧ (row'.status ≠ row.status →
          (row.status, row'.status) ∈ legalChanges ∧ cfg.guard s.now c row = true) := by
    intro id row row' hrow hrow'
    rw [row_of_run hunraced.fresh hrow] at hrow'
    obtain rfl := Option.some.inj hrow'
    exact (effect_change cfg s c answer id row).guarded hrow
      (hset _ (Dict.mem_items_of_get? hrow)) hselected hunraced
  constructor
  · exact fun r hr row hrow => (hrows (Dict.get?_of_mem_items hr) hrow).2
  · intro r hr
    have hget := Dict.get?_of_mem_items hr
    rcases rows_of_run hunraced.fresh hget with ⟨old, hold, -⟩ | ⟨key, e, -, -, hnew, hactive⟩
    · exact (hrows hold hget).1
    · rw [hnew]
      exact archivedAtSet_newRow hactive

/-- In every run in which no write by id is overtaken by another operation on its row, every change
of a status is a legal one and meets its guard, and `archived_at` says which rows are archived. -/
theorem guarded_of_unraced (cfg : LifecycleConfig V) (s : LifecycleState V) (hs : s.ArchivedAtSet)
    (steps : List (TaskStep LifecycleOp LifecycleAnswer))
    (h : Along (lifecycle cfg).step (Tasks.OnRun (Unraced cfg)) { state := s } steps) :
    Along (lifecycle cfg).step
      (Tasks.OnRun fun s c answer => (s.pass answer.elapsed).Guarded cfg c answer)
      { state := s } steps := by
  refine TaskSystem.along_of_exec (I := ArchivedAtSet) (L := Selected cfg) ?_ ?_ ⟨hs, ?_⟩ h
  · exact fun s op c hc => selected_program hc
  · intro s c answer hset hselected hunraced
    have hnow := hselected.pass answer.elapsed
    have hguarded := guarded_run (s := s.pass answer.elapsed) hset hnow hunraced
    refine ⟨hguarded, hguarded.2, fun c' hc' => ?_, fun c' hc' => ?_⟩
    · exact (selected_of_follows (follows_of_mem hc') hnow).run (Unraced.fresh hunraced)
    · exact (hc'.pass answer.elapsed).run (Unraced.fresh hunraced)
  · rintro c ⟨slot, hc⟩
    cases hc

/-- One procedure, last used a hundred days ago. -/
def staleDatabase : LifecycleState Unit :=
  let row : ProcedureRow :=
    { sessionKey := "web:alice:c1", type := "auto_sop", content := "deploy", sourceSessionId := none
      createdAt := 0, updatedAt := 0, lastUsedAt := none, useCount := 0, status := "active" }
  { db := { procedures := Dict.empty.set "a" row }, now := 100 * microsPerDay }

theorem guarded_scan_then_restore :
    Along (lifecycle { deps := sampleMemoryDeps }).step
      (Tasks.OnRun fun s c answer =>
        (s.pass answer.elapsed).Guarded { deps := sampleMemoryDeps } c answer)
      { state := staleDatabase }
      [.starts 0 .scan, .runs 0 {}, .runs 0 {}, .starts 1 (.restore "a"), .runs 1 {}, .runs 1 {}] :=
  guarded_of_unraced _ _ (by decide) _ (by decide +kernel)

/-- A search that comes between the read and the write of a scan: the entry it has just used is
archived. -/
theorem used_during_scan_archived :
    staleDatabase.ArchivedAtSet ∧
      ¬ Along (lifecycle { deps := sampleMemoryDeps }).step
        (Tasks.OnRun fun s c answer =>
          (s.pass answer.elapsed).Guarded { deps := sampleMemoryDeps } c answer)
        { state := staleDatabase }
        [.starts 0 .scan, .runs 0 {}, .starts 1 (.search "web:alice:c1" "de" 10), .runs 1 {},
          .runs 1 {}, .runs 0 {}] := by
  decide +kernel

end LifecycleState

end PyClaw
