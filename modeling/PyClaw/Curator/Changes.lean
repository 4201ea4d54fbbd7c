import PyClaw.Curator.Operations

/-!
# Curator.Changes

What a command does, said once for the claims about statuses, the index and the skill files: to a row
of `procedures` (`effect_change`, with `row_of_run` and `rows_of_run`), to the rest of the state
(`run_cases`), and to the task that runs it (`follows_of_mem`).
-/

namespace PyClaw

/-- The row that a store of a new procedure inserts. -/
def MemoryEntry.newRow (e : MemoryEntry) (sessionKey : String) : ProcedureRow :=
  { sessionKey := sessionKey, type := e.type, content := e.content
    sourceSessionId := e.sourceSessionId, createdAt := e.createdAt, updatedAt := e.updatedAt
    lastUsedAt := e.lastUsedAt, useCount := e.useCount, status := e.status }

/-- The session key on whose connection a command writes. -/
def LifecycleCommand.connection : LifecycleCommand → Option String
  | .storeRow key _ | .markUsed key _ | .archiveEntry key _ _ => some key
  | _ => none

/-- The row that a command marks as graduated. -/
def LifecycleCommand.marks : LifecycleCommand → Option SelectedRow
  | .markGraduated _ r | .markPromoted r _ _ => some r
  | _ => none

namespace LifecycleState

variable {V : Type} (cfg : LifecycleConfig V) (s : LifecycleState V)

/-- What a command makes of a row. -/
def change (c : LifecycleCommand) (answer : LifecycleAnswer) (id : String) (row : ProcedureRow) :
    ProcedureRow :=
  match c with
  | .markUsed _ ids => if id ∈ ids then row.use s.now else row
  | .archiveEntry _ entryId reason =>
    if id = entryId ∧ row.status = "active" then
      row.archive s.now (if reason = "" then none else some reason)
    else row
  | .archiveStale _ rows =>
    if id ∈ rows.map Prod.fst then
      row.archive s.now (some ("curator:" ++ toString cfg.curator.archiveAfterDays ++ "d_unused"))
    else row
  | .markGraduated _ r => if id = r.1 then row.graduate else row
  | .decide rows (d :: _) =>
    match cfg.reviewAction rows d with
    | .archive r =>
      if answer.alive ∧ id = r.1 then
        row.archive s.now (some ("llm_review: " ++ String.ofList (d.reason.toList.take 100)))
      else row
    | _ => row
  | .markPromoted r _ _ => if answer.alive ∧ id = r.1 then row.graduate else row
  | .restoreRow entryId => if id = entryId then row.restore else row
  | .restoreMatching entryId =>
    if Database.textLike (entryId ++ "%") id && row.status = "archived" then row.restore else row
  | _ => row

/-- A store draws a new id for an active entry, as its callers do. -/
def Fresh (c : LifecycleCommand) : Prop :=
  match c with
  | .storeRow _ e => e.id ∉ s.db.facts.keys ∧ e.id ∉ s.db.procedures.keys ∧ e.status = "active"
  | _ => True

instance (c : LifecycleCommand) : Decidable (s.Fresh c) := by
  cases c with
  | storeRow key e => exact inferInstanceAs (Decidable (_ ∧ _ ∧ _))
  | _ => exact .isTrue trivial

variable {cfg s} {c : LifecycleCommand} {answer : LifecycleAnswer} {id : String} {row : ProcedureRow}

theorem get?_update (p : String → ProcedureRow → Bool) (f : ProcedureRow → ProcedureRow) :
    (s.update p f).db.procedures.get? id =
      (s.db.procedures.get? id).map fun row => if p id row then f row else row :=
  Dict.get?_mapValues

theorem get?_archiveEntry (entryId reason : String) (now : Int) :
    (s.db.archiveEntry entryId reason now).2.procedures.get? id =
      (s.db.procedures.get? id).map fun row =>
        if id = entryId ∧ row.status = "active" then
          row.archive now (if reason = "" then none else some reason)
        else row := by
  unfold Database.archiveEntry
  by_cases hid : id = entryId
  · subst hid
    cases hrow : s.db.procedures.get? id with
    | none => simp [hrow]
    | some row =>
      by_cases hactive : row.status = "active"
      · simp [hactive, ProcedureRow.archive]
      · simp [hrow, hactive]
  · simp only [hid, false_and, if_false, Option.map_id']
    split
    · split
      · exact Dict.get?_set_ne _ _ (Ne.symm hid)
      · rfl
    · rfl

theorem get?_unchanged {cur : Option ProcedureRow} (h : ∀ row, s.change cfg c answer id row = row) :
    cur = cur.map (s.change cfg c answer id) := by
  rw [funext h, Option.map_id']

/-- Every command but a store only rewrites the rows that are there. -/
theorem procedures_run (hstore : ∀ key e, c ≠ .storeRow key e) :
    (s.run cfg c answer).1.db.procedures.get? id =
      (s.db.procedures.get? id).map (s.change cfg c answer id) := by
  cases c with
  | storeRow key e => exact absurd rfl (hstore key e)
  | archiveEntry sessionKey entryId reason => exact get?_archiveEntry ..
  | restoreMatching entryId => exact get?_update ..
  | markUsed key ids =>
    simp only [run, setChanges]
    rw [get?_update]
    exact Option.map_congr fun row _ => by simp [change]
  | archiveStale selectedAt rows =>
    rw [run, get?_update]
    exact Option.map_congr fun row _ => by simp only [change, decide_eq_true_eq]
  | markGraduated path r =>
    simp only [run]
    rw [markGraduated, get?_update]
    exact Option.map_congr fun row _ => by simp [change]
  | restoreRow entryId =>
    rw [run, get?_update]
    exact Option.map_congr fun row _ => by simp [change]
  | markPromoted r rows decisions =>
    cases halive : answer.alive with
    | true =>
      simp only [run, halive, if_true]
      rw [markGraduated, get?_update]
      exact Option.map_congr fun row _ => by simp [change, halive]
    | false =>
      simp only [run, halive, if_false, Bool.false_eq_true]
      exact get?_unchanged fun row => by simp [change, halive]
  | decide rows decisions =>
    cases decisions with
    | nil => exact get?_unchanged fun row => rfl
    | cons d rest =>
      simp only [run, decide]
      cases haction : cfg.reviewAction rows d with
      | keep => exact get?_unchanged fun row => by simp [change, haction]
      | promote r =>
        dsimp only
        split <;> exact get?_unchanged fun row => by simp [change, haction]
      | archive r =>
        cases halive : answer.alive with
        | true =>
          simp only [if_true]
          rw [get?_update]
          exact Option.map_congr fun row _ => by simp [change, haction, halive]
        | false =>
          simp only [if_false, Bool.false_eq_true]
          exact get?_unchanged fun row => by simp [change, haction, halive]
  | graduate path r =>
    simp only [run]
    split <;> exact get?_unchanged fun row => rfl
  | resolveEntryId sessionKey entryId reason =>
    simp only [run]
    split <;> exact get?_unchanged fun row => rfl
  | selectForCli target =>
    cases target <;> exact get?_unchanged fun row => rfl
  | askReview rows =>
    simp only [run]
    split <;> exact get?_unchanged fun row => rfl
  | countArchived entryId =>
    simp only [run]
    split <;> exact get?_unchanged fun row => rfl
  | _ => exact get?_unchanged fun row => rfl

/-! ## Stores -/

theorem run_storeRow {key : String} {e : MemoryEntry} :
    (s.run cfg (.storeRow key e) answer).1.db =
      match e.layer with
      | .l1 => s.db
      | .l2 => s.db.storeFact key e
      | .l3 => s.db.storeProcedure key e := by
  simp only [run, Database.store]
  cases e.layer <;> rfl

theorem get?_storeProcedure {key : String} {e : MemoryEntry} (hnew : e.id ∉ s.db.procedures.keys) :
    (s.db.storeProcedure key e).procedures.get? id =
      if e.id = id then some (e.newRow key) else s.db.procedures.get? id := by
  simp only [Database.storeProcedure, Sql.upsert, Dict.get?_eq_none.mpr hnew]
  rw [Dict.get?_set]
  rfl

/-! ## Rows -/

/-- No command deletes a row. -/
theorem row_of_run (hfresh : s.Fresh c) (h : s.db.procedures.get? id = some row) :
    (s.run cfg c answer).1.db.procedures.get? id = some (s.change cfg c answer id row) := by
  by_cases hstore : ∀ key e, c ≠ .storeRow key e
  · rw [procedures_run hstore, h]
    rfl
  · simp only [not_forall, not_not] at hstore
    obtain ⟨key, e, rfl⟩ := hstore
    rw [run_storeRow]
    cases e.layer with
    | l1 => exact h
    | l2 => exact h
    | l3 =>
      have hne : e.id ≠ id := fun he => hfresh.2.1 (he ▸ Dict.mem_keys_of_get? h)
      rw [get?_storeProcedure hfresh.2.1, if_neg hne]
      exact h

/-- A row was there before the command, or the command is the store of it. -/
theorem rows_of_run (hfresh : s.Fresh c)
    (h : (s.run cfg c answer).1.db.procedures.get? id = some row) :
    (∃ old, s.db.procedures.get? id = some old ∧ row = s.change cfg c answer id old) ∨
      ∃ key e, c = .storeRow key e ∧ s.db.procedures.get? id = none ∧ row = e.newRow key ∧
        e.status = "active" := by
  cases hold : s.db.procedures.get? id with
  | some old =>
    rw [row_of_run hfresh hold] at h
    exact .inl ⟨old, rfl, (Option.some.inj h).symm⟩
  | none =>
    by_cases hstore : ∀ key e, c ≠ .storeRow key e
    · rw [procedures_run hstore, hold] at h
      cases h
    · simp only [not_forall, not_not] at hstore
      obtain ⟨key, e, rfl⟩ := hstore
      rw [run_storeRow] at h
      refine .inr ⟨key, e, rfl, rfl, ?_, hfresh.2.2⟩
      cases hlayer : e.layer with
      | l1 =>
        rw [hlayer] at h
        exact absurd (hold.symm.trans h) (by simp)
      | l2 =>
        rw [hlayer] at h
        exact absurd (hold.symm.trans h) (by simp)
      | l3 =>
        rw [hlayer] at h
        dsimp only at h
        rw [get?_storeProcedure hfresh.2.1] at h
        split at h
        · exact (Option.some.inj h).symm
        · exact absurd (hold.symm.trans h) (by simp)

/-! ## Effects -/

/-- What a command may make of a row. -/
inductive Effect (cfg : LifecycleConfig V) (s : LifecycleState V) (answer : LifecycleAnswer) :
    LifecycleCommand → String → ProcedureRow → ProcedureRow → Prop
  | kept (c : LifecycleCommand) (id : String) (row : ProcedureRow) : Effect cfg s answer c id row row
  | used {key : String} {ids : List String} {id : String} {row : ProcedureRow} :
      id ∈ ids → Effect cfg s answer (.markUsed key ids) id row (row.use s.now)
  | forgotten {key id reason : String} {row : ProcedureRow} (why : Option String) :
      row.status = "active" →
        Effect cfg s answer (.archiveEntry key id reason) id row (row.archive s.now why)
  | scanned {selectedAt : Int} {rows : List SelectedRow} {r : SelectedRow} {row : ProcedureRow}
      (why : Option String) :
      r ∈ rows → Effect cfg s answer (.archiveStale selectedAt rows) r.1 row (row.archive s.now why)
  | graduated {path : GraduationPath} {r : SelectedRow} {row : ProcedureRow} :
      Effect cfg s answer (.markGraduated path r) r.1 row row.graduate
  | promoted {r : SelectedRow} {rows : List SelectedRow} {rest : List ReviewDecision}
      {row : ProcedureRow} :
      answer.alive = true → Effect cfg s answer (.markPromoted r rows rest) r.1 row row.graduate
  | reviewed {rows : List SelectedRow} {d : ReviewDecision} {rest : List ReviewDecision}
      {r : SelectedRow} {row : ProcedureRow} (why : Option String) :
      answer.alive = true → cfg.reviewAction rows d = .archive r →
        Effect cfg s answer (.decide rows (d :: rest)) r.1 row (row.archive s.now why)
  | restored {id : String} {row : ProcedureRow} :
      Effect cfg s answer (.restoreRow id) id row row.restore
  | restoredMatching {entryId id : String} {row : ProcedureRow} :
      row.status = "archived" →
        Effect cfg s answer (.restoreMatching entryId) id row row.restore

theorem effect_change (cfg : LifecycleConfig V) (s : LifecycleState V) (c : LifecycleCommand)
    (answer : LifecycleAnswer) (id : String) (row : ProcedureRow) :
    s.Effect cfg answer c id row (s.change cfg c answer id row) := by
  cases c with
  | markUsed key ids =>
    simp only [change]
    split
    · exact .used ‹_›
    · exact .kept ..
  | archiveEntry key entryId reason =>
    simp only [change]
    split
    · rename_i h
      obtain ⟨rfl, hactive⟩ := h
      exact .forgotten _ hactive
    · exact .kept ..
  | archiveStale selectedAt rows =>
    simp only [change]
    split
    · rename_i h
      obtain ⟨r, hr, rfl⟩ := List.mem_map.mp h
      exact .scanned _ hr
    · exact .kept ..
  | markGraduated path r =>
    simp only [change]
    split
    · rename_i h
      exact h ▸ .graduated
    · exact .kept ..
  | markPromoted r rows rest =>
    simp only [change]
    split
    · rename_i h
      exact h.2 ▸ .promoted h.1
    · exact .kept ..
  | decide rows decisions =>
    cases decisions with
    | nil => exact .kept ..
    | cons d rest =>
      cases haction : cfg.reviewAction rows d with
      | keep => simpa [change, haction] using Effect.kept ..
      | promote r => simpa [change, haction] using Effect.kept ..
      | archive r =>
        simp only [change, haction]
        split
        · rename_i h
          exact h.2 ▸ .reviewed _ h.1 haction
        · exact .kept ..
  | restoreRow entryId =>
    simp only [change]
    split
    · rename_i h
      exact h ▸ .restored
    · exact .kept ..
  | restoreMatching entryId =>
    simp only [change]
    split
    · rename_i h
      rw [Bool.and_eq_true, decide_eq_true_eq] at h
      exact .restoredMatching h.2
    · exact .kept ..
  | _ => exact .kept ..

theorem mem_of_reviewAction {rows : List SelectedRow} {d : ReviewDecision} {r : SelectedRow}
    (h : cfg.reviewAction rows d = .promote r ∨ cfg.reviewAction rows d = .archive r) : r ∈ rows := by
  unfold LifecycleConfig.reviewAction at h
  cases hfind : rows.find? fun r => r.1 = d.id with
  | none => simp [hfind] at h
  | some found =>
    have hmem := List.mem_of_find?_eq_some hfind
    rw [hfind] at h
    dsimp only at h
    split at h
    · split at h
      · cases h with
        | inl h => exact LifecycleConfig.ReviewAction.promote.inj h ▸ hmem
        | inr h => cases h
      · rcases h with h | h <;> cases h
    · split at h
      · cases h with
        | inl h => cases h
        | inr h => exact LifecycleConfig.ReviewAction.archive.inj h ▸ hmem
      · rcases h with h | h <;> cases h

/-- What no command changes of a row, and the count that no command lowers. -/
structure Evolves (row row' : ProcedureRow) : Prop where
  sessionKey : row'.sessionKey = row.sessionKey
  type : row'.type = row.type
  content : row'.content = row.content
  createdAt : row'.createdAt = row.createdAt
  useCount : row.useCount ≤ row'.useCount

theorem Evolves.refl (row : ProcedureRow) : Evolves row row := ⟨rfl, rfl, rfl, rfl, le_refl _⟩

theorem Evolves.trans {a b c : ProcedureRow} (h : Evolves a b) (h' : Evolves b c) : Evolves a c :=
  ⟨h'.sessionKey.trans h.sessionKey, h'.type.trans h.type, h'.content.trans h.content,
    h'.createdAt.trans h.createdAt, h.useCount.trans h'.useCount⟩

theorem Effect.evolves {row' : ProcedureRow} (h : s.Effect cfg answer c id row row') :
    Evolves row row' := by
  cases h with
  | used => exact ⟨rfl, rfl, rfl, rfl, Int.le_add_one (le_refl _)⟩
  | _ => exact ⟨rfl, rfl, rfl, rfl, le_refl _⟩

/-- A row of the database comes from the row that was read. -/
def Carries (s : LifecycleState V) (r : SelectedRow) : Prop :=
  ∃ row, s.db.procedures.get? r.1 = some row ∧ Evolves r.2 row

theorem carries_of_mem_items {r : SelectedRow} (h : r ∈ s.db.procedures.items) : s.Carries r :=
  ⟨r.2, Dict.get?_of_mem_items h, .refl _⟩

theorem Carries.run {r : SelectedRow} (h : s.Carries r) (hfresh : s.Fresh c) :
    (s.run cfg c answer).1.Carries r := by
  obtain ⟨row, hrow, hevolves⟩ := h
  exact ⟨_, row_of_run hfresh hrow, hevolves.trans (effect_change cfg s c answer r.1 row).evolves⟩

/-! ## The rest of the state -/

theorem keys_facts_store {key : String} {e : MemoryEntry} (h : id ∈ s.db.facts.keys) :
    id ∈ (s.run cfg (.storeRow key e) answer).1.db.facts.keys := by
  rw [run_storeRow]
  cases e.layer with
  | l1 => exact h
  | l2 =>
    simp only [Database.storeFact, Sql.upsert]
    split <;> exact Dict.mem_keys_set.mpr (.inr h)
  | l3 => exact h

theorem changes_setChanges {key key' : String} {count : Nat} (h : some key ≠ some key') :
    (s.setChanges key count).changes key' = s.changes key' :=
  Function.update_of_ne (fun he => h (congrArg some he.symm)) ..

/-- A command changes the database and the counter of a connection, or one index, or it writes a skill
file and marks the row next. -/
theorem run_cases (cfg : LifecycleConfig V) (s : LifecycleState V) (c : LifecycleCommand)
    (answer : LifecycleAnswer) :
    (∃ db changes, (s.run cfg c answer).1 = { s with db := db, changes := changes } ∧
        (∀ id ∈ s.db.facts.keys, id ∈ db.facts.keys) ∧
          ∀ key, c.connection ≠ some key → changes key = s.changes key) ∨
      (∃ key e, c = .indexPut key e ∧
        (s.run cfg c answer).1 = s.setIndex key ((s.index key).set e.id e)) ∨
      (∃ key id, c = .indexRemove key id ∧
        (s.run cfg c answer).1 = s.setIndex key ((s.index key).erase id)) ∨
      ∃ r dir, (s.run cfg c answer).1 = s.writeSkill r dir ∧
        s.graduateSingleSop cfg r answer = some dir ∧
          ∃ c' ∈ (s.run cfg c answer).2, c'.marks = some r := by
  cases c with
  | storeRow key e =>
    refine .inl ⟨(s.run cfg (.storeRow key e) answer).1.db,
      (s.run cfg (.storeRow key e) answer).1.changes, ?_, fun _ => keys_facts_store, fun k hne => ?_⟩
    · simp only [run]
      split <;> rfl
    · simp only [run]
      split
      · exact changes_setChanges hne
      · rfl
  | indexPut key e => exact .inr (.inl ⟨key, e, rfl, rfl⟩)
  | indexRemove key id => exact .inr (.inr (.inl ⟨key, id, rfl, rfl⟩))
  | graduate path r =>
    simp only [run]
    cases hdir : s.graduateSingleSop cfg r answer with
    | none => exact .inl ⟨s.db, s.changes, rfl, fun _ => id, fun _ _ => rfl⟩
    | some dir => exact .inr (.inr (.inr ⟨r, dir, rfl, hdir, _, List.mem_singleton_self _, rfl⟩))
  | decide rows decisions =>
    cases decisions with
    | nil => exact .inl ⟨s.db, s.changes, rfl, fun _ => id, fun _ _ => rfl⟩
    | cons d rest =>
      simp only [run, decide]
      cases haction : cfg.reviewAction rows d with
      | keep => exact .inl ⟨s.db, s.changes, rfl, fun _ => id, fun _ _ => rfl⟩
      | archive r =>
        dsimp only
        split <;> exact .inl ⟨_, _, rfl, fun _ => id, fun _ _ => rfl⟩
      | promote r =>
        dsimp only
        cases hdir : s.graduateSingleSop cfg r answer with
        | none => exact .inl ⟨s.db, s.changes, rfl, fun _ => id, fun _ _ => rfl⟩
        | some dir =>
          exact .inr (.inr (.inr ⟨r, dir, rfl, hdir, _, List.mem_singleton_self _, rfl⟩))
  | archiveEntry key entryId reason =>
    refine .inl ⟨_, _, rfl, fun id hid => ?_, fun _ hne => changes_setChanges hne⟩
    simp only [Database.archiveEntry]
    split
    · split <;> exact hid
    · exact hid
  | resolveEntryId key entryId reason =>
    simp only [run]
    split <;> exact .inl ⟨s.db, s.changes, rfl, fun _ => id, fun _ _ => rfl⟩
  | selectForCli target => cases target <;> exact .inl ⟨s.db, s.changes, rfl, fun _ => id, fun _ _ => rfl⟩
  | askReview rows =>
    simp only [run]
    split <;> exact .inl ⟨s.db, s.changes, rfl, fun _ => id, fun _ _ => rfl⟩
  | markPromoted r rows rest =>
    simp only [run]
    split <;> exact .inl ⟨_, _, rfl, fun _ => id, fun _ _ => rfl⟩
  | countArchived entryId =>
    simp only [run]
    split <;> exact .inl ⟨s.db, s.changes, rfl, fun _ => id, fun _ _ => rfl⟩
  | markUsed key ids => exact .inl ⟨_, _, rfl, fun _ => id, fun _ hne => changes_setChanges hne⟩
  | _ => exact .inl ⟨_, _, rfl, fun _ => id, fun _ _ => rfl⟩

theorem now_run : (s.run cfg c answer).1.now = s.now := by
  rcases run_cases cfg s c answer with
    ⟨db, changes, h, -⟩ | ⟨key, e, -, h⟩ | ⟨key, id, -, h⟩ | ⟨r, dir, h, -, -⟩ <;>
    rw [h] <;> rfl

/-! ## Next commands -/

/-- What a task may run next because of a command. -/
inductive Follows (cfg : LifecycleConfig V) (s : LifecycleState V) (answer : LifecycleAnswer) :
    LifecycleCommand → LifecycleCommand → Prop
  | stored {key : String} {e : MemoryEntry} :
      e.layer ≠ .l1 → Follows cfg s answer (.storeRow key e) (.indexPut key (l1Entry e))
  | put {key : String} {e : MemoryEntry} :
      Follows cfg s answer (.indexPut key e) (.indexEvict key)
  | evicted {key id : String} :
      Follows cfg s answer (.indexEvict key) (.indexRemove key id)
  | found {key query : String} {limit : Int} {ids : List String} :
      Follows cfg s answer (.searchRows key query limit) (.markUsed key ids)
  | resolved {key entryId reason id : String} :
      Follows cfg s answer (.resolveEntryId key entryId reason) (.archiveEntry key id reason)
  | forgotten {key id reason : String} :
      Follows cfg s answer (.archiveEntry key id reason) (.readChanges key id)
  | changed {key id : String} : Follows cfg s answer (.readChanges key id) (.indexRemove key id)
  | stale {rows : List SelectedRow} :
      rows = s.db.selectWhere (fun _ row => cfg.isStale s.now row) →
        Follows cfg s answer .selectStale (.archiveStale s.now rows)
  | noneStale : Follows cfg s answer .selectStale .selectCandidates
  | scanned {selectedAt : Int} {rows : List SelectedRow} {r : SelectedRow} :
      r ∈ rows → Follows cfg s answer (.archiveStale selectedAt rows) (.indexRemove r.2.sessionKey r.1)
  | archived {selectedAt : Int} {rows : List SelectedRow} :
      Follows cfg s answer (.archiveStale selectedAt rows) .selectCandidates
  | candidate {r : SelectedRow} :
      r ∈ s.db.procedures.items → cfg.isCandidate (.scan s.now) r.2 = true →
        Follows cfg s answer .selectCandidates (.graduate (.scan s.now) r)
  | cliCandidate {r : SelectedRow} {selectedAt : Int} :
      selectedAt ≤ s.now → r ∈ s.db.procedures.items →
        cfg.isCandidate (.cli selectedAt) r.2 = true →
          Follows cfg s answer (.selectForCli none) (.graduate (.cli selectedAt) r)
  | cliTarget {r : SelectedRow} {target : String} :
      r ∈ s.db.procedures.items → cfg.isCandidate .cliTarget r.2 = true →
        Follows cfg s answer (.selectForCli (some target)) (.graduate .cliTarget r)
  | written {path : GraduationPath} {r : SelectedRow} {dir : String × String} :
      s.graduateSingleSop cfg r answer = some dir →
        Follows cfg s answer (.graduate path r) (.markGraduated path r)
  | graduated {path : GraduationPath} {r : SelectedRow} :
      Follows cfg s answer (.markGraduated path r) (.indexRemove r.2.sessionKey r.1)
  | selected {rows : List SelectedRow} :
      (∀ r ∈ rows, r ∈ s.db.procedures.items ∧ cfg.isCandidate .review r.2 = true) →
        Follows cfg s answer .selectForReview (.askReview rows)
  | replied {rows : List SelectedRow} {decisions : List ReviewDecision} :
      Follows cfg s answer (.askReview rows) (.decide rows decisions)
  | next {rows : List SelectedRow} {d : ReviewDecision} {rest : List ReviewDecision} :
      Follows cfg s answer (.decide rows (d :: rest)) (.decide rows rest)
  | promotes {rows : List SelectedRow} {d : ReviewDecision} {rest : List ReviewDecision}
      {r : SelectedRow} {dir : String × String} :
      cfg.reviewAction rows d = .promote r → s.graduateSingleSop cfg r answer = some dir →
        Follows cfg s answer (.decide rows (d :: rest)) (.markPromoted r rows rest)
  | reviewed {rows : List SelectedRow} {d : ReviewDecision} {rest : List ReviewDecision}
      {r : SelectedRow} :
      cfg.reviewAction rows d = .archive r →
        Follows cfg s answer (.decide rows (d :: rest)) (.indexRemove r.2.sessionKey r.1)
  | promoted {r : SelectedRow} {rows : List SelectedRow} {rest : List ReviewDecision} :
      Follows cfg s answer (.markPromoted r rows rest) (.indexRemove r.2.sessionKey r.1)
  | promotedNext {r : SelectedRow} {rows : List SelectedRow} {rest : List ReviewDecision} :
      Follows cfg s answer (.markPromoted r rows rest) (.decide rows rest)
  | counted {entryId : String} :
      Follows cfg s answer (.countArchived entryId) (.restoreRow entryId)

theorem follows_decide {rows : List SelectedRow} {d : ReviewDecision} {rest : List ReviewDecision}
    {c' : LifecycleCommand} (h : c' ∈ (s.decide cfg rows d rest answer).2) :
    s.Follows cfg answer (.decide rows (d :: rest)) c' := by
  unfold decide at h
  split at h
  · exact List.mem_singleton.mp h ▸ .next
  · rename_i r haction
    split at h
    · rename_i dir hdir
      exact List.mem_singleton.mp h ▸ .promotes haction hdir
    · exact List.mem_singleton.mp h ▸ .next
  · rename_i r haction
    split at h
    · rcases List.mem_pair.mp h with rfl | rfl
      · exact .reviewed haction
      · exact .next
    · cases h

theorem follows_selectForCli {target : Option String} {c' : LifecycleCommand}
    (h : c' ∈ (s.run cfg (.selectForCli target) answer).2) :
    s.Follows cfg answer (.selectForCli target) c' := by
  cases target with
  | none =>
    obtain ⟨r, hr, rfl⟩ := List.mem_map.mp h
    obtain ⟨hmem, hcandidate⟩ := List.mem_filter.mp hr
    exact .cliCandidate (Int.ediv_mul_le _ (by decide)) hmem hcandidate
  | some target =>
    obtain ⟨r, hr, rfl⟩ := List.mem_map.mp h
    obtain ⟨hmem, hcandidate⟩ := List.mem_filter.mp hr
    rw [Bool.and_eq_true] at hcandidate
    exact .cliTarget hmem hcandidate.1

theorem follows_of_mem {c' : LifecycleCommand} (h : c' ∈ (s.run cfg c answer).2) :
    s.Follows cfg answer c c' := by
  cases c with
  | storeRow key e =>
    simp only [run, Database.store] at h
    cases hlayer : e.layer with
    | l1 =>
      rw [hlayer] at h
      cases h
    | l2 =>
      rw [hlayer] at h
      exact List.mem_singleton.mp h ▸ .stored (by simp [hlayer])
    | l3 =>
      rw [hlayer] at h
      exact List.mem_singleton.mp h ▸ .stored (by simp [hlayer])
  | indexPut key e => exact List.mem_singleton.mp h ▸ .put
  | indexEvict key =>
    obtain ⟨id, -, rfl⟩ := List.mem_map.mp h
    exact .evicted
  | searchRows key query limit =>
    simp only [run] at h
    split at h
    · cases h
    · exact List.mem_singleton.mp h ▸ .found
  | resolveEntryId key entryId reason =>
    simp only [run] at h
    split at h
    · exact List.mem_singleton.mp h ▸ .resolved
    · cases h
  | archiveEntry key entryId reason => exact List.mem_singleton.mp h ▸ .forgotten
  | readChanges key entryId =>
    simp only [run] at h
    split at h
    · exact List.mem_singleton.mp h ▸ .changed
    · cases h
  | selectStale =>
    simp only [run] at h
    split at h
    · exact List.mem_singleton.mp h ▸ .noneStale
    · exact List.mem_singleton.mp h ▸ .stale rfl
  | archiveStale selectedAt rows =>
    rcases List.mem_append.mp h with hmem | hmem
    · obtain ⟨r, hr, rfl⟩ := List.mem_map.mp hmem
      exact .scanned hr
    · exact List.mem_singleton.mp hmem ▸ .archived
  | selectCandidates =>
    simp only [run] at h
    split at h
    · obtain ⟨r, hr, rfl⟩ := List.mem_map.mp h
      obtain ⟨hmem, hcandidate⟩ := List.mem_filter.mp hr
      exact .candidate hmem hcandidate
    · cases h
  | selectForCli target => exact follows_selectForCli h
  | graduate path r =>
    simp only [run] at h
    split at h
    · rename_i dir hdir
      exact List.mem_singleton.mp h ▸ .written hdir
    · cases h
  | markGraduated path r =>
    simp only [run] at h
    split at h
    · exact List.mem_singleton.mp h ▸ .graduated
    · exact List.mem_singleton.mp h ▸ .graduated
    · cases h
    · cases h
  | selectForReview =>
    simp only [run] at h
    split at h
    · cases h
    · refine List.mem_singleton.mp h ▸ .selected fun r hr => ?_
      exact List.mem_filter.mp (Sql.mem_orderDesc.mp (Sql.mem_of_mem_limit hr))
  | askReview rows =>
    simp only [run] at h
    split at h
    · split at h
      · exact List.mem_singleton.mp h ▸ .replied
      · cases h
    · cases h
  | decide rows decisions =>
    cases decisions with
    | nil => cases h
    | cons d rest => exact follows_decide h
  | markPromoted r rows rest =>
    simp only [run] at h
    split at h
    · rcases List.mem_pair.mp h with rfl | rfl
      · exact .promoted
      · exact .promotedNext
    · cases h
  | countArchived entryId =>
    simp only [run] at h
    split at h
    · split at h
      · exact List.mem_singleton.mp h ▸ .counted
      · cases h
    · cases h
  | markUsed | indexRemove | restoreRow | restoreMatching => cases h

end LifecycleState

end PyClaw
