import PyClaw.Curator.Changes
import PyClaw.Memory.Isolation

/-!
# Curator.LiveIndex

The L1 index of a session key and the rows it lists. An operation writes the database first and the
index after it, so between the two an index entry may have no live row, as long as its removal is
still to come. What a removal cannot undo is a put that comes after it (`Ordered`). No removal comes
when a row is taken out of use from the command line, or when a forget does not see the row that it
has changed, because another write of the connection came before its reading of `changes()`.
-/

namespace PyClaw

/-- The ids of the rows that a command takes out of use. -/
def LifecycleCommand.retires {V : Type} (cfg : LifecycleConfig V) (answer : LifecycleAnswer) :
    LifecycleCommand → List String
  | .archiveEntry _ id _ => [id]
  | .archiveStale _ rows => rows.map Prod.fst
  | .markGraduated _ r => [r.1]
  | .markPromoted r _ _ => if answer.alive then [r.1] else []
  | .decide rows (d :: _) =>
    match cfg.reviewAction rows d with
    | .archive r => if answer.alive then [r.1] else []
    | _ => []
  | _ => []

/-- The entry that a command marks as graduated without a removal from the index after it. -/
def LifecycleCommand.leavesListed : LifecycleCommand → Option String
  | .markGraduated (.cli _) r | .markGraduated .cliTarget r => some r.1
  | _ => none

def LifecycleCommand.removes (key id : String) : LifecycleCommand → Bool
  | .indexRemove k x => k = key && x = id
  | _ => false

/-- The command removes the entry that the other one is to put, or retires its row for good. -/
def LifecycleCommand.overtakes (key : String) (c : LifecycleCommand) : LifecycleCommand → Bool
  | .indexPut k e => k = key && (c.removes key e.id || c.leavesListed = some e.id)
  | _ => false

/-- The command removes an entry from the index if the last write of the connection changed rows. -/
def LifecycleCommand.readsChanges (key : String) : LifecycleCommand → Bool
  | .readChanges k _ => k = key
  | _ => false

/-- The command is about the session key, or about rows that have it. -/
def LifecycleCommand.OnKey (key : String) : LifecycleCommand → Prop
  | .storeRow k _ | .indexPut k _ | .indexEvict k | .indexRemove k _ | .resolveEntryId k _ _
  | .archiveEntry k _ _ | .readChanges k _ => k = key
  | .archiveStale _ rows | .askReview rows | .decide rows _ => ∀ r ∈ rows, r.2.sessionKey = key
  | .graduate _ r | .markGraduated _ r => r.2.sessionKey = key
  | .markPromoted r rows _ => r.2.sessionKey = key ∧ ∀ r ∈ rows, r.2.sessionKey = key
  | _ => True

def LifecycleOp.OnKey (key : String) : LifecycleOp → Prop
  | .store k _ | .forget k _ _ => k = key
  | _ => True

/-- An operation on the session key begins, or a task goes on. -/
def StepOnKey (key : String) : TaskStep LifecycleOp LifecycleAnswer → Prop
  | .starts _ op => op.OnKey key
  | .runs .. => True
  | .stops _ => False

namespace LifecycleState

variable {V : Type} (cfg : LifecycleConfig V) (s : LifecycleState V)

/-- The entry has a row in the database, and the row of a procedure is active. -/
def Live (id : String) : Prop :=
  (id ∈ s.db.facts.keys ∨ id ∈ s.db.procedures.keys) ∧
    ∀ row ∈ s.db.procedures.get? id, row.status = "active"

instance (id : String) : Decidable (s.Live id) := inferInstanceAs (Decidable (_ ∧ _))

def KeyedBy (key : String) : Prop := ∀ r ∈ s.db.procedures.items, r.2.sessionKey = key

/-- The command writes on the connection of the session key and changes no row. -/
def ChangesNone (key : String) (c : LifecycleCommand) : Prop :=
  match c with
  | .archiveEntry k id _ => k = key ∧ ∀ row ∈ s.db.procedures.get? id, row.status ≠ "active"
  | .markUsed k ids => k = key ∧ s.db.selectWhere (fun id _ => id ∈ ids) = []
  | _ => False

instance (key : String) (c : LifecycleCommand) : Decidable (s.ChangesNone key c) :=
  match c with
  | .archiveEntry .. | .markUsed .. => inferInstanceAs (Decidable (_ ∧ _))
  | .storeRow .. | .indexPut .. | .indexEvict _ | .indexRemove .. | .searchRows ..
  | .resolveEntryId .. | .readChanges .. | .selectStale | .archiveStale .. | .selectCandidates
  | .selectForCli _ | .graduate .. | .markGraduated .. | .selectForReview | .askReview _ | .decide ..
  | .markPromoted .. | .countArchived _ | .restoreRow _ | .restoreMatching _ => .isFalse id

variable {cfg s} {c c' : LifecycleCommand} {answer : LifecycleAnswer} {id key : String}
  {row : ProcedureRow}

/-! ## One session key -/

theorem KeyedBy.run (h : s.KeyedBy key) (hkey : c.OnKey key) (hfresh : s.Fresh c) :
    (s.run cfg c answer).1.KeyedBy key := by
  intro r hr
  rcases rows_of_run hfresh (Dict.get?_of_mem_items hr) with ⟨old, hold, hrow⟩ | ⟨k, e, rfl, -, hrow, -⟩
  · rw [hrow, (effect_change cfg s c answer r.1 old).evolves.sessionKey]
    exact h _ (Dict.mem_items_of_get? hold)
  · rw [hrow]
    exact hkey

theorem onKey_of_follows (hfollows : s.Follows cfg answer c c') (h : s.KeyedBy key)
    (hkey : c.OnKey key) : c'.OnKey key := by
  cases hfollows with
  | stale hrows =>
    intro r hr
    exact h r (List.mem_filter.mp (hrows ▸ hr)).1
  | scanned hr => exact hkey _ hr
  | candidate hr => exact h _ hr
  | cliCandidate _ hr => exact h _ hr
  | cliTarget hr => exact h _ hr
  | selected hrows => exact fun r hr => h r (hrows r hr).1
  | promotes haction => exact ⟨hkey _ (mem_of_reviewAction (.inl haction)), hkey⟩
  | reviewed haction => exact hkey _ (mem_of_reviewAction (.inr haction))
  | promoted => exact hkey.1
  | promotedNext => exact hkey.2
  | stored | put | evicted | resolved | forgotten | changed | written | graduated | replied | next =>
    exact hkey
  | _ => trivial

/-! ## Live rows -/

theorem mem_keys_run (hfresh : s.Fresh c) (h : id ∈ s.db.facts.keys ∨ id ∈ s.db.procedures.keys) :
    id ∈ (s.run cfg c answer).1.db.facts.keys ∨ id ∈ (s.run cfg c answer).1.db.procedures.keys := by
  rcases h with hfact | hprocedure
  · left
    rcases run_cases cfg s c answer with
      ⟨db, changes, h, hfacts, -⟩ | ⟨k, e, -, h⟩ | ⟨k, id, -, h⟩ | ⟨r, dir, h, -, -⟩ <;> rw [h]
    · exact hfacts id hfact
    · exact hfact
    · exact hfact
    · exact hfact
  · obtain ⟨row, hrow⟩ := Dict.exists_get?_of_mem_keys hprocedure
    exact .inr (Dict.mem_keys_of_get? (row_of_run hfresh hrow))

/-- A command that does not retire a row leaves it active. -/
theorem Effect.active {row' : ProcedureRow} (h : s.Effect cfg answer c id row row')
    (hactive : row.status = "active") (hid : id ∉ c.retires cfg answer) : row'.status = "active" := by
  cases h with
  | kept => exact hactive
  | used => exact hactive
  | forgotten => simp [LifecycleCommand.retires] at hid
  | scanned _ hr => exact absurd (List.mem_map_of_mem hr) hid
  | graduated => simp [LifecycleCommand.retires] at hid
  | promoted halive => simp [LifecycleCommand.retires, halive] at hid
  | reviewed _ halive haction => simp [LifecycleCommand.retires, halive, haction] at hid
  | restored => rfl
  | restoredMatching => rfl

theorem Live.run (h : s.Live id) (hfresh : s.Fresh c) (hid : id ∉ c.retires cfg answer) :
    (s.run cfg c answer).1.Live id := by
  refine ⟨mem_keys_run hfresh h.1, fun row hrow => ?_⟩
  rcases rows_of_run hfresh hrow with ⟨old, hold, rfl⟩ | ⟨k, e, -, -, rfl, hactive⟩
  · exact (effect_change cfg s c answer id old).active (h.2 old hold) hid
  · exact hactive

/-- Only a write that changes no row resets the counter of the connection. -/
theorem changes_run (h : 0 < s.changes key) (hnone : ¬ s.ChangesNone key c) :
    0 < (s.run cfg c answer).1.changes key := by
  by_cases hc : c.connection = some key
  · cases c with
    | storeRow k e =>
      obtain rfl := Option.some.inj hc
      simp only [LifecycleState.run]
      split
      · simp [setChanges]
      · exact h
    | markUsed k ids =>
      obtain rfl := Option.some.inj hc
      have hne : s.db.selectWhere (fun id _ => id ∈ ids) ≠ [] := fun he => hnone ⟨rfl, he⟩
      simpa [LifecycleState.run, setChanges] using List.length_pos_of_ne_nil hne
    | archiveEntry k entryId reason =>
      obtain rfl := Option.some.inj hc
      have hrow : ∃ row, s.db.procedures.get? entryId = some row ∧ row.status = "active" := by
        simpa [ChangesNone] using hnone
      obtain ⟨row, hget, hactive⟩ := hrow
      simp [LifecycleState.run, setChanges, Database.archiveEntry, hget, hactive]
    | _ => cases hc
  · rcases run_cases cfg s c answer with
      ⟨db, changes, hrun, -, hkept⟩ | ⟨k, e, -, hrun⟩ | ⟨k, x, -, hrun⟩ | ⟨r, dir, hrun, -, -⟩ <;>
      rw [hrun]
    · exact Nat.lt_of_lt_of_eq h (hkept key hc).symm
    · exact h
    · exact h
    · exact h

/-- A row that is taken out of use is removed from the index next, but by the command line; a forget
first reads how many rows it has changed. -/
theorem removes_of_retires (h : s.Live id) (hkey : c.OnKey key) (hfresh : s.Fresh c)
    (hid : id ∈ c.retires cfg answer) (hlisted : c.leavesListed ≠ some id) :
    .indexRemove key id ∈ (s.run cfg c answer).2 ∨
      (.readChanges key id ∈ (s.run cfg c answer).2 ∧ 0 < (s.run cfg c answer).1.changes key) ∨
        (s.run cfg c answer).1.Live id := by
  cases c with
  | archiveEntry k entryId reason =>
    obtain rfl : k = key := hkey
    obtain rfl := List.mem_singleton.mp hid
    cases hrow : s.db.procedures.get? id with
    | none =>
      -- the id of a fact: no row changes
      refine .inr (.inr ⟨mem_keys_run hfresh h.1, fun row hget => ?_⟩)
      rw [procedures_run (by simp), hrow] at hget
      cases hget
    | some row =>
      refine .inr (.inl ⟨List.mem_singleton_self _, ?_⟩)
      simp [LifecycleState.run, setChanges, Database.archiveEntry, hrow, h.2 row hrow]
  | archiveStale selectedAt rows =>
    obtain ⟨r, hr, rfl⟩ := List.mem_map.mp hid
    refine .inl (List.mem_append_left _ (List.mem_map.mpr ⟨r, hr, ?_⟩))
    rw [hkey r hr]
  | markGraduated path r =>
    obtain rfl := List.mem_singleton.mp hid
    left
    obtain rfl : r.2.sessionKey = key := hkey
    cases path with
    | scan | review => exact List.mem_singleton_self _
    | cli | cliTarget => simp [LifecycleCommand.leavesListed] at hlisted
  | markPromoted r rows rest =>
    cases halive : answer.alive with
    | false => simp [LifecycleCommand.retires, halive] at hid
    | true =>
      obtain rfl : id = r.1 := by simpa [LifecycleCommand.retires, halive] using hid
      obtain rfl : r.2.sessionKey = key := hkey.1
      simp [LifecycleState.run, halive]
  | decide rows decisions =>
    cases decisions with
    | nil => simp [LifecycleCommand.retires] at hid
    | cons d rest =>
      cases haction : cfg.reviewAction rows d with
      | keep => simp [LifecycleCommand.retires, haction] at hid
      | promote r => simp [LifecycleCommand.retires, haction] at hid
      | archive r =>
        cases halive : answer.alive with
        | false => simp [LifecycleCommand.retires, haction, halive] at hid
        | true =>
          obtain rfl : id = r.1 := by simpa [LifecycleCommand.retires, haction, halive] using hid
          obtain rfl : r.2.sessionKey = key := hkey r (mem_of_reviewAction (.inr haction))
          simp [LifecycleState.run, LifecycleState.decide, haction, halive]
  | _ => simp [LifecycleCommand.retires] at hid

theorem live_of_stored {e : MemoryEntry} {k : String} (hfresh : s.Fresh (.storeRow k e))
    (hlayer : e.layer ≠ .l1) : (s.run cfg (.storeRow k e) answer).1.Live e.id := by
  rw [Live, run_storeRow]
  cases h : e.layer with
  | l1 => exact absurd h hlayer
  | l2 =>
    refine ⟨.inl ?_, fun row hrow => ?_⟩
    · simp only [Database.storeFact, Sql.upsert]
      split <;> exact Dict.mem_keys_set.mpr (.inl rfl)
    · exact absurd (Dict.mem_keys_of_get? hrow) hfresh.2.1
  | l3 =>
    have hget : (s.db.storeProcedure k e).procedures.get? e.id = some (e.newRow k) := by
      rw [get?_storeProcedure hfresh.2.1, if_pos rfl]
    refine ⟨.inr (Dict.mem_keys_of_get? hget), fun row hrow => ?_⟩
    obtain rfl := Option.some.inj (hget.symm.trans hrow)
    exact hfresh.2.2

/-! ## The index -/

theorem index_unchanged (hput : ∀ k e, c ≠ .indexPut k e) (hremove : ∀ k x, c ≠ .indexRemove k x) :
    (s.run cfg c answer).1.index = s.index := by
  rcases run_cases cfg s c answer with
    ⟨db, changes, h, -⟩ | ⟨k, e, hc, -⟩ | ⟨k, x, hc, -⟩ | ⟨r, dir, h, -, -⟩
  · rw [h]
  · exact absurd hc (hput k e)
  · exact absurd hc (hremove k x)
  · rw [h]
    rfl

/-- An entry of the index was there before and is not removed, or it is put now. -/
theorem index_run (h : id ∈ ((s.run cfg c answer).1.index key).keys) :
    (id ∈ (s.index key).keys ∧ c ≠ .indexRemove key id) ∨ ∃ e, c = .indexPut key e ∧ e.id = id := by
  cases c with
  | indexPut k e =>
    simp only [LifecycleState.run, setIndex, Function.update_apply] at h
    split at h
    · rename_i hk
      subst hk
      rcases Dict.mem_keys_set.mp h with rfl | hold
      · exact .inr ⟨e, rfl, rfl⟩
      · exact .inl ⟨hold, by simp⟩
    · exact .inl ⟨h, by simp⟩
  | indexRemove k x =>
    left
    simp only [LifecycleState.run, setIndex, Function.update_apply] at h
    split at h
    · rename_i hk
      subst hk
      obtain ⟨hne, hold⟩ := Dict.mem_keys_erase.mp h
      exact ⟨hold, by simpa using fun he => hne he.symm⟩
    · rename_i hk
      exact ⟨h, by simpa using fun he => absurd he.symm hk⟩
  | _ =>
    rw [index_unchanged (by simp) (by simp)] at h
    exact .inl ⟨h, by simp⟩

/-! ## Runs -/

/-- The command resets the counter that the other one is to read. -/
def hides (key : String) (c c' : LifecycleCommand) : Prop :=
  s.ChangesNone key c ∧ 0 < s.changes key ∧ c'.readsChanges key = true

instance (key : String) (c c' : LifecycleCommand) : Decidable (s.hides key c c') :=
  inferInstanceAs (Decidable (_ ∧ _ ∧ _))

/-- No entry is removed from the index while its put is still to come, a row that is retired without
a removal is neither listed nor about to be, and no write without a changed row comes between the
write of a forget and its reading of the counter. -/
def Ordered (key : String) (t : Tasks (LifecycleState V) LifecycleCommand) :
    TaskStep LifecycleOp LifecycleAnswer → Prop
  | .runs slot _ => ∀ c ∈ (t.pending slot).head?, t.state.Fresh c ∧
      (∀ c', t.Pending c' → c.overtakes key c' = false ∧ ¬ t.state.hides key c c') ∧
        ∀ id ∈ c.leavesListed, id ∉ (t.state.index key).keys
  | .starts .. | .stops _ => True

/-- The entry is live, or about to be removed from the index. -/
def Settled (key : String) (t : Tasks (LifecycleState V) LifecycleCommand) (id : String) : Prop :=
  t.state.Live id ∨ t.Pending (.indexRemove key id) ∨
    t.Pending (.readChanges key id) ∧ 0 < t.state.changes key

/-- Between the operations and inside them: the entries that are listed or about to be are settled. -/
structure Listed (key : String) (t : Tasks (LifecycleState V) LifecycleCommand) : Prop where
  holds : t.Holds (KeyedBy · key) fun _ c => c.OnKey key
  listed : ∀ id ∈ (t.state.index key).keys, Settled key t id
  coming : ∀ e, t.Pending (.indexPut key e) → Settled key t e.id

variable {t : Tasks (LifecycleState V) LifecycleCommand} {slot : Nat}

theorem onKey_program {op : LifecycleOp} (h : op.OnKey key) (hc : c ∈ lifecycleProgram op) :
    c.OnKey key := by
  cases op <;> obtain rfl := List.mem_singleton.mp hc <;> exact h

theorem not_put_program {op : LifecycleOp} {e : MemoryEntry} :
    .indexPut key e ∉ lifecycleProgram op := by
  cases op <;> simp [lifecycleProgram]

theorem of_not_overtakes {e : MemoryEntry} (h : c.overtakes key (.indexPut key e) = false) :
    c ≠ .indexRemove key e.id ∧ c.leavesListed ≠ some e.id := by
  constructor
  · rintro rfl
    simp [LifecycleCommand.overtakes, LifecycleCommand.removes] at h
  · intro hlisted
    simp [LifecycleCommand.overtakes, hlisted] at h

theorem Settled.starts (h : Settled key t id) {op : LifecycleOp} :
    Settled key ((lifecycle cfg).step t (.starts slot op)) id := by
  rw [Settled, TaskSystem.state_starts]
  exact h.imp_right (Or.imp TaskSystem.Pending.starts (And.imp_left TaskSystem.Pending.starts))

/-- Only the removal itself, a write that no removal follows, and one that hides the write of a
forget unsettle an entry. -/
theorem Settled.runs (h : Settled key t id) {cs : List LifecycleCommand}
    (hcons : t.pending slot = c :: cs) (hkey : c.OnKey key) (hfresh : t.state.Fresh c)
    (hhides : ∀ c', t.Pending c' → ¬ t.state.hides key c c')
    (hne : c ≠ .indexRemove key id) (hleft : c.leavesListed ≠ some id) :
    Settled key ((lifecycle cfg).step t (.runs slot answer)) id := by
  let s := t.state.pass answer.elapsed
  rw [Settled, TaskSystem.state_runs hcons]
  rcases h with hlive | hpending | ⟨hpending, hchanged⟩
  · by_cases hretired : id ∈ c.retires cfg answer
    · rcases removes_of_retires (s := s) hlive hkey hfresh hretired hleft with
        hremoves | ⟨hreads, hchanged⟩ | hlive'
      · exact .inr (.inl (TaskSystem.pending_of_exec hcons hremoves))
      · exact .inr (.inr ⟨TaskSystem.pending_of_exec hcons hreads, hchanged⟩)
      · exact .inl hlive'
    · exact .inl (Live.run (s := s) hlive hfresh hretired)
  · exact .inr (.inl (TaskSystem.Pending.runs hpending hcons (Ne.symm hne)))
  · by_cases hread : c = .readChanges key id
    · subst hread
      have hremoves : .indexRemove key id ∈ (s.run cfg (.readChanges key id) answer).2 := by
        simp [LifecycleState.run, s, pass, hchanged]
      exact .inr (.inl (TaskSystem.pending_of_exec hcons hremoves))
    · refine .inr (.inr ⟨TaskSystem.Pending.runs hpending hcons (Ne.symm hread), ?_⟩)
      have hnone : ¬ s.ChangesNone key c := fun hnone =>
        hhides _ hpending ⟨hnone, hchanged, decide_eq_true rfl⟩
      exact changes_run (s := s) hchanged hnone

theorem Listed.starts (h : Listed key t) {op : LifecycleOp} (hop : op.OnKey key) :
    Listed key ((lifecycle cfg).step t (.starts slot op)) where
  holds := TaskSystem.holds_starts h.holds fun _ hc => onKey_program hop hc
  listed id hid := by
    rw [TaskSystem.state_starts] at hid
    exact (h.listed id hid).starts
  coming e he := (h.coming e ((TaskSystem.pending_starts he).resolve_left not_put_program)).starts

theorem Listed.runs (h : Listed key t) (hordered : Ordered key t (.runs slot answer)) :
    Listed key ((lifecycle cfg).step t (.runs slot answer)) := by
  rcases TaskSystem.runs_cases (T := lifecycle cfg) t slot answer with hsame | ⟨c, cs, hcons⟩
  · rw [hsame]
    exact h
  obtain ⟨hfresh, hothers, hleft⟩ := hordered c (by rw [hcons]; rfl)
  have hhides := fun c' hc' => (hothers c' hc').2
  have hkey := h.holds.pending c (Tasks.pending_of_cons hcons)
  let s := t.state.pass answer.elapsed
  refine ⟨TaskSystem.holds_runs h.holds fun c _ hhead => ?_, fun id hid => ?_, fun e he => ?_⟩
  · have hfresh := (hordered c hhead).1
    have hkey := h.holds.pending c ⟨slot, List.mem_of_mem_head? hhead⟩
    have hkeyed : s.KeyedBy key := h.holds.state
    exact ⟨hkeyed.run hkey hfresh, fun _ hc' => onKey_of_follows (follows_of_mem hc') hkeyed hkey,
      h.holds.pending⟩
  · rw [TaskSystem.state_runs hcons] at hid
    rcases index_run (s := s) hid with ⟨hold, hne⟩ | ⟨e, rfl, rfl⟩
    · exact (h.listed id hold).runs hcons hkey hfresh hhides hne fun hmem => hleft id hmem hold
    · exact (h.coming e (Tasks.pending_of_cons hcons)).runs hcons hkey hfresh hhides nofun nofun
  · rcases TaskSystem.pending_runs hcons he with hnew | hold
    · left
      rw [TaskSystem.state_runs hcons]
      cases follows_of_mem (s := s) hnew with
      | @stored _ e hlayer =>
        have hlive : (s.run cfg (.storeRow key e) answer).1.Live e.id := live_of_stored hfresh hlayer
        exact hlive
    · obtain ⟨hne, hlisted⟩ := of_not_overtakes (hothers _ hold).1
      exact (h.coming e hold).runs hcons hkey hfresh hhides hne hlisted

theorem Listed.run {steps : List (TaskStep LifecycleOp LifecycleAnswer)} (h : Listed key t)
    (hkey : ∀ a ∈ steps, StepOnKey key a)
    (hordered : Along (lifecycle cfg).step (Ordered key) t steps) :
    Listed key (runFrom (lifecycle cfg).step t steps) := by
  induction steps generalizing t with
  | nil => exact h
  | cons a steps ih =>
    refine ih ?_ (fun b hb => hkey b (List.mem_cons_of_mem _ hb)) hordered.2
    have ha := hkey a List.mem_cons_self
    cases a with
    | starts slot op => exact h.starts ha
    | runs slot answer => exact h.runs hordered.1
    | stops slot => exact absurd ha id

/-- Operations on one session key, from rows of that key and an index that lists live ones: if no
entry is removed from the index before it is put, no graduation from the command line is about an
entry that is listed or about to be, and no forget reads the counter of the connection after a write
that has reset it, then the index lists live ones again when all have finished. -/
theorem index_live_of_ordered (cfg : LifecycleConfig V) (key : String) (s : LifecycleState V)
    (hkeyed : s.KeyedBy key) (hlive : ∀ id ∈ (s.index key).keys, s.Live id)
    (steps : List (TaskStep LifecycleOp LifecycleAnswer)) (hkey : ∀ a ∈ steps, StepOnKey key a)
    (hordered : Along (lifecycle cfg).step (Ordered key) { state := s } steps)
    (hquiet : (runFrom (lifecycle cfg).step { state := s } steps).Quiet) :
    ∀ id ∈ ((runFrom (lifecycle cfg).step { state := s } steps).state.index key).keys,
      (runFrom (lifecycle cfg).step { state := s } steps).state.Live id := by
  have hnone : ∀ c, ¬ ({ state := s } : Tasks (LifecycleState V) LifecycleCommand).Pending c :=
    Tasks.Quiet.not_pending fun _ => rfl
  have hstart : Listed key ({ state := s } : Tasks (LifecycleState V) LifecycleCommand) :=
    ⟨⟨hkeyed, fun c hc => absurd hc (hnone c)⟩, fun id hid => .inl (hlive id hid),
      fun e he => absurd he (hnone _)⟩
  intro id hid
  rcases (hstart.run hkey hordered).listed id hid with hlive | hremoves | ⟨hreads, -⟩
  · exact hlive
  · exact absurd hremoves (hquiet.not_pending _)
  · exact absurd hreads (hquiet.not_pending _)

/-- `Ordered`, with the tasks in the slots below `n`. -/
def OrderedBelow (key : String) (n : Nat) (t : Tasks (LifecycleState V) LifecycleCommand) :
    TaskStep LifecycleOp LifecycleAnswer → Prop
  | .runs slot _ => slot < n ∧ ∀ c ∈ (t.pending slot).head?, t.state.Fresh c ∧
      (∀ i < n, ∀ c' ∈ t.pending i, c.overtakes key c' = false ∧ ¬ t.state.hides key c c') ∧
        ∀ id ∈ c.leavesListed, id ∉ (t.state.index key).keys
  | .starts slot _ | .stops slot => slot < n

instance (n : Nat) (a : TaskStep LifecycleOp LifecycleAnswer) :
    Decidable (OrderedBelow key n t a) :=
  match a with
  | .runs slot _ => inferInstanceAs (Decidable (slot < n ∧ ∀ c ∈ (t.pending slot).head?, _ ∧ _ ∧ _))
  | .starts slot _ | .stops slot => inferInstanceAs (Decidable (slot < n))

theorem along_ordered_of_below {n : Nat} {steps : List (TaskStep LifecycleOp LifecycleAnswer)}
    (hfree : ∀ i, n ≤ i → t.pending i = [])
    (h : Along (lifecycle cfg).step (OrderedBelow key n) t steps) :
    Along (lifecycle cfg).step (Ordered key) t steps := by
  refine Along.of_invariant
    (I := fun t => ∀ i, n ≤ i → Tasks.pending t i = []) (fun t a ht ha => ⟨fun i hi => ?_, ?_⟩) hfree h
  · have hslot : a.slot < n := by
      cases a with
      | runs => exact ha.1
      | _ => exact ha
    rw [TaskSystem.pending_step_ne (by omega)]
    exact ht i hi
  · cases a with
    | runs slot answer =>
      intro c hhead
      obtain ⟨hfresh, hput, hleft⟩ := ha.2 c hhead
      refine ⟨hfresh, fun c' hc' => ?_, hleft⟩
      obtain ⟨i, hi, hmem⟩ := hc'.below ht
      exact hput i hi c' hmem
    | _ => trivial

/-- A memory that an agent stores. -/
def sampleEntry : MemoryEntry :=
  { id := "a", layer := .l3, type := "auto_sop", content := "deploy", createdAt := 0, updatedAt := 0 }

theorem first_of_two_forgotten_index_live :
    let steps : List (TaskStep LifecycleOp LifecycleAnswer) :=
      [.starts 0 (.store "k" sampleEntry), .runs 0 {}, .runs 0 {}, .runs 0 {},
        .starts 0 (.forget "k" "a" "outdated"), .runs 0 {}, .runs 0 {}, .runs 0 {}, .runs 0 {},
        .starts 0 (.store "k" { sampleEntry with id := "b" }), .runs 0 {}, .runs 0 {}, .runs 0 {}]
    let final := runFrom (lifecycle { deps := sampleMemoryDeps }).step { state := {} } steps
    ∀ id ∈ (final.state.index "k").keys, final.state.Live id := by
  refine index_live_of_ordered _ "k" {} (fun _ h => absurd h List.not_mem_nil) (by decide) _ ?_ ?_ ?_
  · simp [StepOnKey, LifecycleOp.OnKey]
  · exact along_ordered_of_below (n := 1) (fun _ _ => rfl) (by decide +kernel)
  · exact TaskSystem.quiet_of_slots (n := 1) (fun _ _ => rfl) (by decide) (by decide +kernel)

/-- An entry that is forgotten between the two writes of its store stays listed. -/
theorem forgotten_before_put_listed :
    let final := runFrom (lifecycle { deps := sampleMemoryDeps }).step { state := {} }
      [.starts 0 (.store "k" sampleEntry), .runs 0 {}, .starts 1 (.forget "k" "a" "outdated"),
        .runs 1 {}, .runs 1 {}, .runs 1 {}, .runs 1 {}, .runs 0 {}, .runs 0 {}]
    final.Quiet ∧ "a" ∈ (final.state.index "k").keys ∧ ¬ final.state.Live "a" := by
  refine ⟨?_, by decide +kernel⟩
  exact TaskSystem.quiet_of_slots (n := 2) (fun _ _ => rfl) (by decide) (by decide +kernel)

end LifecycleState

end PyClaw
