import PyClaw.Lib.Tasks
import PyClaw.Memory.L1Index

/-!
# Memory.L1Updates

Several updates of the L1 index of one session key at a time. Each of them is a task that sends one
command to Redis after the other, and decides what to delete on what its `HGETALL` has read.

* `lone_update`: an update that runs alone is `indexUpdate`.
* `within_of_quiet`: when all updates have finished, the limits hold. The last `HGETALL` has read every
  entry, and everything that it does not find room for is deleted.
* `l1Updates_keep`: no update deletes an entry that was refreshed after it has read the index, as long as
  no `HSET` meets a field that is still to be deleted.
-/

namespace PyClaw

namespace L1Index

/-- What an update promises about the limits; a negative one counts as zero. -/
def Within (limits : L1Limits) (index : L1Index) : Prop :=
  (index.items.length : Int) ≤ max 0 limits.maxEntries ∧ contentSize index.items ≤ max 0 limits.maxChars

variable {limits : L1Limits} {index index' : L1Index}

theorem within_evict (limits : L1Limits) (order : ReplyOrder) (index : L1Index) :
    Within limits (evict limits order index) :=
  ⟨(trimmed_evict limits order index).entries, (trimmed_evict limits order index).chars⟩

theorem contentSize_le_of_subperm {l l' : List (String × MemoryEntry)} (h : l.Subperm l') :
    contentSize l ≤ contentSize l' := by
  obtain ⟨m, hperm, hsub⟩ := h
  rw [← contentSize_perm hperm]
  clear hperm
  induction hsub with
  | slnil => exact Int.le_refl _
  | cons p _ ih =>
    rw [contentSize_cons]
    omega
  | cons_cons p _ ih =>
    rw [contentSize_cons, contentSize_cons]
    omega

theorem Within.of_subset (h : Within limits index) (hsub : ∀ p ∈ index'.items, p ∈ index.items) :
    Within limits index' := by
  have hsubperm : index'.items.Subperm index.items := List.subperm_of_subset index'.nodup.of_map hsub
  have hlen := hsubperm.length_le
  have hsize := contentSize_le_of_subperm hsubperm
  obtain ⟨hentries, hchars⟩ := h
  constructor
  · omega
  · omega

end L1Index

/-- The index, and for each field how often it has been written. -/
structure L1State where
  index : L1Index := Dict.empty
  writes : String → Nat := fun _ => 0

inductive L1Command where
  | hset (e : MemoryEntry)
  | hgetall
  /-- The field had been written `seen` times when the index was read. -/
  | hdel (field : String) (seen : Nat)
  | expire
  deriving DecidableEq

def L1Command.deleted : L1Command → Option String
  | .hdel field _ => some field
  | _ => none

def L1Command.isWrite : L1Command → Bool
  | .hset _ => true
  | _ => false

/-- Its update has yet to read the index. -/
def L1Command.unread : L1Command → Bool
  | .hset _ | .hgetall => true
  | _ => false

namespace L1State

variable (limits : L1Limits)

/-- One command, and what the update does next because of the reply. -/
def run (s : L1State) (c : L1Command) (order : ReplyOrder) : L1State × List L1Command :=
  match c with
  | .hset e =>
    ({ index := s.index.set e.id e
       writes := Function.update s.writes e.id (s.writes e.id + 1) }, [.hgetall])
  | .hgetall =>
    (s, ((limits.victims (order.arrange s.index.items)).map fun field => .hdel field (s.writes field)) ++
      [.expire])
  | .hdel field _ => ({ s with index := s.index.erase field }, [])
  | .expire => (s, [])

/-- `index_update`, one task for each call. -/
def updates : TaskSystem L1State MemoryEntry L1Command ReplyOrder where
  program e := [.hset e]
  exec s c order := s.run limits c order

end L1State

abbrev L1Step := TaskStep MemoryEntry ReplyOrder

abbrev L1Tasks := Tasks L1State L1Command

namespace L1Tasks

variable (t : L1Tasks)

/-- An `HDEL` finds no entry that was written after its update has read the index. -/
def SparesRefreshed : L1Step → Prop
  | .runs slot _ => ∀ field seen, (t.pending slot).head? = some (.hdel field seen) →
      field ∈ t.state.index.keys → t.state.writes field = seen
  | _ => True

/-- The fields that the update in this slot is about to delete. -/
def deletions (slot : Nat) : List String := (t.pending slot).filterMap L1Command.deleted

/-- An `HSET` writes no field that some update is about to delete. -/
def WritesUndecided : L1Step → Prop
  | .runs slot _ => ∀ e, (t.pending slot).head? = some (.hset e) → ∀ i, e.id ∉ deletions t i
  | _ => True

/-- Some update has yet to read, or what one of them leaves when it is done is within the limits. -/
def Converging (limits : L1Limits) : Prop :=
  (∃ c, t.Pending c ∧ c.unread = true) ∨
    ∃ slot, L1Index.Within limits (t.state.index.deleteFields (t.deletions slot))

variable {t : L1Tasks} {limits : L1Limits} {slot : Nat} {order : ReplyOrder}

/-! ## The limits -/

theorem deletions_step_ne {a : L1Step} {i : Nat} (h : i ≠ a.slot) :
    deletions ((L1State.updates limits).step t a) i = deletions t i := by
  rw [deletions, deletions, TaskSystem.pending_step_ne h]

theorem converging_starts (h : Converging t limits) (e : MemoryEntry) :
    Converging ((L1State.updates limits).step t (.starts slot e)) limits := by
  rcases h with ⟨c, hread, hc⟩ | ⟨i, hi⟩
  · exact .inl ⟨c, TaskSystem.Pending.starts hread, hc⟩
  · right
    refine ⟨i, ?_⟩
    rw [TaskSystem.state_starts]
    have hsame : deletions ((L1State.updates limits).step t (.starts slot e)) i = deletions t i := by
      by_cases he : i = slot
      · subst he
        cases hfree : t.pending i with
        | nil => simp [deletions, TaskSystem.step, hfree, L1State.updates, L1Command.deleted]
        | cons c cs => simp [deletions, TaskSystem.step, hfree]
      · exact deletions_step_ne he
    rw [hsame]
    exact hi

theorem deletions_runs (limits : L1Limits) (order : ReplyOrder) {c : L1Command} {cs : List L1Command} (h : t.pending slot = c :: cs) :
    deletions ((L1State.updates limits).step t (.runs slot order)) slot =
      ((t.state.run limits c order).2 ++ cs).filterMap L1Command.deleted := by
  rw [deletions, TaskSystem.step_runs_cons h]
  exact congrArg _ (Tasks.put_pending_self (t := t) _ _)

/-- After `HSET` the update has yet to read; after `HGETALL` it is about to delete what there is no room
for; an `HDEL` takes away what is to go, or more. -/
theorem converging_runs (h : Converging t limits) :
    Converging ((L1State.updates limits).step t (.runs slot order)) limits := by
  rcases TaskSystem.runs_cases (T := L1State.updates limits) t slot order with hsame | ⟨c, cs, hcons⟩
  · rw [hsame]
    exact h
  have hstate : ((L1State.updates limits).step t (.runs slot order)).state = (t.state.run limits c order).1 :=
    TaskSystem.state_runs hcons
  have hslot := deletions_runs limits order hcons
  cases c with
  | hset e => exact .inl ⟨.hgetall, TaskSystem.pending_of_exec hcons List.mem_cons_self, rfl⟩
  | hgetall =>
    refine .inr ⟨slot, ?_⟩
    rw [hstate, hslot]
    refine (L1Index.within_evict limits order t.state.index).of_subset fun p hp => ?_
    obtain ⟨hmem, hkept⟩ := L1Index.mem_items_deleteFields.mp hp
    refine L1Index.mem_items_deleteFields.mpr ⟨hmem, fun hvictim => hkept ?_⟩
    simp only [L1State.run, List.filterMap_append, List.mem_append, List.filterMap_map]
    exact .inl (.inl (List.mem_filterMap.mpr ⟨p.1, hvictim, rfl⟩))
  | hdel field seen =>
    rcases h with ⟨c, hread, hc⟩ | ⟨i, hi⟩
    · exact .inl ⟨c, TaskSystem.Pending.runs hread hcons (by rintro rfl; cases hc), hc⟩
    · refine .inr ⟨i, ?_⟩
      rw [hstate]
      by_cases hslot' : i = slot
      · subst hslot'
        rw [hslot]
        rw [deletions, hcons] at hi
        exact hi
      · rw [deletions_step_ne (a := .runs slot order) hslot']
        refine hi.of_subset fun p hp => ?_
        obtain ⟨hmem, hkept⟩ := L1Index.mem_items_deleteFields.mp hp
        exact L1Index.mem_items_deleteFields.mpr ⟨(Dict.mem_items_erase.mp hmem).1, hkept⟩
  | expire =>
    rcases h with ⟨c, hread, hc⟩ | ⟨i, hi⟩
    · exact .inl ⟨c, TaskSystem.Pending.runs hread hcons (by rintro rfl; cases hc), hc⟩
    · refine .inr ⟨i, ?_⟩
      rw [hstate]
      by_cases hslot' : i = slot
      · subst hslot'
        rw [hslot]
        rw [deletions, hcons] at hi
        exact hi
      · rw [deletions_step_ne (a := .runs slot order) hslot']
        exact hi

theorem converging_of_start (h : t.Quiet) (e : MemoryEntry) :
    Converging ((L1State.updates limits).step t (.starts slot e)) limits := by
  refine .inl ⟨.hset e, ⟨slot, ?_⟩, rfl⟩
  rw [TaskSystem.pending_starts_self (h slot)]
  exact List.mem_cons_self

/-- When all updates have finished, the limits hold. -/
theorem within_of_quiet {steps : List L1Step}
    (h : Converging t limits ∨ t.Quiet ∧ ∃ slot e, TaskStep.starts slot e ∈ steps)
    (hfinish : ∀ a ∈ steps, ∀ slot, a ≠ .stops slot)
    (hquiet : (runFrom (L1State.updates limits).step t steps).Quiet) :
    (runFrom (L1State.updates limits).step t steps).state.index.Within limits := by
  induction steps generalizing t with
  | nil =>
    rcases h with (⟨c, hread, -⟩ | ⟨slot, hslot⟩) | ⟨-, slot, e, hstart⟩
    · exact absurd hread (hquiet.not_pending _)
    · have hnone : t.pending slot = [] := hquiet slot
      rw [deletions, hnone] at hslot
      exact hslot
    · cases hstart
  | cons a steps ih =>
    refine ih ?_ (fun b hb => hfinish b (List.mem_cons_of_mem _ hb)) hquiet
    cases a with
    | starts slot e =>
      rcases h with h | ⟨hidle, -⟩
      · exact .inl (converging_starts h e)
      · exact .inl (converging_of_start hidle e)
    | runs slot order =>
      rcases h with h | ⟨hidle, i, e, hstart⟩
      · exact .inl (converging_runs h)
      · rw [TaskSystem.step_runs_nil (hidle slot)]
        exact .inr ⟨hidle, i, e, (List.mem_cons.mp hstart).resolve_left (by simp)⟩
    | stops slot => exact absurd rfl (hfinish _ List.mem_cons_self slot)

/-! ## Refreshed entries -/

/-- What is about to be deleted has not been written since it was read. -/
def Decided (s : L1State) : L1Command → Prop
  | .hdel field seen => s.writes field = seen
  | _ => True

theorem decided_step (h : t.Holds (fun _ => True) Decided) {a : L1Step} (hmet : WritesUndecided t a) :
    ((L1State.updates limits).step t a).Holds (fun _ => True) Decided ∧ SparesRefreshed t a := by
  cases a with
  | starts slot e =>
    refine ⟨TaskSystem.holds_starts h fun c hc => ?_, trivial⟩
    rw [List.mem_singleton.mp hc]
    trivial
  | runs slot order =>
    refine ⟨TaskSystem.holds_runs h fun c hpending hhead => ⟨trivial, ?_⟩, ?_⟩
    · cases c with
      | hset e =>
        refine ⟨by simp [L1State.updates, L1State.run, Decided], fun c hc => ?_⟩
        cases c with
        | hdel field seen =>
          have hne : field ≠ e.id := by
            rintro rfl
            obtain ⟨i, hi⟩ := hc
            exact hmet e hhead i (List.mem_filterMap.mpr ⟨_, hi, rfl⟩)
          have hbefore : t.state.writes field = seen := h.pending _ hc
          rw [← hbefore]
          exact Function.update_of_ne hne ..
        | _ => trivial
      | hgetall =>
        refine ⟨fun c hc => ?_, h.pending⟩
        rcases List.mem_append.mp hc with hdel | hexpire
        · obtain ⟨field, -, rfl⟩ := List.mem_map.mp hdel
          exact rfl
        · rw [List.mem_singleton.mp hexpire]
          trivial
      | hdel field seen => exact ⟨fun c hc => absurd hc List.not_mem_nil, h.pending⟩
      | expire => exact ⟨fun c hc => absurd hc List.not_mem_nil, h.pending⟩
    · intro field seen hhead _
      exact h.pending _ ⟨slot, List.mem_of_mem_head? hhead⟩
  | stops slot => exact ⟨TaskSystem.holds_stops h, trivial⟩

end L1Tasks

/-! ## One update alone -/

theorem delete_run {rest : List L1Command} (fields : List String) (seen : String → Nat)
    (h : t.pending slot = fields.map (fun field => .hdel field (seen field)) ++ rest) :
    (runFrom (L1State.updates limits).step t
        (List.replicate fields.length (.runs slot order))).state.index = t.state.index.deleteFields fields ∧
      (runFrom (L1State.updates limits).step t
        (List.replicate fields.length (.runs slot order))).pending slot = rest := by
  induction fields generalizing t with
  | nil => exact ⟨rfl, h⟩
  | cons field fields ih =>
    rw [List.map_cons, List.cons_append] at h
    have hnext := ih (t := (L1State.updates limits).step t (.runs slot order)) (by
      rw [TaskSystem.step_runs_cons h]
      exact Tasks.put_pending_self (t := t) _ _)
    rw [TaskSystem.state_runs h] at hnext
    exact hnext

/-- An update that runs alone is `index_update`. -/
theorem lone_update (h : t.pending slot = []) (e : MemoryEntry) :
    ∃ n, (runFrom (L1State.updates limits).step t
      (.starts slot e :: List.replicate n (.runs slot order))).state.index =
        L1Index.indexUpdate limits order t.state.index e := by
  let T := L1State.updates limits
  let begun := T.step t (.starts slot e)
  let written := T.step begun (.runs slot order)
  let read := T.step written (.runs slot order)
  have hbegun : begun.pending slot = [.hset e] := TaskSystem.pending_starts_self h
  obtain ⟨hset, hwritten⟩ : written.state = (begun.state.run limits (.hset e) order).1 ∧
      written.pending slot = [.hgetall] := TaskSystem.runs_singleton hbegun
  obtain ⟨hsame, hread⟩ : read.state = written.state ∧
      read.pending slot = (limits.victims (order.arrange written.state.index.items)).map
        (fun field => .hdel field (written.state.writes field)) ++ [.expire] :=
    TaskSystem.runs_singleton hwritten
  have hindex : written.state.index = t.state.index.set e.id e := by
    rw [hset, show begun.state = t.state from TaskSystem.state_starts]
    rfl
  refine ⟨(limits.victims (order.arrange written.state.index.items)).length + 2, ?_⟩
  refine (delete_run _ _ hread).1.trans ?_
  rw [hsame, hindex]
  rfl

/-- At the beginning nothing is in flight. -/
def idleL1 (index : L1Index) : L1Tasks where
  state := { index := index }

open L1Tasks in
theorem l1Updates_keep (limits : L1Limits) (index : L1Index) (steps : List L1Step) :
    ((index.Within limits ∨ ∃ slot e, TaskStep.starts slot e ∈ steps) → (∀ a ∈ steps, ∀ slot, a ≠ .stops slot) →
      (runFrom (L1State.updates limits).step (idleL1 index) steps).Quiet →
        (runFrom (L1State.updates limits).step (idleL1 index) steps).state.index.Within limits) ∧
    (Along (L1State.updates limits).step WritesUndecided (idleL1 index) steps →
      Along (L1State.updates limits).step SparesRefreshed (idleL1 index) steps) := by
  constructor
  · intro hindex
    refine within_of_quiet (hindex.imp (fun h => .inr ⟨0, h⟩) fun h => ⟨fun _ => rfl, h⟩)
  · refine Along.of_invariant (fun t a h hmet => decided_step h hmet) ⟨trivial, ?_⟩
    rintro c ⟨slot, hc⟩
    cases hc

/-! ## Two updates of one entry -/

def noteAt (time : Int) (content : String) : MemoryEntry where
  id := "a"
  layer := .l1
  type := "fact"
  content := content
  createdAt := time
  updatedAt := time

/-- A server that lists the fields in the order of their first write. -/
def asWritten : ReplyOrder := ⟨id, .refl⟩

theorem empty_within (limits : L1Limits) : L1Index.Within limits Dict.empty := by
  constructor
  · simp
  · simp

theorem ne_hset {o : Option L1Command} (h : o.map L1Command.isWrite ≠ some true) (e : MemoryEntry) :
    o ≠ some (.hset e) := by
  rintro rfl
  exact h rfl

theorem twoUpdates_keep :
    let steps : List L1Step := [.starts 0 (noteAt 1 "note"), .starts 1 (noteAt 2 "ok"), .runs 0 asWritten,
      .runs 1 asWritten, .runs 0 asWritten, .runs 1 asWritten, .runs 1 asWritten, .runs 0 asWritten]
    (runFrom (L1State.updates {}).step (idleL1 Dict.empty) steps).state.index.Within {} ∧
      Along (L1State.updates {}).step L1Tasks.SparesRefreshed (idleL1 Dict.empty) steps := by
  intro steps
  have hkeep := l1Updates_keep {} Dict.empty steps
  refine ⟨hkeep.1 (.inr ⟨0, noteAt 1 "note", List.mem_cons_self⟩) ?_ ?_, hkeep.2 ?_⟩
  · simp [steps]
  · exact TaskSystem.quiet_of_slots (n := 2) (fun _ _ => rfl) (by decide) (by decide +kernel)
  · refine ⟨trivial, trivial, ?_, ?_, ?_, ?_, ?_, ?_, trivial⟩
    -- the two `HSET`s come before anything is decided
    iterate 2
      · intro e _ i
        rcases i with _ | _ | i
        all_goals exact List.not_mem_nil
    all_goals
      intro e he
      exact absurd he (ne_hset (by decide +kernel) e)

/-- The second update refreshes the entry after the first one has decided to delete it. -/
theorem refreshed_note_deleted :
    ¬ ∀ (limits : L1Limits) (index : L1Index) (steps : List L1Step), index.Within limits →
      Along (L1State.updates limits).step L1Tasks.SparesRefreshed (idleL1 index) steps := by
  intro h
  have hrun := h { maxChars := 3 } Dict.empty
    [.starts 0 (noteAt 1 "note"), .runs 0 asWritten, .runs 0 asWritten, .starts 1 (noteAt 2 "ok"),
      .runs 1 asWritten, .runs 0 asWritten] (empty_within _)
  obtain ⟨-, -, -, -, -, hlast, -⟩ := hrun
  exact absurd (hlast "a" 1 (by decide +kernel) (by decide +kernel)) (by decide +kernel)

end PyClaw
