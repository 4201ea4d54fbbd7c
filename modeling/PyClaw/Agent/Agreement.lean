import PyClaw.Agent.Invariant

/-!
# Agent.Agreement

The session tree of a run and its stored copy, over sequences of runs on one session
(`runSequence_consistent`): after each append the two are equal, the tree is well formed, and
without compaction the context is the list of all messages in append order.
-/

namespace PyClaw

open Prog

/-! ## Consistency after an append -/

structure Consistent (py : PyText) (e : SessionEntry) (tree : SessionTree)
    (stored : Option SessionTree) : Prop where
  stored_eq : stored = some tree
  order_nodup : tree.order.Nodup
  order_keys : tree.order = tree.entries.keys
  order_ids : tree.order = tree.entries.values.map SessionEntry.id
  leaf_last : tree.leafId = some e.id ∧ tree.order.getLast? = some e.id ∧
    tree.entries.get? e.id = some e
  branch_ends : ∃ b root, tree.getBranch = some b ∧ (b.map SessionEntry.id).Nodup ∧
    b.head? = some root ∧ root.parentId = none ∧ b.getLast? = some e
  context_complete : (∀ x ∈ tree.entries.values, x.isCompaction = false) →
    tree.buildSessionContext py = some (tree.order.filterMap fun k =>
      (tree.entries.get? k).bind (entryMessage? py))

namespace SessionTree

variable {t : SessionTree} {e : SessionEntry}

theorem Wf.order_ids (h : Wf t) : t.order = t.entries.values.map SessionEntry.id := by
  rw [h.order_eq, Dict.keys, Dict.values, List.map_map]
  exact List.map_congr_left fun p hp => (h.keyed p hp).symm

/-- The first entry of a linear tree is a root. -/
theorem Linear.head_root (h : Linear t) {root : SessionEntry}
    (hroot : t.entries.values.head? = some root) : root.parentId = none := by
  unfold Dict.values at hroot
  cases hitems : t.entries.items with
  | nil => rw [hitems] at hroot; cases hroot
  | cons p rest =>
    rw [hitems] at hroot
    cases hroot
    exact h [] p rest hitems

theorem consistent_push {py : PyText} (hw : t.Wf) (hfresh : e.id ∉ t.order)
    (hw' : (t.push e).Wf) (hl' : (t.push e).Linear) :
    Consistent py e (t.push e) (some (t.push e)) := by
  have hitems := Dict.items_set_of_not_mem e (hw.order_eq ▸ hfresh)
  have hvalues : (t.push e).entries.values = t.entries.values ++ [e] := by
    rw [Dict.values, push, hitems, List.map_append]
    rfl
  have hbranch := hl'.getBranch hw'
  obtain ⟨root, hroot⟩ : ∃ root, (t.push e).entries.values.head? = some root := by
    rw [hvalues]
    cases t.entries.values with
    | nil => exact ⟨e, rfl⟩
    | cons x xs => exact ⟨x, rfl⟩
  refine ⟨rfl, hw'.order_nodup, hw'.order_eq, hw'.order_ids, ⟨rfl, by simp [push], ?_⟩,
    ⟨_, root, hbranch, ?_, hroot, hl'.head_root hroot, by rw [hvalues]; simp⟩, fun hnc => ?_⟩
  · exact Dict.get?_set_self _ _ e
  · rw [← hw'.order_ids]
    exact hw'.order_nodup
  · rw [hl'.context hw' py hnc, hw'.order_eq, ← List.filterMap_filterMap,
      Dict.filterMap_keys_get?]

end SessionTree

/-! ## One run -/

/-- Every append in the log left a consistent session. -/
def Consistently (l : List Item) : Prop :=
  ∀ py e tree stored, .appended e tree stored ∈ l → Consistent py e tree stored

/-- The invariant of a run on session `sid`. -/
structure Agrees (sid : String) (l : List Item) (s : RunState) : Prop where
  synced : s.Synced
  linear : s.tree.Linear
  header : s.tree.header.id = sid
  consistent : Consistently l

section
variable {sid : String} {l : List Item} {s : RunState}

theorem Agrees.emit (h : Agrees sid l s) {i : Item} (hi : i.isAppended = false) :
    Agrees sid (l ++ [i]) s where
  synced := h.synced
  linear := h.linear
  header := h.header
  consistent := by
    intro py e tree stored hmem
    rcases List.mem_append.mp hmem with hmem | hmem
    · exact h.consistent py e tree stored hmem
    · rw [← List.mem_singleton.mp hmem] at hi
      cases hi

theorem Agrees.append (h : Agrees sid l s) {e : SessionEntry} {s' : RunState}
    (happ : Appended s e s') (hrefs : ∀ k ∈ SessionTree.refs e, k ∈ s.tree.order) :
    Agrees sid (l ++ [.appended e s'.tree (some s'.tree)]) s' where
  synced := happ.synced h.synced hrefs
  linear := happ.tree ▸ h.linear.push h.synced.wf happ.fresh happ.parent
  header := by rw [happ.tree]; exact h.header
  consistent := by
    intro py x tree stored hmem
    rcases List.mem_append.mp hmem with hmem | hmem
    · exact h.consistent py x tree stored hmem
    · obtain ⟨rfl, rfl, rfl⟩ := Item.appended.inj (List.mem_singleton.mp hmem)
      rw [happ.tree]
      exact SessionTree.consistent_push h.synced.wf happ.fresh
        (h.synced.wf.push happ.fresh hrefs)
        (h.linear.push h.synced.wf happ.fresh happ.parent)

theorem runInvariant_agrees (sid : String) : RunInvariant (Agrees sid) where
  synced := Agrees.synced
  terminate := fun h => ⟨⟨h.synced.wf, h.synced.stored⟩, h.linear, h.header, h.consistent⟩
  append := fun h happ hrefs => h.append happ hrefs
  emit := fun h hi => h.emit hi

end

/-- The stored session, if there is one, is well formed and linear. -/
def StoredLinear (sid : String) (store : InMemorySessionStore) : Prop :=
  ∀ t, store.load sid = some t → t.Wf ∧ t.Linear

theorem start_agrees {store : InMemorySessionStore} {draws : Nat} {request : RunRequest}
    (h : StoredLinear request.sessionId store) :
    Agrees request.sessionId [] (RunState.start store draws request) where
  synced := RunState.start_synced fun t ht => (h t ht).1
  linear := by
    unfold RunState.start ensureSession
    cases hload : store.load request.sessionId with
    | some t => exact (h t hload).2
    | none => exact SessionTree.linear_empty _
  header := by
    unfold RunState.start ensureSession
    cases hload : store.load request.sessionId with
    | some t => exact InMemorySessionStore.header_of_load hload
    | none => rfl
  consistent := fun _ _ _ _ h => absurd h List.not_mem_nil

theorem runAgentStream_agrees (deps : AgentRunnerDeps) {request : RunRequest}
    (world : Nat → IterEnv) {store : InMemorySessionStore} (draws : Nat)
    (h : StoredLinear request.sessionId store) :
    Agrees request.sessionId (runAgentStream deps request world store draws).log
      (runAgentStream deps request world store draws).state :=
  (runInvariant_agrees _).runAgentStream deps world (start_agrees h)

/-! ## Sequences of runs -/

structure RunInput where
  deps : AgentRunnerDeps
  request : RunRequest
  world : Nat → IterEnv

/-- The log of runs executed one at a time, each on what the one before left in the store. -/
def runSequence : InMemorySessionStore → Nat → List RunInput → List Item
  | _, _, [] => []
  | store, draws, r :: rs =>
    let o := runAgentStream r.deps r.request r.world store draws
    o.log ++ runSequence o.state.store o.state.draws rs

/-- **Tree and store agree.** In every sequence of runs on one session, starting where the
session is absent or stored as earlier runs leave it, each append leaves a consistent session. -/
theorem runSequence_consistent {sid : String} {store : InMemorySessionStore} (draws : Nat)
    {runs : List RunInput} (hstore : StoredLinear sid store)
    (hsid : ∀ r ∈ runs, r.request.sessionId = sid) :
    Consistently (runSequence store draws runs) := by
  induction runs generalizing store draws with
  | nil => exact fun _ _ _ _ h => absurd h List.not_mem_nil
  | cons r rs ih =>
    have hr := hsid r List.mem_cons_self
    have hagrees := runAgentStream_agrees r.deps r.world draws (hr ▸ hstore)
    intro py e tree stored hmem
    rcases List.mem_append.mp hmem with hmem | hmem
    · exact hagrees.consistent py e tree stored hmem
    · refine ih _ ?_ (fun q hq => hsid q (List.mem_cons_of_mem r hq)) py e tree stored hmem
      intro t ht
      rw [← hr, ← hagrees.header, hagrees.synced.stored] at ht
      cases ht
      exact ⟨hagrees.synced.wf, hagrees.linear⟩

theorem runSequence_consistent_two_runs :
    Consistently (runSequence .empty 0
      [⟨sampleDeps, sampleRequest, answering "hi" [] (sampleEnv (.decisions []))⟩,
        ⟨sampleDeps, sampleRequest, answering "" [] (sampleEnv (.decisions []))⟩]) :=
  @runSequence_consistent "s" _ 0 _ (fun _ h => by cases h) (by simp [sampleRequest])

end PyClaw
