import PyClaw.Agent.Agreement
import PyClaw.Memory.Tools

/-!
# Agent.Evidence

The evidence guard of `memorize` and `forget` over sequences of runs on one session. The guard takes
every tool message for a successful tool use; a session stores one for each denied, unknown, failed
or timed out call as well.

* `dispatchSingle_not_error`: a result that is no error is what a registered tool returned.
* `guardSound_iff`: the guard is right in every session tree that the runs store exactly when the
  first tool result that a tree holds is of a call that succeeded.
-/

namespace PyClaw

open Prog

/-! ## Successful calls -/

/-- Only a tool that was started and returned gives a result without an error. -/
theorem dispatchSingle_not_error {py : PyText} {json : JsonModule} {registry : ToolRegistry}
    {call : ToolCall} {outcome : ToolOutcome} {r : ToolResult}
    (h : dispatchSingle py json registry call outcome = .ok r) (hr : r.isError = false) :
    (registry.get call.name).isSome = true ∧ outcome = .returns r := by
  unfold dispatchSingle at h
  split at h
  · cases h
  · split at h
    · cases h
      cases hr
    · split at h
      · cases h
        cases hr
      · rename_i tool hget
        split at h
        · cases h
          exact ⟨by rw [hget]; rfl, rfl⟩
        · cases h
          cases hr
        · cases h
          cases hr
        · cases h
          cases hr
        · cases h
          cases hr
        · cases h

/-- The entry is the tool message of a call that ended without an error. -/
def Succeeded (l : List Item) (e : SessionEntry) : Prop :=
  e.isToolMessage = true ∧ ∃ tree stored id r,
    [.appended e tree stored, .yielded (.toolCallEnd id r)] <:+: l ∧ r.isError = false

/-- The entry is the only tool message of the tree. -/
structure FirstToolMessage (e : SessionEntry) (tree : SessionTree) : Prop where
  mem : e ∈ tree.entries.values
  isTool : e.isToolMessage = true
  only : ∀ x ∈ tree.entries.values, x.isToolMessage = true → x = e

/-- Wherever `memorize` or `forget` gets past its guard, a call of the session has succeeded. -/
def GuardSound (sessionId : String) (l : List Item) : Prop :=
  ∀ e tree stored, .appended e tree stored ∈ l → ReachesMemory sessionId tree →
    ∃ x ∈ tree.entries.values, Succeeded l x

/-- The first tool message of a session tree is of a call that has succeeded. -/
def FirstSucceeds (l : List Item) : Prop :=
  ∀ e tree stored, .appended e tree stored ∈ l → FirstToolMessage e tree → Succeeded l e

/-! ## One run -/

/-- Where the tree has a tool message, the log shows when it got its first one. -/
def Covered (l : List Item) (t : SessionTree) : Prop :=
  (∃ x ∈ t.entries.values, x.isToolMessage = true) →
    ∃ e tree stored, .appended e tree stored ∈ l ∧ FirstToolMessage e tree ∧ e ∈ t.entries.values

theorem Covered.append {l : List Item} {t : SessionTree} (h : Covered l t) (l' : List Item) :
    Covered (l ++ l') t := by
  intro hx
  obtain ⟨e, tree, stored, hmem, hfirst⟩ := h hx
  exact ⟨e, tree, stored, List.mem_append_left l' hmem, hfirst⟩

/-- The invariant of a run on session `sid` after the log `l`. -/
structure Evidenced (sid : String) (l : List Item) (s : RunState) : Prop where
  synced : s.Synced
  header : s.tree.header.id = sid
  covered : Covered l s.tree
  logged : ∀ e tree stored, .appended e tree stored ∈ l → Covered l tree

section
variable {sid : String} {l : List Item} {s s' : RunState} {e : SessionEntry}

theorem Evidenced.emit (h : Evidenced sid l s) {i : Item} (hi : i.isAppended = false) :
    Evidenced sid (l ++ [i]) s where
  synced := h.synced
  header := h.header
  covered := h.covered.append [i]
  logged := by
    intro e tree stored hmem
    rcases List.mem_append.mp hmem with hmem | hmem
    · exact (h.logged e tree stored hmem).append [i]
    · rw [← List.mem_singleton.mp hmem] at hi
      cases hi

theorem values_push (hs : s.Synced) (happ : Appended s e s') :
    s'.tree.entries.values = s.tree.entries.values ++ [e] := by
  have hfresh : e.id ∉ s.tree.entries.keys := hs.wf.order_eq ▸ happ.fresh
  rw [happ.tree, Dict.values, SessionTree.push, Dict.items_set_of_not_mem e hfresh, List.map_append]
  rfl

theorem Evidenced.append (h : Evidenced sid l s) (happ : Appended s e s')
    (hrefs : ∀ k ∈ SessionTree.refs e, k ∈ s.tree.order) :
    Evidenced sid (l ++ [.appended e s'.tree (some s'.tree)]) s' := by
  have hvalues := values_push h.synced happ
  have hcovered : Covered (l ++ [.appended e s'.tree (some s'.tree)]) s'.tree := by
    intro htool
    by_cases hold : ∃ x ∈ s.tree.entries.values, x.isToolMessage = true
    · obtain ⟨x, tree, stored, hmem, hfirst, hx⟩ := h.covered hold
      exact ⟨x, tree, stored, List.mem_append_left _ hmem, hfirst, by simp [hvalues, hx]⟩
    · -- the new entry is the first tool message
      have honly : ∀ y ∈ s'.tree.entries.values, y.isToolMessage = true → y = e := by
        intro y hy hytool
        rw [hvalues, List.mem_append, List.mem_singleton] at hy
        exact hy.resolve_left fun hy => hold ⟨y, hy, hytool⟩
      obtain ⟨x, hx, hxtool⟩ := htool
      have hxe := honly x hx hxtool
      subst hxe
      exact ⟨x, s'.tree, some s'.tree, by simp, ⟨hx, hxtool, honly⟩, hx⟩
  refine ⟨happ.synced h.synced hrefs, by rw [happ.tree]; exact h.header, hcovered, ?_⟩
  intro x tree stored hmem
  rcases List.mem_append.mp hmem with hmem | hmem
  · exact (h.logged x tree stored hmem).append _
  · obtain ⟨rfl, rfl, rfl⟩ := Item.appended.inj (List.mem_singleton.mp hmem)
    exact hcovered

theorem runInvariant_evidenced (sid : String) (past : List Item) :
    RunInvariant fun l s => Evidenced sid (past ++ l) s where
  synced := Evidenced.synced
  terminate := fun h => ⟨⟨h.synced.wf, h.synced.stored⟩, h.header, h.covered, h.logged⟩
  append := fun h happ hrefs => by
    rw [← List.append_assoc]
    exact h.append happ hrefs
  emit := fun h hi => by
    rw [← List.append_assoc]
    exact h.emit hi

end

theorem runAgentStream_evidenced (deps : AgentRunnerDeps) {request : RunRequest}
    (world : Nat → IterEnv) {store : InMemorySessionStore} (draws : Nat) {past : List Item}
    (h : Evidenced request.sessionId past (RunState.start store draws request)) :
    Evidenced request.sessionId (past ++ (runAgentStream deps request world store draws).log)
      (runAgentStream deps request world store draws).state := by
  have hstart : Evidenced request.sessionId (past ++ []) (RunState.start store draws request) := by
    rwa [List.append_nil]
  exact (runInvariant_evidenced _ past).runAgentStream deps world hstart

/-! ## Sequences of runs -/

/-- The session as the store has it after the log `l`. -/
def StoredEvidenced (sid : String) (l : List Item) (store : InMemorySessionStore) : Prop :=
  (∀ t, store.load sid = some t → t.Wf ∧ Covered l t) ∧
    ∀ e tree stored, .appended e tree stored ∈ l → Covered l tree

theorem StoredEvidenced.start {l : List Item} {store : InMemorySessionStore} {request : RunRequest}
    (h : StoredEvidenced request.sessionId l store) (draws : Nat) :
    Evidenced request.sessionId l (RunState.start store draws request) where
  synced := RunState.start_synced fun t ht => (h.1 t ht).1
  header := by
    unfold RunState.start ensureSession
    cases hload : store.load request.sessionId with
    | some t => exact InMemorySessionStore.header_of_load hload
    | none => rfl
  covered := by
    unfold RunState.start ensureSession
    cases hload : store.load request.sessionId with
    | some t => exact (h.1 t hload).2
    | none => rintro ⟨x, hx, -⟩; cases hx
  logged := h.2

theorem runSequence_covered {sid : String} {runs : List RunInput}
    (hsid : ∀ r ∈ runs, r.request.sessionId = sid) {store : InMemorySessionStore} {draws : Nat}
    {past : List Item} (h : StoredEvidenced sid past store) :
    ∀ e tree stored, .appended e tree stored ∈ past ++ runSequence store draws runs →
      Covered (past ++ runSequence store draws runs) tree := by
  induction runs generalizing store draws past with
  | nil =>
    rw [runSequence, List.append_nil]
    exact h.2
  | cons r rest ih =>
    have hr := hsid r List.mem_cons_self
    subst hr
    have hrun := runAgentStream_evidenced r.deps r.world draws (h.start draws)
    rw [runSequence, ← List.append_assoc]
    refine ih (fun q hq => hsid q (List.mem_cons_of_mem r hq)) ⟨?_, hrun.logged⟩
    intro t ht
    rw [← hrun.header, hrun.synced.stored] at ht
    cases ht
    exact ⟨hrun.synced.wf, hrun.covered⟩

/-- **When the evidence guard is right.** -/
theorem guardSound_iff {sid : String} {runs : List RunInput}
    (hsid : ∀ r ∈ runs, r.request.sessionId = sid) :
    GuardSound sid (runSequence .empty 0 runs) ↔ FirstSucceeds (runSequence .empty 0 runs) := by
  have hcovered : ∀ e tree stored, .appended e tree stored ∈ runSequence .empty 0 runs →
      Covered (runSequence .empty 0 runs) tree := by
    have hempty : StoredEvidenced sid [] .empty :=
      ⟨fun _ ht => (by cases ht), fun _ _ _ hmem => absurd hmem List.not_mem_nil⟩
    exact runSequence_covered hsid hempty
  constructor
  · intro h e tree stored hmem hfirst
    have hguard : ReachesMemory sid tree := by
      rw [reachesMemory_iff, hasNonErrorToolUse, List.any_eq_true]
      exact ⟨e, hfirst.mem, hfirst.isTool⟩
    obtain ⟨x, hx, hsucceeded⟩ := h e tree stored hmem hguard
    rwa [hfirst.only x hx hsucceeded.1] at hsucceeded
  · intro h e tree stored hmem hguard
    rw [reachesMemory_iff, hasNonErrorToolUse, List.any_eq_true] at hguard
    obtain ⟨f, tree', stored', hmem', hfirst, hf⟩ := hcovered e tree stored hmem hguard
    exact ⟨f, hf, h f tree' stored' hmem' hfirst⟩

/-! ## A denied call as evidence -/

/-- A call that the hook decides, and then an answer. -/
def callThenAnswer (decision : ApprovalDecision) : Nat → IterEnv
  | 0 => answering "" [{ index := 0, id := some "x", name := some "bash" }]
      (sampleEnv (.decisions [decision])) 0
  | i + 1 => answering "hi" [] (sampleEnv (.decisions [])) i

def oneCall (decision : ApprovalDecision) : List RunInput :=
  [⟨sampleDeps, sampleRequest, callThenAnswer decision⟩]

def Item.isToolAppend : Item → Bool
  | .appended e _ _ => e.isToolMessage
  | _ => false

/-- No result without an error is reported. -/
def Item.isFailure : Item → Bool
  | .yielded (.toolCallEnd _ r) => r.isError
  | _ => true

/-- A log with one tool message, of a call that has succeeded. -/
theorem firstSucceeds_of_one {before after : List Item} {e : SessionEntry} {tree : SessionTree}
    {stored : Option SessionTree} {id : String} {r : ToolResult} (hr : r.isError = false)
    (hrest : (before ++ after).all (fun i => !i.isToolAppend) = true) :
    FirstSucceeds
      (before ++ [.appended e tree stored, .yielded (.toolCallEnd id r)] ++ after) := by
  intro x tree' stored' hmem hfirst
  rw [List.all_eq_true] at hrest
  have hother : .appended x tree' stored' ∉ before ++ after := by
    intro hmem
    have htool := hrest _ hmem
    rw [Item.isToolAppend, hfirst.isTool] at htool
    cases htool
  simp only [List.mem_append, List.mem_cons, List.not_mem_nil, or_false, reduceCtorEq] at hmem hother
  have hsame : Item.appended x tree' stored' = .appended e tree stored := by
    rcases hmem with (hmem | hmem) | hmem
    · exact absurd (.inl hmem) hother
    · exact hmem
    · exact absurd (.inr hmem) hother
  obtain ⟨rfl, -, -⟩ := Item.appended.inj hsame
  exact ⟨hfirst.isTool, tree, stored, id, r, ⟨before, after, rfl⟩, hr⟩

theorem approvedCall_guardSound : GuardSound "s" (runSequence .empty 0 (oneCall .approve)) := by
  refine (@guardSound_iff "s" (oneCall .approve) (by simp [oneCall, sampleRequest])).mpr ?_
  obtain ⟨e, tree, stored, id, r, hlog, hr⟩ : ∃ e tree stored id r,
      ((runSequence .empty 0 (oneCall .approve)).drop 7).take 2 =
        [.appended e tree stored, .yielded (.toolCallEnd id r)] ∧ r.isError = false :=
    ⟨_, _, _, _, _, rfl, rfl⟩
  have hsplit : runSequence .empty 0 (oneCall .approve) =
      (runSequence .empty 0 (oneCall .approve)).take 7 ++
        ((runSequence .empty 0 (oneCall .approve)).drop 7).take 2 ++
        ((runSequence .empty 0 (oneCall .approve)).drop 7).drop 2 := by
    rw [List.append_assoc, List.take_append_drop, List.take_append_drop]
  rw [hsplit, hlog]
  exact firstSucceeds_of_one hr (by decide)

/-- After a denied call `memorize` finds its evidence. -/
theorem deniedCall_not_guardSound :
    ¬ ∀ sid runs, (∀ r ∈ runs, r.request.sessionId = sid) →
      GuardSound sid (runSequence .empty 0 runs) := by
  intro h
  have hsound := h "s" (oneCall .deny) (by simp [oneCall, sampleRequest])
  obtain ⟨e, tree, stored, hmem, hguard⟩ : ∃ e tree stored,
      Item.appended e tree stored ∈ runSequence .empty 0 (oneCall .deny) ∧
        hasNonErrorToolUse tree = true :=
    ⟨_, _, _, List.mem_of_getElem? (show (runSequence .empty 0 (oneCall .deny))[6]? = _ from rfl), rfl⟩
  obtain ⟨x, -, -, tree', stored', id, r, hpart, hr⟩ :=
    hsound e tree stored hmem (reachesMemory_iff.mpr hguard)
  have hfail : (runSequence .empty 0 (oneCall .deny)).all Item.isFailure = true := by decide
  have hr' := List.all_eq_true.mp hfail (.yielded (.toolCallEnd id r)) (hpart.subset (by simp))
  rw [Item.isFailure, hr] at hr'
  cases hr'

end PyClaw
