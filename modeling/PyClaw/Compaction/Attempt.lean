import PyClaw.Agent.ToolCalls
import PyClaw.Lib.Prog
import PyClaw.Session.Store

/-!
# Compaction.Attempt

`_try_compaction` (`core/agent/runner.py`) with the failures of all its parts: the hooks, the context
engine and the session store. The store is any backend that stores what it acknowledges.
-/

namespace PyClaw

open Prog

/-! ## Backends -/

/-- What of a store `_try_compaction` can tell: the stored leaf and the stored entries of a session,
and `append_entry`, which may fail after it has changed something. -/
structure SessionBackend (S : Type) where
  leaf : S → String → Option String
  entry : S → String → String → Option SessionEntry
  appendEntry : S → String → SessionEntry → String → Except Escape Unit × S
  leaf_append : ∀ {s sid e l s'}, appendEntry s sid e l = (.ok (), s') → leaf s' sid = some l
  entry_append : ∀ {s sid e l s'}, appendEntry s sid e l = (.ok (), s') → entry s' sid e.id = some e

def InMemorySessionStore.backend : SessionBackend InMemorySessionStore where
  leaf store sid := (store.load sid).bind SessionTree.leafId
  entry store sid k := (store.load sid).bind fun t => t.entries.get? k
  appendEntry store sid e l :=
    match store.appendEntry sid e l with
    | some store' => (.ok (), store')
    | none => (.error .keyError, store)
  leaf_append {store sid e l store'} h := by
    unfold appendEntry at h
    cases hload : store.load sid with
    | none => simp [hload] at h
    | some t =>
      simp only [hload, Option.map_some, Prod.mk.injEq, true_and] at h
      have hsid : sid = (t.append e l).header.id := (header_of_load hload).symm
      rw [← h, hsid, load_put]
      rfl
  entry_append {store sid e l store'} h := by
    unfold appendEntry at h
    cases hload : store.load sid with
    | none => simp [hload] at h
    | some t =>
      simp only [hload, Option.map_some, Prod.mk.injEq, true_and] at h
      have hsid : sid = (t.append e l).header.id := (header_of_load hload).symm
      rw [← h, hsid, load_put]
      exact Dict.get?_set_self _ _ e

/-! ## The attempt -/

/-- One call of `context_engine.compact`. -/
inductive CompactReply where
  | raises (typeName message : String)
  | returns (r : CompactResult)

/-- `context_engine.compact`, and what `except Exception` does not catch of it. -/
inductive CompactCall where
  | reply (r : CompactReply)
  | baseException

/-- The outside world of one attempt. The notifications catch what their hooks raise, other than a
`BaseException`. -/
structure AttemptWorld where
  beforeHooksRaise : Bool := false
  compact : List Message → CompactCall
  afterHooksRaise : Bool := false

/-- `store` is what `append_entry` finds: other tasks may have changed it during the summary. -/
structure AttemptState (S : Type) where
  tree : SessionTree
  store : S
  draws : Nat

structure CompactionOutcome where
  ok : Bool
  compacted : Bool
  errorCode : Option String := none
  errorMessage : Option String := none

def CompactionOutcome.code (o : CompactionOutcome) : String :=
  orElseText o.errorCode "compaction_failed"

def CompactionOutcome.message (o : CompactionOutcome) : String :=
  orElseText o.errorMessage "compaction failed"

section
variable {S ω : Type} (B : SessionBackend S) (secrets : Secrets) (note : SessionEntry → SessionTree → S → ω)

/-- The compaction entry, on the leaf of the tree; it keeps the context from the leaf on. -/
def compactionEntry (s : AttemptState S) (summary : String) (tokensBefore : Int) : SessionEntry where
  id := (generateEntryId secrets s.tree.entries.keys s.draws).1
  parentId := s.tree.leafId
  body := .compaction summary (orElseText s.tree.leafId "") tokensBefore

/-- `checkpoint.restore_into(tree)`. -/
def restoreTree (checkpoint : SessionTree) : Prog ω (AttemptState S) Escape Unit :=
  modify fun s => { s with tree := { s.tree with
    entries := checkpoint.entries, order := checkpoint.order, leafId := checkpoint.leafId } }

/-- The three assignments to the tree, and `append_entry` after them; `note` is what is logged of it. -/
def appendCompactionEntry (summary : String) (tokensBefore : Int) : Prog ω (AttemptState S) Escape Unit := do
  let s ← get
  let e := compactionEntry secrets s summary tokensBefore
  modify fun s => { s with
    tree := s.tree.push e
    draws := (generateEntryId secrets s.tree.entries.keys s.draws).2 }
  let (result, store) := B.appendEntry s.store s.tree.header.id e e.id
  modify fun s => { s with store := store }
  ofExcept result
  emit (note e (s.tree.push e) store)

def notifyHooks (raise : Bool) : Prog ω (AttemptState S) Escape Unit :=
  if raise then Prog.raise .baseException else pure ()

/-- `_try_compaction`. -/
def attemptCompaction (world : AttemptWorld) (baseMessages : List Message) :
    Prog ω (AttemptState S) Escape CompactionOutcome := do
  let checkpoint ← get
  notifyHooks world.beforeHooksRaise
  match world.compact baseMessages with
  | .baseException => Prog.raise .baseException
  | .reply (.raises typeName message) => do
    restoreTree checkpoint.tree
    pure { ok := false, compacted := false, errorCode := some "compaction_failed",
           errorMessage := some ("compaction raised " ++ typeName ++ ": " ++ message) }
  | .reply (.returns r) => do
    notifyHooks world.afterHooksRaise
    if r.ok = false then do
      restoreTree checkpoint.tree
      pure { ok := false, compacted := false,
             errorCode := some (orElseText r.reasonCode "compaction_failed"),
             errorMessage := some (orElseText r.reason "compaction failed") }
    else if r.compacted = true ∧ orElseText r.summary "" ≠ "" then do
      appendCompactionEntry B secrets note (orElseText r.summary "") r.tokensBefore
      pure { ok := true, compacted := true }
    else pure { ok := true, compacted := false }

/-- The tree has the new entry before the store is asked. -/
theorem appendCompactionEntry_run (s : AttemptState S) (summary : String) (tokensBefore : Int) :
    let e := compactionEntry secrets s summary tokensBefore
    let reply := B.appendEntry s.store s.tree.header.id e e.id
    appendCompactionEntry B secrets note summary tokensBefore s =
      ⟨reply.1,
        { tree := s.tree.push e
          store := reply.2
          draws := (generateEntryId secrets s.tree.entries.keys s.draws).2 },
        match reply.1 with
        | .ok _ => [note e (s.tree.push e) reply.2]
        | .error _ => []⟩ := by
  intro e reply
  unfold appendCompactionEntry
  rw [get_bind]
  show (modify _ >>= fun _ => modify _ >>= fun _ => ofExcept reply.1 >>= fun _ => emit _) s = _
  rw [bind_ok (show modify _ s = ⟨.ok (), _, []⟩ from rfl), bind_ok (show modify _ _ = ⟨.ok (), _, []⟩ from rfl)]
  cases reply.1 with
  | ok _ => rfl
  | error _ => rfl

end

end PyClaw
