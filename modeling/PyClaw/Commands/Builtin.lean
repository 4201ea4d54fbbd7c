import PyClaw.Agent.ToolCalls
import PyClaw.Session.Store

/-!
# Commands.Builtin

What `cmd_model` and `cmd_compact` of `core/commands/builtin.py` write to a session: one entry on
the leaf of the tree they loaded, and the header. Their replies are left out.
-/

namespace PyClaw

/-- The first provider that lists the model. -/
def providerOf (available : Dict String (List String)) (target : String) : String :=
  ((available.items.find? fun p => p.2.contains target).map Prod.fst).getD "unknown"

/-- An entry on the leaf of a loaded tree. -/
def entryOn (sec : Secrets) (tree : SessionTree) (draws : Nat) (body : EntryBody) :
    SessionEntry where
  id := (generateEntryId sec tree.entries.keys draws).1
  parentId := tree.leafId
  body := body

/-- `cmd_model` after it loaded `tree`: `save_header` and `append_entry`. -/
def cmdModel (sec : Secrets) (available : Dict String (List String)) (target : String)
    (tree : SessionTree) (store : InMemorySessionStore) (draws : Nat) :
    Option InMemorySessionStore :=
  let store := store.saveHeader
    { tree with header := { tree.header with modelOverride := some target } }
  let e := entryOn sec tree draws (.modelChange (providerOf available target) target)
  store.appendEntry tree.header.id e e.id

/-- The entry of `cmd_compact`: none for an empty context, or if the engine's result asks for
none. -/
def compactionBody (py : PyText) (tree : SessionTree) (r : CompactResult) : Option EntryBody :=
  match tree.buildSessionContext py with
  | some (_ :: _) =>
    if r.ok = true ∧ r.compacted = true ∧ orElseText r.summary "" ≠ "" then
      some (.compaction (orElseText r.summary "") (orElseText tree.leafId "") r.tokensBefore)
    else none
  | _ => none

/-- `cmd_compact` after it loaded `tree` and the engine returned `r`. -/
def cmdCompact (py : PyText) (sec : Secrets) (r : CompactResult) (tree : SessionTree)
    (store : InMemorySessionStore) (draws : Nat) : Option InMemorySessionStore :=
  match compactionBody py tree r with
  | some body =>
    let e := entryOn sec tree draws body
    store.appendEntry tree.header.id e e.id
  | none => some store

section
variable {py : PyText} {sec : Secrets} {tree t : SessionTree} {store : InMemorySessionStore}
  {draws : Nat}

theorem appendEntry_run (h : store.load tree.header.id = some t) (e : SessionEntry) :
    store.appendEntry tree.header.id e e.id = some (store.put (t.push e)) := by
  rw [InMemorySessionStore.appendEntry, h]
  rfl

/-- `cmd_model` pushes its entry on the stored tree, under a new header. -/
theorem cmdModel_run (h : store.load tree.header.id = some t)
    (available : Dict String (List String)) (target : String) :
    ∃ header store', cmdModel sec available target tree store draws = some store' ∧
      store'.load tree.header.id = some (SessionTree.push { t with header }
        (entryOn sec tree draws (.modelChange (providerOf available target) target))) := by
  let header := { tree.header with modelOverride := some target }
  let t' : SessionTree := { t with header }
  have hsaved : store.saveHeader { tree with header } = store.put t' := by
    rw [InMemorySessionStore.saveHeader]
    dsimp only [header]
    rw [h]
  have hload : (store.saveHeader { tree with header }).load tree.header.id = some t' := by
    rw [hsaved]
    exact InMemorySessionStore.load_put store t'
  refine ⟨header, _, appendEntry_run hload _, ?_⟩
  exact InMemorySessionStore.load_put _ (t'.push _)

theorem cmdCompact_run (h : store.load tree.header.id = some t) {r : CompactResult}
    {body : EntryBody} (hbody : compactionBody py tree r = some body) :
    ∃ store', cmdCompact py sec r tree store draws = some store' ∧
      store'.load tree.header.id = some (t.push (entryOn sec tree draws body)) := by
  have hheader : t.header.id = tree.header.id := InMemorySessionStore.header_of_load h
  refine ⟨store.put (t.push (entryOn sec tree draws body)), ?_, ?_⟩
  · unfold cmdCompact
    rw [hbody]
    exact appendEntry_run h _
  · rw [← hheader]
    exact InMemorySessionStore.load_put _ (t.push _)

theorem compactionBody_some {r : CompactResult} {body : EntryBody}
    (h : compactionBody py tree r = some body) :
    ∃ leaf, tree.leafId = some leaf ∧
      body = .compaction (orElseText r.summary "") (orElseText (some leaf) "") r.tokensBefore := by
  unfold compactionBody at h
  split at h
  · rename_i m rest hctx
    split at h
    · cases hleaf : tree.leafId with
      | none =>
        have hbranch : tree.getBranch = some [] := by
          rw [SessionTree.getBranch_eq_some, hleaf]
          exact .root
        rw [SessionTree.buildSessionContext, hbranch] at hctx
        cases hctx
      | some leaf =>
        rw [hleaf] at h
        exact ⟨leaf, rfl, (Option.some.inj h).symm⟩
    · cases h
  · cases h

theorem cmdCompact_none {r : CompactResult} (hbody : compactionBody py tree r = none) :
    cmdCompact py sec r tree store draws = some store := by
  unfold cmdCompact
  rw [hbody]

end

end PyClaw
