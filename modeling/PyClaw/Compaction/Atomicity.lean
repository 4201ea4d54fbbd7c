import PyClaw.Compaction.Loss
import PyClaw.Session.Backends

/-!
# Compaction.Atomicity

`attempt_atomic_iff`: an attempt to compact leaves the tree as it was, or adds one compaction entry to tree
and store, exactly when the store does not raise on that entry. `CompactionCheckpoint` is restored on every
exit but this one. The runner's attempt is the one on the store in memory; Redis is another backend.
-/

namespace PyClaw

open Prog

/-- `RedisSessionStore`, of which `fails` tells where the lock, a command or the release raises, and
what has been written by then. -/
def RedisSessionStore.backend
    (fails : RedisSessionStore → String → SessionEntry → String → Option (Escape × RedisSessionStore)) :
    SessionBackend RedisSessionStore where
  leaf s sid := s.leaf.get? sid
  entry s sid k := (s.hash sid).get? k
  appendEntry s sid e l :=
    match fails s sid e l with
    | some (error, s') => (.error error, s')
    | none => (.ok (), s.appendEntry sid e l)
  leaf_append {s sid e l s'} h := by
    cases hfails : fails s sid e l with
    | some p => simp [hfails] at h
    | none =>
      simp only [hfails, Prod.mk.injEq, true_and] at h
      rw [← h]
      exact Dict.get?_set_self _ _ l
  entry_append {s sid e l s'} h := by
    cases hfails : fails s sid e l with
    | some p => simp [hfails] at h
    | none =>
      simp only [hfails, Prod.mk.injEq, true_and] at h
      rw [← h, hash, appendEntry, Dict.get?_set_self]
      exact Dict.get?_set_self _ _ e

/-! ## Atomicity -/

section
variable {S ω : Type} (B : SessionBackend S) (secrets : Secrets) (note : SessionEntry → SessionTree → S → ω)

/-- The result for which an attempt turns to the store: the engine has made a summary, and no hook
has raised. -/
def resultToStore (world : AttemptWorld) (baseMessages : List Message) : Option CompactResult :=
  match world.compact baseMessages with
  | .reply (.returns r) =>
    if world.beforeHooksRaise = false ∧ world.afterHooksRaise = false ∧ r.ok = true ∧
        r.compacted = true ∧ orElseText r.summary "" ≠ "" then some r
    else none
  | _ => none

/-- The entry that a result is stored as. -/
def resultEntry (s : AttemptState S) (r : CompactResult) : SessionEntry :=
  compactionEntry secrets s (orElseText r.summary "") r.tokensBefore

/-- The attempt gets as far as the store, and `append_entry` raises. -/
def StoreRaises (world : AttemptWorld) (baseMessages : List Message) (s : AttemptState S) : Prop :=
  ∃ r, resultToStore world baseMessages = some r ∧
    ∃ error, (B.appendEntry s.store s.tree.header.id (resultEntry secrets s r)
      (resultEntry secrets s r).id).1 = .error error

/-- The tree has got `e`, a compaction entry on the old leaf, and `e` is the leaf of the tree and of the
stored session. -/
structure AddsCompaction (s s' : AttemptState S) (e : SessionEntry) : Prop where
  compaction : e.isCompaction = true
  fresh : e.id ∉ s.tree.entries.keys
  parent : e.parentId = s.tree.leafId
  tree : s'.tree = s.tree.push e
  storedLeaf : B.leaf s'.store s.tree.header.id = some e.id
  storedEntry : B.entry s'.store s.tree.header.id e.id = some e

structure SameTree (t t' : SessionTree) : Prop where
  entries : t'.entries = t.entries
  order : t'.order = t.order
  leafId : t'.leafId = t.leafId

/-- The attempt returns an outcome that reports a compaction. -/
def reportsCompaction : Except Escape CompactionOutcome → Bool
  | .ok outcome => outcome.compacted
  | .error _ => false

def Atomic (s : AttemptState S) (o : Outcome ω (AttemptState S) Escape CompactionOutcome) : Prop :=
  if reportsCompaction o.result then ∃ e, AddsCompaction B s o.state e
  else SameTree s.tree o.state.tree

end

section
variable {S ω : Type} (B : SessionBackend S) (secrets : Secrets) (note : SessionEntry → SessionTree → S → ω)
  (s : AttemptState S) {world : AttemptWorld} {messages : List Message}

/-- Where the attempt does not turn to the store it changes nothing. -/
theorem attempt_run_none (h : resultToStore world messages = none) :
    ∃ result, attemptCompaction B secrets note world messages s = ⟨result, s, []⟩ ∧
      reportsCompaction result = false := by
  unfold resultToStore at h
  unfold attemptCompaction
  rw [get_bind]
  cases hbefore : world.beforeHooksRaise with
  | true => exact ⟨_, rfl, rfl⟩
  | false =>
    rw [bind_ok (show notifyHooks false s = ⟨.ok (), s, []⟩ from rfl)]
    cases hcompact : world.compact messages with
    | baseException => exact ⟨_, rfl, rfl⟩
    | reply reply =>
      cases reply with
      | raises typeName message => exact ⟨_, rfl, rfl⟩
      | returns r =>
        cases hafter : world.afterHooksRaise with
        | true => exact ⟨_, rfl, rfl⟩
        | false =>
          dsimp only
          rw [bind_ok (show notifyHooks false s = ⟨.ok (), s, []⟩ from rfl)]
          simp only [hcompact, hbefore, hafter, true_and, ite_eq_right_iff, reduceCtorEq, imp_false,
            not_and] at h
          cases hok : r.ok with
          | false => exact ⟨_, rfl, rfl⟩
          | true =>
            have hno : ¬ (r.compacted = true ∧ orElseText r.summary "" ≠ "") :=
              fun hyes => h hok hyes.1 hyes.2
            simp only [Bool.true_eq_false, if_false, if_neg hno]
            exact ⟨_, rfl, rfl⟩

/-- Where it does, the answer of the store is its own. -/
theorem attempt_run_some {r : CompactResult} (h : resultToStore world messages = some r) :
    let e := resultEntry secrets s r
    let reply := B.appendEntry s.store s.tree.header.id e e.id
    (attemptCompaction B secrets note world messages s).result =
        reply.1.map (fun _ => { ok := true, compacted := true }) ∧
      (attemptCompaction B secrets note world messages s).state =
        { tree := s.tree.push e
          store := reply.2
          draws := (generateEntryId secrets s.tree.entries.keys s.draws).2 } := by
  intro e reply
  unfold resultToStore at h
  split at h
  · rename_i r' hcompact
    split at h
    · rename_i hcond
      cases h
      obtain ⟨hbefore, hafter, hok, hsummary⟩ := hcond
      unfold attemptCompaction
      rw [get_bind, hbefore,
        bind_ok (show notifyHooks false s = ⟨.ok (), s, []⟩ from rfl), hcompact, hafter]
      dsimp only
      rw [bind_ok (show notifyHooks false s = ⟨.ok (), s, []⟩ from rfl), if_neg (by simp [hok]),
        if_pos hsummary]
      have hrun := appendCompactionEntry_run B secrets note s (orElseText r.summary "") r.tokensBefore
      change _ = (⟨reply.1, _, _⟩ : Outcome ω (AttemptState S) Escape Unit) at hrun
      show (Prog.andThen _ _ s).result = _ ∧ (Prog.andThen _ _ s).state = _
      unfold Prog.andThen
      rw [hrun]
      cases reply.1 with
      | error error => exact ⟨rfl, rfl⟩
      | ok _ => exact ⟨rfl, rfl⟩
    · cases h
  · cases h

/-- **Atomic but for the store.** -/
theorem attempt_atomic_iff (B : SessionBackend S) (secrets : Secrets)
    (note : SessionEntry → SessionTree → S → ω) (world : AttemptWorld) (messages : List Message)
    (s : AttemptState S) :
    Atomic B s (attemptCompaction B secrets note world messages s) ↔
      ¬ StoreRaises B secrets world messages s := by
  unfold Atomic StoreRaises
  cases hresult : resultToStore world messages with
  | none =>
    obtain ⟨result, hrun, hreports⟩ := attempt_run_none B secrets note s hresult
    have hsame : SameTree s.tree s.tree := ⟨rfl, rfl, rfl⟩
    rw [hrun]
    simp [hreports, hsame]
  | some r =>
    obtain ⟨hreply, hstate⟩ := attempt_run_some B secrets note s hresult
    rw [hreply, hstate]
    cases happend : B.appendEntry s.store s.tree.header.id (resultEntry secrets s r)
      (resultEntry secrets s r).id with
    | mk result store =>
      cases result with
      | error e =>
        have hgrown : ¬ SameTree s.tree (s.tree.push (resultEntry secrets s r)) :=
          fun hsame => by simpa [SessionTree.push] using hsame.order
        simp [reportsCompaction, Except.map, hgrown, happend]
      | ok _ =>
        have hadds : AddsCompaction B s
            { tree := s.tree.push (resultEntry secrets s r)
              store := store
              draws := (generateEntryId secrets s.tree.entries.keys s.draws).2 }
            (resultEntry secrets s r) :=
          { compaction := rfl
            fresh := generateEntryId_fresh secrets s.tree.entries.keys s.draws
            parent := rfl
            tree := rfl
            storedLeaf := B.leaf_append happend
            storedEntry := B.entry_append happend }
        simpa [reportsCompaction, Except.map, happend] using ⟨_, hadds⟩

end

/-! ## A session deleted during the summary -/

/-- A run has the session in its tree, and the store has lost it. -/
def deletedMeanwhile : AttemptState InMemorySessionStore where
  tree := (sessionOf greeting).tree
  store := .empty
  draws := (sessionOf greeting).draws

def summarizes : AttemptWorld where
  compact _ := .reply (.returns { ok := true, compacted := true, summary := some "a greeting",
                                  tokensBefore := 20 })

/-- The attempt raises, and the tree has the compaction entry. -/
theorem deletedMeanwhile_not_atomic :
    ¬ ∀ (s : AttemptState InMemorySessionStore),
      Atomic InMemorySessionStore.backend s
        (attemptCompaction InMemorySessionStore.backend .counting compactionItem summarizes [] s) := by
  intro h
  have hsame := h deletedMeanwhile
  have hrun : reportsCompaction (attemptCompaction InMemorySessionStore.backend .counting compactionItem summarizes []
      deletedMeanwhile).result = false := rfl
  unfold Atomic at hsame
  rw [hrun] at hsame
  have horder : (sessionOf greeting).tree.order.length + 1 = (sessionOf greeting).tree.order.length :=
    congrArg List.length hsame.order
  omega

end PyClaw
